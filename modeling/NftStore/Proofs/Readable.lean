import NftStore.Proofs.Layout

/-!
Which files can be read. The reader stops where a section or an option comes a second time and where
an option has no section, and it refuses lines that are no entry once all are read. So a file is read
if and only if its layout has nothing twice and no option before the first header, and its lines are
entries or go on with one (`Draft.exists_finish_iff`). What is left of the file is judged together
with what was read before it (`Draft.Accepts`).
-/
namespace NftStore.Ini.Draft

variable {d d' : Draft} {place : Place} {number : Nat} {name : String} {entries : List Item}

/-! ## What a draft can still take -/

/-- The entries can be read into the draft: they repeat nothing that is in it or among them, and an
option does not come first if no section is open. -/
structure Accepts (d : Draft) (entries : List Item) : Prop where
  headed : d.place = none → ∀ name value, entries.head? ≠ some (.option name value)
  sections : (d.sections.names ++ sectionNames entries).Nodup
  options : ∀ sectionName,
    ((d.optionsOf sectionName ++ settings sectionName d.opened entries).map Prod.fst).Nodup

/-- The indent plays no part. -/
theorem accepts_withIndent (indent : Nat) :
    ({ d with indent := indent } : Draft).Accepts entries ↔ d.Accepts entries :=
  ⟨fun h => ⟨h.headed, h.sections, h.options⟩, fun h => ⟨h.headed, h.sections, h.options⟩⟩

theorem nodup_optionsOf (d : Draft) (sectionName : String) :
    ((d.optionsOf sectionName).map Prod.fst).Nodup := by
  rw [optionsOf]
  cases d.section? sectionName with
  | none => exact List.nodup_nil
  | some options => exact options.nodup

theorem accepts_nil (d : Draft) : d.Accepts [] where
  headed _ name value := by simp
  sections := by
    rw [sectionNames, List.append_nil]
    exact d.sections.nodup
  options sectionName := by
    rw [settings, List.append_nil]
    exact d.nodup_optionsOf sectionName

/-! ## Headers -/

theorem exists_openSection (number : Nat) (h : name ∉ d.sections.names) :
    ∃ d₁, d.openSection number name = .ok d₁ := by
  rw [openSection, if_neg (mt Catalog.contains_iff.1 h)]
  split
  · exact ⟨_, rfl⟩
  · exact ⟨_, rfl⟩

/-- The sections after a header are those before it and the one that it makes. -/
theorem names_openSection {d₁ : Draft} (h : d.openSection number name = .ok d₁) :
    d₁.sections.names ++ sectionNames entries
      = d.sections.names ++ sectionNames (.header name :: entries) := by
  unfold openSection at h
  split at h
  · cases h
  · rename_i hnew
    rw [Catalog.contains_iff] at hnew
    split at h
    · rename_i hdefault
      cases h
      rw [sectionNames, if_pos hdefault]
    · rename_i hne
      cases h
      rw [sectionNames, if_neg hne, Catalog.names_add_of_not_mem hnew, List.append_assoc]
      rfl

theorem Sound.optionsOf_openSection (h : d.Sound) {d₁ : Draft}
    (hopen : d.openSection number name = .ok d₁) (sectionName : String) :
    d₁.optionsOf sectionName = d.optionsOf sectionName := by
  obtain ⟨-, -, -, hsection⟩ := h.openSection hopen
  rw [optionsOf, optionsOf, hsection]
  by_cases hn : sectionName = name
  · subst hn
    rw [if_pos rfl]
    cases d.section? sectionName <;> rfl
  · rw [if_neg hn]

/-- A header can be read if it opens a section and what comes after it can be read then. -/
theorem Sound.accepts_header (h : d.Sound) (number : Nat) :
    d.Accepts (.header name :: entries) ↔
      ∃ d₁, d.openSection number name = .ok d₁ ∧ d₁.Accepts entries := by
  constructor
  · intro ha
    have hnew : name ∉ d.sections.names := by
      intro hmem
      have hne : name ≠ defaultSection := fun he => h.defaults (he ▸ hmem)
      have hnodup := ha.sections
      rw [sectionNames, if_neg hne] at hnodup
      exact (List.nodup_append.1 hnodup).2.2 name hmem name List.mem_cons_self rfl
    obtain ⟨d₁, hopen⟩ := exists_openSection number hnew
    obtain ⟨-, -, hopened, -⟩ := h.openSection hopen
    refine ⟨d₁, hopen, ?_, ?_, ?_⟩
    · intro hnone
      rw [opened, hnone] at hopened
      cases hopened
    · rw [names_openSection hopen]
      exact ha.sections
    · intro sectionName
      rw [h.optionsOf_openSection hopen, hopened]
      exact ha.options sectionName
  · rintro ⟨d₁, hopen, ha⟩
    obtain ⟨-, -, hopened, -⟩ := h.openSection hopen
    refine ⟨fun _ _ _ => by simp, ?_, ?_⟩
    · rw [← names_openSection hopen]
      exact ha.sections
    · intro sectionName
      have hoptions := ha.options sectionName
      rwa [h.optionsOf_openSection hopen, hopened] at hoptions

/-! ## Options -/

variable {value : List (List Char)}

theorem names_withOption :
    (d.withOption place name value).sections.names = d.sections.names := by
  cases place with
  | defaults => rfl
  | named other => exact d.sections.names_modify other _

@[simp] theorem opened_withOption :
    (d.withOption place name value).opened = d.opened := by
  rw [opened, opened, place_withOption]

@[simp] theorem flaws_withOption :
    (d.withOption place name value).flaws = d.flaws := by
  simp [withOption]

theorem opened_of_place (hp : d.place = some place) : d.opened = some place.name := by
  rw [opened, hp]
  rfl

theorem Sound.optionsOf_place (h : d.Sound) (hp : d.place = some place) :
    d.optionsOf place.name = (d.options place).entries := by
  rw [optionsOf, h.section?_place hp]
  rfl

/-- A new option comes behind those of the open section. -/
theorem Sound.optionsOf_withOption (h : d.Sound) (hp : d.place = some place)
    (hnew : name ∉ (d.options place).names) (sectionName : String) :
    (d.withOption place name value).optionsOf sectionName
        ++ settings sectionName d.opened entries
      = d.optionsOf sectionName
        ++ settings sectionName d.opened (.option name value :: entries) := by
  have hsection : (d.withOption place name value).section? sectionName
      = if sectionName = place.name then some ((d.options place).add name value)
        else d.section? sectionName :=
    h.section?_changeOptions hp (·.add name value) sectionName
  rw [opened_of_place hp, settings, optionsOf, hsection]
  by_cases hn : sectionName = place.name
  · subst hn
    rw [if_pos rfl, if_pos rfl, h.optionsOf_place hp]
    simp [Catalog.entries_add_of_not_mem hnew]
  · have hne : ¬ some place.name = some sectionName := fun he => hn (Option.some.inj he).symm
    rw [if_neg hn, if_neg hne]
    rfl

/-- An option can be read if a section is open, it is new there, and what comes after it can be read
then. -/
theorem Sound.accepts_option (h : d.Sound) : d.Accepts (.option name value :: entries) ↔
    ∃ place, d.place = some place ∧ name ∉ (d.options place).names ∧
      (d.withOption place name value).Accepts entries := by
  constructor
  · intro ha
    obtain ⟨place, hp⟩ := Option.ne_none_iff_exists'.1 fun hnone => ha.headed hnone name value rfl
    have hnew : name ∉ (d.options place).names := by
      intro hmem
      have hnodup := ha.options place.name
      rw [opened_of_place hp, settings, if_pos rfl, List.map_append, h.optionsOf_place hp] at hnodup
      exact (List.nodup_append.1 hnodup).2.2 name hmem name List.mem_cons_self rfl
    refine ⟨place, hp, hnew, ?_, ?_, ?_⟩
    · intro hnone
      rw [place_withOption, hp] at hnone
      cases hnone
    · rw [names_withOption]
      exact ha.sections
    · intro sectionName
      rw [opened_withOption, h.optionsOf_withOption hp hnew]
      exact ha.options sectionName
  · rintro ⟨place, hp, hnew, ha⟩
    refine ⟨?_, ?_, ?_⟩
    · intro hnone
      rw [hp] at hnone
      cases hnone
    · have hnodup := ha.sections
      rwa [names_withOption] at hnodup
    · intro sectionName
      have hnodup := ha.options sectionName
      rwa [opened_withOption, h.optionsOf_withOption hp hnew] at hnodup

theorem setOption_of_new {line value : List Char} (hnew : name ∉ (d.options place).names)
    (hname : name ≠ "") :
    d.setOption place number line name value = .ok (d.withOption place name [value]) := by
  rw [setOption, if_neg (mt Catalog.contains_iff.1 hnew)]
  simp only [if_neg hname, withOption]

theorem ne_empty_of_setOption {line value : List Char} {d₁ : Draft}
    (h : d.setOption place number line name value = .ok d₁) (hflaws : d₁.flaws = []) :
    name ≠ "" := by
  rintro rfl
  unfold setOption at h
  split at h
  · cases h
  · cases h
    exact flaws_note_ne_nil _ number line hflaws

/-! ## Lines -/

/-- The lines are read to the end, and all of them are entries or go on with one. -/
def ReadsAll (d : Draft) (number : Nat) (ls : List (List Char)) : Prop :=
  ∃ d', d.lines number ls = .ok d' ∧ d'.flaws = []

theorem readsAll_cons {cs : List Char} {ls : List (List Char)} : d.ReadsAll number (cs :: ls) ↔
    ∃ d₁, (d.line number cs = .ok d₁ ∧ d₁.flaws = []) ∧ d₁.ReadsAll (number + 1) ls := by
  constructor
  · rintro ⟨d', h, hflaws⟩
    rw [lines] at h
    cases hline : d.line number cs with
    | error fault =>
      simp only [hline] at h
      cases h
    | ok d₁ =>
      simp only [hline] at h
      exact ⟨d₁, ⟨rfl, flaws_lines h hflaws⟩, d', h, hflaws⟩
  · rintro ⟨d₁, ⟨hline, -⟩, d', h, hflaws⟩
    refine ⟨d', ?_, hflaws⟩
    rw [lines, hline]
    exact h

/-- An option is read if it has a name, which is new in the open section, and the rest is read
then. -/
theorem exists_entry_option {line text value : List Char} {ls : List (List Char)}
    (htext : Entry.ofChars text = .option name value) (hflaws : d.flaws = []) :
    (∃ d₁, (d.entry number line text = .ok d₁ ∧ d₁.flaws = []) ∧ d₁.ReadsAll (number + 1) ls) ↔
      name ≠ "" ∧ ∃ place, d.place = some place ∧ name ∉ (d.options place).names ∧
        (d.withOption place name [value]).ReadsAll (number + 1) ls := by
  constructor
  · rintro ⟨d₁, ⟨h, hflaws₁⟩, hread⟩
    obtain ⟨place, hp, hnew, rfl⟩ := entry_option htext h hflaws₁
    rw [entry, htext] at h
    simp only [hp] at h
    exact ⟨ne_empty_of_setOption h hflaws₁, place, hp, hnew, hread⟩
  · rintro ⟨hname, place, hp, hnew, hread⟩
    refine ⟨_, ⟨?_, flaws_withOption.trans hflaws⟩, hread⟩
    rw [entry, htext]
    simp only [hp]
    exact setOption_of_new hnew hname

/-- Where no entry starts, there is no value to go on with. -/
theorem Fresh.current_eq_none {line : Line} {rest : List Line} (h : d.Fresh (line :: rest))
    (hline : line.goesOn d.indent = true) : d.current = none := by
  refine h.resolve_right fun hhead => ?_
  have hnot : line.goesOn d.indent = false := hhead line rfl
  rw [hline] at hnot
  cases hnot

/-- A comment or a blank line says nothing where no value can go on. -/
theorem readsAll_skip {cs : List Char} {ls : List (List Char)} (hcurrent : d.current = none)
    (hflaws : d.flaws = []) (hcs : Line.ofChars cs = .comment ∨ Line.ofChars cs = .blank) :
    d.ReadsAll number (cs :: ls) ↔ d.ReadsAll (number + 1) ls := by
  have hline : d.line number cs = .ok d := by
    rw [line]
    rcases hcs with hcs | hcs
    · rw [hcs]
    · rw [hcs]
      cases d.place <;> simp only [hcurrent]
  simp [readsAll_cons, hline, hflaws]

/-- A value is read up to the next entry. -/
theorem readsAll_withOption (hp : d.place = some place) (hnew : name ∉ (d.options place).names)
    (ls : List (List Char)) : (d.withOption place name value).ReadsAll number ls ↔
      (d.withOption place name
          (value ++ ((ls.map Line.ofChars).takeWhile (Line.goesOn d.indent)).flatMap
            Line.addition)).ReadsAll
          (number + (ls.takeWhile fun cs => (Line.ofChars cs).goesOn d.indent).length)
          (ls.dropWhile fun cs => (Line.ofChars cs).goesOn d.indent) := by
  rw [ReadsAll, lines_withOption hp hnew, ReadsAll]

/-- Lines are read if they are well formed and the draft can take what stands in them. -/
theorem readsAll_iff {lines : List Line} {ls : List (List Char)}
    (hls : ls.map Line.ofChars = lines) (hd : d.Sound) (hfresh : d.Fresh lines)
    (hflaws : d.flaws = []) :
    d.ReadsAll number ls ↔ wellFormed lines = true ∧ d.Accepts (items lines) := by
  induction lines using items.induct generalizing ls d number with
  | case1 =>
    obtain rfl := List.map_eq_nil_iff.1 hls
    rw [wellFormed, items]
    exact ⟨fun _ => ⟨rfl, d.accepts_nil⟩, fun _ => ⟨d, rfl, hflaws⟩⟩
  | case2 rest ih =>
    obtain ⟨cs, ls, rfl, hcs, hrest⟩ := List.map_eq_cons_iff.1 hls
    have hcurrent : d.current = none := hfresh.current_eq_none rfl
    rw [readsAll_skip hcurrent hflaws (.inl hcs), ih hrest hd (.inl hcurrent) hflaws, wellFormed,
      items]
  | case3 rest ih =>
    obtain ⟨cs, ls, rfl, hcs, hrest⟩ := List.map_eq_cons_iff.1 hls
    have hcurrent : d.current = none := hfresh.current_eq_none rfl
    rw [readsAll_skip hcurrent hflaws (.inr hcs), ih hrest hd (.inl hcurrent) hflaws, wellFormed,
      items]
  | case4 indent text rest name hentry ih =>
    obtain ⟨cs, ls, rfl, hcs, hrest⟩ := List.map_eq_cons_iff.1 hls
    have hd₀ : ({ d with indent := indent } : Draft).Sound := ⟨hd.defaults, hd.named⟩
    rw [readsAll_cons, line_of_fresh hcs hfresh, entry_header hentry, wellFormed, hentry, items,
      hentry, ← accepts_withIndent indent, hd₀.accepts_header number]
    constructor
    · rintro ⟨d₁, ⟨hopen, hflaws₁⟩, hread⟩
      obtain ⟨hsound, hcurrent, -⟩ := hd₀.openSection hopen
      obtain ⟨hwell, ha⟩ := (ih hrest hsound (.inl hcurrent) hflaws₁).1 hread
      exact ⟨hwell, d₁, hopen, ha⟩
    · rintro ⟨hwell, d₁, hopen, ha⟩
      obtain ⟨hsound, hcurrent, -⟩ := hd₀.openSection hopen
      have hflaws₁ : d₁.flaws = [] := (flaws_openSection hopen).trans hflaws
      exact ⟨d₁, ⟨hopen, hflaws₁⟩, (ih hrest hsound (.inl hcurrent) hflaws₁).2 ⟨hwell, ha⟩⟩
  | case5 indent text rest name value hentry _ ih =>
    obtain ⟨cs, ls, rfl, hcs, hrest⟩ := List.map_eq_cons_iff.1 hls
    have hd₀ : ({ d with indent := indent } : Draft).Sound := ⟨hd.defaults, hd.named⟩
    have hflaws₀ : ({ d with indent := indent } : Draft).flaws = [] := hflaws
    have hafter : (ls.dropWhile fun cs => (Line.ofChars cs).goesOn indent).map Line.ofChars
        = rest.dropWhile (Line.goesOn indent) := by
      rw [← hrest, List.dropWhile_map]
      rfl
    rw [readsAll_cons, line_of_fresh hcs hfresh, wellFormed, hentry, items, hentry,
      ← accepts_withIndent indent, hd₀.accepts_option, exists_entry_option hentry hflaws₀]
    constructor
    · rintro ⟨hname, place, hp, hnew, hread⟩
      rw [readsAll_withOption hp hnew, hrest] at hread
      obtain ⟨hwell, ha⟩ := (ih hafter hd₀.withOption (fresh_withOption rest)
        (flaws_withOption.trans hflaws₀)).1 hread
      exact ⟨by simp [hname, hwell], place, hp, hnew, ha⟩
    · rintro ⟨hwell, place, hp, hnew, ha⟩
      simp only [Bool.and_eq_true, bne_iff_ne, ne_eq] at hwell
      refine ⟨hwell.1, place, hp, hnew, ?_⟩
      rw [readsAll_withOption hp hnew, hrest]
      exact (ih hafter hd₀.withOption (fresh_withOption rest)
        (flaws_withOption.trans hflaws₀)).2 ⟨hwell.2, ha⟩
  | case6 indent text rest hentry ih =>
    obtain ⟨cs, ls, rfl, hcs, hrest⟩ := List.map_eq_cons_iff.1 hls
    rw [readsAll_cons, line_of_fresh hcs hfresh, wellFormed, hentry]
    constructor
    · rintro ⟨d₁, ⟨hline, hflaws₁⟩, -⟩
      exact absurd hflaws₁ (entry_other hentry hline)
    · rintro ⟨hwell, -⟩
      cases hwell

/-! ## Files -/

theorem accepts_empty_iff : empty.Accepts entries ↔ Distinct entries := by
  constructor
  · intro h
    refine ⟨h.headed rfl, h.sections, fun sectionName => ?_⟩
    have hoptions := h.options sectionName
    rwa [optionsOf_empty] at hoptions
  · intro h
    refine ⟨fun _ => h.headed, h.sections, fun sectionName => ?_⟩
    rw [optionsOf_empty]
    exact h.options sectionName

theorem exists_finish : (∃ doc, d.finish = .ok doc) ↔ d.flaws = [] := by
  rw [finish]
  constructor
  · rintro ⟨doc, h⟩
    split at h
    · rename_i hempty
      exact List.isEmpty_iff.1 hempty
    · cases h
  · intro h
    rw [if_pos (List.isEmpty_iff.2 h)]
    exact ⟨_, rfl⟩

/-- A text is read to a document if and only if it is that of one. -/
theorem exists_finish_iff {text : List Char} :
    (∃ draft, empty.lines 1 (Text.lines text) = .ok draft ∧ ∃ doc, draft.finish = .ok doc) ↔
      Readable text := by
  have hread : empty.ReadsAll 1 (Text.lines text) ↔
      wellFormed ((Text.lines text).map Line.ofChars) = true ∧ empty.Accepts (layout text) :=
    readsAll_iff rfl sound_empty (.inl rfl) rfl
  simp only [exists_finish]
  rw [Readable, ← accepts_empty_iff]
  exact hread

end NftStore.Ini.Draft
