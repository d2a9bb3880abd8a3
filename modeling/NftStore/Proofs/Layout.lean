import NftStore.Ini.Layout
import NftStore.Proofs.Catalog
import Mathlib.Data.List.TakeWhile

/-!
Reading and layout. The reader goes through a file line by line and changes what it has read so far
in place. What it ends with is nothing but the layout of the file: each section that has a header,
with the options under its headers in the order in which they stand (`Draft.reads_of_lines`). A
value is read as long as lines go on with it, so the argument takes an option and these lines in one
step.
-/
namespace NftStore.Ini

namespace Draft

/-! ## Sections of a draft -/

/-- The options read so far for a name. The defaults are always there. -/
def section? (d : Draft) (name : String) : Option OptionLines :=
  if name = defaultSection then some d.defaults else d.sections.find? name

/-- The options read so far for a name, none if it has no section. -/
def optionsOf (d : Draft) (name : String) : List (String × List (List Char)) :=
  ((d.section? name).map Catalog.entries).getD []

/-- The name of the open section. -/
def opened (d : Draft) : Option String :=
  d.place.map Place.name

/-- The defaults are no section, and the open section is there. -/
structure Sound (d : Draft) : Prop where
  defaults : defaultSection ∉ d.sections.names
  named : ∀ name, d.place = some (.named name) → name ∈ d.sections.names

variable {d d' : Draft} {place : Place} {number : Nat}

theorem section?_of_ne {name : String} (h : name ≠ defaultSection) :
    d.section? name = d.sections.find? name :=
  if_neg h

theorem Sound.name_ne (h : d.Sound) {name : String} (hp : d.place = some (.named name)) :
    name ≠ defaultSection := by
  rintro rfl
  exact h.defaults (h.named _ hp)

theorem Sound.section?_place (h : d.Sound) (hp : d.place = some place) :
    d.section? place.name = some (d.options place) := by
  cases place with
  | defaults => exact if_pos rfl
  | named name =>
    obtain ⟨options, hoptions⟩ := Option.ne_none_iff_exists'.1 fun hn =>
      Catalog.find?_eq_none_iff.1 hn (h.named name hp)
    show d.section? name = some ((d.sections.find? name).getD .empty)
    rw [section?_of_ne (h.name_ne hp), hoptions]
    rfl

/-- Changing the options of the open section changes no other. -/
theorem Sound.section?_changeOptions (h : d.Sound) (hp : d.place = some place)
    (f : OptionLines → OptionLines) (name : String) : (d.changeOptions place f).section? name
      = if name = place.name then some (f (d.options place)) else d.section? name := by
  have hplace := h.section?_place hp
  cases place with
  | defaults =>
    by_cases hn : name = defaultSection
    · subst hn
      rfl
    · rw [section?_of_ne hn, if_neg (show ¬ name = Place.defaults.name from hn), section?_of_ne hn]
      rfl
  | named other =>
    show (d.changeOptions (.named other) f).section? name = if name = other then _ else _
    by_cases hn : name = other
    · subst hn
      have hne := h.name_ne hp
      have hfind : d.sections.find? name = some (d.options (.named name)) := by
        rw [← section?_of_ne hne]
        exact hplace
      rw [section?_of_ne hne, if_pos rfl]
      simp [Draft.changeOptions, Catalog.find?_modify, hfind]
    · rw [if_neg hn]
      simp [section?, Draft.changeOptions, Catalog.find?_modify, hn]

/-! ## Lines that go on with a value -/

/-- The draft with an option set in the open section, to be gone on with. -/
def withOption (d : Draft) (place : Place) (name : String) (value : List (List Char)) : Draft :=
  { d.changeOptions place (·.add name value) with current := some name }

variable {name : String} {value : List (List Char)}

@[simp] theorem indent_withOption :
    (d.withOption place name value).indent = d.indent := by
  cases place <;> rfl

@[simp] theorem place_withOption :
    (d.withOption place name value).place = d.place := by
  cases place <;> rfl

theorem Sound.withOption (h : d.Sound) : (d.withOption place name value).Sound := by
  cases place with
  | defaults => exact ⟨h.defaults, h.named⟩
  | named other =>
    have hnames : ((d.withOption (.named other) name value).sections.names) = d.sections.names :=
      d.sections.names_modify other _
    refine ⟨?_, ?_⟩
    · rw [hnames]
      exact h.defaults
    · rw [hnames]
      exact h.named

/-- A new option is extended where it was set. -/
theorem extend_withOption (hnew : name ∉ (d.options place).names) (line : List Char) :
    (d.withOption place name value).extend place name line
      = d.withOption place name (value ++ [line]) := by
  cases place with
  | defaults =>
    have hadd := Catalog.modify_add_of_not_mem hnew value (· ++ [line])
    simp only [extend, withOption, changeOptions]
    exact congrArg (fun options => { d with defaults := options, current := some name }) hadd
  | named other =>
    have hadd : (d.sections.modify other (·.add name value)).modify other
          (fun options => options.modify name (· ++ [line]))
        = d.sections.modify other (·.add name (value ++ [line])) := by
      rw [Catalog.modify_modify]
      refine Catalog.modify_congr fun options hoptions => ?_
      have hopts : d.options (.named other) = options := by
        rw [Draft.options, hoptions]
        rfl
      rw [hopts] at hnew
      exact Catalog.modify_add_of_not_mem hnew value (· ++ [line])
    simp only [extend, withOption, changeOptions]
    exact congrArg (fun sections => { d with sections := sections, current := some name }) hadd

theorem line_goesOn (hp : d.place = some place) (hnew : name ∉ (d.options place).names)
    {cs : List Char} (hcs : (Line.ofChars cs).goesOn d.indent = true) :
    (d.withOption place name value).line number cs
      = .ok (d.withOption place name (value ++ (Line.ofChars cs).addition)) := by
  rw [line]
  cases hline : Line.ofChars cs with
  | comment => simp [Line.addition]
  | blank =>
    simp only [place_withOption, hp]
    show Except.ok _ = _
    rw [extend_withOption hnew]
    rfl
  | content indent text =>
    rw [hline] at hcs
    have hdeeper : d.indent < indent := of_decide_eq_true hcs
    simp only [place_withOption, indent_withOption, hp]
    show (if d.indent < indent then _ else _) = _
    rw [if_pos hdeeper, extend_withOption hnew]
    rfl

/-- A value is read up to the last line that goes on with it. -/
theorem lines_goesOn (hp : d.place = some place) (hnew : name ∉ (d.options place).names)
    {more : List (List Char)} (hmore : ∀ cs ∈ more, (Line.ofChars cs).goesOn d.indent = true)
    (rest : List (List Char)) : (d.withOption place name value).lines number (more ++ rest)
      = (d.withOption place name (value ++ (more.map Line.ofChars).flatMap Line.addition)).lines
          (number + more.length) rest := by
  induction more generalizing value number with
  | nil => simp
  | cons cs more ih =>
    have hfirst : (d.withOption place name value).line number cs
        = .ok (d.withOption place name (value ++ (Line.ofChars cs).addition)) :=
      line_goesOn hp hnew (hmore cs List.mem_cons_self)
    rw [List.cons_append, lines, hfirst]
    show (d.withOption place name _).lines (number + 1) _ = _
    rw [ih fun x hx => hmore x (List.mem_cons_of_mem cs hx)]
    simp [Nat.add_assoc, Nat.add_comm 1]

/-- A value is read up to the next entry. -/
theorem lines_withOption (hp : d.place = some place) (hnew : name ∉ (d.options place).names)
    (ls : List (List Char)) : (d.withOption place name value).lines number ls
      = (d.withOption place name
          (value ++ ((ls.map Line.ofChars).takeWhile (Line.goesOn d.indent)).flatMap
            Line.addition)).lines
          (number + (ls.takeWhile fun cs => (Line.ofChars cs).goesOn d.indent).length)
          (ls.dropWhile fun cs => (Line.ofChars cs).goesOn d.indent) := by
  have hgoesOn : ∀ cs ∈ ls.takeWhile fun cs => (Line.ofChars cs).goesOn d.indent,
      (Line.ofChars cs).goesOn d.indent = true := fun cs hcs =>
    List.mem_takeWhile_imp (p := fun cs => (Line.ofChars cs).goesOn d.indent) hcs
  calc (d.withOption place name value).lines number ls
      = (d.withOption place name value).lines number
          ((ls.takeWhile fun cs => (Line.ofChars cs).goesOn d.indent)
            ++ ls.dropWhile fun cs => (Line.ofChars cs).goesOn d.indent) := by
        rw [List.takeWhile_append_dropWhile]
    _ = _ := by
        rw [lines_goesOn hp hnew hgoesOn, List.takeWhile_map]
        rfl

/-! ## Entries -/

/-- One draft becomes the other by reading entries: each section gets the options that are set in it
behind those it has, and is there if it was or has a header. -/
structure Reads (d : Draft) (entries : List Item) (d' : Draft) : Prop where
  options : ∀ name, d'.optionsOf name = d.optionsOf name ++ settings name d.opened entries
  sections : ∀ name, (d'.section? name).isSome ↔ (d.section? name).isSome ∨ .header name ∈ entries

theorem Reads.nil (d : Draft) : d.Reads [] d where
  options name := by simp [settings]
  sections name := by simp

/-- Opening a section makes it if it is not there, and changes no other. -/
theorem Sound.openSection (h : d.Sound) {d₁ : Draft}
    (hopen : d.openSection number name = .ok d₁) :
    d₁.Sound ∧ d₁.current = none ∧ d₁.opened = some name ∧
      ∀ other, d₁.section? other
        = if other = name then some ((d.section? name).getD .empty) else d.section? other := by
  unfold Draft.openSection at hopen
  split at hopen
  · cases hopen
  · rename_i hnew
    rw [Catalog.contains_iff] at hnew
    split at hopen
    · rename_i hdefault
      subst hdefault
      cases hopen
      refine ⟨⟨h.defaults, nofun⟩, rfl, rfl, ?_⟩
      intro other
      by_cases ho : other = defaultSection <;> simp [section?, ho]
    · rename_i hne
      cases hopen
      refine ⟨⟨?_, ?_⟩, rfl, rfl, ?_⟩
      · rw [Catalog.names_add_of_not_mem hnew]
        simpa using ⟨h.defaults, Ne.symm hne⟩
      · intro other hother
        cases hother
        rw [Catalog.names_add_of_not_mem hnew]
        simp
      · intro other
        by_cases ho : other = name
        · subst ho
          simp [section?, hne, Catalog.find?_add]
        · simp [section?, ho, Catalog.find?_add]

/-- Opening a section is reading a header. -/
theorem Reads.header {d₁ : Draft} {entries : List Item} (h : d.Sound)
    (hopen : d.openSection number name = .ok d₁) (hrest : d₁.Reads entries d') :
    d.Reads (.header name :: entries) d' := by
  obtain ⟨-, -, hopened, hsection⟩ := h.openSection hopen
  refine ⟨fun other => ?_, fun other => ?_⟩
  · have hoptions : d₁.optionsOf other = d.optionsOf other := by
      rw [optionsOf, optionsOf, hsection]
      by_cases ho : other = name
      · subst ho
        rw [if_pos rfl]
        cases d.section? other <;> rfl
      · rw [if_neg ho]
    rw [hrest.options, hoptions, hopened, settings]
  · rw [hrest.sections, hsection]
    by_cases ho : other = name
    · simp [ho]
    · simp [ho]

/-- Setting an option in the open section is reading the option. -/
theorem Reads.option {entries : List Item} (h : d.Sound) (hp : d.place = some place)
    (hnew : name ∉ (d.options place).names)
    (hrest : (d.withOption place name value).Reads entries d') :
    d.Reads (.option name value :: entries) d' := by
  have hopened : d.opened = some place.name := by
    rw [opened, hp]
    rfl
  have hkept : (d.withOption place name value).opened = d.opened := by
    rw [opened, opened, place_withOption]
  have hsection : ∀ other, (d.withOption place name value).section? other
      = if other = place.name then some ((d.options place).add name value)
        else d.section? other := by
    intro other
    exact h.section?_changeOptions hp (·.add name value) other
  have hold := h.section?_place hp
  refine ⟨fun other => ?_, fun other => ?_⟩
  · rw [hrest.options, hkept, hopened, settings, optionsOf, optionsOf, hsection]
    by_cases ho : other = place.name
    · subst ho
      simp [hold, Catalog.entries_add_of_not_mem hnew]
    · have hne : ¬ place.name = other := fun he => ho he.symm
      simp [ho, hne]
  · rw [hrest.sections, hsection]
    by_cases ho : other = place.name
    · subst ho
      simp [hold]
    · simp [ho]

/-! ## Flaws -/

@[simp] theorem flaws_changeOptions (d : Draft) (place : Place) (f : OptionLines → OptionLines) :
    (d.changeOptions place f).flaws = d.flaws := by
  cases place <;> rfl

theorem flaws_note_ne_nil (d : Draft) (number : Nat) (line : List Char) :
    (d.note number line).flaws ≠ [] := by
  simp [note]

theorem flaws_openSection {d₁ : Draft} (h : d.openSection number name = .ok d₁) :
    d₁.flaws = d.flaws := by
  unfold openSection at h
  split at h
  · cases h
  · split at h <;> cases h <;> rfl

/-- An option that is no flaw has a name, which is new in its section. -/
theorem setOption_eq_ok {line value : List Char} {d₁ : Draft}
    (h : d.setOption place number line name value = .ok d₁) (hflaws : d₁.flaws = []) :
    name ∉ (d.options place).names ∧ d₁ = d.withOption place name [value] := by
  unfold setOption at h
  split at h
  · cases h
  · rename_i hnew
    rw [Catalog.contains_iff] at hnew
    by_cases hempty : name = ""
    · simp only [if_pos hempty] at h
      cases h
      exact absurd hflaws (flaws_note_ne_nil _ number line)
    · simp only [if_neg hempty] at h
      cases h
      exact ⟨hnew, rfl⟩

theorem entry_header {line text : List Char} (htext : Entry.ofChars text = .header name) :
    d.entry number line text = d.openSection number name := by
  rw [entry, htext]

theorem entry_option {line text value : List Char} (htext : Entry.ofChars text = .option name value)
    {d₁ : Draft} (h : d.entry number line text = .ok d₁) (hflaws : d₁.flaws = []) :
    ∃ place, d.place = some place ∧ name ∉ (d.options place).names ∧
      d₁ = d.withOption place name [value] := by
  cases hp : d.place with
  | none =>
    rw [entry, htext] at h
    simp only [hp] at h
    cases h
  | some place =>
    rw [entry, htext] at h
    simp only [hp] at h
    exact ⟨place, rfl, setOption_eq_ok h hflaws⟩

theorem entry_other {line text : List Char} (htext : Entry.ofChars text = .other) {d₁ : Draft}
    (h : d.entry number line text = .ok d₁) : d₁.flaws ≠ [] := by
  rw [entry, htext] at h
  cases hp : d.place with
  | none =>
    simp only [hp] at h
    cases h
  | some place =>
    simp only [hp] at h
    cases h
    exact flaws_note_ne_nil d number line

/-- Lines that are no entry are not forgotten. -/
theorem flaws_entry {line text : List Char} {d₁ : Draft} (h : d.entry number line text = .ok d₁)
    (hflaws : d₁.flaws = []) : d.flaws = [] := by
  cases htext : Entry.ofChars text with
  | header name =>
    rw [entry_header htext] at h
    exact (flaws_openSection h).symm.trans hflaws
  | option name value =>
    obtain ⟨place, -, -, rfl⟩ := entry_option htext h hflaws
    simpa [withOption] using hflaws
  | other => exact absurd hflaws (entry_other htext h)

theorem flaws_line {cs : List Char} {d₁ : Draft} (h : d.line number cs = .ok d₁)
    (hflaws : d₁.flaws = []) : d.flaws = [] := by
  unfold line at h
  split at h
  · cases h
    exact hflaws
  · split at h
    · cases h
      simpa [extend] using hflaws
    · cases h
      exact hflaws
  · split at h
    · split at h
      · cases h
        simpa [extend] using hflaws
      · exact (flaws_entry h hflaws :)
    · exact (flaws_entry h hflaws :)

theorem flaws_lines {ls : List (List Char)} (h : d.lines number ls = .ok d')
    (hflaws : d'.flaws = []) : d.flaws = [] := by
  induction ls generalizing d number with
  | nil =>
    cases h
    exact hflaws
  | cons cs ls ih =>
    rw [lines] at h
    split at h
    · cases h
    · rename_i d₁ hline
      exact flaws_line hline (ih h)

/-! ## Reading lines -/

/-- The next line goes on with no value: there is none to go on with, or it starts an entry. -/
def Fresh (d : Draft) (lines : List Line) : Prop :=
  d.current = none ∨ ∀ line ∈ lines.head?, line.goesOn d.indent = false

/-- Where the lines that go on with a value end, an entry starts. -/
theorem fresh_withOption (lines : List Line) :
    (d.withOption place name value).Fresh (lines.dropWhile (Line.goesOn d.indent)) := by
  right
  intro line hline
  have hnot := lines.head?_dropWhile_not (Line.goesOn d.indent)
  rw [Option.mem_def.1 hline] at hnot
  simpa using hnot

theorem line_of_fresh {cs text : List Char} {indent : Nat} {rest : List Line}
    (hcs : Line.ofChars cs = .content indent text) (h : d.Fresh (.content indent text :: rest)) :
    d.line number cs = { d with indent := indent }.entry number cs text := by
  rw [line, hcs]
  rcases h with hcurrent | hhead
  · cases d.place <;> simp only [hcurrent]
  · have hindent : ¬ d.indent < indent := by
      simpa [Line.goesOn] using hhead _ rfl
    simp only [if_neg hindent]
    split <;> rfl

/-- What lines are read to is the layout of them, if all of them are entries or go on with one. -/
theorem reads_of_lines {lines : List Line} {ls : List (List Char)}
    (hls : ls.map Line.ofChars = lines) (hd : d.Sound) (hfresh : d.Fresh lines)
    (h : d.lines number ls = .ok d') (hflaws : d'.flaws = []) : d.Reads (items lines) d' := by
  induction lines using items.induct generalizing ls d number with
  | case1 =>
    obtain rfl := List.map_eq_nil_iff.1 hls
    cases h
    rw [items]
    exact .nil _
  | case2 rest ih =>
    obtain ⟨cs, ls, rfl, hcs, hrest⟩ := List.map_eq_cons_iff.1 hls
    have hcurrent : d.current = none := hfresh.resolve_right fun hhead => by
      simpa [Line.goesOn] using hhead _ rfl
    rw [lines, line, hcs] at h
    rw [items]
    exact ih hrest hd (.inl hcurrent) h
  | case3 rest ih =>
    obtain ⟨cs, ls, rfl, hcs, hrest⟩ := List.map_eq_cons_iff.1 hls
    have hcurrent : d.current = none := hfresh.resolve_right fun hhead => by
      simpa [Line.goesOn] using hhead _ rfl
    have hline : d.line number cs = .ok d := by
      rw [line, hcs]
      cases d.place <;> simp only [hcurrent]
    rw [lines, hline] at h
    rw [items]
    exact ih hrest hd (.inl hcurrent) h
  | case4 indent text rest name hentry ih =>
    obtain ⟨cs, ls, rfl, hcs, hrest⟩ := List.map_eq_cons_iff.1 hls
    have hd₀ : ({ d with indent := indent } : Draft).Sound := ⟨hd.defaults, hd.named⟩
    rw [lines, line_of_fresh hcs hfresh] at h
    rw [items, hentry]
    split at h
    · cases h
    · rename_i d₁ hline
      have hopen := (entry_header hentry).symm.trans hline
      obtain ⟨hsound, hcurrent, -⟩ := hd₀.openSection hopen
      have hreads := Reads.header hd₀ hopen (ih hrest hsound (.inl hcurrent) h)
      exact ⟨hreads.options, hreads.sections⟩
  | case5 indent text rest name value hentry _ ih =>
    obtain ⟨cs, ls, rfl, hcs, hrest⟩ := List.map_eq_cons_iff.1 hls
    have hd₀ : ({ d with indent := indent } : Draft).Sound := ⟨hd.defaults, hd.named⟩
    rw [lines, line_of_fresh hcs hfresh] at h
    rw [items, hentry]
    split at h
    · cases h
    · rename_i d₁ hline
      obtain ⟨place, hp, hnew, rfl⟩ := entry_option hentry hline (flaws_lines h hflaws)
      have hafter : (ls.dropWhile fun cs => (Line.ofChars cs).goesOn indent).map Line.ofChars
          = rest.dropWhile (Line.goesOn indent) := by
        rw [← hrest, List.dropWhile_map]
        rfl
      rw [lines_withOption hp hnew, hrest] at h
      have hreads := Reads.option hd₀ hp hnew
        (ih hafter hd₀.withOption (fresh_withOption rest) h)
      exact ⟨hreads.options, hreads.sections⟩
  | case6 indent text rest hentry ih =>
    obtain ⟨cs, ls, rfl, hcs, hrest⟩ := List.map_eq_cons_iff.1 hls
    rw [lines, line_of_fresh hcs hfresh] at h
    split at h
    · cases h
    · rename_i d₁ hline
      exact absurd (flaws_lines h hflaws) (entry_other hentry hline)

theorem sound_empty : empty.Sound where
  defaults := Catalog.not_mem_names_empty defaultSection
  named := nofun

theorem optionsOf_empty (name : String) : empty.optionsOf name = [] := by
  rw [optionsOf, section?]
  split <;> rfl

end Draft

/-! ## Documents -/

/-- A document says what the entries of a file do: it has the sections that have a header, and the
options under these headers in their order. -/
structure Document.LaidOut (d : Document) (entries : List Item) : Prop where
  defaults : d.defaults.entries = optionsUnder defaultSection entries
  own : ∀ name, name ≠ defaultSection →
    (d.ownOptions name).entries = optionsUnder name entries
  sections : ∀ name, name ≠ defaultSection →
    (d.hasSection name = true ↔ .header name ∈ entries)

/-- The document that lines are read to is laid out as they are. -/
theorem Draft.laidOut_of_finish {text : List Char} {draft : Draft} {d : Document}
    (hlines : Draft.empty.lines 1 (Text.lines text) = .ok draft) (hfinish : draft.finish = .ok d) :
    d.LaidOut (layout text) := by
  unfold finish at hfinish
  split at hfinish
  · rename_i hflaws
    cases hfinish
    have hreads := reads_of_lines rfl sound_empty (.inl rfl) hlines (List.isEmpty_iff.1 hflaws)
    have hoptions : ∀ name, (draft.optionsOf name).map (fun option => (option.1, joinValue option.2))
        = optionsUnder name (layout text) := by
      intro name
      rw [hreads.options, optionsOf_empty]
      rfl
    refine ⟨hoptions defaultSection, ?_, ?_⟩
    · intro name hne
      rw [← hoptions name, optionsOf, section?_of_ne hne, Document.ownOptions,
        Catalog.find?_mapEntries]
      cases draft.sections.find? name <;> rfl
    · intro name hne
      have hsection := hreads.sections name
      rw [section?_of_ne hne, section?_of_ne hne] at hsection
      rw [Document.hasSection, ← Catalog.isSome_find?, Catalog.find?_mapEntries, Option.isSome_map,
        hsection]
      exact or_iff_right (by simp [empty])
  · cases hfinish

end NftStore.Ini
