import NftStore.Define.Cut
import NftStore.Proofs.Catalog

/-!
Substitution as cutting. A text can be cut in just one way, for what stands at each place is settled
by the earliest define whose placeholder starts there (`cut_cons_of_some`, `cut_cons_of_none`), and
substitution goes through the pieces of that cut. The values play no part in the cutting: they are
looked up by placeholder in a table in which the first value given for a name stays.
-/
namespace NftStore

/-! ## Placeholders -/

theorem Define.startsAt_iff {d : Define} {text : List Char} :
    d.startsAt text ↔ ∃ rest, text = d.placeholder.toList ++ rest := by
  rw [startsAt, List.isPrefixOf_iff_prefix]
  constructor
  · rintro ⟨rest, h⟩
    exact ⟨rest, h.symm⟩
  · rintro ⟨rest, h⟩
    exact ⟨rest, h.symm⟩

theorem Define.startsAt_sigil {d : Define} {cs : List Char} :
    d.startsAt (sigil :: cs) = true ↔ d.name.toList <+: cs := by
  rw [startsAt, List.isPrefixOf_iff_prefix, toList_placeholder]
  simp

/-- The text after a placeholder is what is left of it without the name. -/
theorem Define.eq_append_of_startsAt {d : Define} {c : Char} {cs : List Char}
    (h : d.startsAt (c :: cs)) : c :: cs = d.placeholder.toList ++ cs.drop d.name.length := by
  obtain ⟨rest, hrest⟩ := startsAt_iff.1 h
  rw [toList_placeholder, List.cons_append] at hrest ⊢
  obtain ⟨rfl, rfl⟩ := List.cons.inj hrest
  rw [← String.length_toList, List.drop_left]

namespace Defines

variable {ds : Defines} {d : Define} {c : Char} {text cs : List Char} {ps : List Piece}

theorem earliest?_eq_none_iff :
    ds.earliest? text = none ↔ ∀ d ∈ ds.toList, ¬ d.startsAt text :=
  List.find?_eq_none

theorem isEarliest_iff : ds.IsEarliest d text ↔ ds.earliest? text = some d := by
  rw [earliest?, List.find?_eq_some_iff_append, IsEarliest]
  constructor
  · rintro ⟨before, after, hds, hbefore, hd⟩
    exact ⟨hd, before, after, hds, fun e he => by simpa using hbefore e he⟩
  · rintro ⟨hd, before, after, hds, hbefore⟩
    exact ⟨before, after, hds, fun e he => by simpa using hbefore e he, hd⟩

theorem startsAt_of_earliest? (h : ds.earliest? text = some d) : d.startsAt text :=
  List.find?_some (p := fun e : Define => e.startsAt text) h

theorem earliest?_cons_of_ne_sigil (ds : Defines) (h : c ≠ Define.sigil) :
    ds.earliest? (c :: cs) = none := by
  rw [earliest?_eq_none_iff]
  intro d _ hd
  obtain ⟨rest, htext⟩ := Define.startsAt_iff.1 hd
  rw [Define.toList_placeholder] at htext
  exact h (List.cons.inj htext).1

/-- What is without the sigil is left as it is, whatever is registered, and so is passed over. -/
theorem expand_append_of_not_mem (ds : Defines) (h : Define.sigil ∉ text) (rest : List Char) :
    ds.expand (text ++ rest) = text ++ ds.expand rest := by
  induction text with
  | nil => rfl
  | cons c cs ih =>
    simp only [List.mem_cons, not_or] at h
    rw [List.cons_append, expand, ds.earliest?_cons_of_ne_sigil (Ne.symm h.1)]
    show c :: ds.expand (cs ++ rest) = _
    rw [ih h.2, List.cons_append]

theorem expand_of_not_mem (ds : Defines) (h : Define.sigil ∉ text) : ds.expand text = text := by
  have happend := ds.expand_append_of_not_mem h []
  rw [List.append_nil, expand, List.append_nil] at happend
  exact happend

theorem substitute_of_not_mem (ds : Defines) {text : String} (h : Define.sigil ∉ text.toList) :
    ds.substitute text = text := by
  rw [substitute, ds.expand_of_not_mem h, String.ofList_toList]

theorem toList_sigil_append (name : String) :
    ("$" ++ name).toList = Define.sigil :: name.toList := by
  rw [String.toList_append]
  rfl

/-- A placeholder gives the value of the define that starts it, and what is left of it is looked at
again. -/
theorem substitute_placeholder {name : String}
    (h : ds.earliest? (Define.sigil :: name.toList) = some d) : ds.substitute ("$" ++ name)
      = d.value ++ ds.substitute (String.ofList (name.toList.drop d.name.length)) := by
  rw [substitute, toList_sigil_append, expand, h]
  simp [substitute]

/-- So the placeholder of a define that is found there gives its value. -/
theorem substitute_eq_value {name : String}
    (h : ds.earliest? (Define.sigil :: name.toList) = some d) (hname : d.name = name) :
    ds.substitute ("$" ++ name) = d.value := by
  have hrest : name.toList.drop d.name.length = [] := by
    rw [hname, ← String.length_toList, List.drop_length]
  rw [substitute_placeholder h, hrest, ds.substitute_of_not_mem List.not_mem_nil]
  exact String.append_empty

/-! ## Cutting from the left -/

theorem cut_nil_iff : ds.Cut [] ps ↔ ps = [] := by
  constructor
  · intro h
    -- no placeholder is empty, so there is no piece in an empty text
    generalize ht : ([] : List Char) = text at h
    cases h with
    | nil => rfl
    | char => cases ht
    | placeholder =>
      rw [Define.toList_placeholder] at ht
      cases ht
  · rintro rfl
    exact .nil

/-- Where no placeholder starts, the first piece is a character. -/
theorem cut_cons_of_none (h : ds.earliest? (c :: cs) = none) :
    ds.Cut (c :: cs) ps ↔ ∃ rest, ps = .char c :: rest ∧ ds.Cut cs rest := by
  constructor
  · intro hcut
    generalize ht : c :: cs = text at hcut
    cases hcut with
    | nil => cases ht
    | char _ hrest =>
      cases ht
      exact ⟨_, rfl, hrest⟩
    | placeholder hd _ =>
      rw [isEarliest_iff, ← ht, h] at hd
      cases hd
  · rintro ⟨rest, rfl, hrest⟩
    exact .char (earliest?_eq_none_iff.1 h) hrest

/-- Where placeholders start, the first piece is that of the earliest define. -/
theorem cut_cons_of_some (h : ds.earliest? (c :: cs) = some d) :
    ds.Cut (c :: cs) ps
      ↔ ∃ rest, ps = .placeholder d :: rest ∧ ds.Cut (cs.drop d.name.length) rest := by
  have htext := Define.eq_append_of_startsAt (startsAt_of_earliest? h)
  constructor
  · intro hcut
    generalize ht : c :: cs = text at hcut
    cases hcut with
    | nil => cases ht
    | char hno _ =>
      cases ht
      rw [earliest?_eq_none_iff.2 hno] at h
      cases h
    | placeholder hd hrest =>
      rw [isEarliest_iff, ← ht, h] at hd
      cases hd
      rw [htext] at ht
      rw [List.append_cancel_left ht]
      exact ⟨_, rfl, hrest⟩
  · rintro ⟨rest, rfl, hrest⟩
    rw [htext]
    exact .placeholder (isEarliest_iff.2 (htext ▸ h)) hrest

/-- There is just one way to cut a text. -/
theorem existsUnique_cut (ds : Defines) (text : List Char) : ∃! ps, ds.Cut text ps := by
  induction text using expand.induct ds with
  | case1 => exact ⟨[], .nil, fun ps h => cut_nil_iff.1 h⟩
  | case2 c cs d hd ih =>
    obtain ⟨rest, hrest, hunique⟩ := ih
    refine ⟨.placeholder d :: rest, (cut_cons_of_some hd).2 ⟨rest, rfl, hrest⟩, fun ps h => ?_⟩
    obtain ⟨rest', rfl, hrest'⟩ := (cut_cons_of_some hd).1 h
    rw [hunique rest' hrest']
  | case3 c cs hno ih =>
    obtain ⟨rest, hrest, hunique⟩ := ih
    refine ⟨.char c :: rest, (cut_cons_of_none hno).2 ⟨rest, rfl, hrest⟩, fun ps h => ?_⟩
    obtain ⟨rest', rfl, hrest'⟩ := (cut_cons_of_none hno).1 h
    rw [hunique rest' hrest']

/-! ## Values -/

theorem toList_defineAll (ds : Defines) (pairs : List (String × String)) :
    (ds.defineAll pairs).toList = ds.toList ++ pairs.map fun p => ⟨p.1, p.2⟩ := by
  induction pairs generalizing ds with
  | nil => simp [defineAll]
  | cons pair pairs ih =>
    have hrest : (ds.defineAll (pair :: pairs)).toList
        = (ds.define pair.1 pair.2).toList ++ pairs.map fun p => ⟨p.1, p.2⟩ := ih _
    simp [hrest, define]

theorem toList_ofPairs (pairs : List (String × String)) :
    (ofPairs pairs).toList = pairs.map fun p => ⟨p.1, p.2⟩ :=
  toList_defineAll empty pairs

theorem value?_ofPairs (pairs : List (String × String)) (name : String) :
    (ofPairs pairs).value? name = pairs.lookup name := by
  rw [value?, toList_ofPairs]
  induction pairs with
  | nil => rfl
  | cons pair pairs ih =>
    obtain ⟨key, value⟩ := pair
    by_cases h : key = name
    · simp [h]
    · simp only [List.map_cons, Catalog.lookup_cons_of_ne (Ne.symm h), ← ih]
      simp [h]

/-- What the pieces of a cut give, one after another, is what substitution makes of the text. -/
theorem exists_results_of_cut (h : ds.Cut text ps) :
    ∃ parts, ps.mapM (Piece.result ds) = some parts ∧ ds.expand text = parts.flatten := by
  induction text using expand.induct ds generalizing ps with
  | case1 =>
    rw [cut_nil_iff.1 h]
    exact ⟨[], rfl, by rw [expand]; rfl⟩
  | case2 c cs d hd ih =>
    obtain ⟨rest, rfl, hrest⟩ := (cut_cons_of_some hd).1 h
    obtain ⟨parts, hparts, hexpand⟩ := ih hrest
    refine ⟨d.value.toList :: parts, ?_, ?_⟩
    · simp [Piece.result, value?_of_earliest? hd, hparts]
    · simp only [expand, hd, hexpand, List.flatten_cons]
  | case3 c cs hno ih =>
    obtain ⟨rest, rfl, hrest⟩ := (cut_cons_of_none hno).1 h
    obtain ⟨parts, hparts, hexpand⟩ := ih hrest
    refine ⟨[c] :: parts, ?_, ?_⟩
    · simp [Piece.result, hparts]
    · simp only [expand, hno, hexpand, List.flatten_cons, List.singleton_append]

/-- Every placeholder in a cut is that of a define which stands for its name. -/
theorem value?_of_mem_cut (h : ds.Cut text ps) (hd : .placeholder d ∈ ps) :
    ds.value? d.name = some d.value := by
  induction h with
  | nil => cases hd
  | char _ _ ih =>
    rcases List.mem_cons.1 hd with hd | hd
    · cases hd
    · exact ih hd
  | placeholder he _ ih =>
    rcases List.mem_cons.1 hd with hd | hd
    · cases hd
      exact value?_of_earliest? (isEarliest_iff.1 he)
    · exact ih hd

/-! ## Names -/

/-- Which placeholder is found depends on the names alone. -/
theorem map_name_earliest? (ds : Defines) (text : List Char) :
    (ds.earliest? text).map Define.name
      = (ds.toList.map Define.name).find? fun name =>
          (Define.sigil :: name.toList).isPrefixOf text := by
  rw [List.find?_map, earliest?]
  simp only [Function.comp_def, Define.startsAt, Define.toList_placeholder]

/-- Defines of the same names, whatever their values, cut a text at the same places. -/
theorem source_eq_of_cut {others : Defines} {qs : List Piece}
    (hnames : others.toList.map Define.name = ds.toList.map Define.name) (h : ds.Cut text ps)
    (h' : others.Cut text qs) : qs.map Piece.source = ps.map Piece.source := by
  induction text using expand.induct ds generalizing ps qs with
  | case1 => rw [cut_nil_iff.1 h, cut_nil_iff.1 h']
  | case2 c cs d hd ih =>
    have hsame : (others.earliest? (c :: cs)).map Define.name = some d.name := by
      rw [map_name_earliest?, hnames, ← map_name_earliest?, hd, Option.map_some]
    obtain ⟨e, he, hn⟩ := Option.map_eq_some_iff.1 hsame
    obtain ⟨rest, rfl, hrest⟩ := (cut_cons_of_some hd).1 h
    obtain ⟨rest', rfl, hrest'⟩ := (cut_cons_of_some he).1 h'
    rw [hn] at hrest'
    rw [List.map_cons, List.map_cons, ih hrest hrest', Piece.source, Piece.source,
      Define.placeholder_inj.2 hn]
  | case3 c cs hno ih =>
    have hsame : (others.earliest? (c :: cs)).map Define.name = none := by
      rw [map_name_earliest?, hnames, ← map_name_earliest?, hno, Option.map_none]
    obtain ⟨rest, rfl, hrest⟩ := (cut_cons_of_none hno).1 h
    obtain ⟨rest', rfl, hrest'⟩ := (cut_cons_of_none (Option.map_eq_none_iff.1 hsame)).1 h'
    rw [List.map_cons, List.map_cons, ih hrest hrest']

/-- Substitution by defines registered one after another. There is just one way to cut the text into
characters where no placeholder starts and placeholders of the earliest define where one does. The
table of values has for each of these placeholders the value with which its name was first
registered, and the text with that value in place of each is the result. Values are not looked at
for the cutting: with any others it comes out the same. -/
theorem substitute_ofPairs (pairs : List (String × String)) (text : String) :
    ∃ ps, (ofPairs pairs).Cut text.toList ps ∧
      (∀ qs, (ofPairs pairs).Cut text.toList qs → qs = ps) ∧
      ps.flatMap Piece.source = text.toList ∧
      (∀ d, .placeholder d ∈ ps → ∃ value, pairs.lookup d.name = some value ∧
        (ofPairs pairs).values.find? d.placeholder = some value) ∧
      (∃ parts, ps.mapM (Piece.result (ofPairs pairs)) = some parts ∧
        (ofPairs pairs).substitute text = String.ofList parts.flatten) ∧
      ∀ others qs, others.map Prod.fst = pairs.map Prod.fst →
        (ofPairs others).Cut text.toList qs → qs.map Piece.source = ps.map Piece.source := by
  obtain ⟨ps, hcut, hunique⟩ := (ofPairs pairs).existsUnique_cut text.toList
  obtain ⟨parts, hparts, hexpand⟩ := exists_results_of_cut hcut
  refine ⟨ps, hcut, hunique, hcut.source_eq, ?_, ⟨parts, hparts, ?_⟩, ?_⟩
  · intro d hd
    have hvalue := value?_of_mem_cut hcut hd
    refine ⟨d.value, ?_, ?_⟩
    · rw [← value?_ofPairs, hvalue]
    · rw [find?_values, hvalue]
  · rw [substitute, hexpand]
  · intro others qs hnames hqs
    refine source_eq_of_cut ?_ hcut hqs
    simpa [toList_ofPairs, Function.comp_def] using hnames

/-- Names that extend each other, one of them given twice and one empty, and values that look like
placeholders. -/
def overlapping : List (String × String) :=
  [("IP", "$IPS"), ("IPS", "lost"), ("IP", "late"), ("", "$IP")]

theorem substitute_overlapping :
    (ofPairs overlapping).Cut "$IPS$".toList
      [.placeholder ⟨"IP", "$IPS"⟩, .char 'S', .placeholder ⟨"", "$IP"⟩] ∧
    (∀ qs, (ofPairs overlapping).Cut "$IPS$".toList qs →
      qs = [.placeholder ⟨"IP", "$IPS"⟩, .char 'S', .placeholder ⟨"", "$IP"⟩]) ∧
    (ofPairs overlapping).substitute "$IPS$" = "$IPSS$IP" := by
  have hcut : (ofPairs overlapping).Cut "$IPS$".toList
      [.placeholder ⟨"IP", "$IPS"⟩, .char 'S', .placeholder ⟨"", "$IP"⟩] := by
    have hip : (ofPairs overlapping).earliest? ['$', 'I', 'P', 'S', '$'] = some ⟨"IP", "$IPS"⟩ := by
      decide +kernel
    have hs : (ofPairs overlapping).earliest? ['S', '$'] = none := by decide +kernel
    have hempty : (ofPairs overlapping).earliest? ['$'] = some ⟨"", "$IP"⟩ := by decide +kernel
    exact (cut_cons_of_some hip).2 ⟨_, rfl, (cut_cons_of_none hs).2 ⟨_, rfl,
      (cut_cons_of_some hempty).2 ⟨_, rfl, .nil⟩⟩⟩
  obtain ⟨ps, -, hunique, -, -, ⟨parts, hparts, hsubstitute⟩, -⟩ :=
    substitute_ofPairs overlapping "$IPS$"
  rw [← hunique _ hcut] at hparts
  have hvalues : some ["$IPS".toList, ['S'], "$IP".toList] = some parts := by
    rw [← hparts]
    decide +kernel
  refine ⟨hcut, fun qs hqs => (hunique qs hqs).trans (hunique _ hcut).symm, ?_⟩
  rw [hsubstitute, ← Option.some.inj hvalues]
  decide +kernel

end Defines

end NftStore
