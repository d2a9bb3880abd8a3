import NftStore.Proofs.Consistency
import NftStore.Proofs.LastWrite

/-!
Keys of several parts. The separator begins with a space, so in a key whose parts hold no space the
cuts from the left are just where the parts were joined, also where parts are empty or dots and the
separators stand close together. So the parts are told by the key, and an element that is found by
its parts is the one in the container whose key is cut into them.
-/
namespace NftStore

namespace Key

variable {c : Char} {cs part : List Char} {parts others : List String} {key : String}

/-! ## Cutting characters -/

theorem splitChars_ne_nil (cs : List Char) : splitChars cs ≠ [] := by
  unfold splitChars
  split
  · exact List.cons_ne_nil _ _
  · exact List.cons_ne_nil _ _
  · split <;> exact List.cons_ne_nil _ _

/-- A character that begins no separator is the first of the first part. -/
theorem splitChars_cons (h : ∀ rest, c :: cs ≠ separator.toList ++ rest) :
    splitChars (c :: cs) = (splitChars cs).modifyHead (c :: ·) := by
  rw [splitChars]
  · cases hcs : splitChars cs with
    | nil => exact absurd hcs (splitChars_ne_nil cs)
    | cons part parts => rfl
  · rintro rest rfl rfl
    exact h rest rfl

theorem splitChars_cons_of_ne_space (h : c ≠ ' ') :
    splitChars (c :: cs) = (splitChars cs).modifyHead (c :: ·) :=
  splitChars_cons fun _ he => h (List.cons.inj he).1

theorem splitChars_separator_append (cs : List Char) :
    splitChars (separator.toList ++ cs) = [] :: splitChars cs := rfl

theorem splitChars_of_no_space (h : ' ' ∉ part) : splitChars part = [part] := by
  induction part with
  | nil => rfl
  | cons c part ih =>
    rw [List.mem_cons, not_or] at h
    rw [splitChars_cons_of_ne_space (Ne.symm h.1), ih h.2]
    rfl

/-- A part without spaces goes up to the separator behind it. -/
theorem splitChars_append_separator (h : ' ' ∉ part) (cs : List Char) :
    splitChars (part ++ (separator.toList ++ cs)) = part :: splitChars cs := by
  induction part with
  | nil => exact splitChars_separator_append cs
  | cons c part ih =>
    rw [List.mem_cons, not_or] at h
    rw [List.cons_append, splitChars_cons_of_ne_space (Ne.symm h.1), ih h.2]
    rfl

theorem splitChars_intercalate {parts : List (List Char)} (hne : parts ≠ [])
    (h : ∀ part ∈ parts, ' ' ∉ part) :
    splitChars (separator.toList.intercalate parts) = parts := by
  induction parts with
  | nil => exact absurd rfl hne
  | cons part parts ih =>
    obtain ⟨hpart, hparts⟩ := List.forall_mem_cons.1 h
    cases parts with
    | nil => simpa using splitChars_of_no_space hpart
    | cons next parts =>
      rw [List.intercalate_cons_cons, List.append_assoc, splitChars_append_separator hpart,
        ih (List.cons_ne_nil _ _) hparts]

/-- Nothing is lost by cutting. -/
theorem intercalate_splitChars (cs : List Char) :
    separator.toList.intercalate (splitChars cs) = cs := by
  fun_induction splitChars cs with
  | case1 => exact List.intercalate_singleton
  | case2 cs ih =>
    rw [List.intercalate_cons_of_ne_nil (splitChars_ne_nil cs), ih]
    rfl
  | case3 c cs _ hcs ih => exact absurd hcs (splitChars_ne_nil cs)
  | case4 c cs _ part parts hcs ih =>
    rw [hcs] at ih
    cases parts with
    | nil =>
      rw [List.intercalate_singleton] at ih ⊢
      rw [ih]
    | cons next parts =>
      rw [List.intercalate_cons_cons] at ih ⊢
      rw [← ih]
      rfl

/-! ## Parts of a key -/

/-- The parts that are told by their key: at least one, and none with a space in it. -/
structure Separable (parts : List String) : Prop where
  ne_nil : parts ≠ []
  no_space : ∀ part ∈ parts, ' ' ∉ part.toList

instance (parts : List String) : Decidable (Separable parts) :=
  decidable_of_iff (parts ≠ [] ∧ ∀ part ∈ parts, ' ' ∉ part.toList)
    ⟨fun ⟨hne, hspace⟩ => ⟨hne, hspace⟩, fun h => ⟨h.ne_nil, h.no_space⟩⟩

theorem toList_join (parts : List String) :
    (join parts).toList = separator.toList.intercalate (parts.map String.toList) := by
  rw [join_eq_intercalate, String.toList_intercalate]
  rfl

theorem split_join (h : Separable parts) : split (join parts) = parts := by
  have hne : parts.map String.toList ≠ [] := mt List.map_eq_nil_iff.1 h.ne_nil
  have hspace : ∀ part ∈ parts.map String.toList, ' ' ∉ part := by
    intro part hpart
    obtain ⟨s, hs, rfl⟩ := List.mem_map.1 hpart
    exact h.no_space s hs
  rw [split, toList_join, splitChars_intercalate hne hspace, List.map_map]
  simp [Function.comp_def]

theorem join_split (key : String) : join (split key) = key := by
  have hparts : (split key).map String.toList = splitChars key.toList := by
    simp [split, Function.comp_def]
  rw [← String.toList_inj, toList_join, hparts, intercalate_splitChars]

theorem split_eq_iff (h : Separable parts) : split key = parts ↔ key = join parts := by
  constructor
  · rintro rfl
    exact (join_split key).symm
  · rintro rfl
    exact split_join h

theorem join_eq_join_iff (h : Separable parts) (ho : Separable others) :
    join parts = join others ↔ parts = others := by
  rw [← split_eq_iff ho, split_join h]

/-- With a space in a part, or with no parts at all, a key does not tell its parts. -/
example : join ["10.0.0.1 . tcp"] = join ["10.0.0.1", "tcp"] ∧ join [] = join [""] := by
  decide

end Key

/-- An element is found by separable parts if it is there and its key is cut into them. -/
theorem SetEntry.findElement_eq_some_iff_split {entry : SetEntry}
    (hkeys : (entry.elements.map Element.key).Nodup) {parts : List String}
    (h : Key.Separable parts) {e : Element} :
    entry.findElement parts = some e ↔ e ∈ entry.elements ∧ Key.split e.key = parts := by
  rw [findElement_eq_some_iff hkeys, ← Key.join_eq_intercalate, Key.split_eq_iff h]

/-- Parts without spaces can be told from the key that they are joined to, which is cut into just
these parts, so that no two lists of them have a key in common. In whatever set or map a client has
made, an element is found by such parts exactly if its key is cut into them, and the one found by
other parts is another element. -/
theorem Store.found_by_parts :
    (∀ parts, Key.Separable parts → Key.split (Key.join parts) = parts ∧
      ∀ others, Key.Separable others → (Key.join parts = Key.join others ↔ parts = others)) ∧
    ∀ s : Store, s.Reachable → ∀ kind name entry, s.container? kind name = some entry →
      ∀ parts, Key.Separable parts →
        (∀ e, entry.findElement parts = some e ↔
          e ∈ entry.elements ∧ Key.split e.key = parts) ∧
        ∀ others, Key.Separable others → ∀ e e', entry.findElement parts = some e →
          entry.findElement others = some e' → (e = e' ↔ parts = others) := by
  refine ⟨fun parts h => ⟨Key.split_join h, fun others ho => Key.join_eq_join_iff h ho⟩, ?_⟩
  intro s hs kind name entry he parts h
  obtain ⟨c, hc, hf⟩ := Option.bind_eq_some_iff.1 he
  have hentry : entry.Consistent name :=
    hs.isConsistent.entries c hc ⟨.containers kind, name⟩ entry hf
  have hkeys := hentry.keys
  refine ⟨fun e => SetEntry.findElement_eq_some_iff_split hkeys h, ?_⟩
  intro others ho e e' hfound hfound'
  obtain ⟨-, hsplit⟩ := (SetEntry.findElement_eq_some_iff_split hkeys h).1 hfound
  obtain ⟨-, hsplit'⟩ := (SetEntry.findElement_eq_some_iff_split hkeys ho).1 hfound'
  constructor
  · rintro rfl
    exact hsplit.symm.trans hsplit'
  · rintro rfl
    exact Option.some.inj (hfound.symm.trans hfound')

/-- A set with keys of several parts, among them dots and empty ones. -/
def concatenating : List Event :=
  [.run (Transaction.empty.queueAll
     [⟨.add, .table ⟨none, none, none, none⟩⟩,
      ⟨.add, .set .set
        ⟨"ports", some "ipv4_addr . inet_service", none, none, none, none, none, none, none, none,
          none⟩⟩,
      ⟨.add, .element ⟨"ports", Key.join ["10.0.0.1", "80"], none, none⟩⟩,
      ⟨.add, .element ⟨"ports", Key.join ["", ".", ""], none, none⟩⟩,
      ⟨.add, .element ⟨"ports", Key.join ["", "", ""], none, none⟩⟩]).1]

/-- The set that `concatenating` leaves. -/
def concatenated : SetEntry where
  record :=
    ⟨"ports", some "ipv4_addr . inet_service", none, none, none, none, none, none, none, none,
      some 2⟩
  elements := [⟨"ports", "10.0.0.1 . 80", none, none⟩, ⟨"ports", " . . . ", none, none⟩,
    ⟨"ports", " .  . ", none, none⟩]

theorem found_concatenated :
    ((Store.new .inet "filter").replay concatenating).container? .set "ports" = some concatenated ∧
    concatenated.findElement ["", ".", ""] = some ⟨"ports", " . . . ", none, none⟩ ∧
    concatenated.findElement ["", "", ""] = some ⟨"ports", " .  . ", none, none⟩ ∧
    Key.join ["", ".", ""] ≠ Key.join ["", "", ""] ∧
    (⟨"ports", " . . . ", none, none⟩ : Element) ≠ ⟨"ports", " .  . ", none, none⟩ := by
  obtain ⟨hjoin, hfind⟩ := Store.found_by_parts
  have hs : ((Store.new .inet "filter").replay concatenating).Reachable :=
    (Store.Reachable.new .inet "filter").replay concatenating
  have he : ((Store.new .inet "filter").replay concatenating).container? .set "ports"
      = some concatenated := by
    decide +kernel
  have hdot : Key.Separable ["", ".", ""] := by decide
  have hempty : Key.Separable ["", "", ""] := by decide
  have hne : ["", ".", ""] ≠ ["", "", ""] := by decide
  obtain ⟨hfound, hother⟩ := hfind _ hs .set "ports" _ he _ hdot
  have hfoundDot := (hfound ⟨"ports", " . . . ", none, none⟩).2 (by decide)
  have hfoundEmpty := ((hfind _ hs .set "ports" _ he _ hempty).1
    ⟨"ports", " .  . ", none, none⟩).2 (by decide)
  exact ⟨he, hfoundDot, hfoundEmpty, mt ((hjoin _ hdot).2 _ hempty).1 hne,
    mt (hother _ hempty _ _ hfoundDot hfoundEmpty).1 hne⟩

end NftStore
