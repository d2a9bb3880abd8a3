import Mathlib.Data.Option.Basic
import NftStore.Object.Fields
import NftStore.Object.Line
import NftStore.Proofs.LineReading

/-!
Written forms on one line. A text is on one line if there is no line feed in it, and so is what is
put together from such texts. So the written form of an object that is added has one line feed, at
its end, if no text of the object has any; and lines of this kind are told apart by their line feeds
when they are written one after another (`splitLines_join`).
-/
namespace NftStore

/-! ## Texts on one line -/

namespace Text

/-- There is no line feed in the text. -/
def OneLine (text : String) : Prop :=
  '\n' ∉ text.toList

instance (text : String) : Decidable (OneLine text) :=
  inferInstanceAs (Decidable ('\n' ∉ text.toList))

variable {a b text : String} {parts : List String}

@[simp] theorem oneLine_append : OneLine (a ++ b) ↔ OneLine a ∧ OneLine b := by
  simp [OneLine, not_or]

theorem oneLine_join (h : ∀ part ∈ parts, OneLine part) : OneLine (String.join parts) := by
  rw [OneLine, String.toList_join, List.mem_flatMap]
  rintro ⟨part, hpart, hfeed⟩
  exact h part hpart hfeed

/-- What is put together with separators has no characters but theirs and those of its parts. -/
theorem not_mem_intercalate {c : Char} (ha : c ∉ a.toList) (h : ∀ part ∈ parts, c ∉ part.toList) :
    c ∉ (a.intercalate parts).toList := by
  induction parts with
  | nil => simp
  | cons part rest ih =>
    have hrest := ih fun p hp => h p (List.mem_cons_of_mem _ hp)
    have hpart := h part List.mem_cons_self
    cases rest with
    | nil => simpa using hpart
    | cons next rest =>
      rw [String.intercalate_cons_cons, String.toList_append, String.toList_append]
      simp only [List.mem_append, not_or]
      exact ⟨⟨hpart, ha⟩, hrest⟩

/-- A number is written in digits, perhaps with a sign. -/
theorem not_mem_number {c : Char} (hd : c.isDigit = false) (hs : c ≠ '-') (n : Int) :
    c ∉ (toString n).toList := by
  have hdigits : ∀ m : Nat, c ∉ m.repr.toList := by
    intro m hc
    rw [Nat.repr, String.toList_ofList] at hc
    have hdigit := Nat.isDigit_of_mem_toDigits (by decide) (by decide) hc
    rw [hd] at hdigit
    cases hdigit
  rw [Int.toString_eq_repr, Int.repr_eq_if]
  split
  · exact hdigits _
  · rw [String.toList_append, List.mem_append, not_or]
    exact ⟨by simpa using hs, hdigits _⟩

theorem oneLine_intercalate (ha : OneLine a) (h : ∀ part ∈ parts, OneLine part) :
    OneLine (a.intercalate parts) :=
  not_mem_intercalate ha h

theorem mem_escape {cs : List Char} {c : Char} (h : c ∈ Quoted.escape cs) :
    c = '\\' ∨ c ∈ cs := by
  induction cs with
  | nil => cases h
  | cons d cs ih =>
    rw [Quoted.escape] at h
    split at h
    · rename_i hd
      subst hd
      rcases List.mem_cons.1 h with rfl | h
      · exact .inl rfl
      · rcases List.mem_cons.1 h with rfl | h
        · exact .inr List.mem_cons_self
        · exact (ih h).imp_right (List.mem_cons_of_mem _)
    · rcases List.mem_cons.1 h with rfl | h
      · exact .inr List.mem_cons_self
      · exact (ih h).imp_right (List.mem_cons_of_mem _)

theorem oneLine_quote (h : OneLine text) : OneLine (quote text) := by
  intro hfeed
  rw [quote, String.toList_ofList, List.mem_append, List.mem_cons, List.mem_singleton] at hfeed
  rcases hfeed with (hmark | hfeed) | hmark
  · exact absurd hmark (by decide)
  · rcases mem_escape hfeed with hslash | hin
    · exact absurd hslash (by decide)
    · exact h hin
  · exact absurd hmark (by decide)

theorem oneLine_number (n : Int) : OneLine (toString n) :=
  not_mem_number (by decide) (by decide) n

/-- The text adds something: it starts with the verb and is on one line. -/
structure IsAdd (text : String) : Prop where
  oneLine : OneLine text
  verb : "add ".toList <+: text.toList

theorem IsAdd.append (ha : IsAdd a) (hb : OneLine b) : IsAdd (a ++ b) := by
  refine ⟨oneLine_append.2 ⟨ha.oneLine, hb⟩, ha.verb.trans ?_⟩
  rw [String.toList_append]
  exact List.prefix_append _ _

/-- The line adds something, and its one line feed ends it. -/
def IsAddLine (line : String) : Prop :=
  ∃ text, line = text ++ "\n" ∧ IsAdd text

theorem IsAddLine.toList_eq {line : String} (h : IsAddLine line) :
    ∃ cs, line.toList = cs ++ ['\n'] ∧ '\n' ∉ cs ∧ "add ".toList <+: cs := by
  obtain ⟨text, rfl, htext⟩ := h
  exact ⟨text.toList, String.toList_append, htext.oneLine, htext.verb⟩

/-- Lines that add something, written one after another, are told apart by their line feeds. -/
theorem splitLines_join (h : ∀ line ∈ parts, IsAddLine line) :
    splitLines (String.join parts).toList = parts.map String.toList := by
  rw [String.toList_join]
  induction parts with
  | nil => rfl
  | cons line rest ih =>
    obtain ⟨cs, hline, hcs, -⟩ := (h line List.mem_cons_self).toList_eq
    rw [List.flatMap_cons, List.map_cons, hline, List.append_assoc, List.singleton_append,
      splitLines_append hcs, ih fun l hl => h l (List.mem_cons_of_mem _ hl)]

/-- There are as many line feeds as lines. -/
theorem count_join (h : ∀ line ∈ parts, IsAddLine line) :
    (String.join parts).toList.count '\n' = parts.length := by
  rw [String.toList_join]
  induction parts with
  | nil => rfl
  | cons line rest ih =>
    obtain ⟨cs, hline, hcs, -⟩ := (h line List.mem_cons_self).toList_eq
    have hcount : line.toList.count '\n' = 1 := by
      rw [hline, List.count_append, List.count_eq_zero.2 hcs, List.count_singleton_self]
    rw [List.flatMap_cons, List.count_append, hcount,
      ih fun l hl => h l (List.mem_cons_of_mem _ hl), List.length_cons, Nat.add_comm]

/-- The last line feed is at the end. -/
theorem getLast?_join (h : ∀ line ∈ parts, IsAddLine line) (hne : parts ≠ []) :
    (String.join parts).toList.getLast? = some '\n' := by
  obtain ⟨before, line, rfl⟩ := (List.eq_nil_or_concat' parts).resolve_left hne
  obtain ⟨cs, hline, -, -⟩ := (h line (by simp)).toList_eq
  rw [String.toList_join, List.flatMap_append, List.flatMap_singleton, hline, ← List.append_assoc,
    List.getLast?_concat]

end Text

open Text (IsAddLine)

/-! ## Objects without line feeds -/

/-- No text in the value has a line feed. -/
def FieldValue.OneLine : FieldValue → Prop
  | text s => Text.OneLine s
  | texts ss => ∀ s ∈ ss, Text.OneLine s
  | number _ | flag _ => True

instance : (v : FieldValue) → Decidable v.OneLine
  | .text s => inferInstanceAs (Decidable (Text.OneLine s))
  | .texts ss => inferInstanceAs (Decidable (∀ s ∈ ss, Text.OneLine s))
  | .number _ | .flag _ => inferInstanceAs (Decidable True)

/-- No text field of the object has a line feed, and no flag of a set or map. -/
def Object.OneLine (o : Object) : Prop :=
  ∀ f ∈ o.fields, ∀ v ∈ f.2, v.OneLine

instance (o : Object) : Decidable o.OneLine :=
  inferInstanceAs (Decidable (∀ f ∈ o.fields, ∀ v ∈ f.2, v.OneLine))

theorem Object.oneLine_table {t : Table} : (Object.table t).OneLine ↔
    (∀ s ∈ t.family, Text.OneLine s) ∧ (∀ s ∈ t.name, Text.OneLine s) ∧
      ∀ s ∈ t.comment, Text.OneLine s := by
  simp [OneLine, fields, Table.fields, FieldValue.OneLine]

theorem Object.oneLine_chain {c : Chain} : (Object.chain c).OneLine ↔
    Text.OneLine c.name ∧ (∀ s ∈ c.type, Text.OneLine s) ∧ (∀ s ∈ c.hook, Text.OneLine s) ∧
      (∀ s ∈ c.priority, Text.OneLine s) ∧ (∀ s ∈ c.device, Text.OneLine s) ∧
      ∀ s ∈ c.comment, Text.OneLine s := by
  simp [OneLine, fields, Chain.fields, FieldValue.OneLine]

theorem Object.oneLine_rule {r : Rule} : (Object.rule r).OneLine ↔
    Text.OneLine r.chain ∧ (∀ s ∈ r.rule, Text.OneLine s) ∧ ∀ s ∈ r.comment, Text.OneLine s := by
  simp [OneLine, fields, Rule.fields, FieldValue.OneLine]

theorem Object.oneLine_set {kind : SetKind} {s : SetSpec} : (Object.set kind s).OneLine ↔
    Text.OneLine s.name ∧ (∀ t ∈ s.type, Text.OneLine t) ∧ (∀ t ∈ s.typeof, Text.OneLine t) ∧
      (∀ ts ∈ s.flags, ∀ t ∈ ts, Text.OneLine t) ∧ (∀ t ∈ s.policy, Text.OneLine t) ∧
      ∀ t ∈ s.comment, Text.OneLine t := by
  simp only [OneLine, fields, SetSpec.fields, List.forall_mem_cons, Option.forall_mem_map]
  simp [FieldValue.OneLine]

theorem Object.oneLine_element {e : Element} : (Object.element e).OneLine ↔
    Text.OneLine e.name ∧ Text.OneLine e.key ∧ (∀ s ∈ e.value, Text.OneLine s) ∧
      ∀ s ∈ e.comment, Text.OneLine s := by
  simp [OneLine, fields, Element.fields, FieldValue.OneLine]

/-! ## Lines of objects -/

/-- The table is named on one line. -/
structure Target.OneLine (target : Target) : Prop where
  family : Text.OneLine target.family
  table : Text.OneLine target.table

variable {target : Target}

theorem isAdd_opening (ht : target.OneLine) (kind : Kind) :
    Text.IsAdd (target.opening .add kind) := by
  have hkind : Text.OneLine kind.text := by cases kind <;> decide
  have hblank : Text.OneLine " " := by decide
  have hverb : Text.IsAdd ("add" ++ " ") := ⟨by decide, by decide⟩
  exact (((hverb.append hkind).append hblank).append ht.family).append hblank |>.append ht.table

/-- What is there of a text that may be left out. -/
theorem oneLine_toList {α : Type} {o : Option α} {f : α → String}
    (h : ∀ a ∈ o, Text.OneLine (f a)) : ∀ part ∈ (o.map f).toList, Text.OneLine part := by
  intro part hpart
  obtain ⟨a, ha, rfl⟩ := Option.map_eq_some_iff.1 (Option.mem_toList.1 hpart)
  exact h a ha

theorem oneLine_getD {α : Type} {o : Option α} {f : α → String}
    (h : ∀ a ∈ o, Text.OneLine (f a)) : Text.OneLine ((o.map f).getD "") := by
  cases o with
  | none =>
    show Text.OneLine ""
    decide
  | some a => exact h a rfl

theorem oneLine_body {parts : List String} (h : ∀ part ∈ parts, Text.OneLine part) :
    Text.OneLine (body parts) := by
  unfold body
  split
  · decide
  · have hparts := Text.oneLine_intercalate (a := " ; ") (by decide) h
    exact Text.oneLine_append.2 ⟨Text.oneLine_append.2 ⟨by decide, hparts⟩, by decide⟩

theorem mem_of_mem_filled {text : Option String} {s : String} (h : s ∈ filled text) : s ∈ text :=
  (Option.mem_filter_iff.1 h).1

theorem oneLine_commentPart {comment : Option String} (h : ∀ s ∈ comment, Text.OneLine s) :
    ∀ part ∈ commentPart comment, Text.OneLine part := by
  refine oneLine_toList fun s hs => Text.oneLine_append.2 ⟨by decide, ?_⟩
  exact Text.oneLine_quote (h s (mem_of_mem_filled hs))

theorem Table.isAddLine_line {t : Table} (h : ∀ s ∈ t.comment, Text.OneLine s)
    (ht : target.OneLine) : IsAddLine (t.line .add target) :=
  ⟨_, rfl, (isAdd_opening ht .table).append (oneLine_body (oneLine_commentPart h))⟩

theorem Chain.oneLine_basePart {c : Chain} (h : (Object.chain c).OneLine) :
    ∀ part ∈ c.basePart, Text.OneLine part := by
  obtain ⟨-, htype, hhook, hpriority, hdevice, -⟩ := Object.oneLine_chain.1 h
  unfold basePart
  split
  · simp
  · rename_i type hfilled
    have hname : Text.OneLine type := htype type (mem_of_mem_filled hfilled)
    have hhooked : Text.OneLine (c.hook.getD "None") := by
      cases hc : c.hook with
      | none => decide
      | some hook => exact hhook hook hc
    have hquoted : ∀ s ∈ filled c.device, Text.OneLine (Text.quote s) := fun s hs =>
      Text.oneLine_quote (hdevice s (mem_of_mem_filled hs))
    have hdev := oneLine_getD (f := fun device => " device " ++ Text.quote device)
      fun s hs => Text.oneLine_append.2 ⟨by decide, hquoted s hs⟩
    have hprio := oneLine_getD (f := fun priority => " priority " ++ priority)
      fun s hs => Text.oneLine_append.2 ⟨by decide, hpriority s hs⟩
    have hwords : Text.OneLine "type " ∧ Text.OneLine " hook " := by decide
    simp [hwords, hname, hhooked, hdev, hprio]

theorem Chain.isAddLine_line {c : Chain} (h : (Object.chain c).OneLine) (ht : target.OneLine) :
    IsAddLine (c.line .add target) := by
  obtain ⟨hname, -, -, -, -, hcomment⟩ := Object.oneLine_chain.1 h
  have hbody : Text.OneLine (body (c.basePart ++ commentPart c.comment)) :=
    oneLine_body (List.forall_mem_append.2 ⟨c.oneLine_basePart h, oneLine_commentPart hcomment⟩)
  exact ⟨_, rfl, (((isAdd_opening ht .chain).append (by decide)).append hname).append hbody⟩

theorem Rule.oneLine_position (r : Rule) : Text.OneLine r.position := by
  unfold position
  split
  · exact Text.oneLine_append.2 ⟨by decide, Text.oneLine_number _⟩
  · exact Text.oneLine_append.2 ⟨by decide, Text.oneLine_number _⟩
  · decide

theorem Rule.isAddLine_line {r : Rule} (h : (Object.rule r).OneLine) (ht : target.OneLine) :
    IsAddLine (r.line .add target) := by
  obtain ⟨hchain, hrule, hcomment⟩ := Object.oneLine_rule.1 h
  have hparts : ∀ part ∈ ((filled r.rule).toList ++ commentPart r.comment).map (" " ++ ·),
      Text.OneLine part := by
    intro part hpart
    obtain ⟨text, htext, rfl⟩ := List.mem_map.1 hpart
    refine Text.oneLine_append.2 ⟨by decide, ?_⟩
    rcases List.mem_append.1 htext with hin | hin
    · exact hrule text (mem_of_mem_filled (Option.mem_toList.1 hin))
    · exact oneLine_commentPart hcomment text hin
  exact ⟨_, rfl, ((((isAdd_opening ht .rule).append (by decide)).append hchain).append
    r.oneLine_position).append (Text.oneLine_join hparts)⟩

theorem SetSpec.oneLine_parts {kind : SetKind} {s : SetSpec} (h : (Object.set kind s).OneLine) :
    ∀ part ∈ s.parts, Text.OneLine part := by
  obtain ⟨-, htype, htypeof, hflags, hpolicy, hcomment⟩ := Object.oneLine_set.1 h
  have htyped : ∀ part ∈ s.typePart, Text.OneLine part := by
    unfold typePart
    split
    · rename_i type hfilled
      simpa using ⟨by decide, htype type (mem_of_mem_filled hfilled)⟩
    · rename_i typeof _ hfilled
      simpa using ⟨by decide, htypeof typeof (mem_of_mem_filled hfilled)⟩
    · simp
  have hflagged : ∀ part ∈ s.flagsPart, Text.OneLine part := by
    unfold flagsPart
    split
    · simp
    · simp
    · rename_i flags _ hf
      have hlist := Text.oneLine_intercalate (a := ",") (by decide) (hflags flags hf)
      simpa using ⟨by decide, hlist⟩
  have hnumber : ∀ (keyword unit : String), Text.OneLine keyword → Text.OneLine unit →
      ∀ n : Int, Text.OneLine (keyword ++ toString n ++ unit) := by
    intro keyword unit hk hu n
    exact Text.oneLine_append.2 ⟨Text.oneLine_append.2 ⟨hk, Text.oneLine_number n⟩, hu⟩
  have hmerge : ∀ part ∈ if s.autoMerge = some true then ["auto-merge"] else [],
      Text.OneLine part := by
    split
    · simpa using (by decide : Text.OneLine "auto-merge")
    · simp
  simp only [parts, List.forall_mem_append]
  refine ⟨⟨⟨⟨⟨⟨⟨htyped, hflagged⟩, ?_⟩, ?_⟩, ?_⟩, ?_⟩, hmerge⟩, oneLine_commentPart hcomment⟩
  · exact oneLine_toList fun n _ => hnumber "timeout " "s" (by decide) (by decide) n
  · exact oneLine_toList fun n _ => hnumber "gc-interval " "s" (by decide) (by decide) n
  · exact oneLine_toList fun n _ => Text.oneLine_append.2 ⟨by decide, Text.oneLine_number n⟩
  · exact oneLine_toList fun t ht =>
      Text.oneLine_append.2 ⟨by decide, hpolicy t (mem_of_mem_filled ht)⟩

theorem SetSpec.isAddLine_line {kind : SetKind} {s : SetSpec} (h : (Object.set kind s).OneLine)
    (ht : target.OneLine) : IsAddLine (s.line kind .add target) := by
  obtain ⟨hname, -⟩ := Object.oneLine_set.1 h
  exact ⟨_, rfl, (((isAdd_opening ht kind.kind).append (by decide)).append hname).append
    (oneLine_body (s.oneLine_parts h))⟩

theorem Element.isAddLine_line {e : Element} (h : (Object.element e).OneLine)
    (ht : target.OneLine) : IsAddLine (e.line .add target) := by
  obtain ⟨hname, hkey, hvalue, hcomment⟩ := Object.oneLine_element.1 h
  have hmapped := oneLine_getD (f := fun value => " : " ++ value)
    fun s hs => Text.oneLine_append.2 ⟨by decide, hvalue s (mem_of_mem_filled hs)⟩
  have hnote : Text.OneLine
      (String.join ((commentPart e.comment).map fun part => " " ++ part)) := by
    refine Text.oneLine_join fun part hpart => ?_
    obtain ⟨text, htext, rfl⟩ := List.mem_map.1 hpart
    exact Text.oneLine_append.2 ⟨by decide, oneLine_commentPart hcomment text htext⟩
  refine ⟨target.opening .add .element ++ " " ++ e.name ++ " \x7b " ++ e.key
    ++ ((filled e.value).map fun value => " : " ++ value).getD ""
    ++ String.join ((commentPart e.comment).map fun part => " " ++ part) ++ " \x7d", ?_, ?_⟩
  · simp only [line, Verb.makes, if_true, String.append_assoc]
    rfl
  · exact ((((((((isAdd_opening ht .element).append (by decide)).append hname).append
      (by decide)).append hkey).append hmapped).append hnote).append (by decide))

end NftStore
