import NftStore.Catalog
import NftStore.Family

/-!
Defines: named values that stand for a placeholder, `$` and the name, in rule texts, set types and
element keys. A text is scanned once from the left. At each position the earliest registered define
whose placeholder starts there is replaced by its value, and the value is not scanned again. That is
the value which a table of values by placeholder has for it (`find?_values_of_earliest?`).
-/
namespace NftStore

/-- A name and the value that its placeholder stands for. -/
structure Define where
  name : String
  value : String
deriving DecidableEq, Repr

namespace Define

/-- The character that starts every placeholder. -/
def sigil : Char := '$'

/-- What is written in a text to have the value put there. -/
def placeholder (d : Define) : String :=
  String.ofList (sigil :: d.name.toList)

/-- The placeholder stands at the start of the text. -/
def startsAt (d : Define) (text : List Char) : Bool :=
  d.placeholder.toList.isPrefixOf text

theorem toList_placeholder (d : Define) : d.placeholder.toList = sigil :: d.name.toList :=
  String.toList_ofList

theorem placeholder_inj {d e : Define} : d.placeholder = e.placeholder ↔ d.name = e.name := by
  rw [← String.toList_inj, toList_placeholder, toList_placeholder,
    List.cons_inj_right, String.toList_inj]

end Define

/-- Defines in the order in which they were registered. -/
structure Defines where
  toList : List Define
deriving DecidableEq, Repr

namespace Defines

/-- No defines at all. -/
def empty : Defines := ⟨[]⟩

/-- Registers a name once more; an earlier define of that name stays in force. -/
def define (ds : Defines) (name value : String) : Defines :=
  ⟨ds.toList ++ [⟨name, value⟩]⟩

/-- Registers pairs of name and value one after another. -/
def defineAll (ds : Defines) (pairs : List (String × String)) : Defines :=
  pairs.foldl (fun ds pair => ds.define pair.1 pair.2) ds

/-- Registers pairs of name and value, from none. -/
def ofPairs (pairs : List (String × String)) : Defines :=
  empty.defineAll pairs

/-- The defines that a table of a family starts with. The `inet` family has none, for it is open
which of the two address types is meant. -/
def forFamily : Family → Defines
  | .ip => ofPairs [("IP", "ip"), ("INET_ADDR", "ipv4_addr")]
  | .ip6 => ofPairs [("IP", "ip6"), ("INET_ADDR", "ipv6_addr")]
  | _ => empty

/-- The defines for a family given as a word, none if there is no such family. -/
def forWord (word : String) : Defines :=
  ((Family.ofText? word).map forFamily).getD empty

/-- The value under which a name was first registered. -/
def value? (ds : Defines) (name : String) : Option String :=
  (ds.toList.find? fun d => d.name == name).map Define.value

/-- The table of values: under each placeholder the value that was given for it first. -/
def values (ds : Defines) : Catalog String :=
  ds.toList.foldl (fun table d => table.add d.placeholder d.value) .empty

/-- The earliest registered define whose placeholder starts the text. -/
def earliest? (ds : Defines) (text : List Char) : Option Define :=
  ds.toList.find? fun d => d.startsAt text

/-- The text with every placeholder replaced. A match takes the sigil and the name with it. -/
def expand (ds : Defines) : List Char → List Char
  | [] => []
  | c :: cs =>
    match ds.earliest? (c :: cs) with
    | some d => d.value.toList ++ expand ds (cs.drop d.name.length)
    | none => c :: expand ds cs
termination_by text => text.length

/-- The text with every placeholder replaced. -/
def substitute (ds : Defines) (text : String) : String :=
  String.ofList (ds.expand text.toList)

/-- The table has for every placeholder the value under which its name was first registered. -/
theorem find?_values (ds : Defines) (d : Define) :
    ds.values.find? d.placeholder = ds.value? d.name := by
  have key : ∀ (l : List Define) (table : Catalog String),
      (l.foldl (fun table d => table.add d.placeholder d.value) table).find? d.placeholder
        = (table.find? d.placeholder).or
            ((l.find? fun e => e.name == d.name).map Define.value) := by
    intro l
    induction l with
    | nil => simp
    | cons e l ih =>
      intro table
      rw [List.foldl_cons, ih, Catalog.find?_add]
      by_cases h : d.placeholder = e.placeholder
      · have hn : e.name = d.name := (Define.placeholder_inj.1 h).symm
        cases ht : table.find? e.placeholder <;> simp [h, hn, ht]
      · have hn : ¬ e.name = d.name := fun hn => h (Define.placeholder_inj.2 hn.symm)
        simp [h, hn]
  rw [values, key, value?]
  simp

section
variable {ds : Defines} {d : Define} {text : List Char}

/-- No define before the earliest has its name, so that it is the one whose value counts. -/
theorem value?_of_earliest? (h : ds.earliest? text = some d) : ds.value? d.name = some d.value := by
  obtain ⟨hd, before, after, hds, hbefore⟩ := List.find?_eq_some_iff_append.1 h
  have hfind : ds.toList.find? (fun e => e.name == d.name) = some d := by
    refine List.find?_eq_some_iff_append.2 ⟨by simp, before, after, hds, fun e he => ?_⟩
    have hne : e.name ≠ d.name := by
      intro hn
      have hno : ¬ e.startsAt text := by simpa using hbefore e he
      refine hno ?_
      rw [Define.startsAt, Define.placeholder_inj.2 hn]
      exact hd
    simpa using hne
  rw [value?, hfind, Option.map_some]

/-- What is put in for a placeholder is what the table of values has for it. -/
theorem find?_values_of_earliest? (h : ds.earliest? text = some d) :
    ds.values.find? d.placeholder = some d.value := by
  rw [find?_values, value?_of_earliest? h]

end

end Defines

end NftStore
