import NftStore.Ini.Document
import NftStore.Text.Literal

/-!
References between options. In a value, `%(name)s` stands for the option of that name and `%%` for
a percent sign. Values that are referred to may themselves refer to others, ten levels deep.
-/
namespace NftStore.Ini

/-- The pieces of a value. The last two are what cannot be read, with the text from there on. -/
inductive Piece
  | char (c : Char)
  | reference (name : String)
  | unclosed (rest : List Char)
  | stray (rest : List Char)
deriving DecidableEq, Repr

/-- A name that is closed by `)s`, and what follows. -/
def reference? (cs : List Char) : Option (List Char × List Char) :=
  match cs.dropWhile (· ≠ ')') with
  | ')' :: 's' :: rest =>
    match cs.takeWhile (· ≠ ')') with
    | [] => none
    | name => some (name, rest)
  | _ => none

theorem length_of_reference? {cs name rest : List Char} (h : reference? cs = some (name, rest)) :
    rest.length < cs.length := by
  have hle := (List.dropWhile_sublist (fun c => decide (c ≠ ')')) (l := cs)).length_le
  unfold reference? at h
  split at h
  · rename_i hd
    split at h
    · simp at h
    · simp only [Option.some.injEq, Prod.mk.injEq] at h
      rw [hd, h.2] at hle
      simp only [List.length_cons] at hle
      omega
  · simp at h

/-- A value cut into pieces, up to the first that cannot be read. -/
def pieces : List Char → List Piece
  | [] => []
  | '%' :: '%' :: cs => .char '%' :: pieces cs
  | '%' :: '(' :: cs =>
    match h : reference? cs with
    | some (name, rest) =>
      have := length_of_reference? h
      .reference (String.ofList name) :: pieces rest
    | none => [.unclosed ('%' :: '(' :: cs)]
  | '%' :: cs => [.stray ('%' :: cs)]
  | c :: cs => .char c :: pieces cs
termination_by cs => cs.length

/-- What is wrong with a value or with one that it refers to. -/
inductive Flaw
  | tooDeep
  | missing (reference : String)
  | unclosed (rest : String)
  | stray (rest : String)
deriving DecidableEq, Repr

/-- The text of pieces, given that of the options referred to. -/
def join (resolve : String → Except Flaw (List Char)) : List Piece → Except Flaw (List Char)
  | [] => .ok []
  | .char c :: rest => (join resolve rest).map (c :: ·)
  | .reference name :: rest =>
    match resolve name with
    | .error flaw => .error flaw
    | .ok cs => (join resolve rest).map (cs ++ ·)
  | .unclosed rest :: _ => .error (.unclosed (String.ofList rest))
  | .stray rest :: _ => .error (.stray (String.ofList rest))

/-- A value with its references replaced, no more levels deep than given. A value without percent
signs costs no level. -/
def expand (lookup : String → Option String) : Nat → List Char → Except Flaw (List Char)
  | 0, _ => .error .tooDeep
  | depth + 1, cs =>
    join
      (fun name =>
        match lookup name with
        | none => .error (.missing name)
        | some value =>
          if value.toList.contains '%' then expand lookup depth value.toList
          else .ok value.toList)
      (pieces cs)

/-- How many levels of references are followed. -/
def maxDepth : Nat := 10

/-- A flaw met in asking for an option, with the value as it is written. -/
structure BadValue where
  sectionName : String
  option : String
  raw : String
  flaw : Flaw
deriving DecidableEq, Repr

/-- The flaw in words. Values that cannot be cut into pieces are shown from the bad place on, the
others as they are written. -/
def BadValue.message (e : BadValue) : String :=
  match e.flaw with
  | .tooDeep =>
    "Recursion limit exceeded in value substitution: option " ++ Text.literal e.option
      ++ " in section " ++ Text.literal e.sectionName
      ++ " contains an interpolation key which cannot be substituted in " ++ toString maxDepth
      ++ " steps. Raw value: " ++ Text.literal e.raw
  | .missing reference =>
    "Bad value substitution: option " ++ Text.literal e.option ++ " in section "
      ++ Text.literal e.sectionName ++ " contains an interpolation key " ++ Text.literal reference
      ++ " which is not a valid option name. Raw value: " ++ Text.literal e.raw
  | .unclosed rest => "bad interpolation variable reference " ++ Text.literal rest
  | .stray rest => "'%' must be followed by '%' or '(', found: " ++ Text.literal rest

namespace Document

/-- A value of a section with its references replaced. -/
def expandValue (d : Document) (sectionName option raw : String) : Except BadValue String :=
  match expand (d.raw? sectionName) maxDepth raw.toList with
  | .ok cs => .ok (String.ofList cs)
  | .error flaw => .error ⟨sectionName, option, raw, flaw⟩

/-- The value of an option in a section, none if it is not set. -/
def value? (d : Document) (sectionName option : String) : Except BadValue (Option String) :=
  match d.raw? sectionName option with
  | none => .ok none
  | some raw => (d.expandValue sectionName option raw).map some

/-- The values of options, in order, up to the first that is bad. -/
def values (d : Document) (sectionName : String) :
    List String → Except BadValue (List (String × String))
  | [] => .ok []
  | option :: rest =>
    match d.value? sectionName option with
    | .error e => .error e
    | .ok value =>
      (d.values sectionName rest).map fun pairs => (value.map fun v => (option, v)).toList ++ pairs

/-- All options that hold in a section with their values. -/
def items (d : Document) (sectionName : String) : Except BadValue (List (String × String)) :=
  d.values sectionName (d.optionNames sectionName)

end Document

end NftStore.Ini
