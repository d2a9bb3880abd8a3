import NftStore.Verb

/-!
The objects that operations are about: tables, chains, rules, sets, maps and elements. Fields that
a client may leave out are optional. An unset text and an empty one mostly mean the same, and
`filled` is the test for it; numbers and handles only count as unset when they are.
-/
namespace NftStore

/-- A table. Its family and name belong to the store that holds it. -/
structure Table where
  family : Option String
  name : Option String
  comment : Option String
  handle : Option Int
deriving DecidableEq, Repr

/-- A chain; one with a type and a hook is a base chain. -/
structure Chain where
  name : String
  type : Option String
  hook : Option String
  priority : Option String
  device : Option String
  comment : Option String
  handle : Option Int
deriving DecidableEq, Repr

/-- A rule in a chain, known by its handle once it is stored. -/
structure Rule where
  chain : String
  rule : Option String
  comment : Option String
  index : Option Int
  handle : Option Int
deriving DecidableEq, Repr

/-- What there is to say about a set or a map. The type of a map names the types of key and
value. -/
structure SetSpec where
  name : String
  type : Option String
  typeof : Option String
  flags : Option (List String)
  timeout : Option Int
  gcInterval : Option Int
  size : Option Int
  policy : Option String
  autoMerge : Option Bool
  comment : Option String
  handle : Option Int
deriving DecidableEq, Repr

/-- An element of a set, with a key alone, or of a map, with a key and a value. -/
structure Element where
  name : String
  key : String
  value : Option String
  comment : Option String
deriving DecidableEq, Repr

/-- The two containers of elements. -/
inductive SetKind
  | set
  | map
deriving DecidableEq, Repr

/-- The kinds of object. -/
inductive Kind
  | table
  | chain
  | rule
  | set
  | map
  | element
  | counter
  | object
deriving DecidableEq, Repr

/-- An object of any kind. A counter can be queued, but no store holds counters. A bare object is
of no concrete kind: it can be neither judged nor written. -/
inductive Object
  | table (t : Table)
  | chain (c : Chain)
  | rule (r : Rule)
  | set (kind : SetKind) (s : SetSpec)
  | element (e : Element)
  | counter (name : Option String)
  | bare
deriving DecidableEq, Repr

/-- The text unless it is unset or empty. -/
def filled (text : Option String) : Option String :=
  text.filter (· ≠ "")

/-- The kind of object that a container is. -/
def SetKind.kind : SetKind → Kind
  | .set => .set
  | .map => .map

/-- The word for a kind in operation lines and messages. -/
def Kind.text : Kind → String
  | .table => "table"
  | .chain => "chain"
  | .rule => "rule"
  | .set => "set"
  | .map => "map"
  | .element => "element"
  | .counter => "counter"
  | .object => "object"

/-- The name of a kind in descriptions of objects. -/
def Kind.label : Kind → String
  | .table => "Table"
  | .chain => "Chain"
  | .rule => "Rule"
  | .set => "Set"
  | .map => "Map"
  | .element => "Element"
  | .counter => "Counter"
  | .object => "NftablesObject"

/-- The verbs that objects of a kind have. No kind can be created, only added. -/
def Kind.verbs : Kind → List Verb
  | .table | .chain | .set | .map => [.add, .flush, .delete]
  | .rule | .element => [.add, .delete]
  | .counter | .object => []

/-- Nothing can be created, and rules and elements cannot be flushed. -/
theorem Kind.mem_verbs_iff {kind : Kind} {verb : Verb} : verb ∈ kind.verbs ↔
    (kind ≠ .counter ∧ kind ≠ .object) ∧
      (verb = .add ∨ verb = .delete ∨ verb = .flush ∧ kind ≠ .rule ∧ kind ≠ .element) := by
  cases kind <;> cases verb <;> simp [verbs]

/-- The kind of an object. -/
def Object.kind : Object → Kind
  | .table _ => .table
  | .chain _ => .chain
  | .rule _ => .rule
  | .set kind _ => kind.kind
  | .element _ => .element
  | .counter _ => .counter
  | .bare => .object

/-- The container that an element belongs to: a map if it has a value, else a set. -/
def Element.container (e : Element) : SetKind :=
  if (filled e.value).isSome then .map else .set

/-- An operation of a queue. -/
structure Operation where
  verb : Verb
  object : Object
deriving DecidableEq, Repr

end NftStore
