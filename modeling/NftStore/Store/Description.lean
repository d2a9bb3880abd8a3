import NftStore.Object.Fields
import NftStore.Store.Listing
import NftStore.Transaction

/-!
Descriptions of what a store holds, and single fields of stored records. Chains, sets and maps are
described in the order in which they were added.
-/
namespace NftStore

/-- Descriptions between brackets. -/
def describeList (shown : List String) : String :=
  "[" ++ ", ".intercalate shown ++ "]"

/-- A catalog between braces, each name as a literal before its entry. -/
def Catalog.describe {α : Type} (entries : Catalog α) (shown : α → String) : String :=
  "\x7b" ++ ", ".intercalate (entries.entries.map fun e => Text.literal e.1 ++ ": " ++ shown e.2)
    ++ "\x7d"

/-- The description of a chain gives its record and its rules. -/
def ChainEntry.description (entry : ChainEntry) : String :=
  describe "FakeChain"
    [("chain", (Object.chain entry.record).description),
     ("rules", describeList (entry.rules.map fun r => (Object.rule r).description))]

/-- The description of a set or map starts with its elements. -/
def SetEntry.description (entry : SetEntry) (kind : SetKind) : String :=
  describe ("Fake" ++ kind.kind.label)
    [("elements", describeList (entry.elements.map fun e => (Object.element e).description)),
     (kind.kind.text, (Object.set kind entry.record).description)]

/-- The description of a table gives its record and the three catalogs. -/
def Contents.description (c : Contents) : String :=
  describe "FakeTable"
    [("table", (Object.table c.table).description),
     ("chains", c.chains.describe ChainEntry.description),
     ("sets", c.sets.describe (SetEntry.description · .set)),
     ("maps", c.maps.describe (SetEntry.description · .map))]

/-- The records that a store can be asked for. -/
inductive RecordName
  | table
  | chain (name : String)
  | container (kind : SetKind) (name : String)
deriving DecidableEq, Repr

/-- A stored record as an object. -/
def Store.record? (s : Store) : RecordName → Option Object
  | .table => s.contents.map fun c => .table c.table
  | .chain name => (s.chain? name).map fun entry => .chain entry.record
  | .container kind name => (s.container? kind name).map fun entry => .set kind entry.record

/-- A field that a record does not have. -/
structure UnknownField where
  kind : Kind
  field : String
deriving DecidableEq, Repr

/-- The refusal of a field. -/
def UnknownField.message (e : UnknownField) : String :=
  "'" ++ e.kind.label ++ "' object has no attribute '" ++ e.field ++ "'"

/-- A field of an object by its name, itself perhaps unset. Every object can be asked for its kind
too. -/
def Object.field (o : Object) (name : String) : Except UnknownField (Option FieldValue) :=
  match o.fields.lookup name with
  | some value => .ok value
  | none => if name = "kind" then .ok (some (.text o.kind.text)) else .error ⟨o.kind, name⟩

/-- The description of all that is stored. -/
def Store.description (s : Store) : String :=
  (s.contents.map Contents.description).getD "None"

end NftStore
