import NftStore.Define
import NftStore.Object
import NftStore.Text.Literal

/-!
The fields of an object by name, and the description made of them. A description gives the label of
an object's kind and its fields, those left unset passed over: `<Chain(name=input, handle=3)>`.
-/
namespace NftStore

/-- What a field may hold. -/
inductive FieldValue
  | text (s : String)
  | number (n : Int)
  | flag (b : Bool)
  | texts (ss : List String)
deriving DecidableEq, Repr

/-- The fields of a record in their order, each with its value unless it is unset. -/
abbrev Fields := List (String × Option FieldValue)

/-- A value in a description: text as it is, a list of texts as literals. -/
def FieldValue.shown : FieldValue → String
  | .text s => s
  | .number n => toString n
  | .flag true => "True"
  | .flag false => "False"
  | .texts ss => "[" ++ ", ".intercalate (ss.map Text.literal) ++ "]"

/-- A description from a label and from named parts. -/
def describe (label : String) (parts : List (String × String)) : String :=
  "<" ++ label ++ "(" ++ ", ".intercalate (parts.map fun p => p.1 ++ "=" ++ p.2) ++ ")>"

/-- The parts of a description that fields give. -/
def Fields.parts (fields : Fields) : List (String × String) :=
  fields.filterMap fun f => f.2.map fun v => (f.1, v.shown)

/-- The fields of a table. -/
def Table.fields (t : Table) : Fields :=
  [("family", t.family.map .text),
   ("name", t.name.map .text),
   ("comment", t.comment.map .text),
   ("handle", t.handle.map .number)]

/-- The fields of a chain. -/
def Chain.fields (c : Chain) : Fields :=
  [("name", some (.text c.name)),
   ("type", c.type.map .text),
   ("hook", c.hook.map .text),
   ("priority", c.priority.map .text),
   ("device", c.device.map .text),
   ("comment", c.comment.map .text),
   ("handle", c.handle.map .number)]

/-- The fields of a rule. -/
def Rule.fields (r : Rule) : Fields :=
  [("chain", some (.text r.chain)),
   ("rule", r.rule.map .text),
   ("comment", r.comment.map .text),
   ("index", r.index.map .number),
   ("handle", r.handle.map .number)]

/-- The fields of a set or map. -/
def SetSpec.fields (s : SetSpec) : Fields :=
  [("name", some (.text s.name)),
   ("type", s.type.map .text),
   ("typeof", s.typeof.map .text),
   ("flags", s.flags.map .texts),
   ("timeout", s.timeout.map .number),
   ("gc_interval", s.gcInterval.map .number),
   ("size", s.size.map .number),
   ("policy", s.policy.map .text),
   ("auto_merge", s.autoMerge.map .flag),
   ("comment", s.comment.map .text),
   ("handle", s.handle.map .number)]

/-- The fields of an element. -/
def Element.fields (e : Element) : Fields :=
  [("name", some (.text e.name)),
   ("key", some (.text e.key)),
   ("value", e.value.map .text),
   ("comment", e.comment.map .text)]

/-- The fields of an object of any kind. -/
def Object.fields : Object → Fields
  | .table t => t.fields
  | .chain c => c.fields
  | .rule r => r.fields
  | .set _ s => s.fields
  | .element e => e.fields
  | .counter name => [("name", name.map .text)]
  | .bare => []

/-- The description of an object. -/
def Object.description (o : Object) : String :=
  describe o.kind.label o.fields.parts

/-- The description of a define gives the name and the value. -/
def Define.description (d : Define) : String :=
  describe "Define" [(d.name, d.value)]

/-- The description of defines has them in the order of their registration. -/
def Defines.description (ds : Defines) : String :=
  "<Defines(" ++ ", ".intercalate (ds.toList.map Define.description) ++ ")>"

end NftStore
