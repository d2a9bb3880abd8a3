import NftStore.Object.Validity
import NftStore.Text.Quoted

/-!
Operations as lines of text, one line for one operation: the verb, the kind, the table and what
names the object, then the object's body if it is made.
-/
namespace NftStore

/-- The table that a line is about, as it is written. -/
structure Target where
  family : String
  table : String
deriving DecidableEq, Repr

namespace Target

/-- The start of a line: verb, kind, family and table. -/
def opening (target : Target) (verb : Verb) (kind : Kind) : String :=
  verb.text ++ " " ++ kind.text ++ " " ++ target.family ++ " " ++ target.table

end Target

/-- The parts of a body between braces, nothing if there are none. -/
def body (parts : List String) : String :=
  if parts.isEmpty then "" else " \x7b " ++ " ; ".intercalate parts ++ " ; \x7d"

/-- A comment as a part of a body or line. -/
def commentPart (comment : Option String) : List String :=
  ((filled comment).map fun text => "comment " ++ Text.quote text).toList

/-- A table's comment is written where it is added, and nowhere else. -/
def Table.line (t : Table) (verb : Verb) (target : Target) : String :=
  target.opening verb .table ++ (if verb = .add then body (commentPart t.comment) else "") ++ "\n"

/-- The type and hook of a base chain, with its device and priority. A hook that is unset, which no
valid chain with a type has, is written `None`. -/
def Chain.basePart (c : Chain) : List String :=
  match filled c.type with
  | none => []
  | some type =>
    ["type " ++ type ++ " hook " ++ c.hook.getD "None"
      ++ ((filled c.device).map fun device => " device " ++ Text.quote device).getD ""
      ++ (c.priority.map fun priority => " priority " ++ priority).getD ""]

/-- A chain is deleted by its handle if it has one, else by its name. -/
def Chain.line (c : Chain) (verb : Verb) (target : Target) : String :=
  match verb, c.handle with
  | .delete, some handle => target.opening verb .chain ++ " handle " ++ toString handle ++ "\n"
  | _, _ =>
    target.opening verb .chain ++ " " ++ c.name
      ++ (if verb.makes then body (c.basePart ++ commentPart c.comment) else "") ++ "\n"

/-- Where a rule goes or which rule is meant: by index if there is one, else by handle. -/
def Rule.position (r : Rule) : String :=
  match r.index, r.handle with
  | some index, _ => " index " ++ toString index
  | none, some handle => " handle " ++ toString handle
  | none, none => ""

/-- A rule has its text and comment written where it is made. -/
def Rule.line (r : Rule) (verb : Verb) (target : Target) : String :=
  target.opening verb .rule ++ " " ++ r.chain ++ r.position
    ++ (if verb.makes then
          String.join (((filled r.rule).toList ++ commentPart r.comment).map fun part => " " ++ part)
        else "")
    ++ "\n"

/-- The type of a set or map; a typeof counts only where there is no type. -/
def SetSpec.typePart (s : SetSpec) : List String :=
  match filled s.type, filled s.typeof with
  | some type, _ => ["type " ++ type]
  | none, some typeof => ["typeof " ++ typeof]
  | none, none => []

/-- The flags with commas between them, nothing if there are none. -/
def SetSpec.flagsPart (s : SetSpec) : List String :=
  match s.flags with
  | none | some [] => []
  | some flags => ["flags " ++ ",".intercalate flags]

/-- All that a set or map says of itself, in the order of writing. -/
def SetSpec.parts (s : SetSpec) : List String :=
  s.typePart ++ s.flagsPart
    ++ (s.timeout.map fun n => "timeout " ++ toString n ++ "s").toList
    ++ (s.gcInterval.map fun n => "gc-interval " ++ toString n ++ "s").toList
    ++ (s.size.map fun n => "size " ++ toString n).toList
    ++ ((filled s.policy).map fun policy => "policy " ++ policy).toList
    ++ (if s.autoMerge = some true then ["auto-merge"] else [])
    ++ commentPart s.comment

/-- A set or map is deleted by its handle if it has one, else by its name. -/
def SetSpec.line (s : SetSpec) (kind : SetKind) (verb : Verb) (target : Target) : String :=
  match verb, s.handle with
  | .delete, some handle => target.opening verb kind.kind ++ " handle " ++ toString handle ++ "\n"
  | _, _ =>
    target.opening verb kind.kind ++ " " ++ s.name
      ++ (if verb.makes then body s.parts else "") ++ "\n"

/-- The key of an element, in a map its value, and its comment where it is made. -/
def Element.line (e : Element) (verb : Verb) (target : Target) : String :=
  target.opening verb .element ++ " " ++ e.name ++ " \x7b " ++ e.key
    ++ ((filled e.value).map fun value => " : " ++ value).getD ""
    ++ (if verb.makes then String.join ((commentPart e.comment).map fun part => " " ++ part) else "")
    ++ " \x7d\n"

/-- The line of an operation. Counters and bare objects have no written form. -/
def Object.line (o : Object) (verb : Verb) (target : Target) : Except Unimplemented String :=
  match o with
  | .table t => .ok (t.line verb target)
  | .chain c => .ok (c.line verb target)
  | .rule r => .ok (r.line verb target)
  | .set kind s => .ok (s.line kind verb target)
  | .element e => .ok (e.line verb target)
  | .counter _ | .bare => .error ⟨"write_operation"⟩

end NftStore
