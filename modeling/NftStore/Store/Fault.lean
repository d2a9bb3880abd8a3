import NftStore.Object.Validity
import NftStore.Store
import NftStore.Text.Literal

/-!
What can go wrong when a store is used, as causes and their messages. An object that is not there
is kept apart from all else, because a client that wants it gone takes that for success.
-/
namespace NftStore

/-- What was looked for in vain. -/
inductive NotFound
  | table (family name : String)
  | named (kind name : String)
  | rule (handle : Int) (chain : String)
  | element (key : String) (kind : SetKind) (container : String)
  | listing (word : String)
deriving DecidableEq, Repr

/-- What was not found, in words. Names stand as literals, except those of the table. -/
def NotFound.message : NotFound → String
  | table family name => "no such table \"" ++ family ++ " " ++ name ++ "\""
  | named kind name => "no such " ++ kind ++ " " ++ Text.literal name
  | rule handle chain =>
    "no rule with handle " ++ toString handle ++ " in chain " ++ Text.literal chain
  | element key kind container =>
    "no such element " ++ Text.literal key ++ " in " ++ kind.kind.text ++ " "
      ++ Text.literal container
  | listing word => "unsupported object type " ++ Text.literal word

/-- Why a run stopped: the transaction was invalid, its target was not there, the store has no use
for the kind of object or for the verb on it, a rule was to be deleted by a handle that is unset, or
a catalog was looked for while there was no table to have it. The handle of a valid object is never
unset there, and nothing is looked for in a table before it is seen to be there. -/
inductive Fault
  | invalid (cause : Invalid)
  | notFound (cause : NotFound)
  | kindUnhandled (kind : Kind)
  | verbUnhandled (verb : Verb) (kind : Kind)
  | ruleHandleUnset
  | tableUnset (shelf : Shelf)
deriving DecidableEq, Repr

/-- The fault in words. -/
def Fault.message : Fault → String
  | invalid cause => cause.message
  | notFound cause => cause.message
  | kindUnhandled kind => "unhandled object type " ++ kind.label
  | verbUnhandled verb kind => "unhandled operation \"" ++ verb.text ++ "\" for " ++ kind.text
  | ruleHandleUnset => "%d format: a real number is required, not NoneType"
  | tableUnset shelf => "'NoneType' object has no attribute '" ++ shelf.text ++ "'"

/-- The sorts of fault that a client can tell apart. -/
inductive FaultSort
  | invalid
  | notFound
  | unsupported
  | ruleHandleUnset
  | tableUnset
deriving DecidableEq, Repr

/-- The sort of a fault. A kind that no store holds and a verb that a kind does not have are both
unsupported. -/
def Fault.sort : Fault → FaultSort
  | invalid _ => .invalid
  | notFound _ => .notFound
  | kindUnhandled _ | verbUnhandled _ _ => .unsupported
  | ruleHandleUnset => .ruleHandleUnset
  | tableUnset _ => .tableUnset

/-- The fault only means that the target is not there. -/
def Fault.isNotFound : Fault → Bool
  | notFound _ => true
  | _ => false

/-- A delete by name of an object that carries a handle, which has no effect. -/
structure Warning where
  kind : Kind
  name : String
  handle : Int
deriving DecidableEq, Repr

/-- The warning in words, with the name as it is. -/
def Warning.text (w : Warning) : String :=
  "Fake backend: deleting " ++ w.kind.text ++ " '" ++ w.name ++ "' by name, handle "
    ++ toString w.handle ++ " is ignored"

end NftStore
