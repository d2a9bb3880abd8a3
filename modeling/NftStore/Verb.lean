/-!
Verbs of operations. Four verbs have a meaning; any other word may stand in a queue too, and is
refused where the operation is applied.
-/
namespace NftStore

/-- What an operation does with its object. -/
inductive Verb
  | add
  | create
  | flush
  | delete
  | other (word : String)
deriving DecidableEq, Repr

namespace Verb

/-- The verb as it is written. -/
def text : Verb → String
  | add => "add"
  | create => "create"
  | flush => "flush"
  | delete => "delete"
  | other word => word

/-- The verb that a word stands for. -/
def ofText (word : String) : Verb :=
  if word = "add" then add
  else if word = "create" then create
  else if word = "flush" then flush
  else if word = "delete" then delete
  else other word

@[simp] theorem text_ofText (word : String) : (ofText word).text = word := by
  unfold ofText
  repeat' split
  all_goals simp_all [text]

/-- Adding and creating make an object, so they use up a handle and write the object's body. -/
def makes : Verb → Bool
  | add | create => true
  | _ => false

end Verb

end NftStore
