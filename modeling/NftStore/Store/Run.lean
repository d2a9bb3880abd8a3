import NftStore.Store.Handler
import NftStore.Transaction

/-!
Applying operations to a store. Operations are applied one by one up to the first that fails; what
was applied before it stays. An operation that makes an object uses up a handle before anything
else is looked at, unless there is no table.
-/
namespace NftStore

/-- The operation adds the table, which is all that can be done without one. -/
def Operation.addsTable : Operation → Bool
  | ⟨.add, .table _⟩ => true
  | _ => false

namespace Store

/-- The fault of whatever needs the table when there is none. -/
def noTable (s : Store) : NotFound :=
  .table s.family.text s.table

end Store

/-- The work of an operation. The handler is left to itself once it is known that there is a table
or one is added, and that the kind of object has the verb. -/
def Operation.work (op : Operation) : Work Unit := do
  let s ← Work.store
  Work.check (s.contents.isSome || op.addsTable) (.notFound s.noTable)
  Work.change fun s => s.tick op.verb
  let handler ← Work.demand op.object.handler? (.kindUnhandled op.object.kind)
  Work.check (op.object.kind.verbs.contains op.verb) (.verbUnhandled op.verb op.object.kind)
  handler op.verb

namespace Store

/-- Applies one operation. -/
def apply (s : Store) (op : Operation) : Outcome :=
  op.work.outcome s

section
variable {s : Store} {op : Operation}

/-- Without a table, an operation that does not add it comes to nothing. -/
theorem apply_of_noTable (hc : s.contents = none) (ha : op.addsTable = false) :
    s.apply op = ⟨s, [], some (.notFound s.noTable)⟩ := by
  simp [apply, Operation.work, Work.outcome, hc, ha]

theorem apply_of_noHandler {c : Contents} (hc : s.contents = some c)
    (hh : op.object.handler? = none) :
    s.apply op = ⟨s.tick op.verb, [], some (.kindUnhandled op.object.kind)⟩ := by
  simp [apply, Operation.work, Work.outcome, hc, hh]

variable {handler : Verb → Work Unit} (hh : op.object.handler? = some handler)
include hh

theorem apply_of_noVerb {c : Contents} (hc : s.contents = some c)
    (hv : op.verb ∉ op.object.kind.verbs) :
    s.apply op = ⟨s.tick op.verb, [], some (.verbUnhandled op.verb op.object.kind)⟩ := by
  simp [apply, Operation.work, Work.outcome, hc, hh, hv]

/-- What the handler finds is the store with the handle used up. -/
theorem apply_of_handler (ht : s.contents.isSome || op.addsTable)
    (hv : op.verb ∈ op.object.kind.verbs) :
    s.apply op = (handler op.verb).outcome (s.tick op.verb) := by
  simp [apply, Operation.work, Work.outcome, ht, hh, hv]

end

/-- Applies operations in turn, up to the first that fails. -/
def applyAll (s : Store) : List Operation → Outcome
  | [] => ⟨s, [], none⟩
  | op :: ops => (s.apply op).andThen fun s => applyAll s ops

/-- Applying operations in two parts is applying them all. -/
theorem applyAll_append (s : Store) (ops more : List Operation) :
    s.applyAll (ops ++ more) = (s.applyAll ops).andThen fun s => s.applyAll more := by
  induction ops generalizing s with
  | nil => simp [applyAll, Outcome.andThen]
  | cons op ops ih => simp only [List.cons_append, applyAll, ih, Outcome.andThen_assoc]

/-- Runs a transaction. One with a fault is not begun. -/
def run (s : Store) (tx : Transaction) : Outcome :=
  match tx.fault with
  | some cause => ⟨s, [], some (.invalid cause)⟩
  | none => s.applyAll tx.operations

end Store

end NftStore
