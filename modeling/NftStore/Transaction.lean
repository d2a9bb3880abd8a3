import NftStore.Object.Validity

/-!
Transactions: operations queued one by one, each object judged for its verb. The first invalid
object is kept as the fault of the transaction, and from then on nothing is queued.
-/
namespace NftStore

/-- The queued operations and the fault, if there is one. -/
structure Transaction where
  operations : List Operation
  fault : Option Invalid
deriving DecidableEq, Repr

namespace Transaction

/-- Nothing queued and nothing wrong. -/
def empty : Transaction := ⟨[], none⟩

/-- Queues an operation, or keeps what is wrong with its object. A bare object cannot be judged
and leaves the transaction as it was. -/
def queue (tx : Transaction) (op : Operation) : Except Unimplemented Transaction :=
  match tx.fault with
  | some _ => .ok tx
  | none =>
    match op.object.invalid? op.verb with
    | .error e => .error e
    | .ok (some cause) => .ok { tx with fault := some cause }
    | .ok none => .ok { tx with operations := tx.operations ++ [op] }

/-- Queues operations in turn, up to the first whose object cannot be judged. What was queued before
it stays. -/
def queueAll (tx : Transaction) : List Operation → Transaction × Option Unimplemented
  | [] => (tx, none)
  | op :: ops =>
    match tx.queue op with
    | .error e => (tx, some e)
    | .ok tx => queueAll tx ops

/-- Queues operations as they are, with any verb and whatever is wrong with their objects. -/
def queueRaw (tx : Transaction) (ops : List Operation) : Transaction :=
  { tx with operations := tx.operations ++ ops }

/-- The description of a transaction counts its operations and gives the fault. -/
def description (tx : Transaction) : String :=
  "<Transaction(operations=" ++ toString tx.operations.length ++ ", err="
    ++ (tx.fault.map Invalid.message).getD "None" ++ ")>"

end Transaction

end NftStore
