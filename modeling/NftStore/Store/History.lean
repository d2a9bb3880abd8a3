import NftStore.Store.Run

/-!
Histories of a store. A client registers defines and runs transactions, and the store goes on from
whatever a run left behind, also if it failed. Reachable are the stores that a new one can become.
-/
namespace NftStore

/-- What a client does with a store. -/
inductive Event
  | define (name value : String)
  | run (tx : Transaction)
deriving DecidableEq, Repr

namespace Store

/-- The store after an event, whatever came of it. -/
def after (s : Store) : Event → Store
  | .define name value => s.define name value
  | .run tx => (s.run tx).store

/-- The store after events in turn. -/
def replay (s : Store) (events : List Event) : Store :=
  events.foldl after s

/-- A store that a new one can become. -/
inductive Reachable : Store → Prop
  | new (family : Family) (table : String) : Reachable (new family table)
  | after {s : Store} (e : Event) : Reachable s → Reachable (s.after e)

theorem Reachable.replay {s : Store} (h : Reachable s) (events : List Event) :
    Reachable (s.replay events) := by
  induction events generalizing s with
  | nil => exact h
  | cons e events ih => exact ih (h.after e)

/-- An invariant that new stores have and every event keeps holds of all reachable stores. -/
theorem Reachable.invariant {P : Store → Prop} (hnew : ∀ f t, P (Store.new f t))
    (hafter : ∀ s e, P s → P (s.after e)) {s : Store} (h : Reachable s) : P s := by
  induction h with
  | new f t => exact hnew f t
  | after e _ ih => exact hafter _ e ih

end Store

end NftStore
