import NftStore.Store.Fault

/-!
Work on a store. Handlers change a store in place, step by step, and a step may fail. The steps
before it have been done by then and stay done, and their warnings have been given: a fault comes
with the store as far as the work had got.
-/
namespace NftStore

/-- What a run leaves behind: the store, the warnings in order, and the fault it stopped at. -/
structure Outcome where
  store : Store
  warnings : List Warning
  fault : Option Fault
deriving DecidableEq

namespace Outcome

/-- Goes on from the store that an outcome leaves behind, unless it stopped at a fault. -/
def andThen (o : Outcome) (next : Store → Outcome) : Outcome :=
  match o.fault with
  | some _ => o
  | none =>
    let rest := next o.store
    { rest with warnings := o.warnings ++ rest.warnings }

theorem andThen_of_fault {o : Outcome} {e : Fault} (h : o.fault = some e)
    (next : Store → Outcome) : o.andThen next = o := by
  simp [andThen, h]

theorem andThen_of_ok {o : Outcome} (h : o.fault = none) (next : Store → Outcome) :
    o.andThen next
      = ⟨(next o.store).store, o.warnings ++ (next o.store).warnings, (next o.store).fault⟩ := by
  simp [andThen, h]

theorem andThen_assoc (o : Outcome) (f g : Store → Outcome) :
    (o.andThen f).andThen g = o.andThen fun s => (f s).andThen g := by
  cases ho : o.fault with
  | some e => simp [andThen_of_fault ho]
  | none =>
    cases hf : (f o.store).fault with
    | some e => simp [andThen, ho, hf]
    | none => simp [andThen, ho, hf, List.append_assoc]

end Outcome

/-- How far the work on a store has got: the store as it is by now and the warnings given. -/
structure Progress where
  store : Store
  warnings : List Warning

/-- Work in steps, which a fault ends where it has got to. -/
abbrev Work := EStateM Fault Progress

namespace Work

variable {p : Progress}

/-- What all the work on a store comes to. -/
def outcome (work : Work Unit) (s : Store) : Outcome :=
  match work.run ⟨s, []⟩ with
  | .ok _ p => ⟨p.store, p.warnings, none⟩
  | .error fault p => ⟨p.store, p.warnings, some fault⟩

/-- The work cannot go on. -/
def fail {α : Type} (fault : Fault) : Work α :=
  throw fault

/-- What has to be there, or the fault of its not being there. -/
def demand {α : Type} (a : Option α) (fault : Fault) : Work α :=
  match a with
  | some a => pure a
  | none => fail fault

/-- Goes on only if something holds. -/
def check (holds : Bool) (fault : Fault) : Work Unit :=
  if holds then pure () else fail fault

/-- The store as it is by now. -/
def store : Work Store := do
  return (← get).store

/-- Changes the store. -/
def change (f : Store → Store) : Work Unit :=
  modify fun p => { p with store := f p.store }

/-- Gives a warning. -/
def warn (w : Warning) : Work Unit :=
  modify fun p => { p with warnings := p.warnings ++ [w] }

/-- A catalog of the table. Looking for one does not go well where there is no table. -/
def catalog (k : Shelf) : Work (Catalog k.Entry) := do
  let s ← store
  match s.contents with
  | some c => pure (c.catalog k)
  | none => fail (.tableUnset k)

/-- Puts a catalog of the table in the place of the one it has. -/
def setCatalog (k : Shelf) (entries : Catalog k.Entry) : Work Unit :=
  change fun s => { s with contents := s.contents.map fun c => c.withCatalog k entries }

@[simp] theorem run_fail {α : Type} (fault : Fault) :
    (fail fault : Work α).run p = .error fault p := rfl

@[simp] theorem run_demand_some {α : Type} (a : α) (fault : Fault) :
    (demand (some a) fault).run p = .ok a p := rfl

@[simp] theorem run_demand_none {α : Type} (fault : Fault) :
    (demand none fault : Work α).run p = .error fault p := rfl

@[simp] theorem run_check_true (fault : Fault) : (check true fault).run p = .ok () p := rfl

@[simp] theorem run_check_false (fault : Fault) : (check false fault).run p = .error fault p := rfl

@[simp] theorem run_store : store.run p = .ok p.store p := rfl

@[simp] theorem run_change (f : Store → Store) :
    (change f).run p = .ok () ⟨f p.store, p.warnings⟩ := rfl

@[simp] theorem run_warn (w : Warning) :
    (warn w).run p = .ok () ⟨p.store, p.warnings ++ [w]⟩ := rfl

theorem run_catalog_of_contents {c : Contents} (hc : p.store.contents = some c) (k : Shelf) :
    (catalog k).run p = .ok (c.catalog k) p := by
  simp [catalog, hc]

theorem run_catalog_of_no_contents (hc : p.store.contents = none) (k : Shelf) :
    (catalog k).run p = .error (.tableUnset k) p := by
  simp [catalog, hc]

end Work

end NftStore
