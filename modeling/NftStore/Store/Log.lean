import NftStore.Store.History

/-!
The log of a history: the operations that went through, in the order in which they did, each with
the store that it found. What a client reads from a store in the end can be told from the log.
-/
namespace NftStore

/-- An operation and the store that it was applied to. -/
structure Moment where
  store : Store
  operation : Operation

namespace Store

/-- The operations of a queue that go through, up to the first that fails. -/
def logAll (s : Store) : List Operation → List Moment
  | [] => []
  | op :: ops =>
    match (s.apply op).fault with
    | none => ⟨s, op⟩ :: logAll (s.apply op).store ops
    | some _ => []

/-- The operations of an event that go through. A define has none, and neither has a transaction
that is not begun. -/
def logOf (s : Store) : Event → List Moment
  | .define _ _ => []
  | .run tx =>
    match tx.fault with
    | none => s.logAll tx.operations
    | some _ => []

/-- The operations of a history that go through. -/
def log (s : Store) : List Event → List Moment
  | [] => []
  | e :: events => s.logOf e ++ (s.after e).log events

section
variable {P : List Moment → Store → Prop}

theorem logAll_invariant
    (hok : ∀ log s op, P log s → (s.apply op).fault = none →
      P (log ++ [⟨s, op⟩]) (s.apply op).store)
    (hfault : ∀ log s op, P log s → (s.apply op).fault ≠ none → P log (s.apply op).store)
    {log : List Moment} {s : Store} (h : P log s) (ops : List Operation) :
    P (log ++ s.logAll ops) (s.applyAll ops).store := by
  induction ops generalizing log s with
  | nil => simpa [logAll, applyAll] using h
  | cons op ops ih =>
    cases hf : (s.apply op).fault with
    | some fault =>
      have hne : (s.apply op).fault ≠ none := by simp [hf]
      simpa [logAll, hf, applyAll, Outcome.andThen_of_fault hf] using hfault log s op h hne
    | none =>
      have hnext := ih (hok log s op h hf)
      simpa [logAll, hf, applyAll, Outcome.andThen_of_ok hf] using hnext

/-- What holds of a log and the store it leads to, as an invariant: defines and operations that fail
keep it with the same log, and operations that go through keep it with one more moment. -/
theorem log_invariant (hdefine : ∀ log s name value, P log s → P log (s.define name value))
    (hok : ∀ log s op, P log s → (s.apply op).fault = none →
      P (log ++ [⟨s, op⟩]) (s.apply op).store)
    (hfault : ∀ log s op, P log s → (s.apply op).fault ≠ none → P log (s.apply op).store)
    {log : List Moment} {s : Store} (h : P log s) (events : List Event) :
    P (log ++ s.log events) (s.replay events) := by
  induction events generalizing log s with
  | nil => simpa [Store.log, replay] using h
  | cons e events ih =>
    have he : P (log ++ s.logOf e) (s.after e) := by
      cases e with
      | define name value => simpa [logOf, after] using hdefine log s name value h
      | run tx =>
        cases hf : tx.fault with
        | some cause => simpa [logOf, hf, after, run] using h
        | none => simpa [logOf, hf, after, run] using logAll_invariant hok hfault h tx.operations
    simpa [Store.log, replay, List.append_assoc] using ih he

end

end Store

/-- Some moment of the log renews, none after it does, and what came after it has the property. -/
def RenewedLast (log : List Moment) (Renews : Moment → Prop) (Q : List Moment → Prop) : Prop :=
  ∃ earlier m later, log = earlier ++ m :: later ∧ Renews m ∧ (∀ x ∈ later, ¬ Renews x) ∧ Q later

namespace RenewedLast

variable {log : List Moment} {m : Moment} {Renews : Moment → Prop} {Q Q' : List Moment → Prop}

theorem now (h : Renews m) (hq : Q []) : RenewedLast (log ++ [m]) Renews Q :=
  ⟨log, m, [], rfl, h, by simp, hq⟩

theorem concat (h : RenewedLast log Renews Q) (hm : ¬ Renews m)
    (hq : ∀ later, Q later → Q' (later ++ [m])) : RenewedLast (log ++ [m]) Renews Q' := by
  obtain ⟨earlier, first, later, rfl, hfirst, hlater, hold⟩ := h
  refine ⟨earlier, first, later ++ [m], by simp, hfirst, ?_, hq later hold⟩
  intro x hx
  rcases List.mem_append.1 hx with hx | hx
  · exact hlater x hx
  · rw [List.mem_singleton.1 hx]
    exact hm

end RenewedLast

end NftStore
