import NftStore.Proofs.Consistency
import NftStore.Proofs.Validity

/-!
Calls on a transaction. A client queues operations call by call, and each object is judged before
anything runs. So either all of a transaction runs, or its first invalid object keeps all of it from
running. A call with an object that cannot be judged is turned down and leaves no trace.
-/
namespace NftStore

/-! ## One call -/

/-- An object that can be judged is valid, or there is something wrong with it. -/
theorem Operation.valid_or_invalid {op : Operation} (h : op.object ≠ .bare) :
    op.Valid ∨ ∃ cause, op.object.invalid? op.verb = .ok (some cause) := by
  obtain ⟨verb, object⟩ := op
  have hjudged : ∃ judgement, object.invalid? verb = .ok judgement := by
    cases object with
    | bare => exact absurd rfl h
    | _ => exact ⟨_, rfl⟩
  obtain ⟨judgement, hj⟩ := hjudged
  cases judgement with
  | none => exact .inl hj
  | some cause => exact .inr ⟨cause, hj⟩

/-- In a list with something invalid there is a first invalid object. -/
theorem exists_first_invalid {calls : List Operation} (hc : ∀ op ∈ calls, op.object ≠ .bare)
    (hv : ¬ ∀ op ∈ calls, op.Valid) : ∃ before op rest cause, calls = before ++ op :: rest ∧
      (∀ o ∈ before, o.Valid) ∧ op.object.invalid? op.verb = .ok (some cause) := by
  induction calls with
  | nil => exact absurd (fun op hop => by cases hop) hv
  | cons op calls ih =>
    rcases op.valid_or_invalid (hc op List.mem_cons_self) with hop | ⟨cause, hop⟩
    · have hrest : ¬ ∀ o ∈ calls, o.Valid := fun h => hv (by simpa using ⟨hop, h⟩)
      obtain ⟨before, found, rest, cause, rfl, hbefore, hfound⟩ :=
        ih (fun o ho => hc o (List.mem_cons_of_mem _ ho)) hrest
      exact ⟨op :: before, found, rest, cause, rfl, by simpa using ⟨hop, hbefore⟩, hfound⟩
    · exact ⟨[], op, calls, cause, rfl, by simp, hop⟩

namespace Transaction

variable {tx : Transaction} {op : Operation} {cause : Invalid}

/-- The transaction after a call. One that is turned down leaves it as it was. -/
def after (tx : Transaction) (op : Operation) : Transaction :=
  match tx.queue op with
  | .ok tx' => tx'
  | .error _ => tx

/-- A call with an object that can be judged is never turned down. -/
theorem queue_eq_ok (h : op.object ≠ .bare) : tx.queue op = .ok (tx.after op) := by
  cases hq : tx.queue op with
  | ok tx' => simp only [after, hq]
  | error e =>
    unfold queue at hq
    split at hq
    · cases hq
    · rcases op.valid_or_invalid h with hv | ⟨cause, hv⟩
      · rw [show op.object.invalid? op.verb = .ok none from hv] at hq
        cases hq
      · rw [hv] at hq
        cases hq

theorem queue_bare (h : tx.fault = none) (verb : Verb) :
    tx.queue ⟨verb, .bare⟩ = .error ⟨"validate"⟩ := by
  simp only [queue, h, Object.invalid?]

theorem after_of_invalid (h : tx.fault = none)
    (hv : op.object.invalid? op.verb = .ok (some cause)) :
    tx.after op = { tx with fault := some cause } := by
  simp only [after, queue, h, hv]

/-- Once there is a fault no call changes anything. -/
theorem after_of_fault (h : tx.fault = some cause) (op : Operation) : tx.after op = tx := by
  simp only [after, queue, h]

theorem after_bare (tx : Transaction) (verb : Verb) : tx.after ⟨verb, .bare⟩ = tx := by
  cases hf : tx.fault with
  | none => simp only [after, queue_bare hf]
  | some cause => exact after_of_fault hf _

/-! ## Calls in turn -/

/-- The transaction after calls in turn, from a new one. -/
def ofCalls (calls : List Operation) : Transaction :=
  calls.foldl after empty

theorem foldl_after_of_fault (h : tx.fault = some cause) (calls : List Operation) :
    calls.foldl after tx = tx := by
  induction calls with
  | nil => rfl
  | cons op calls ih => rw [List.foldl_cons, after_of_fault h, ih]

/-- As long as no call is turned down, going on after each is queueing all. -/
theorem queueAll_eq_foldl {calls : List Operation} (h : ∀ op ∈ calls, op.object ≠ .bare) :
    tx.queueAll calls = (calls.foldl after tx, none) := by
  induction calls generalizing tx with
  | nil => rfl
  | cons op calls ih =>
    rw [queueAll, queue_eq_ok (h op List.mem_cons_self), List.foldl_cons]
    exact ih fun o ho => h o (List.mem_cons_of_mem _ ho)

theorem ofCalls_of_valid {calls : List Operation} (h : ∀ op ∈ calls, op.Valid) :
    ofCalls calls = ⟨calls, none⟩ := by
  have hc : ∀ op ∈ calls, op.object ≠ .bare := by
    intro op hop hb
    have hv : op.object.invalid? op.verb = .ok none := h op hop
    rw [hb] at hv
    cases hv
  have hall : empty.queueAll calls = (empty.queueRaw calls, none) := queueAll_of_valid rfl h
  rw [queueAll_eq_foldl hc] at hall
  exact congrArg Prod.fst hall

/-- The first invalid object ends the queue, whatever is called later. -/
theorem ofCalls_of_invalid {before : List Operation} (hbefore : ∀ o ∈ before, o.Valid)
    (hv : op.object.invalid? op.verb = .ok (some cause)) (later : List Operation) :
    ofCalls (before ++ op :: later) = ⟨before, some cause⟩ := by
  have hfirst : (ofCalls before).after op = ⟨before, some cause⟩ := by
    rw [ofCalls_of_valid hbefore]
    exact after_of_invalid rfl hv
  rw [ofCalls, List.foldl_append, List.foldl_cons]
  show later.foldl after ((ofCalls before).after op) = _
  rw [hfirst]
  exact foldl_after_of_fault rfl later

/-- A call with a bare object can be left out. -/
theorem ofCalls_bare (before : List Operation) (verb : Verb) (rest : List Operation) :
    ofCalls (before ++ ⟨verb, .bare⟩ :: rest) = ofCalls (before ++ rest) := by
  simp only [ofCalls, List.foldl_append, List.foldl_cons, after_bare]

end Transaction

/-- Calls with objects that can be judged are all taken. Either every object is valid, and then the
transaction is what was called, and running it is running that; or there is a first invalid one, and
then the transaction is what was called before it, no later call changes that, and running it does
nothing at all but name what is wrong with that object. A call with a bare object is turned down
while there is no fault, and the transaction is what it would be without that call. -/
theorem Store.run_ofCalls (s : Store) :
    (∀ calls : List Operation, (∀ op ∈ calls, op.object ≠ .bare) →
      Transaction.empty.queueAll calls = (.ofCalls calls, none) ∧
      ((∀ op ∈ calls, op.Valid) ∧ Transaction.ofCalls calls = ⟨calls, none⟩ ∧
          s.run (.ofCalls calls) = s.run (Transaction.empty.queueRaw calls) ∨
        ∃ before op rest cause, calls = before ++ op :: rest ∧ (∀ o ∈ before, o.Valid) ∧
          op.object.invalid? op.verb = .ok (some cause) ∧
          (∀ later, Transaction.ofCalls (before ++ op :: later) = ⟨before, some cause⟩) ∧
          s.run (.ofCalls calls) = ⟨s, [], some (.invalid cause)⟩)) ∧
    ∀ before verb rest, (Transaction.ofCalls before).fault = none →
      (Transaction.ofCalls before).queue ⟨verb, .bare⟩ = .error ⟨"validate"⟩ ∧
      Transaction.ofCalls (before ++ ⟨verb, .bare⟩ :: rest) = .ofCalls (before ++ rest) := by
  refine ⟨fun calls hc => ⟨Transaction.queueAll_eq_foldl hc, ?_⟩, fun before verb rest hf =>
    ⟨Transaction.queue_bare hf verb, Transaction.ofCalls_bare before verb rest⟩⟩
  by_cases hv : ∀ op ∈ calls, op.Valid
  · have hcalls := Transaction.ofCalls_of_valid hv
    exact .inl ⟨hv, hcalls, by rw [hcalls]; rfl⟩
  · obtain ⟨before, op, rest, cause, rfl, hbefore, hop⟩ := exists_first_invalid hc hv
    refine .inr ⟨before, op, rest, cause, rfl, hbefore, hop,
      Transaction.ofCalls_of_invalid hbefore hop, ?_⟩
    rw [Transaction.ofCalls_of_invalid hbefore hop]
    rfl

/-- Two operations that could run, a rule without a text, and one more operation. -/
def faulty : List Operation :=
  [⟨.delete, .table ⟨none, none, none, none⟩⟩,
   ⟨.add, .table ⟨none, none, none, none⟩⟩,
   ⟨.add, .rule ⟨"in", some "", none, none, none⟩⟩,
   ⟨.add, .chain ⟨"in", none, none, none, none, none, none⟩⟩]

theorem run_faulty : ∃ cause,
    ((Store.new .inet "filter").replay colliding).run (.ofCalls faulty)
      = ⟨(Store.new .inet "filter").replay colliding, [], some (.invalid cause)⟩ := by
  have hc : ∀ op ∈ faulty, op.object ≠ .bare := by decide
  have hv : ¬ ∀ op ∈ faulty, op.Valid := fun h =>
    absurd (h ⟨.add, .rule ⟨"in", some "", none, none, none⟩⟩ (by decide)) (by rintro ⟨⟩)
  rcases ((Store.run_ofCalls ((Store.new .inet "filter").replay colliding)).1 faulty hc).2 with
    ⟨hall, -⟩ | ⟨-, -, -, cause, -, -, -, -, hrun⟩
  · exact absurd hall hv
  · exact ⟨cause, hrun⟩

end NftStore
