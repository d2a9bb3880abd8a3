import NftStore.Proofs.Atomic
import NftStore.Proofs.Step

/-!
Runs that fail. A handler that fails has changed nothing yet (`Object.atomic_of_handler?`), but a
handle may be used up by then. So a run that fails does so at one operation, whose fault it has;
what the operations before it made stays, and what comes after it was not looked at. A run can be
cut in two anywhere.
-/
namespace NftStore

namespace Store

variable {s : Store} {ops : List Operation}

/-! ## One operation -/

/-- The store after an operation that failed: without a table nothing was looked at, and with one a
handle was used up before anything else. -/
def spent (s : Store) (verb : Verb) : Store :=
  if s.contents.isSome then s.tick verb else s

theorem lastHandle_spent (s : Store) (verb : Verb) :
    (s.spent verb).lastHandle
      = s.lastHandle + if verb.makes && s.contents.isSome then 1 else 0 := by
  unfold spent
  cases hc : s.contents with
  | none => simp
  | some c =>
    simp only [Option.isSome_some, if_true, lastHandle_tick, Bool.and_true]
    split <;> rfl

theorem spent_eq (s : Store) (verb : Verb) :
    s.spent verb = { s with lastHandle := (s.spent verb).lastHandle } := by
  unfold spent tick
  split
  · split <;> rfl
  · rfl

/-- Where an operation fails, nothing is changed yet: if it gets as far as its handler, the handler
fails before it changes anything. -/
theorem apply_of_fault {op : Operation} {fault : Fault} (h : (s.apply op).fault = some fault) :
    s.apply op = ⟨s.spent op.verb, [], some fault⟩ := by
  cases hc : s.contents with
  | none =>
    have hspent : s.spent op.verb = s := by simp [spent, hc]
    obtain ⟨t, rfl⟩ | happly := cases_of_noTable hc op
    · rw [apply_addTable_of_none hc] at h
      cases h
    · rw [happly] at h ⊢
      cases h
      rw [hspent]
  | some c =>
    have hspent : s.spent op.verb = s.tick op.verb := by simp [spent, hc]
    have ht : s.contents.isSome || op.addsTable := by simp [hc]
    rw [hspent]
    cases hh : op.object.handler? with
    | none =>
      rw [apply_of_noHandler hc hh] at h ⊢
      cases h
      rfl
    | some handler =>
      by_cases hv : op.verb ∈ op.object.kind.verbs
      · rw [apply_of_handler hh ht hv] at h ⊢
        exact (Object.atomic_of_handler? hh op.verb).outcome_of_fault h
      · rw [apply_of_noVerb hh hc hv] at h ⊢
        cases h
        rfl

/-! ## Runs -/

/-- A run that fails does so at an operation that the ones before it lead to. -/
theorem exists_fault_of_applyAll {fault : Fault} (h : (s.applyAll ops).fault = some fault) :
    ∃ before op rest, ops = before ++ op :: rest ∧ (s.applyAll before).fault = none ∧
      ((s.applyAll before).store.apply op).fault = some fault := by
  induction ops generalizing s with
  | nil => cases h
  | cons op ops ih =>
    cases hf : (s.apply op).fault with
    | some e =>
      rw [applyAll, Outcome.andThen_of_fault hf] at h
      exact ⟨[], op, ops, rfl, rfl, h⟩
    | none =>
      rw [applyAll, Outcome.andThen_of_ok hf] at h
      obtain ⟨before, found, rest, hops, hbefore, hfound⟩ := ih h
      refine ⟨op :: before, found, rest, by rw [hops, List.cons_append], ?_, ?_⟩
      · rw [applyAll, Outcome.andThen_of_ok hf]
        exact hbefore
      · rw [applyAll, Outcome.andThen_of_ok hf]
        exact hfound

/-- What comes after an operation that fails is not looked at. -/
theorem applyAll_of_fault {before : List Operation} {op : Operation} {fault : Fault}
    (hbefore : (s.applyAll before).fault = none)
    (hop : ((s.applyAll before).store.apply op).fault = some fault) (rest : List Operation) :
    s.applyAll (before ++ op :: rest)
      = ⟨(s.applyAll before).store.spent op.verb, (s.applyAll before).warnings, some fault⟩ := by
  rw [applyAll_append, Outcome.andThen_of_ok hbefore, applyAll, Outcome.andThen_of_fault hop,
    apply_of_fault hop, List.append_nil]

/-- The run of the operations before an index. -/
def runUpTo (s : Store) (ops : List Operation) (i : Nat) : Outcome :=
  s.run (Transaction.empty.queueRaw (ops.take i))

/-- The operations before the index go through, and where they lead the one there fails by
itself. -/
def FailsAt (s : Store) (ops : List Operation) (i : Nat) : Prop :=
  (s.runUpTo ops i).fault = none ∧ ∃ op, ops[i]? = some op ∧
    ((s.runUpTo ops i).store.run (Transaction.empty.queueRaw [op])).fault ≠ none

theorem failsAt_iff {i : Nat} : s.FailsAt ops i ↔ ∃ before op rest fault,
    ops = before ++ op :: rest ∧ before.length = i ∧ (s.applyAll before).fault = none ∧
      ((s.applyAll before).store.apply op).fault = some fault := by
  simp only [FailsAt, runUpTo, run_single]
  rw [run_queueRaw]
  constructor
  · rintro ⟨hbefore, op, hop, hfault⟩
    obtain ⟨hi, rfl⟩ := List.getElem?_eq_some_iff.1 hop
    obtain ⟨fault, hf⟩ := Option.ne_none_iff_exists'.1 hfault
    refine ⟨ops.take i, ops[i], ops.drop (i + 1), fault, ?_, ?_, hbefore, hf⟩
    · rw [← List.drop_eq_getElem_cons hi, List.take_append_drop]
    · simp only [List.length_take]
      omega
  · rintro ⟨before, op, rest, fault, rfl, rfl, hbefore, hf⟩
    rw [List.take_left]
    exact ⟨hbefore, op, by simp, by simp [hf]⟩

/-! ## Runs side by side -/

section
variable {R : Store → Store → Prop} {f : Operation → Operation} {s' : Store}

/-- The operation, changed for the second of two related stores, keeps them related and fails for
both or for none. -/
def GoesAlong (R : Store → Store → Prop) (f : Operation → Operation) (op : Operation) : Prop :=
  ∀ s s', R s s' → R (s.apply op).store (s'.apply (f op)).store ∧
    ((s'.apply (f op)).fault = none ↔ (s.apply op).fault = none)

theorem GoesAlong.applyAll (hops : ∀ op ∈ ops, GoesAlong R f op) (h : R s s') :
    R (s.applyAll ops).store (s'.applyAll (ops.map f)).store ∧
      ((s'.applyAll (ops.map f)).fault = none ↔ (s.applyAll ops).fault = none) := by
  induction ops generalizing s s' with
  | nil => exact ⟨h, Iff.rfl⟩
  | cons op ops ih =>
    obtain ⟨hstore, hfault⟩ := hops op List.mem_cons_self s s' h
    have hrest := ih (fun o ho => hops o (List.mem_cons_of_mem op ho)) hstore
    rw [List.map_cons, fault_applyAll_cons_eq_none, fault_applyAll_cons_eq_none, hfault, hrest.2]
    refine ⟨?_, Iff.rfl⟩
    rw [applyAll_cons_store, applyAll_cons_store]
    by_cases hok : (s.apply op).fault = none
    · rw [if_pos hok, if_pos (hfault.2 hok)]
      exact hrest.1
    · rw [if_neg hok, if_neg (mt hfault.1 hok)]
      exact hstore

/-- So the runs fail at the same operation. -/
theorem GoesAlong.failsAt (hops : ∀ op ∈ ops, GoesAlong R f op) (h : R s s') (i : Nat) :
    s'.FailsAt (ops.map f) i ↔ s.FailsAt ops i := by
  obtain ⟨hstore, hfault⟩ := GoesAlong.applyAll (fun op hop => hops op (List.mem_of_mem_take hop)) h
  unfold FailsAt runUpTo
  rw [← List.map_take, run_queueRaw, run_queueRaw, hfault, List.getElem?_map]
  refine and_congr_right fun _ => ?_
  cases hop : ops[i]? with
  | none => simp
  | some op =>
    have hone := (hops op (List.mem_of_getElem? hop) _ _ hstore).2
    simp only [Option.map_some, Option.some.injEq, exists_eq_left', run_single, ne_eq, hone]

end

/-- There is only one such operation. -/
theorem FailsAt.unique {i j : Nat} (hi : s.FailsAt ops i) (hj : s.FailsAt ops j) : i = j := by
  -- up to the later of two there would be a run that both fails and goes through
  have key : ∀ {i j : Nat}, s.FailsAt ops i → s.FailsAt ops j → ¬ i < j := by
    intro i j hi hj hlt
    obtain ⟨before, op, rest, fault, hops, rfl, hbefore, hf⟩ := failsAt_iff.1 hi
    have htake : ops.take j = before ++ op :: rest.take (j - before.length - 1) := by
      obtain ⟨k, rfl⟩ : ∃ k, j = before.length + (k + 1) := ⟨j - before.length - 1, by omega⟩
      rw [hops, List.take_length_add_append, List.take_succ_cons]
      simp
    have hgo : (s.applyAll (ops.take j)).fault = none := hj.1
    rw [htake, applyAll_of_fault hbefore hf] at hgo
    cases hgo
  have hle := key hi hj
  have hge := key hj hi
  omega

/-- A run that goes through fails nowhere. -/
theorem FailsAt.fault_ne_none {i : Nat} (h : s.FailsAt ops i) : (s.applyAll ops).fault ≠ none := by
  obtain ⟨before, op, rest, fault, rfl, -, hbefore, hop⟩ := failsAt_iff.1 h
  rw [applyAll_of_fault hbefore hop]
  exact Option.some_ne_none fault

/-- What the run of `ops` comes to if it fails at `op`, the one at the index: the fault of that
operation by itself, and the warnings and the store that those before it led to. The count of
handles alone is another: each operation that makes an object used one up, and the one that failed
did if there was a table. -/
structure FailsCleanly (s : Store) (ops : List Operation) (i : Nat) (op : Operation) : Prop where
  fault : (s.run (Transaction.empty.queueRaw ops)).fault
    = ((s.runUpTo ops i).store.run (Transaction.empty.queueRaw [op])).fault
  warnings : (s.run (Transaction.empty.queueRaw ops)).warnings = (s.runUpTo ops i).warnings
  store : (s.run (Transaction.empty.queueRaw ops)).store
    = { (s.runUpTo ops i).store with
        lastHandle := (s.run (Transaction.empty.queueRaw ops)).store.lastHandle }
  lastHandle : (s.run (Transaction.empty.queueRaw ops)).store.lastHandle
    = s.lastHandle + (ops.take i).countP (fun op => op.verb.makes)
      + if op.verb.makes && (s.runUpTo ops i).store.contents.isSome then 1 else 0

theorem FailsAt.failsCleanly {i : Nat} (h : s.FailsAt ops i) {op : Operation}
    (hop : ops[i]? = some op) : s.FailsCleanly ops i op := by
  obtain ⟨before, found, rest, fault, rfl, rfl, hbefore, hf⟩ := failsAt_iff.1 h
  obtain rfl : found = op := by simpa using hop
  have hrun : s.run (Transaction.empty.queueRaw (before ++ found :: rest))
      = ⟨(s.applyAll before).store.spent found.verb, (s.applyAll before).warnings, some fault⟩ := by
    rw [run_queueRaw, applyAll_of_fault hbefore hf]
  have hup : s.runUpTo (before ++ found :: rest) before.length = s.applyAll before := by
    rw [runUpTo, run_queueRaw, List.take_left]
  refine ⟨?_, ?_, ?_, ?_⟩
  · rw [hrun, hup, run_single, hf]
  · rw [hrun, hup]
  · rw [hrun, hup]
    exact spent_eq _ _
  · rw [hrun, hup, List.take_left, lastHandle_spent, lastHandle_applyAll_of_ok hbefore]

/-- A run of operations goes through, or it fails at just one of them and leaves what those before
it made. Running a list in two parts, the second where the first led to if that went through, is
the same as running it all. -/
theorem run_atomic (s : Store) (ops : List Operation) :
    (((s.run (Transaction.empty.queueRaw ops)).fault = none ∧ (∀ i, ¬ s.FailsAt ops i) ∧
        (s.run (Transaction.empty.queueRaw ops)).store.lastHandle
          = s.lastHandle + ops.countP fun op => op.verb.makes) ∨
      ((∃! i, s.FailsAt ops i) ∧
        ∀ i op, s.FailsAt ops i → ops[i]? = some op → s.FailsCleanly ops i op)) ∧
    ∀ more, s.run (Transaction.empty.queueRaw (ops ++ more))
      = (s.run (Transaction.empty.queueRaw ops)).andThen fun s' =>
          s'.run (Transaction.empty.queueRaw more) := by
  refine ⟨?_, fun more => s.applyAll_append ops more⟩
  rw [run_queueRaw]
  cases hf : (s.applyAll ops).fault with
  | none =>
    refine .inl ⟨rfl, fun i hi => ?_, lastHandle_applyAll_of_ok hf⟩
    obtain ⟨before, op, rest, fault, rfl, -, hbefore, hop⟩ := failsAt_iff.1 hi
    rw [applyAll_of_fault hbefore hop] at hf
    cases hf
  | some fault =>
    obtain ⟨before, op, rest, hops, hbefore, hop⟩ := exists_fault_of_applyAll hf
    have hi : s.FailsAt ops before.length :=
      failsAt_iff.2 ⟨before, op, rest, fault, hops, rfl, hbefore, hop⟩
    exact .inr ⟨⟨before.length, hi, fun j hj => hj.unique hi⟩, fun i op h => h.failsCleanly⟩

end Store

/-- The table is deleted on the way, and what is added to it after that finds none. -/
def tearing : List Operation :=
  [⟨.add, .table ⟨none, none, none, none⟩⟩,
   ⟨.add, .chain ⟨"in", none, none, none, none, none, none⟩⟩,
   ⟨.delete, .table ⟨none, none, none, none⟩⟩,
   ⟨.add, .rule ⟨"in", some "drop", none, none, none⟩⟩,
   ⟨.add, .table ⟨none, none, none, none⟩⟩]

/-- A chain that is already there is to be created. -/
def creating : List Operation :=
  [⟨.add, .table ⟨none, none, none, none⟩⟩,
   ⟨.add, .chain ⟨"in", none, none, none, none, none, none⟩⟩,
   ⟨.create, .chain ⟨"in", none, none, none, none, none, none⟩⟩]

/-- A rule is to be deleted by a handle that is not one of the chain's. -/
def mishandling : List Operation :=
  [⟨.add, .table ⟨none, none, none, none⟩⟩,
   ⟨.add, .chain ⟨"in", none, none, none, none, none, none⟩⟩,
   ⟨.add, .rule ⟨"in", some "drop", none, none, none⟩⟩,
   ⟨.delete, .rule ⟨"in", none, none, none, some 2⟩⟩,
   ⟨.flush, .chain ⟨"in", none, none, none, none, none, none⟩⟩]

theorem failsCleanly_tearing_creating :
    ((Store.new .inet "filter").FailsAt tearing 3 ∧
      (Store.new .inet "filter").FailsCleanly tearing 3
        ⟨.add, .rule ⟨"in", some "drop", none, none, none⟩⟩ ∧
      ((Store.new .inet "filter").run (.queueRaw .empty tearing)).store.lastHandle = 2) ∧
    ((Store.new .inet "filter").FailsAt creating 2 ∧
      (Store.new .inet "filter").FailsCleanly creating 2
        ⟨.create, .chain ⟨"in", none, none, none, none, none, none⟩⟩ ∧
      ((Store.new .inet "filter").run (.queueRaw .empty creating)).store.lastHandle = 3) ∧
    (Store.new .inet "filter").FailsAt mishandling 3 ∧
      (Store.new .inet "filter").FailsCleanly mishandling 3
        ⟨.delete, .rule ⟨"in", none, none, none, some 2⟩⟩ ∧
      ((Store.new .inet "filter").run (.queueRaw .empty mishandling)).store.lastHandle = 3 := by
  have hclean : ∀ ops i op, (Store.new .inet "filter").FailsAt ops i → ops[i]? = some op →
      (Store.new .inet "filter").FailsCleanly ops i op := by
    intro ops i op hi hop
    obtain ⟨-, hno, -⟩ | ⟨-, hall⟩ := ((Store.new .inet "filter").run_atomic ops).1
    · exact absurd hi (hno i)
    · exact hall i op hi hop
  have htear : (Store.new .inet "filter").FailsAt tearing 3 := ⟨rfl, _, rfl, by decide⟩
  have hcreate : (Store.new .inet "filter").FailsAt creating 2 := ⟨rfl, _, rfl, by decide⟩
  have hmiss : (Store.new .inet "filter").FailsAt mishandling 3 := ⟨rfl, _, rfl, by decide⟩
  exact ⟨⟨htear, hclean _ _ _ htear rfl, rfl⟩, ⟨hcreate, hclean _ _ _ hcreate rfl, rfl⟩, hmiss,
    hclean _ _ _ hmiss rfl, rfl⟩

end NftStore
