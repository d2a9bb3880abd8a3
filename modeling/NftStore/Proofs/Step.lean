import NftStore.Proofs.Operation
import NftStore.Store.History

/-!
Steps. All that one operation can do to a store is listed once (`Store.Step`), and all that it can
do to a chain and to a set or map (`ChainEntry.Step`, `SetEntry.Step`). An invariant is proved for
each way in these lists, and from there holds after every run and in every history.
-/
namespace NftStore

/-! ## What a slot can become -/

/-- The ways in which an operation changes the slot of a chain, or leaves it. -/
inductive ChainEntry.Step (op : Operation) (defines : Defines) (number : Nat) :
    Option ChainEntry → Option ChainEntry → Prop
  | same (slot : Option ChainEntry) : Step op defines number slot slot
  | fresh (r : Chain) (hop : op = ⟨.add, .chain r⟩) :
      Step op defines number none (some ⟨r.stored number, []⟩)
  | emptied (entry : ChainEntry) : Step op defines number (some entry) (some entry.emptied)
  | erased (entry : ChainEntry) : Step op defines number (some entry) none
  | addRule (entry : ChainEntry) (r : Rule) (hop : op = ⟨.add, .rule r⟩) :
      Step op defines number (some entry) (some (entry.addRule (r.stored defines number)))
  | eraseRule (entry : ChainEntry) (handle : Int) :
      Step op defines number (some entry) (some (entry.eraseRule handle))

/-- The ways in which an operation changes the slot of a set or map, or leaves it. -/
inductive SetEntry.Step (op : Operation) (defines : Defines) (number : Nat) :
    Option SetEntry → Option SetEntry → Prop
  | same (slot : Option SetEntry) : Step op defines number slot slot
  | fresh (kind : SetKind) (r : SetSpec) (hop : op = ⟨.add, .set kind r⟩) :
      Step op defines number none (some ⟨r.stored defines number, []⟩)
  | emptied (entry : SetEntry) : Step op defines number (some entry) (some entry.emptied)
  | erased (entry : SetEntry) : Step op defines number (some entry) none
  | put (entry : SetEntry) (e : Element) (hop : op = ⟨.add, .element e⟩) :
      Step op defines number (some entry) (some (entry.put (e.stored defines)))
  | erase (entry : SetEntry) (key : String) :
      Step op defines number (some entry) (some (entry.erase key))

/-- The ways in which an operation changes a slot of a catalog. -/
def Shelf.Step (op : Operation) (defines : Defines) (number : Nat) :
    (k : Shelf) → Option k.Entry → Option k.Entry → Prop
  | .chains => ChainEntry.Step op defines number
  | .containers _ => SetEntry.Step op defines number

variable {op : Operation} {defines : Defines} {number : Nat}

theorem Operation.chain_step {slot new : Option ChainEntry} {warnings : List Warning}
    (h : op.act defines number .chains slot = .ok (new, warnings)) :
    ChainEntry.Step op defines number slot new := by
  obtain ⟨verb, object⟩ := op
  cases object with
  | chain r =>
    -- what is left are the verbs that a chain has, where they do not fail
    cases verb <;> cases slot <;> cases h
    case chain.add.none.refl => exact .fresh r rfl
    case chain.add.some.refl => exact .same _
    case chain.flush.some.refl entry => exact .emptied entry
    case chain.delete.some.refl entry => exact .erased entry
  | rule r =>
    cases verb with
    | add =>
      cases slot <;> cases h
      exact .addRule _ r rfl
    | delete =>
      cases slot with
      | none => cases h
      | some entry =>
        simp only [act, Slot.operateRule] at h
        cases hh : r.handle with
        | none => simp [hh] at h
        | some handle =>
          simp only [hh] at h
          split at h <;> cases h
          exact .eraseRule entry handle
    | _ => cases slot <;> cases h
  | table _ | set _ _ | element _ | counter _ | bare =>
    cases h
    exact .same _

theorem Operation.set_step {kind : SetKind} {slot new : Option SetEntry}
    {warnings : List Warning}
    (h : op.act defines number (.containers kind) slot = .ok (new, warnings)) :
    SetEntry.Step op defines number slot new := by
  obtain ⟨verb, object⟩ := op
  cases object with
  | set kind r =>
    cases verb <;> cases slot <;> cases h
    case set.add.none.refl => exact .fresh kind r rfl
    case set.add.some.refl => exact .same _
    case set.flush.some.refl entry => exact .emptied entry
    case set.delete.some.refl entry => exact .erased entry
  | element e =>
    cases verb with
    | add =>
      cases slot <;> cases h
      exact .put _ e rfl
    | delete =>
      cases slot with
      | none => cases h
      | some entry =>
        simp only [act, Slot.operateElement] at h
        split at h <;> cases h
        exact .erase entry _
    | _ => cases slot <;> cases h
  | table _ | chain _ | rule _ | counter _ | bare =>
    cases h
    exact .same _

theorem Operation.shelf_step {k : Shelf} {slot new : Option k.Entry} {warnings : List Warning}
    (h : op.act defines number k slot = .ok (new, warnings)) :
    k.Step op defines number slot new := by
  cases k with
  | chains => exact chain_step h
  | containers kind => exact set_step h

/-! ## What a store can become -/

namespace Store

/-- The stores that an operation can lead to: nothing can be done without a table, an operation
may fail or find nothing to do, a table is added, flushed or deleted, or one place changes. -/
inductive Step (s : Store) (op : Operation) : Store → Prop
  | noTable (hc : s.contents = none) : Step s op s
  | tableAdded (t : Table) (hc : s.contents = none) (hop : op = ⟨.add, .table t⟩) :
      Step s op { s.tick .add with contents := some ((s.tick .add).freshContents t) }
  | unchanged (c : Contents) (hc : s.contents = some c) : Step s op (s.tick op.verb)
  | tableFlushed (t : Table) (c : Contents) (hc : s.contents = some c)
      (hop : op = ⟨.flush, .table t⟩) :
      Step s op { s with contents := some (s.freshContents t) }
  | tableDeleted (c : Contents) (hc : s.contents = some c) :
      Step s op { s with contents := none }
  | placed (c : Contents) (p : Place) (slot : Option p.shelf.Entry) (hc : s.contents = some c)
      (hp : op.object.place? = some p)
      (hslot : p.shelf.Step op s.defines (s.tick op.verb).lastHandle (c.slot p) slot) :
      Step s op { s.tick op.verb with contents := some (c.put p slot) }

theorem tick_of_makes_eq_false (s : Store) (verb : Verb) (h : verb.makes = false) :
    s.tick verb = s := by
  simp [tick, h]

/-- Applying an operation is one of the listed steps. -/
theorem step_apply (s : Store) (op : Operation) : s.Step op (s.apply op).store := by
  have happlied := s.applied op
  generalize s.apply op = o at happlied ⊢
  cases happlied with
  | noTable hc => exact .noTable hc
  | tableAdded t hc hop => exact .tableAdded t hc hop
  | tableThere t c hc hop =>
    cases hop
    exact .unchanged c hc
  | tableFlushed t c hc hop => exact .tableFlushed t c hc hop
  | tableDeleted t c hc _ => exact .tableDeleted c hc
  | unsupported c fault hc _ _ | failed c _ fault hc _ _ => exact .unchanged c hc
  | placed c p slot warnings hc hp ha => exact .placed c p slot hc hp (Operation.shelf_step ha)

section
variable {s s' : Store}

theorem Step.defines_eq (h : s.Step op s') : s'.defines = s.defines := by
  cases h <;> simp

theorem Step.family_eq (h : s.Step op s') : s'.family = s.family := by
  cases h <;> simp

theorem Step.table_eq (h : s.Step op s') : s'.table = s.table := by
  cases h <;> simp

theorem lastHandle_le_tick (s : Store) (verb : Verb) : s.lastHandle ≤ (s.tick verb).lastHandle := by
  rw [lastHandle_tick]
  split <;> omega

/-- The count of handles never goes back. -/
theorem Step.lastHandle_le (h : s.Step op s') : s.lastHandle ≤ s'.lastHandle := by
  cases h with
  | noTable | tableFlushed | tableDeleted => exact Nat.le_refl _
  | tableAdded | unchanged | placed => exact s.lastHandle_le_tick _

end

/-! ## Runs and histories -/

theorem run_queueRaw (s : Store) (ops : List Operation) :
    s.run (Transaction.empty.queueRaw ops) = s.applyAll ops := rfl

theorem run_single (s : Store) (op : Operation) :
    s.run (Transaction.empty.queueRaw [op]) = s.apply op := by
  rw [run_queueRaw, applyAll]
  cases hf : (s.apply op).fault with
  | none =>
    rw [Outcome.andThen_of_ok hf, applyAll, List.append_nil, ← hf]
  | some e => exact Outcome.andThen_of_fault hf _

theorem applyAll_cons_store (s : Store) (op : Operation) (ops : List Operation) :
    (s.applyAll (op :: ops)).store
      = if (s.apply op).fault = none then ((s.apply op).store.applyAll ops).store
        else (s.apply op).store := by
  simp only [applyAll, Outcome.andThen]
  cases (s.apply op).fault <;> rfl

/-- A run goes through if its first operation does and the others do after that. -/
theorem fault_applyAll_cons_eq_none {s : Store} {op : Operation} {ops : List Operation} :
    (s.applyAll (op :: ops)).fault = none ↔
      (s.apply op).fault = none ∧ ((s.apply op).store.applyAll ops).fault = none := by
  simp only [applyAll]
  cases hf : (s.apply op).fault with
  | some e => simp [Outcome.andThen_of_fault hf, hf]
  | none => simp [Outcome.andThen_of_ok hf]

theorem lastHandle_apply_of_ok {s : Store} {op : Operation} (h : (s.apply op).fault = none) :
    (s.apply op).store.lastHandle = (s.tick op.verb).lastHandle := by
  have happlied := s.applied op
  generalize s.apply op = o at h happlied
  cases happlied with
  | noTable | unsupported | failed => cases h
  | tableAdded t _ hop | tableThere t _ _ hop | tableFlushed t _ _ hop | tableDeleted t _ _ hop =>
    cases hop
    rfl
  | placed => rfl

/-- A run that succeeds uses up one handle for each operation that makes an object. -/
theorem lastHandle_applyAll_of_ok {s : Store} {ops : List Operation}
    (h : (s.applyAll ops).fault = none) :
    (s.applyAll ops).store.lastHandle = s.lastHandle + ops.countP fun op => op.verb.makes := by
  induction ops generalizing s with
  | nil => rfl
  | cons op ops ih =>
    obtain ⟨hfirst, hrest⟩ := fault_applyAll_cons_eq_none.1 h
    rw [applyAll_cons_store, if_pos hfirst, ih hrest, lastHandle_apply_of_ok hfirst, lastHandle_tick,
      List.countP_cons]
    split <;> omega

/-- What every step keeps, a run keeps, also one that fails. -/
theorem run_invariant {P : Store → Prop} {tx : Transaction}
    (hstep : ∀ s op s', op ∈ tx.operations → P s → s.Step op s' → P s') {s : Store} (hs : P s) :
    P (s.run tx).store := by
  -- by induction on the operations that are still to come
  have key : ∀ ops : List Operation, (∀ op ∈ ops, op ∈ tx.operations) → ∀ s, P s →
      P (s.applyAll ops).store := by
    intro ops
    induction ops with
    | nil => exact fun _ s hs => hs
    | cons op ops ih =>
      intro hops s hs
      have h1 : P (s.apply op).store := hstep s op _ (hops op (by simp)) hs (s.step_apply op)
      rw [applyAll_cons_store]
      split
      · exact ih (fun o ho => hops o (by simp [ho])) _ h1
      · exact h1
  unfold run
  split
  · exact hs
  · exact key tx.operations (fun _ h => h) s hs

theorem family_run (s : Store) (tx : Transaction) : (s.run tx).store.family = s.family :=
  run_invariant (P := fun s' => s'.family = s.family)
    (fun _ _ _ _ hs hstep => hstep.family_eq.trans hs) rfl

theorem table_run (s : Store) (tx : Transaction) : (s.run tx).store.table = s.table :=
  run_invariant (P := fun s' => s'.table = s.table)
    (fun _ _ _ _ hs hstep => hstep.table_eq.trans hs) rfl

theorem defines_run (s : Store) (tx : Transaction) : (s.run tx).store.defines = s.defines :=
  run_invariant (P := fun s' => s'.defines = s.defines)
    (fun _ _ _ _ hs hstep => hstep.defines_eq.trans hs) rfl

/-- Running changes the contents and the count of handles, and nothing else. -/
theorem run_store_eq (s : Store) (tx : Transaction) :
    (s.run tx).store = { s with
      contents := (s.run tx).store.contents
      lastHandle := (s.run tx).store.lastHandle } := by
  rw [← s.family_run tx, ← s.table_run tx, ← s.defines_run tx]

/-- A store that a new one can become by events of a certain sort. -/
inductive ReachableBy (allowed : Event → Prop) : Store → Prop
  | new (family : Family) (table : String) : ReachableBy allowed (new family table)
  | after {s : Store} (e : Event) (he : allowed e) : ReachableBy allowed s →
      ReachableBy allowed (s.after e)

theorem ReachableBy.reachable {allowed : Event → Prop} {s : Store} (h : ReachableBy allowed s) :
    Reachable s := by
  induction h with
  | new f t => exact .new f t
  | after e _ _ ih => exact .after e ih

theorem ReachableBy.replay {allowed : Event → Prop} {s : Store} (h : ReachableBy allowed s)
    {events : List Event} (he : ∀ e ∈ events, allowed e) : ReachableBy allowed (s.replay events) := by
  induction events generalizing s with
  | nil => exact h
  | cons e events ih => exact ih (.after e (he e (by simp)) h) fun o ho => he o (by simp [ho])

/-- An invariant of restricted histories: new stores have it, and every allowed define and every
step of an allowed run keep it. -/
theorem ReachableBy.of_steps {allowed : Event → Prop} {P : Store → Prop}
    (hnew : ∀ f t, P (Store.new f t))
    (hdefine : ∀ s name value, allowed (.define name value) → P s → P (s.define name value))
    (hstep : ∀ tx, allowed (.run tx) → ∀ s op s', op ∈ tx.operations → P s → s.Step op s' → P s')
    {s : Store} (h : ReachableBy allowed s) : P s := by
  induction h with
  | new f t => exact hnew f t
  | after e he _ ih =>
    cases e with
    | define name value => exact hdefine _ name value he ih
    | run tx => exact run_invariant (hstep tx he) ih

/-- Further events from one store, as an invariant of that store's future. -/
theorem replay_invariant {P : Store → Prop}
    (hdefine : ∀ s name value, P s → P (s.define name value))
    (hstep : ∀ s op s', P s → s.Step op s' → P s') {s : Store} (hs : P s) (events : List Event) :
    P (s.replay events) := by
  induction events generalizing s with
  | nil => exact hs
  | cons e events ih =>
    refine ih (s := s.after e) ?_
    cases e with
    | define name value => exact hdefine s name value hs
    | run tx => exact run_invariant (fun s op s' _ => hstep s op s') hs

theorem Reachable.of_steps {P : Store → Prop} (hnew : ∀ f t, P (Store.new f t))
    (hdefine : ∀ s name value, P s → P (s.define name value))
    (hstep : ∀ s op s', P s → s.Step op s' → P s') {s : Store} (h : Reachable s) : P s := by
  refine Reachable.invariant hnew (fun s e hs => ?_) h
  exact replay_invariant hdefine hstep hs [e]

end Store

/-! ## Invariants entry by entry -/

/-- Every entry has a property that may depend on its place. -/
def Contents.All (Q : (p : Place) → p.shelf.Entry → Prop) (c : Contents) : Prop :=
  ∀ p entry, c.slot p = some entry → Q p entry

variable {Q : (p : Place) → p.shelf.Entry → Prop}

theorem Contents.all_iff {c : Contents} :
    c.All Q ↔ ∀ k ∈ Shelf.all, ∀ e ∈ (c.catalog k).entries, Q ⟨k, e.1⟩ e.2 := by
  constructor
  · exact fun h k _ e he => h ⟨k, e.1⟩ e.2 (Catalog.find?_eq_some_iff.2 he)
  · exact fun h p entry hp => h p.shelf p.shelf.mem_all (p.name, entry) (Catalog.find?_eq_some_iff.1 hp)

theorem Contents.All.put {c : Contents} (h : c.All Q) {p : Place} {slot : Option p.shelf.Entry}
    (hslot : ∀ entry, slot = some entry → Q p entry) : (c.put p slot).All Q := by
  intro q entry hq
  by_cases hqp : q = p
  · subst hqp
    rw [slot_put_self] at hq
    exact hslot entry hq
  · rw [slot_put_of_ne c hqp] at hq
    exact h q entry hq

theorem Store.slot_freshContents (s : Store) (t : Table) (p : Place) :
    (s.freshContents t).slot p = none := by
  obtain ⟨k, name⟩ := p
  cases k with
  | chains => rfl
  | containers kind => cases kind <;> rfl

/-- Every stored entry has the property. -/
def Store.All (Q : (p : Place) → p.shelf.Entry → Prop) (s : Store) : Prop :=
  ∀ c, s.contents = some c → c.All Q

theorem Store.All.new (family : Family) (table : String) : (Store.new family table).All Q := by
  intro c hc
  cases hc

/-- A property of entries is kept by a step if it is kept in the slot that the step is about. -/
theorem Store.All.step {s s' : Store} (h : s.All Q) (hs : s.Step op s')
    (hslot : ∀ p old new, op.object.place? = some p →
      p.shelf.Step op s.defines (s.tick op.verb).lastHandle old (some new) →
      (∀ entry, old = some entry → Q p entry) → Q p new) : s'.All Q := by
  intro c' hc'
  cases hs with
  | noTable hc => exact h c' hc'
  | tableAdded t _ _ =>
    cases hc'
    intro p entry hp
    simp [slot_freshContents] at hp
  | unchanged c hc => exact h c' (by simpa using hc')
  | tableFlushed t c _ =>
    cases hc'
    intro p entry hp
    simp [slot_freshContents] at hp
  | tableDeleted c _ => cases hc'
  | placed c p slot hc hp hstep =>
    cases hc'
    refine (h c hc).put ?_
    rintro entry rfl
    exact hslot p _ entry hp hstep fun old hold => h c hc p old hold

/-! ## Single places -/

namespace Store

variable {s : Store} {p : Place}

/-- An operation about another place or about none leaves what stays at a place as it was. -/
theorem slot_apply_of_ne (hp : op.object.place? ≠ some p) {c' : Contents}
    (hc' : (s.apply op).store.contents = some c') {entry : p.shelf.Entry}
    (he : c'.slot p = some entry) : ∃ c, s.contents = some c ∧ c.slot p = some entry := by
  have hs := s.step_apply op
  generalize (s.apply op).store = s' at hs hc'
  cases hs with
  | noTable hc => exact ⟨c', hc', he⟩
  | unchanged c hc =>
    rw [contents_tick] at hc'
    exact ⟨c', hc', he⟩
  | tableAdded t _ _ | tableFlushed t c _ =>
    cases hc'
    rw [slot_freshContents] at he
    cases he
  | tableDeleted c _ => cases hc'
  | placed c q slot hc hq _ =>
    cases hc'
    have hne : p ≠ q := by
      rintro rfl
      exact hp hq
    exact ⟨c, hc, (Contents.slot_put_of_ne c hne slot).symm.trans he⟩

/-- An operation about a place that goes through acts on the slot there. -/
theorem exists_act_of_ok (hp : op.object.place? = some p) (h : (s.apply op).fault = none) :
    ∃ c slot warnings, s.contents = some c ∧
      op.act s.defines (s.tick op.verb).lastHandle p.shelf (c.slot p) = .ok (slot, warnings) ∧
      (s.apply op).store.contents = some (c.put p slot) := by
  have happlied := s.applied op
  generalize s.apply op = o at h happlied ⊢
  cases happlied with
  | noTable | unsupported | failed => cases h
  | tableAdded t _ hop | tableThere t _ _ hop | tableFlushed t _ _ hop | tableDeleted t _ _ hop =>
    cases hop
    cases hp
  | placed c q slot warnings hc hq ha =>
    cases hp.symm.trans hq
    exact ⟨c, slot, warnings, hc, ha, rfl⟩

/-- What stands at a place after an operation that went through is what the operation made of the
slot there, or it stood there before an operation about something else. -/
theorem slot_apply_of_ok (h : (s.apply op).fault = none) {c' : Contents}
    (hc' : (s.apply op).store.contents = some c') {entry : p.shelf.Entry}
    (he : c'.slot p = some entry) : ∃ c, s.contents = some c ∧
      ((op.object.place? = some p ∧ ∃ warnings,
          op.act s.defines (s.tick op.verb).lastHandle p.shelf (c.slot p)
            = .ok (some entry, warnings)) ∨
        op.object.place? ≠ some p ∧ c.slot p = some entry) := by
  by_cases hp : op.object.place? = some p
  · obtain ⟨c, slot, warnings, hc, ha, hput⟩ := exists_act_of_ok hp h
    cases hc'.symm.trans hput
    obtain rfl : slot = some entry := (c.slot_put_self p slot).symm.trans he
    exact ⟨c, hc, .inl ⟨hp, warnings, ha⟩⟩
  · obtain ⟨c, hc, hold⟩ := slot_apply_of_ne hp hc' he
    exact ⟨c, hc, .inr ⟨hp, hold⟩⟩

end Store

end NftStore
