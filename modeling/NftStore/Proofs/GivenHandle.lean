import NftStore.Proofs.Failure
import NftStore.Store.Dump

/-!
Handles that a client gives. A stored object is a copy of the one that was submitted, but for its
handle, and only rules are deleted by one. So an operation does the same without the handle that its
object carries, unless it deletes a rule (`apply_unhandled`), and hence so does a run. The handle
shows in a warning alone, where a chain, set or map that carries one is deleted.
-/
namespace NftStore

variable {number : Nat} {defines : Defines} {op : Operation}

/-! ## Operations without the handles given -/

/-- The object without the handle that it carries. Elements, counters and bare objects have none. -/
def Object.unhandled : Object → Object
  | .table t => .table { t with handle := none }
  | .chain r => .chain { r with handle := none }
  | .rule r => .rule { r with handle := none }
  | .set kind r => .set kind { r with handle := none }
  | object => object

/-- The operation without the handle that its object carries. A delete of a rule keeps it, for it
says which rule is meant. -/
def Operation.unhandled (op : Operation) : Operation :=
  match op.verb, op.object with
  | .delete, .rule _ => op
  | _, object => { op with object := object.unhandled }

/-- The warning that an operation gives if it goes through: a chain, set or map that carries a
handle is deleted by its name. -/
def Operation.warning? (op : Operation) : Option Warning :=
  match op.verb, op.object with
  | .delete, .chain r => r.handle.map fun handle => ⟨.chain, r.name, handle⟩
  | .delete, .set kind r => r.handle.map fun handle => ⟨kind.kind, r.name, handle⟩
  | _, _ => none

@[simp] theorem Operation.verb_unhandled (op : Operation) : op.unhandled.verb = op.verb := by
  unfold unhandled
  split <;> rfl

@[simp] theorem Operation.place?_unhandled (op : Operation) :
    op.unhandled.object.place? = op.object.place? := by
  obtain ⟨verb, object⟩ := op
  cases object <;> cases verb <;> rfl

/-! ## One operation -/

/-- What a change comes to, its warnings left aside. -/
def Change.silent {α : Type} (c : Change α) : Change α :=
  c.map fun result => (result.1, [])

/-- What an operation makes of a slot does not depend on the handle given. -/
theorem Operation.act_unhandled (op : Operation) (k : Shelf) (slot : Option k.Entry) :
    op.unhandled.act defines number k slot = Change.silent (op.act defines number k slot) := by
  obtain ⟨verb, object⟩ := op
  cases k with
  | chains =>
    cases object with
    | rule r =>
      cases verb with
      | delete =>
        -- here the handle stays, but rules are deleted without warnings
        show Slot.operateRule .delete r _ slot = Change.silent (Slot.operateRule .delete r _ slot)
        cases slot with
        | none => rfl
        | some entry =>
          cases hh : r.handle with
          | none => simp only [Slot.operateRule, hh]; rfl
          | some handle =>
            simp only [Slot.operateRule, hh]
            split <;> rfl
      | add => cases slot <;> cases r.handle <;> rfl
      | _ => cases slot <;> cases r.handle <;> rfl
    | _ => cases verb <;> cases slot <;> rfl
  | containers kind =>
    cases object with
    | element e =>
      cases verb with
      | delete =>
        show Slot.operateElement .delete e _ slot
          = Change.silent (Slot.operateElement .delete e _ slot)
        cases slot with
        | none => rfl
        | some entry =>
          simp only [Slot.operateElement]
          split <;> rfl
      | _ => cases slot <;> rfl
    | _ => cases verb <;> cases slot <;> rfl

/-- An operation that goes through gives its warning, if it has one. -/
theorem Operation.warnings_of_act {k : Shelf} {slot new : Option k.Entry} {warnings : List Warning}
    {name : String} (hp : op.object.place? = some ⟨k, name⟩)
    (h : op.act defines number k slot = .ok (new, warnings)) : warnings = op.warning?.toList := by
  obtain ⟨verb, object⟩ := op
  cases object with
  | table _ | counter _ | bare => cases hp
  | chain r =>
    cases hp
    cases verb <;> cases slot <;> cases h <;> rfl
  | rule r =>
    cases hp
    cases verb with
    | delete =>
      cases slot with
      | none => cases h
      | some entry =>
        simp only [act, Slot.operateRule] at h
        cases hh : r.handle with
        | none => simp [hh] at h
        | some handle =>
          simp only [hh] at h
          split at h <;> cases h
          rfl
    | _ => cases slot <;> cases h <;> rfl
  | set kind r =>
    cases hp
    cases verb <;> cases slot <;> cases h <;> rfl
  | element e =>
    cases hp
    cases verb with
    | delete =>
      cases slot with
      | none => cases h
      | some entry =>
        simp only [act, Slot.operateElement] at h
        split at h <;> cases h
        rfl
    | _ => cases slot <;> cases h <;> rfl

/-- An outcome, its warnings left aside. -/
def Outcome.silent (o : Outcome) : Outcome :=
  { o with warnings := [] }

theorem Outcome.andThen_silent (o : Outcome) {next next' : Store → Outcome}
    (h : ∀ s, next' s = (next s).silent) : o.silent.andThen next' = (o.andThen next).silent := by
  cases ho : o.fault with
  | some fault => simp [andThen, silent, ho]
  | none => simp [andThen, silent, ho, h]

namespace Store

variable {s : Store} {ops : List Operation}

theorem apply_unhandled_of_place {c : Contents} (hc : s.contents = some c) {p : Place}
    (hp : op.object.place? = some p) : s.apply op.unhandled = (s.apply op).silent := by
  have hp' : op.unhandled.object.place? = some p := by rw [Operation.place?_unhandled, hp]
  have hact : op.unhandled.act s.defines (s.tick op.unhandled.verb).lastHandle p.shelf (c.slot p)
      = Change.silent (op.act s.defines (s.tick op.verb).lastHandle p.shelf (c.slot p)) := by
    rw [Operation.verb_unhandled]
    exact op.act_unhandled p.shelf (c.slot p)
  cases ha : op.act s.defines (s.tick op.verb).lastHandle p.shelf (c.slot p) with
  | ok result =>
    obtain ⟨slot, warnings⟩ := result
    rw [ha] at hact
    rw [apply_of_act_ok hc hp ha, apply_of_act_ok hc hp' hact, Operation.verb_unhandled]
    rfl
  | error fault =>
    rw [ha] at hact
    rw [apply_of_act_error hc hp ha, apply_of_act_error hc hp' hact, Operation.verb_unhandled]
    rfl

/-- Each operation does the same without the handle given, but for the warning. -/
theorem apply_unhandled (s : Store) (op : Operation) :
    s.apply op.unhandled = (s.apply op).silent := by
  cases hc : s.contents with
  | none =>
    obtain ⟨family, table, defines, lastHandle, contents⟩ := s
    cases hc
    obtain ⟨verb, object⟩ := op
    cases object <;> cases verb <;> rfl
  | some c =>
    cases hp : op.object.place? with
    | some p => exact apply_unhandled_of_place hc hp
    | none =>
      -- the object is the table, or of a kind that no store holds
      obtain ⟨family, table, defines, lastHandle, contents⟩ := s
      cases hc
      obtain ⟨verb, object⟩ := op
      cases object with
      | table _ | counter _ | bare => cases verb <;> rfl
      | chain _ | rule _ | set _ _ | element _ => cases hp

theorem warnings_apply_of_ok (h : (s.apply op).fault = none) :
    (s.apply op).warnings = op.warning?.toList := by
  have happlied := s.applied op
  generalize s.apply op = o at h happlied ⊢
  cases happlied with
  | noTable | unsupported | failed => cases h
  | tableAdded _ _ hop | tableThere _ _ _ hop | tableFlushed _ _ _ hop | tableDeleted _ _ _ hop =>
    cases hop
    rfl
  | placed c p slot warnings hc hp ha => exact Operation.warnings_of_act hp ha

/-! ## Runs -/

theorem applyAll_unhandled (s : Store) (ops : List Operation) :
    s.applyAll (ops.map Operation.unhandled) = (s.applyAll ops).silent := by
  induction ops generalizing s with
  | nil => rfl
  | cons op ops ih =>
    rw [List.map_cons, applyAll, applyAll, apply_unhandled]
    exact Outcome.andThen_silent _ ih

theorem failsAt_unhandled (s : Store) (ops : List Operation) (i : Nat) :
    s.FailsAt (ops.map Operation.unhandled) i ↔ s.FailsAt ops i := by
  refine GoesAlong.failsAt (R := Eq) (fun op _ => ?_) rfl i
  rintro s _ rfl
  rw [apply_unhandled]
  exact ⟨rfl, Iff.rfl⟩

/-- A run that goes through gives the warnings of its operations in their order. -/
theorem warnings_applyAll_of_ok (h : (s.applyAll ops).fault = none) :
    (s.applyAll ops).warnings = ops.filterMap Operation.warning? := by
  induction ops generalizing s with
  | nil => rfl
  | cons op ops ih =>
    obtain ⟨hfirst, hrest⟩ := fault_applyAll_cons_eq_none.1 h
    rw [applyAll, Outcome.andThen_of_ok hfirst]
    show (s.apply op).warnings ++ ((s.apply op).store.applyAll ops).warnings = _
    rw [warnings_apply_of_ok hfirst, ih hrest, List.filterMap_cons]
    cases op.warning? <;> rfl

/-- A run that fails gives those of the operations before the one that fails. -/
theorem FailsAt.warnings {i : Nat} (h : s.FailsAt ops i) :
    (s.applyAll ops).warnings = (ops.take i).filterMap Operation.warning? := by
  have hbefore : (s.applyAll (ops.take i)).fault = none := h.1
  obtain ⟨op, hop, -⟩ := h.2
  rw [← warnings_applyAll_of_ok hbefore]
  exact (h.failsCleanly hop).warnings

/-- Handles that a client gives say which rules are deleted, and nothing else. Two queues that
differ in the others only run alike from every store: they fail at the same operation and for the
same reason or go through, and leave the same store and the same dump. The warnings of a run are
those of the operations that went through, in their order: one for each chain, set or map that was
deleted by its name though the object carried a handle. -/
theorem run_of_unhandled_eq (s : Store) :
    (∀ xs ys : List Operation, xs.map Operation.unhandled = ys.map Operation.unhandled →
      (∀ i, s.FailsAt xs i ↔ s.FailsAt ys i) ∧
      (s.run (Transaction.empty.queueRaw xs)).fault
        = (s.run (Transaction.empty.queueRaw ys)).fault ∧
      (s.run (Transaction.empty.queueRaw xs)).store
        = (s.run (Transaction.empty.queueRaw ys)).store ∧
      (s.run (Transaction.empty.queueRaw xs)).store.dump
        = (s.run (Transaction.empty.queueRaw ys)).store.dump) ∧
    ∀ ops : List Operation,
      ((s.run (Transaction.empty.queueRaw ops)).fault = none →
        (s.run (Transaction.empty.queueRaw ops)).warnings = ops.filterMap Operation.warning?) ∧
      ∀ i, s.FailsAt ops i →
        (s.run (Transaction.empty.queueRaw ops)).warnings
          = (ops.take i).filterMap Operation.warning? := by
  refine ⟨fun xs ys h => ?_, fun ops => ⟨fun hok => ?_, fun i hi => ?_⟩⟩
  · have hrun : (s.applyAll xs).silent = (s.applyAll ys).silent := by
      rw [← applyAll_unhandled, h, applyAll_unhandled]
    have hfault : (s.applyAll xs).silent.fault = (s.applyAll ys).silent.fault := by rw [hrun]
    have hstore : (s.applyAll xs).silent.store = (s.applyAll ys).silent.store := by rw [hrun]
    refine ⟨fun i => ?_, hfault, hstore, congrArg dump hstore⟩
    rw [← failsAt_unhandled, h, failsAt_unhandled]
  · exact warnings_applyAll_of_ok hok
  · exact hi.warnings

end Store

/-- A table, a chain with a rule, and a map, all submitted with a handle. The rule is deleted by its
own handle, and by their names the map, the chain, and a set that is not there. -/
def handing (handle : Option Int) : List Operation :=
  [⟨.add, .table ⟨none, none, none, handle⟩⟩,
   ⟨.add, .chain ⟨"in", none, none, none, none, none, handle⟩⟩,
   ⟨.add, .rule ⟨"in", some "drop", none, none, handle⟩⟩,
   ⟨.add, .set .map ⟨"in", some "ipv4_addr : verdict", none, none, none, none, none, none, none,
     none, handle⟩⟩,
   ⟨.delete, .rule ⟨"in", none, none, none, some 3⟩⟩,
   ⟨.delete, .set .map ⟨"in", none, none, none, none, none, none, none, none, none, handle⟩⟩,
   ⟨.delete, .chain ⟨"in", none, none, none, none, none, handle⟩⟩,
   ⟨.delete, .set .set ⟨"in", none, none, none, none, none, none, none, none, none, handle⟩⟩]

theorem run_handing :
    (handing (some 42)).map Operation.unhandled = (handing none).map Operation.unhandled ∧
    (Store.new .ip "filter").FailsAt (handing (some 42)) 7 ∧
    (Store.new .ip "filter").FailsAt (handing none) 7 ∧
    ((Store.new .ip "filter").run (.queueRaw .empty (handing (some 42)))).store
      = ((Store.new .ip "filter").run (.queueRaw .empty (handing none))).store ∧
    ((Store.new .ip "filter").run (.queueRaw .empty (handing (some 42)))).warnings
      = [⟨.map, "in", 42⟩, ⟨.chain, "in", 42⟩] := by
  have h : (handing (some 42)).map Operation.unhandled
      = (handing none).map Operation.unhandled := rfl
  have hi : (Store.new .ip "filter").FailsAt (handing (some 42)) 7 := ⟨rfl, _, rfl, by decide⟩
  obtain ⟨halike, hwarnings⟩ := (Store.new .ip "filter").run_of_unhandled_eq
  obtain ⟨hfails, -, hstore, -⟩ := halike _ _ h
  exact ⟨h, hi, (hfails 7).1 hi, hstore, (hwarnings _).2 7 hi⟩

end NftStore
