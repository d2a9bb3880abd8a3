import NftStore.Proofs.DumpLines
import NftStore.Proofs.Failure
import NftStore.Store.Renumber

/-!
Renumbering. Handles are only ever compared with each other, so nothing depends on where the count
of handles stands. With all handles moved up by a number, the same operations do the same: each of
them commutes with the move (`apply_shift`), hence so does a run. Deleting the table leaves nothing
but the count behind, and a new store with the count moved up is just that.
-/
namespace NftStore

variable {k number : Nat} {defines : Defines} {op : Operation}

/-! ## Contents moved up -/

/-- The entry under handles moved up. -/
def Shelf.shift (k : Nat) : (s : Shelf) → s.Entry → s.Entry
  | chains, entry => ChainEntry.shift k entry
  | containers _, entry => SetEntry.shift k entry

namespace Contents

theorem catalog_shift (c : Contents) (s : Shelf) :
    (c.shift k).catalog s = (c.catalog s).mapEntries fun _ => s.shift k := by
  match s with
  | .chains | .containers .set | .containers .map => rfl

theorem slot_shift (c : Contents) (p : Place) :
    (c.shift k).slot p = (c.slot p).map (p.shelf.shift k) := by
  rw [slot, catalog_shift, Catalog.find?_mapEntries, slot]

theorem put_shift (c : Contents) (p : Place) (slot : Option p.shelf.Entry) :
    (c.shift k).put p (slot.map (p.shelf.shift k)) = (c.put p slot).shift k := by
  have hshift : ∀ c : Contents,
      c.shift k = (c.mapEntries (Shelf.shift k)).withTable (c.table.shift k) := fun _ => rfl
  rw [hshift, hshift, put_withTable, mapEntries_put, table_put]

end Contents

/-! ## Operations moved up -/

/-- What was not found, with the handle of a rule moved up. -/
def NotFound.shift (k : Nat) : NotFound → NotFound
  | rule handle chain => .rule (handle + k) chain
  | cause => cause

/-- The fault with the handle of a rule that was not found moved up. All else names no handle. -/
def Fault.shift (k : Nat) : Fault → Fault
  | notFound cause => .notFound (cause.shift k)
  | fault => fault

@[simp] theorem Fault.sort_shift (fault : Fault) : (fault.shift k).sort = fault.sort := by
  cases fault <;> rfl

@[simp] theorem Operation.verb_shift (op : Operation) : (op.shift k).verb = op.verb := by
  unfold shift
  split <;> rfl

@[simp] theorem Operation.place?_shift (op : Operation) :
    (op.shift k).object.place? = op.object.place? := by
  obtain ⟨verb, object⟩ := op
  cases object <;> cases verb <;> rfl

@[simp] theorem Operation.addsTable_shift (op : Operation) :
    (op.shift k).addsTable = op.addsTable := by
  obtain ⟨verb, object⟩ := op
  cases object <;> cases verb <;> rfl

/-- Only an operation about a place has anything to move up. -/
theorem Operation.shift_of_noPlace (hp : op.object.place? = none) : op.shift k = op := by
  obtain ⟨verb, object⟩ := op
  cases object <;> cases verb <;> first | rfl | cases hp

theorem Rule.shift_stored (r : Rule) :
    (r.stored defines number).shift k = r.stored defines (number + k) := by
  simp [shift, stored, shiftHandle]

/-- Two handles are the same exactly if they are after the move. -/
theorem Rule.shift_hasHandle (r : Rule) (handle : Int) :
    ((r.shift k).handle == some (handle + k)) = (r.handle == some handle) := by
  rw [Bool.eq_iff_iff]
  cases hr : r.handle <;> simp [shift, shiftHandle, hr]

namespace ChainEntry

theorem hasRule_shift (entry : ChainEntry) (handle : Int) :
    (entry.shift k).hasRule (handle + k) = entry.hasRule handle := by
  simp only [hasRule, shift, List.any_map, Function.comp_def, Rule.shift_hasHandle]

theorem eraseRule_shift (entry : ChainEntry) (handle : Int) :
    (entry.shift k).eraseRule (handle + k) = (entry.eraseRule handle).shift k := by
  simp only [eraseRule, shift, List.eraseP_map, Function.comp_def, Rule.shift_hasHandle]

theorem addRule_shift (entry : ChainEntry) (r : Rule) :
    (entry.shift k).addRule (r.shift k) = (entry.addRule r).shift k := by
  simp [addRule, shift]

end ChainEntry

/-- What an operation comes to, moved up. -/
def Change.shift (k : Nat) (s : Shelf) (c : Change (Option s.Entry)) : Change (Option s.Entry) :=
  (c.map fun result => (result.1.map (s.shift k), result.2)).mapError (Fault.shift k)

theorem Slot.deleteRule_shift (r : Rule) (slot : Option ChainEntry) :
    Slot.operateRule .delete (r.shift k) ((r.shift k).stored defines (number + k))
        (slot.map (ChainEntry.shift k))
      = Change.shift k .chains (Slot.operateRule .delete r (r.stored defines number) slot) := by
  cases slot with
  | none => rfl
  | some entry =>
    cases hh : r.handle with
    | none =>
      have hs : (r.shift k).handle = none := by rw [Rule.shift, hh]; rfl
      simp only [operateRule, Option.map_some, hh, hs]
      rfl
    | some handle =>
      have hs : (r.shift k).handle = some (handle + k) := by rw [Rule.shift, hh]; rfl
      simp only [operateRule, Option.map_some, hh, hs, ChainEntry.hasRule_shift]
      by_cases hr : entry.hasRule handle
      · rw [if_pos hr, if_pos hr, ChainEntry.eraseRule_shift]
        rfl
      · rw [if_neg hr, if_neg hr]
        rfl

/-- What an operation moved up makes of a slot moved up. -/
theorem Operation.act_shift (op : Operation) (s : Shelf) (slot : Option s.Entry) :
    (op.shift k).act defines (number + k) s (slot.map (s.shift k))
      = Change.shift k s (op.act defines number s slot) := by
  obtain ⟨verb, object⟩ := op
  cases s with
  | chains =>
    cases object with
    | rule r =>
      cases verb with
      | delete => exact Slot.deleteRule_shift r slot
      | add =>
        cases slot with
        | none => rfl
        | some entry =>
          show Except.ok (some ((entry.shift k).addRule (r.stored defines (number + k))), [])
            = Except.ok (some ((entry.addRule (r.stored defines number)).shift k), [])
          rw [← Rule.shift_stored, ChainEntry.addRule_shift]
      | _ => cases slot <;> cases r.handle <;> rfl
    | _ => cases verb <;> cases slot <;> rfl
  | containers kind =>
    cases object with
    | element e =>
      cases verb with
      | delete =>
        cases slot with
        | none => rfl
        | some entry =>
          -- elements have no handles, so the same keys are there
          have hk : (entry.shift k).hasKey (e.stored defines).key
              = entry.hasKey (e.stored defines).key := rfl
          show Slot.operateElement .delete e (e.stored defines) (some (entry.shift k)) = _
          simp only [Operation.act, Slot.operateElement, hk]
          split <;> rfl
      | _ => cases slot <;> rfl
    | _ => cases verb <;> cases slot <;> rfl

/-! ## Stores moved up -/

/-- An outcome moved up: the store, and the handle in the fault if there is one. -/
def Outcome.shift (k : Nat) (o : Outcome) : Outcome :=
  ⟨o.store.shift k, o.warnings, o.fault.map (Fault.shift k)⟩

theorem Outcome.andThen_shift (o : Outcome) {next next' : Store → Outcome}
    (h : ∀ s, next' (s.shift k) = (next s).shift k) :
    (o.shift k).andThen next' = (o.andThen next).shift k := by
  cases ho : o.fault with
  | some fault =>
    rw [andThen_of_fault ho, andThen_of_fault (by rw [shift, ho]; rfl)]
  | none =>
    have hs : (o.shift k).fault = none := by rw [shift, ho]; rfl
    rw [andThen_of_ok ho, andThen_of_ok hs]
    have hnext : next' (o.shift k).store = (next o.store).shift k := h o.store
    rw [hnext]
    rfl

namespace Store

theorem tick_shift (s : Store) (verb : Verb) : (s.shift k).tick verb = (s.tick verb).shift k := by
  unfold tick shift
  split
  · simp [Nat.add_right_comm]
  · rfl

theorem freshContents_shift (s : Store) (t : Table) :
    (s.shift k).freshContents t = (s.freshContents t).shift k := by
  simp only [freshContents, shift, Contents.shift, Table.shift, shiftHandle, Option.map_some,
    Int.natCast_add]
  rfl

theorem contents_shift {s : Store} {c : Contents} (hc : s.contents = some c) :
    (s.shift k).contents = some (c.shift k) := by
  rw [shift, hc]
  rfl

theorem contents_shift_of_none {s : Store} (hc : s.contents = none) :
    (s.shift k).contents = none := by
  rw [shift, hc]
  rfl

theorem apply_shift_of_place {s : Store} {c : Contents} (hc : s.contents = some c) {p : Place}
    (hp : op.object.place? = some p) : (s.shift k).apply (op.shift k) = (s.apply op).shift k := by
  have hc' := contents_shift (k := k) hc
  have hp' : (op.shift k).object.place? = some p := by rw [Operation.place?_shift, hp]
  have hact : (op.shift k).act s.defines ((s.tick op.verb).lastHandle + k) p.shelf
      ((c.slot p).map (p.shelf.shift k))
        = Change.shift k p.shelf
            (op.act s.defines (s.tick op.verb).lastHandle p.shelf (c.slot p)) :=
    op.act_shift p.shelf (c.slot p)
  have hnumber : ((s.shift k).tick (op.shift k).verb).lastHandle
      = (s.tick op.verb).lastHandle + k := by
    rw [Operation.verb_shift, tick_shift]
    rfl
  rw [← hnumber, ← Contents.slot_shift] at hact
  cases ha : op.act s.defines (s.tick op.verb).lastHandle p.shelf (c.slot p) with
  | ok result =>
    obtain ⟨slot, warnings⟩ := result
    rw [ha] at hact
    rw [apply_of_act_ok hc hp ha, apply_of_act_ok hc' hp' hact, Operation.verb_shift, tick_shift,
      Contents.put_shift]
    rfl
  | error fault =>
    rw [ha] at hact
    rw [apply_of_act_error hc hp ha, apply_of_act_error hc' hp' hact, Operation.verb_shift,
      tick_shift]
    rfl

/-- Each operation moved up does to a store moved up what it does to the store. -/
theorem apply_shift (s : Store) (op : Operation) :
    (s.shift k).apply (op.shift k) = (s.apply op).shift k := by
  cases hc : s.contents with
  | none =>
    have hc' := contents_shift_of_none (k := k) hc
    cases ha : op.addsTable with
    | true =>
      obtain ⟨t, rfl⟩ := Operation.addsTable_iff.1 ha
      rw [Operation.shift_of_noPlace rfl, apply_addTable_of_none hc, apply_addTable_of_none hc',
        tick_shift, freshContents_shift]
      rfl
    | false =>
      rw [apply_of_noTable hc ha, apply_of_noTable hc' (by rw [Operation.addsTable_shift, ha])]
      rfl
  | some c =>
    cases hp : op.object.place? with
    | some p => exact apply_shift_of_place hc hp
    | none =>
      have hc' := contents_shift (k := k) hc
      rw [Operation.shift_of_noPlace hp]
      obtain ⟨verb, object⟩ := op
      cases object with
      | table t =>
        cases verb with
        | add => rw [apply_addTable_of_some hc, apply_addTable_of_some hc', tick_shift]; rfl
        | flush => rw [apply_flushTable hc, apply_flushTable hc', freshContents_shift]; rfl
        | delete => rw [apply_deleteTable hc, apply_deleteTable hc']; rfl
        | create | other =>
          rw [apply_of_noVerb rfl hc (by simp [Object.kind, Kind.mem_verbs_iff]),
            apply_of_noVerb rfl hc' (by simp [Object.kind, Kind.mem_verbs_iff]), tick_shift]
          rfl
      | counter _ | bare =>
        rw [apply_of_noHandler hc rfl, apply_of_noHandler hc' rfl, tick_shift]
        rfl
      | chain _ | rule _ | set _ _ | element _ => cases hp

theorem applyAll_shift (s : Store) (ops : List Operation) :
    (s.shift k).applyAll (ops.map (Operation.shift k)) = (s.applyAll ops).shift k := by
  induction ops generalizing s with
  | nil => rfl
  | cons op ops ih =>
    rw [List.map_cons, applyAll, applyAll, apply_shift]
    exact Outcome.andThen_shift _ ih

theorem run_queueRaw_shift (s : Store) (ops : List Operation) :
    (s.shift k).run (Transaction.empty.queueRaw (ops.map (Operation.shift k)))
      = (s.run (Transaction.empty.queueRaw ops)).shift k :=
  s.applyAll_shift ops

theorem failsAt_shift (s : Store) (ops : List Operation) (i : Nat) :
    (s.shift k).FailsAt (ops.map (Operation.shift k)) i ↔ s.FailsAt ops i := by
  refine GoesAlong.failsAt (R := fun s s' => s' = s.shift k) (fun op _ => ?_) rfl i
  rintro s s' rfl
  rw [apply_shift]
  exact ⟨rfl, Option.map_eq_none_iff⟩

end Store

/-! ## Dumps -/

/-- No line shows a handle. -/
theorem Shelf.lines_shift {target : Target} (s : Shelf) (entry : s.Entry) :
    s.lines target (s.shift k entry) = s.lines target entry := by
  cases s with
  | chains =>
    simp only [lines, ChainEntry.lines, shift, ChainEntry.shift, Chain.line_add, List.map_map]
    rfl
  | containers kind =>
    simp only [lines, SetEntry.lines, shift, SetEntry.shift, SetSpec.line_add]

theorem Store.dump_shift (s : Store) : (s.shift k).dump = s.dump := by
  cases hc : s.contents with
  | none => simp only [dump, hc, contents_shift_of_none hc]
  | some c =>
    rw [dump_of_contents hc, dump_of_contents (contents_shift hc)]
    refine congrArg String.join (Contents.lines_congr rfl fun p => ?_)
    simp only [Contents.slot_shift, Option.map_map, Function.comp_def, Shelf.lines_shift]

/-! ## Runs -/

namespace Store

/-- The operations do to `s'`, with the handles by which they delete rules moved up, what they do to
`s`, up to that move: the run fails at the same operation and for the same sort of reason or goes
through alike, gives the same warnings and the same dump, and leaves the same store moved up. -/
structure RunsAlike (k : Nat) (s s' : Store) (ops : List Operation) : Prop where
  failsAt : ∀ i, s'.FailsAt (ops.map (Operation.shift k)) i ↔ s.FailsAt ops i
  sort : (s'.run (Transaction.empty.queueRaw (ops.map (Operation.shift k)))).fault.map Fault.sort
    = (s.run (Transaction.empty.queueRaw ops)).fault.map Fault.sort
  warnings : (s'.run (Transaction.empty.queueRaw (ops.map (Operation.shift k)))).warnings
    = (s.run (Transaction.empty.queueRaw ops)).warnings
  dump : (s'.run (Transaction.empty.queueRaw (ops.map (Operation.shift k)))).store.dump
    = (s.run (Transaction.empty.queueRaw ops)).store.dump
  store : (s'.run (Transaction.empty.queueRaw (ops.map (Operation.shift k)))).store
    = (s.run (Transaction.empty.queueRaw ops)).store.shift k

theorem runsAlike_shift (k : Nat) (s : Store) (ops : List Operation) :
    RunsAlike k s (s.shift k) ops := by
  have hrun := run_queueRaw_shift (k := k) s ops
  refine ⟨s.failsAt_shift ops, ?_, ?_, ?_, ?_⟩
  · rw [hrun, Outcome.shift, Option.map_map]
    exact congrArg (Option.map · _) (funext Fault.sort_shift)
  · rw [hrun, Outcome.shift]
  · rw [hrun, Outcome.shift, dump_shift]
  · rw [hrun, Outcome.shift]

/-- Deleting the table leaves a new store with the same defines, but for the count of handles. -/
theorem run_deleteTable (s : Store) (t : Table) :
    (s.run (Transaction.empty.queueRaw [⟨.delete, .table t⟩])).store
      = { new s.family s.table with defines := s.defines }.shift s.lastHandle := by
  have hleft : (s.run (Transaction.empty.queueRaw [⟨.delete, .table t⟩])).store
      = { s with contents := none } := by
    rw [run_single]
    cases hc : s.contents with
    | none =>
      rw [apply_of_noTable hc rfl, ← hc]
    | some c => rw [apply_deleteTable hc]
  rw [hleft]
  simp [shift, new]

/-- Handle numbers carry no meaning: moved up together, those of the store and those in the
operations, they make no difference. So a store whose table was deleted is as good as new. -/
theorem runsAlike_of_shift (s : Store) :
    (∀ k ops, RunsAlike k s (s.shift k) ops) ∧
    ∀ t ops, RunsAlike s.lastHandle { new s.family s.table with defines := s.defines }
      (s.run (Transaction.empty.queueRaw [⟨.delete, .table t⟩])).store ops := by
  refine ⟨fun k ops => runsAlike_shift k s ops, fun t ops => ?_⟩
  rw [run_deleteTable]
  exact runsAlike_shift s.lastHandle _ ops

end Store

end NftStore
