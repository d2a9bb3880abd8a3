import NftStore.Proofs.Step

/-!
Traces. What a run makes of one place depends on the operations about that place alone, once the
handles are left aside that the run itself gives out. So a run is followed place by place: the
trace of a place takes up its operations and forgets all handles but those of old rules, by which
rules can still be deleted (`applyAll_traced`).
-/
namespace NftStore

/-! ## Forgetting new handles -/

/-- The rule under its handle if that is not beyond the limit, and else under none. -/
def Rule.forget (limit : Nat) (r : Rule) : Rule :=
  { r with handle := r.handle.filter (· ≤ limit) }

/-- The chain without its handle and without the handles of rules beyond the limit. -/
def ChainEntry.forget (limit : Nat) (entry : ChainEntry) : ChainEntry :=
  { record := { entry.record with handle := none }
    rules := entry.rules.map (Rule.forget limit) }

/-- The set or map without its handle. -/
def SetEntry.forget (entry : SetEntry) : SetEntry :=
  { entry with record := { entry.record with handle := none } }

/-- What is left of an entry. -/
def Shelf.forget (limit : Nat) : (k : Shelf) → k.Entry → k.Entry
  | chains, entry => ChainEntry.forget limit entry
  | containers _, entry => SetEntry.forget entry

variable {limit number : Nat}

@[simp] theorem Rule.forget_forget (r : Rule) :
    (r.forget limit).forget limit = r.forget limit := by
  simp [Rule.forget, Option.filter_filter]

@[simp] theorem Rule.forget_stored (r : Rule) (defines : Defines) (h : limit < number) :
    (r.stored defines number).forget limit
      = { r with rule := r.rule.map defines.substitute, handle := none } := by
  simp [Rule.forget, Rule.stored, h]

namespace ChainEntry

@[simp] theorem forget_forget (entry : ChainEntry) :
    (entry.forget limit).forget limit = entry.forget limit := by
  simp [forget]

@[simp] theorem forget_emptied (entry : ChainEntry) :
    (entry.forget limit).emptied = entry.emptied.forget limit := by
  simp [forget, emptied]

@[simp] theorem forget_addRule (entry : ChainEntry) (r : Rule) :
    (entry.addRule r).forget limit = (entry.forget limit).addRule (r.forget limit) := by
  simp [forget, addRule]

theorem forget_hasHandle {handle : Int} (h : handle ≤ limit) (r : Rule) :
    ((r.forget limit).handle == some handle) = (r.handle == some handle) := by
  rw [Bool.eq_iff_iff]
  simp only [beq_iff_eq, Rule.forget, Option.filter_eq_some_iff, decide_eq_true_eq]
  exact ⟨And.left, fun hr => ⟨hr, h⟩⟩

theorem forget_hasRule {handle : Int} (h : handle ≤ limit) (entry : ChainEntry) :
    (entry.forget limit).hasRule handle = entry.hasRule handle := by
  simp only [hasRule, forget, List.any_map, Function.comp_def, forget_hasHandle h]

theorem forget_eraseRule {handle : Int} (h : handle ≤ limit) (entry : ChainEntry) :
    (entry.forget limit).eraseRule handle = (entry.eraseRule handle).forget limit := by
  simp only [eraseRule, forget, List.eraseP_map, Function.comp_def, forget_hasHandle h]

end ChainEntry

namespace SetEntry

@[simp] theorem forget_forget (entry : SetEntry) : entry.forget.forget = entry.forget := rfl

@[simp] theorem forget_emptied (entry : SetEntry) :
    entry.forget.emptied = entry.emptied.forget := rfl

@[simp] theorem forget_put (entry : SetEntry) (e : Element) :
    entry.forget.put e = (entry.put e).forget := rfl

@[simp] theorem forget_erase (entry : SetEntry) (key : String) :
    entry.forget.erase key = (entry.erase key).forget := rfl

@[simp] theorem forget_hasKey (entry : SetEntry) (key : String) :
    entry.forget.hasKey key = entry.hasKey key := rfl

end SetEntry

/-! ## Operations on what is left -/

/-- The handle by which an operation deletes a rule. -/
def Operation.deletedHandle? (op : Operation) : Option Int :=
  match op.verb, op.object with
  | .delete, .rule r => r.handle
  | _, _ => none

/-- What an operation makes of what is left of a slot. The handle that a new object gets is
forgotten at once, so that the first beyond the limit will do for it. -/
def Operation.actForgetting (op : Operation) (defines : Defines) (limit : Nat) (k : Shelf)
    (slot : Option k.Entry) : Except Fault (Option k.Entry) :=
  (op.act defines (limit + 1) k slot).map fun r => r.1.map (k.forget limit)

variable {op : Operation} {defines : Defines}

theorem Slot.forget_operateRule (verb : Verb) (r : Rule) (slot : Option ChainEntry)
    (hd : ∀ h ∈ (⟨verb, .rule r⟩ : Operation).deletedHandle?, h ≤ limit)
    (hn : verb = .add → limit < number) :
    (Slot.operateRule verb r (r.stored defines (limit + 1))
        (slot.map (ChainEntry.forget limit))).map (fun x => x.1.map (ChainEntry.forget limit))
      = (Slot.operateRule verb r (r.stored defines number) slot).map
          fun x => x.1.map (ChainEntry.forget limit) := by
  cases verb with
  | add =>
    have hlt : limit < number := hn rfl
    cases slot <;> simp [operateRule, Except.map, hlt]
  | delete =>
    cases slot with
    | none => simp [operateRule]
    | some entry =>
      cases hh : r.handle with
      | none => simp [operateRule, hh, Except.map]
      | some handle =>
        -- the rule is an old one, if there is one at all, so its handle is not forgotten
        have hle : handle ≤ limit := hd handle (by simp [Operation.deletedHandle?, hh])
        simp only [operateRule, hh, Option.map_some, ChainEntry.forget_hasRule hle]
        by_cases hr : entry.hasRule handle
        · simp [hr, Except.map, ChainEntry.forget_eraseRule hle]
        · simp [hr, Except.map]
  | _ => cases slot <;> cases r.handle <;> rfl

/-- Forgetting first and forgetting afterwards come to the same. -/
theorem Operation.actForgetting_forget (hd : ∀ h ∈ op.deletedHandle?, h ≤ limit)
    (hn : op.verb = .add → limit < number) (k : Shelf) (slot : Option k.Entry) :
    op.actForgetting defines limit k (slot.map (k.forget limit))
      = (op.act defines number k slot).map fun r => r.1.map (k.forget limit) := by
  obtain ⟨verb, object⟩ := op
  cases k with
  | chains =>
    cases object with
    | chain r =>
      cases verb <;> cases slot <;>
        simp [actForgetting, act, Slot.operate, Except.map, Shelf.forget, ChainEntry.forget,
          Chain.stored, ChainEntry.emptied]
    | rule r => exact Slot.forget_operateRule verb r slot hd hn
    | _ => cases slot <;> simp [actForgetting, act, Except.map, Shelf.forget]
  | containers kind =>
    cases object with
    | set other r =>
      cases verb <;> cases slot <;>
        simp [actForgetting, act, Slot.operate, Except.map, Shelf.forget, SetEntry.forget,
          SetSpec.stored, SetEntry.emptied]
    | element e =>
      cases verb with
      | delete =>
        cases slot with
        | none => rfl
        | some entry =>
          by_cases hk : entry.hasKey (e.stored defines).key <;>
            simp [actForgetting, act, Slot.operateElement, Except.map, Shelf.forget, hk]
      | _ =>
        cases slot <;> simp [actForgetting, act, Slot.operateElement, Except.map, Shelf.forget]
    | _ => cases slot <;> simp [actForgetting, act, Except.map, Shelf.forget]

/-! ## The trace of a place -/

/-- The operation is about the place. -/
def Operation.isAt (p : Place) (op : Operation) : Bool :=
  op.object.place? = some p

/-- What operations in turn make of what is left of the slot at a place, up to the first of them
that fails there. -/
def trace (defines : Defines) (limit : Nat) (p : Place) (ops : List Operation)
    (slot : Option p.shelf.Entry) : Except Fault (Option p.shelf.Entry) :=
  (ops.filter (Operation.isAt p)).foldlM
    (fun slot op => op.actForgetting defines limit p.shelf slot) slot

variable {p : Place} {ops : List Operation}

/-- Operations about other places do not matter. -/
theorem trace_congr {xs ys : List Operation}
    (h : xs.filter (Operation.isAt p) = ys.filter (Operation.isAt p))
    (slot : Option p.shelf.Entry) : trace defines limit p xs slot = trace defines limit p ys slot := by
  rw [trace, h, trace]

theorem trace_nil (slot : Option p.shelf.Entry) : trace defines limit p [] slot = .ok slot := rfl

theorem trace_cons_of_at (h : op.object.place? = some p) (slot : Option p.shelf.Entry) :
    trace defines limit p (op :: ops) slot
      = (op.actForgetting defines limit p.shelf slot).bind (trace defines limit p ops) := by
  have ha : op.isAt p = true := by simpa [Operation.isAt] using h
  simp only [trace, List.filter_cons_of_pos ha, List.foldlM_cons]
  rfl

theorem trace_cons_of_ok (h : op.object.place? = some p) {slot new : Option p.shelf.Entry}
    (ha : op.actForgetting defines limit p.shelf slot = .ok new) :
    trace defines limit p (op :: ops) slot = trace defines limit p ops new := by
  rw [trace_cons_of_at h, ha]
  rfl

theorem trace_cons_of_not_at (h : op.object.place? ≠ some p) (slot : Option p.shelf.Entry) :
    trace defines limit p (op :: ops) slot = trace defines limit p ops slot := by
  have ha : ¬ op.isAt p = true := by simpa [Operation.isAt] using h
  rw [trace, List.filter_cons_of_neg ha, trace]

/-- What is left of the slot at a place. -/
def Contents.trimmed (c : Contents) (limit : Nat) (p : Place) : Option p.shelf.Entry :=
  (c.slot p).map (p.shelf.forget limit)

/-- After an operation that is done, the rest of every trace starts from what is left of the slots
now. -/
theorem trace_of_act_ok {c : Contents} (hp : op.object.place? = some p)
    (hd : ∀ h ∈ op.deletedHandle?, h ≤ limit) (hn : op.verb = .add → limit < number)
    {slot : Option p.shelf.Entry} {warnings : List Warning}
    (ha : op.act defines number p.shelf (c.slot p) = .ok (slot, warnings)) (q : Place) :
    trace defines limit q (op :: ops) (c.trimmed limit q)
      = trace defines limit q ops ((c.put p slot).trimmed limit q) := by
  by_cases hq : q = p
  · subst hq
    rw [trace_cons_of_at hp, Contents.trimmed, Operation.actForgetting_forget hd hn, ha,
      Contents.trimmed, Contents.slot_put_self]
    rfl
  · have hne : op.object.place? ≠ some q := fun h => hq (Option.some.inj (h.symm.trans hp))
    rw [trace_cons_of_not_at hne, Contents.trimmed, Contents.trimmed, Contents.slot_put_of_ne c hq]

theorem trace_of_act_error {c : Contents} (hp : op.object.place? = some p)
    (hd : ∀ h ∈ op.deletedHandle?, h ≤ limit) (hn : op.verb = .add → limit < number)
    {fault : Fault} (ha : op.act defines number p.shelf (c.slot p) = .error fault) :
    trace defines limit p (op :: ops) (c.trimmed limit p) = .error fault := by
  rw [trace_cons_of_at hp, Contents.trimmed, Operation.actForgetting_forget hd hn, ha]
  rfl

namespace Store

/-- What a run comes to, told by the traces: either none of them fails, and at every place is left
what its trace ends with, or the run fails and so does a trace. -/
def Traced (s : Store) (c : Contents) (limit : Nat) (ops : List Operation) (o : Outcome) : Prop :=
  (∃ c', o.store.contents = some c' ∧ o.fault = none ∧ c'.table = c.table ∧
    ∀ p, trace s.defines limit p ops (c.trimmed limit p) = .ok (c'.trimmed limit p)) ∨
  ∃ fault p, o.fault = some fault ∧
    trace s.defines limit p ops (c.trimmed limit p) = .error fault

/-- Operations about places do what their traces say. -/
theorem applyAll_traced {s : Store} {c : Contents} (hc : s.contents = some c)
    (hp : ∀ op ∈ ops, op.object.place?.isSome)
    (hd : ∀ op ∈ ops, ∀ h ∈ op.deletedHandle?, h ≤ limit) (hl : limit ≤ s.lastHandle) :
    s.Traced c limit ops (s.applyAll ops) := by
  induction ops generalizing s c with
  | nil => exact .inl ⟨c, hc, rfl, rfl, fun p => rfl⟩
  | cons op ops ih =>
    obtain ⟨p, hplace⟩ := Option.isSome_iff_exists.1 (hp op (by simp))
    have hn : op.verb = .add → limit < (s.tick op.verb).lastHandle := by
      intro hadd
      simp only [lastHandle_tick, hadd, Verb.makes, if_true]
      omega
    cases ha : op.act s.defines (s.tick op.verb).lastHandle p.shelf (c.slot p) with
    | error fault =>
      have hf : (s.apply op).fault = some fault := by rw [apply_of_act_error hc hplace ha]
      refine .inr ⟨fault, p, ?_, trace_of_act_error hplace (hd op (by simp)) hn ha⟩
      rw [applyAll, Outcome.andThen_of_fault hf, hf]
    | ok result =>
      obtain ⟨slot, warnings⟩ := result
      have happ := apply_of_act_ok hc hplace ha
      have htrace : ∀ q, trace s.defines limit q (op :: ops) (c.trimmed limit q)
          = trace s.defines limit q ops ((c.put p slot).trimmed limit q) :=
        trace_of_act_ok hplace (hd op (by simp)) hn ha
      have hok : (s.apply op).fault = none := by rw [happ]
      have hdefines : (s.apply op).store.defines = s.defines := (s.step_apply op).defines_eq
      -- the defines stay in force, and the count of handles stays beyond the limit
      have hrest := ih (s := (s.apply op).store) (c := c.put p slot) (by rw [happ])
        (fun o ho => hp o (by simp [ho])) (fun o ho => hd o (by simp [ho]))
        (Nat.le_trans hl (s.step_apply op).lastHandle_le)
      simp only [Traced, hdefines, ← htrace, Contents.table_put] at hrest
      rw [applyAll, Outcome.andThen_of_ok hok]
      exact hrest

end Store

end NftStore
