import NftStore.Proofs.Place

/-!
What operations come to. The handlers go step by step and look things up in a store. On a store with
a table they come to what `Operation.act` makes of the slot at the place that the operation is about
(`apply_of_act_ok`, `apply_of_act_error`), and what is done to the table itself is told in as few
words. From here on an operation is looked at in these terms.
-/
namespace NftStore

namespace Store

@[simp] theorem defines_tick (s : Store) (verb : Verb) : (s.tick verb).defines = s.defines := by
  unfold tick
  split <;> rfl

@[simp] theorem contents_tick (s : Store) (verb : Verb) : (s.tick verb).contents = s.contents := by
  unfold tick
  split <;> rfl

@[simp] theorem family_tick (s : Store) (verb : Verb) : (s.tick verb).family = s.family := by
  unfold tick
  split <;> rfl

@[simp] theorem table_tick (s : Store) (verb : Verb) : (s.tick verb).table = s.table := by
  unfold tick
  split <;> rfl

theorem lastHandle_tick (s : Store) (verb : Verb) :
    (s.tick verb).lastHandle = if verb.makes then s.lastHandle + 1 else s.lastHandle := by
  unfold tick
  split <;> rfl

/-- What comes of a store with a table by a change to one place. -/
def placed (s : Store) (c : Contents) (p : Place) : Change (Option p.shelf.Entry) → Outcome
  | .ok (slot, warnings) => ⟨{ s with contents := some (c.put p slot) }, warnings, none⟩
  | .error fault => ⟨s, [], some fault⟩

end Store

/-! ## Handlers -/

namespace Work

variable {s : Store} {c : Contents}

theorem outcome_handleEntry (hc : s.contents = some c) (k : Shelf) (kind : Kind) {verb : Verb}
    (hv : verb ∈ [Verb.add, .flush, .delete]) (name : String) (handle : Option Int)
    (fresh : Store → k.Entry) (emptied : k.Entry → k.Entry) :
    (handleEntry k kind verb name handle fresh emptied).outcome s
      = s.placed c ⟨k, name⟩
          (Slot.operate kind verb name handle (fresh s) emptied (c.slot ⟨k, name⟩)) := by
  simp only [outcome, handleEntry, EStateM.run_bind, run_catalog_of_contents (p := ⟨s, []⟩) hc k,
    Contents.slot]
  cases hf : (c.catalog k).find? name with
  | none =>
    have hn : name ∉ (c.catalog k).names := Catalog.find?_eq_none_iff.1 hf
    have hno : (c.catalog k).contains name = false := by simp [← Catalog.isSome_find?, hf]
    cases verb with
    | add =>
      simp [hno, setCatalog, hc, Slot.operate, Store.placed, Contents.put,
        Catalog.put_some_of_not_mem hn]
    | flush | delete => simp [hno, Slot.operate, Store.placed]
    | create | other => simp at hv
  | some a =>
    have hyes : (c.catalog k).contains name = true := by simp [← Catalog.isSome_find?, hf]
    cases verb with
    | add =>
      have hsame : c.put ⟨k, name⟩ (some a) = c := by
        rw [← hf]
        exact c.put_slot ⟨k, name⟩
      simp only [hyes, Slot.operate, Store.placed, Option.getD_some, hsame, ← hc]
      rfl
    | flush =>
      simp [hyes, setCatalog, hc, Slot.operate, Store.placed, Contents.put,
        Catalog.modify_eq_put hf]
    | delete =>
      cases handle <;>
        simp [hyes, setCatalog, hc, Slot.operate, Store.placed, Contents.put, Catalog.put_none]
    | create | other => simp at hv

theorem outcome_handleRule (hc : s.contents = some c) {verb : Verb} (hv : verb ∈ Kind.rule.verbs)
    (r : Rule) :
    (handleRule verb r).outcome s
      = s.placed c ⟨.chains, r.chain⟩
          (Slot.operateRule verb r (r.stored s.defines s.lastHandle)
            (c.slot ⟨.chains, r.chain⟩)) := by
  simp only [outcome, handleRule, EStateM.run_bind,
    run_catalog_of_contents (p := ⟨s, []⟩) hc .chains, Contents.slot]
  cases hf : (c.catalog .chains).find? r.chain with
  | none =>
    cases verb with
    | add | delete => simp [Slot.operateRule, Store.placed]
    | create | flush | other => simp [Kind.mem_verbs_iff] at hv
  | some entry =>
    simp only [run_demand_some]
    cases verb with
    | add =>
      simp [setCatalog, hc, Slot.operateRule, Store.placed, Contents.put, Catalog.modify_eq_put hf]
    | delete =>
      cases hh : r.handle with
      | none => simp [Slot.operateRule, Store.placed, hh]
      | some handle =>
        cases hr : entry.hasRule handle with
        | false => simp [Slot.operateRule, Store.placed, hh, hr]
        | true =>
          simp [setCatalog, hc, Slot.operateRule, Store.placed, hh, hr, Contents.put,
            Catalog.modify_eq_put hf]
    | create | flush | other => simp [Kind.mem_verbs_iff] at hv

theorem outcome_handleElement (hc : s.contents = some c) {verb : Verb}
    (hv : verb ∈ Kind.element.verbs) (e : Element) :
    (handleElement verb e).outcome s
      = s.placed c ⟨.containers e.container, e.name⟩
          (Slot.operateElement verb e (e.stored s.defines)
            (c.slot ⟨.containers e.container, e.name⟩)) := by
  -- which of the two containers it is plays no part
  simp only [handleElement, Slot.operateElement]
  generalize e.container = kind
  simp only [outcome, EStateM.run_bind,
    run_catalog_of_contents (p := ⟨s, []⟩) hc (.containers kind), Contents.slot]
  cases hf : (c.catalog (.containers kind)).find? e.name with
  | none =>
    cases verb with
    | add | delete => simp [Store.placed]
    | create | flush | other => simp [Kind.mem_verbs_iff] at hv
  | some entry =>
    simp only [run_demand_some, run_store]
    cases verb with
    | add => simp [setCatalog, hc, Store.placed, Contents.put, Catalog.modify_eq_put hf]
    | delete =>
      cases hk : entry.hasKey (e.stored s.defines).key with
      | false => simp [Store.placed, hk]
      | true => simp [setCatalog, hc, Store.placed, hk, Contents.put, Catalog.modify_eq_put hf]
    | create | flush | other => simp [Kind.mem_verbs_iff] at hv

end Work

/-! ## Operations about a place -/

/-- Whatever is in the slot, a verb that the kind does not have makes nothing of it. -/
theorem Operation.act_of_noVerb {op : Operation} {p : Place} (hp : op.object.place? = some p)
    (hv : op.verb ∉ op.object.kind.verbs) (defines : Defines) (number : Nat)
    (slot : Option p.shelf.Entry) : op.act defines number p.shelf slot
      = .error (.verbUnhandled op.verb op.object.kind) := by
  obtain ⟨verb, object⟩ := op
  cases object with
  | chain r =>
    cases hp
    cases verb with
    | add | flush | delete => simp [Object.kind, Kind.mem_verbs_iff] at hv
    | create | other => cases slot <;> rfl
  | set kind r =>
    cases hp
    cases verb with
    | add | flush | delete =>
      cases kind <;> simp [Object.kind, SetKind.kind, Kind.mem_verbs_iff] at hv
    | create | other => cases slot <;> rfl
  | rule r =>
    cases hp
    cases verb with
    | add | delete => simp [Object.kind, Kind.mem_verbs_iff] at hv
    | flush | create | other => cases slot <;> rfl
  | element e =>
    cases hp
    cases verb with
    | add | delete => simp [Object.kind, Kind.mem_verbs_iff] at hv
    | flush | create | other => cases slot <;> rfl
  | table _ | counter _ | bare => cases hp

theorem Operation.addsTable_iff {op : Operation} :
    op.addsTable ↔ ∃ t, op = ⟨.add, .table t⟩ := by
  obtain ⟨verb, object⟩ := op
  cases verb <;> cases object <;> simp [addsTable]

namespace Store

variable {s : Store} {c : Contents} {op : Operation} {p : Place}

/-- An operation with a place changes the store there, as it acts on the slot. -/
theorem apply_of_place (hc : s.contents = some c) (hp : op.object.place? = some p) :
    s.apply op = (s.tick op.verb).placed c p
      (op.act s.defines (s.tick op.verb).lastHandle p.shelf (c.slot p)) := by
  have ht : s.contents.isSome || op.addsTable := by simp [hc]
  have hc' : (s.tick op.verb).contents = some c := by rw [contents_tick, hc]
  by_cases hv : op.verb ∈ op.object.kind.verbs
  · obtain ⟨verb, object⟩ := op
    rw [← s.defines_tick verb]
    cases object with
    | chain r =>
      cases hp
      exact (apply_of_handler rfl ht hv).trans (Work.outcome_handleEntry hc' .chains _ hv _ _ _ _)
    | rule r =>
      cases hp
      exact (apply_of_handler rfl ht hv).trans (Work.outcome_handleRule hc' hv r)
    | set kind r =>
      cases hp
      have hv' : verb ∈ [Verb.add, .flush, .delete] := by cases kind <;> exact hv
      exact (apply_of_handler rfl ht hv).trans
        (Work.outcome_handleEntry hc' (.containers kind) _ hv' _ _ _ _)
    | element e =>
      cases hp
      exact (apply_of_handler rfl ht hv).trans (Work.outcome_handleElement hc' hv e)
    | table _ | counter _ | bare => cases hp
  · rw [op.act_of_noVerb hp hv, placed]
    cases hh : op.object.handler? with
    | none => cases ho : op.object <;> simp [ho, Object.handler?, Object.place?] at hh hp
    | some handler => exact apply_of_noVerb hh hc hv

/-- An operation that acts on the slot at its place, applied to a store with a table. -/
theorem apply_of_act_ok (hc : s.contents = some c) (hp : op.object.place? = some p)
    {slot : Option p.shelf.Entry} {warnings : List Warning}
    (ha : op.act s.defines (s.tick op.verb).lastHandle p.shelf (c.slot p) = .ok (slot, warnings)) :
    s.apply op = ⟨{ s.tick op.verb with contents := some (c.put p slot) }, warnings, none⟩ := by
  rw [apply_of_place hc hp, ha, placed]

/-- An operation that fails on the slot at its place changes the count of handles at most. -/
theorem apply_of_act_error (hc : s.contents = some c) (hp : op.object.place? = some p)
    {fault : Fault}
    (ha : op.act s.defines (s.tick op.verb).lastHandle p.shelf (c.slot p) = .error fault) :
    s.apply op = ⟨s.tick op.verb, [], some fault⟩ := by
  rw [apply_of_place hc hp, ha, placed]

/-! ## Operations on the table -/

variable {t : Table}

theorem apply_addTable_of_none (hc : s.contents = none) : s.apply ⟨.add, .table t⟩
    = ⟨{ s.tick .add with contents := some ((s.tick .add).freshContents t) }, [], none⟩ := by
  rw [apply_of_handler rfl (by simp [Operation.addsTable])
    (by simp [Object.kind, Kind.mem_verbs_iff])]
  simp [Work.outcome, Work.handleTable, Work.makeTable, hc]

/-- Adding a table that is there uses up a handle and does nothing else. -/
theorem apply_addTable_of_some (hc : s.contents = some c) :
    s.apply ⟨.add, .table t⟩ = ⟨s.tick .add, [], none⟩ := by
  rw [apply_of_handler rfl (by simp [hc]) (by simp [Object.kind, Kind.mem_verbs_iff])]
  simp [Work.outcome, Work.handleTable, Work.makeTable, hc]

/-- A table that is flushed is made anew, under the last handle used. -/
theorem apply_flushTable (hc : s.contents = some c) : s.apply ⟨.flush, .table t⟩
    = ⟨{ s with contents := some (s.freshContents t) }, [], none⟩ := by
  rw [apply_of_handler rfl (by simp [hc]) (by simp [Object.kind, Kind.mem_verbs_iff])]
  rfl

theorem apply_deleteTable (hc : s.contents = some c) :
    s.apply ⟨.delete, .table t⟩ = ⟨{ s with contents := none }, [], none⟩ := by
  rw [apply_of_handler rfl (by simp [hc]) (by simp [Object.kind, Kind.mem_verbs_iff])]
  rfl

/-- Without a table, whatever does not add it is told just that. -/
theorem cases_of_noTable (hc : s.contents = none) (op : Operation) :
    (∃ t, op = ⟨.add, .table t⟩) ∨ s.apply op = ⟨s, [], some (.notFound s.noTable)⟩ := by
  cases ha : op.addsTable with
  | true => exact .inl (Operation.addsTable_iff.1 ha)
  | false => exact .inr (apply_of_noTable hc ha)

/-! ## All operations -/

/-- What comes of an operation: nothing can be done without a table, the table is added, found
there, flushed or deleted, the store has no use for the kind or the verb, or the operation changes
the slot at its place or fails on it. -/
inductive Applied (s : Store) (op : Operation) : Outcome → Prop
  | noTable (hc : s.contents = none) : Applied s op ⟨s, [], some (.notFound s.noTable)⟩
  | tableAdded (t : Table) (hc : s.contents = none) (hop : op = ⟨.add, .table t⟩) :
      Applied s op
        ⟨{ s.tick .add with contents := some ((s.tick .add).freshContents t) }, [], none⟩
  | tableThere (t : Table) (c : Contents) (hc : s.contents = some c) (hop : op = ⟨.add, .table t⟩) :
      Applied s op ⟨s.tick .add, [], none⟩
  | tableFlushed (t : Table) (c : Contents) (hc : s.contents = some c)
      (hop : op = ⟨.flush, .table t⟩) :
      Applied s op ⟨{ s with contents := some (s.freshContents t) }, [], none⟩
  | tableDeleted (t : Table) (c : Contents) (hc : s.contents = some c)
      (hop : op = ⟨.delete, .table t⟩) : Applied s op ⟨{ s with contents := none }, [], none⟩
  | unsupported (c : Contents) (fault : Fault) (hc : s.contents = some c)
      (hp : op.object.place? = none) (hs : fault.sort = .unsupported) :
      Applied s op ⟨s.tick op.verb, [], some fault⟩
  | placed (c : Contents) (p : Place) (slot : Option p.shelf.Entry) (warnings : List Warning)
      (hc : s.contents = some c) (hp : op.object.place? = some p)
      (ha : op.act s.defines (s.tick op.verb).lastHandle p.shelf (c.slot p)
        = .ok (slot, warnings)) :
      Applied s op ⟨{ s.tick op.verb with contents := some (c.put p slot) }, warnings, none⟩
  | failed (c : Contents) (p : Place) (fault : Fault) (hc : s.contents = some c)
      (hp : op.object.place? = some p)
      (ha : op.act s.defines (s.tick op.verb).lastHandle p.shelf (c.slot p) = .error fault) :
      Applied s op ⟨s.tick op.verb, [], some fault⟩

theorem applied_of_place (hc : s.contents = some c) (hp : op.object.place? = some p) :
    s.Applied op (s.apply op) := by
  cases ha : op.act s.defines (s.tick op.verb).lastHandle p.shelf (c.slot p) with
  | error fault =>
    rw [apply_of_act_error hc hp ha]
    exact .failed c p fault hc hp ha
  | ok result =>
    obtain ⟨slot, warnings⟩ := result
    rw [apply_of_act_ok hc hp ha]
    exact .placed c p slot warnings hc hp ha

/-- The object is the table, or of a kind that no store holds. -/
theorem applied_of_noPlace (hc : s.contents = some c) (hp : op.object.place? = none) :
    s.Applied op (s.apply op) := by
  obtain ⟨verb, object⟩ := op
  cases object with
  | table t =>
    cases verb with
    | add =>
      rw [apply_addTable_of_some hc]
      exact .tableThere t c hc rfl
    | flush =>
      rw [apply_flushTable hc]
      exact .tableFlushed t c hc rfl
    | delete =>
      rw [apply_deleteTable hc]
      exact .tableDeleted t c hc rfl
    | create | other =>
      rw [apply_of_noVerb rfl hc (by simp [Object.kind, Kind.mem_verbs_iff])]
      exact .unsupported c _ hc hp rfl
  | counter _ | bare =>
    rw [apply_of_noHandler hc rfl]
    exact .unsupported c _ hc hp rfl
  | chain _ | rule _ | set _ _ | element _ => cases hp

/-- There is no other way for an operation to go. -/
theorem applied (s : Store) (op : Operation) : s.Applied op (s.apply op) := by
  cases hc : s.contents with
  | none =>
    obtain ⟨t, rfl⟩ | happly := cases_of_noTable hc op
    · rw [apply_addTable_of_none hc]
      exact .tableAdded t hc rfl
    · rw [happly]
      exact .noTable hc
  | some c =>
    cases hp : op.object.place? with
    | some p => exact applied_of_place hc hp
    | none => exact applied_of_noPlace hc hp

end Store

end NftStore
