import NftStore.Proofs.Failure
import NftStore.Proofs.Validity
import NftStore.Store.Listing

/-!
The faults of a run. What a store says of an operation that it cannot apply is that the target is
not there, or that it has no such operation. Two faults are neither. Where a rule is to be deleted
and its handle is unset, there is nothing to look for and nothing to name
(`Store.fault_apply_eq_ruleHandleUnset_iff`). And a handler that is left to itself looks for a
catalog also where there is no table to have it (`Store.outcome_of_noTable`). No valid object leads
to the first, and no operation to the second, so a transaction that was queued object by object
never ends with either (`Store.faults_of_queued`), whatever becomes of the table on the way.
-/
namespace NftStore

/-- The fault is an answer: the target is not there, or the store does not have the operation. -/
def Fault.Answers (fault : Fault) : Prop :=
  fault.sort = .notFound ∨ fault.sort = .unsupported

instance (fault : Fault) : Decidable fault.Answers :=
  inferInstanceAs (Decidable (_ ∨ _))

/-- The operation is to delete a rule and does not say which. -/
def Operation.DeletesUnset (op : Operation) : Prop :=
  ∃ r, op = ⟨.delete, .rule r⟩ ∧ r.handle = none

theorem Operation.Valid.not_deletesUnset {op : Operation} (hv : op.Valid) : ¬ op.DeletesUnset := by
  rintro ⟨r, rfl, hr⟩
  have hrule : r.invalid? .delete = none := Except.ok.inj hv
  by_cases hc : r.chain = "" <;> simp [Rule.invalid?, Verb.makes, hc, hr] at hrule

/-! ## One operation -/

variable {fault : Fault}

namespace Slot

variable {verb : Verb}

theorem answers_of_operate {α : Type} {kind : Kind} {name : String} {handle : Option Int}
    {fresh : α} {emptied : α → α} {slot : Option α}
    (h : operate kind verb name handle fresh emptied slot = .error fault) : fault.Answers := by
  cases verb <;> cases slot <;> cases h
  case flush.none.refl | delete.none.refl => exact .inl rfl
  all_goals exact .inr rfl

theorem answers_of_operateElement {e stored : Element} {slot : Option SetEntry}
    (h : operateElement verb e stored slot = .error fault) : fault.Answers := by
  cases verb with
  | add => cases slot <;> cases h; exact .inl rfl
  | delete =>
    cases slot with
    | none => cases h; exact .inl rfl
    | some entry =>
      simp only [operateElement] at h
      split at h <;> cases h
      exact .inl rfl
  | create | flush | other => cases slot <;> cases h <;> exact .inr rfl

/-- The one function of the three that has more to say. -/
theorem answers_of_operateRule {r stored : Rule} {slot : Option ChainEntry}
    (h : operateRule verb r stored slot = .error fault) :
    fault.Answers ∨ fault = .ruleHandleUnset ∧ verb = .delete ∧ r.handle = none ∧ slot.isSome := by
  cases verb with
  | add => cases slot <;> cases h; exact .inl (.inl rfl)
  | delete =>
    cases slot with
    | none => cases h; exact .inl (.inl rfl)
    | some entry =>
      cases hr : r.handle with
      | none =>
        simp only [operateRule, hr] at h
        cases h
        exact .inr ⟨rfl, rfl, rfl, rfl⟩
      | some handle =>
        simp only [operateRule, hr] at h
        split at h <;> cases h
        exact .inl (.inl rfl)
  | create | flush | other => cases slot <;> cases h <;> exact .inl (.inr rfl)

end Slot

variable {s : Store} {op : Operation}

theorem Operation.answers_of_act {defines : Defines} {number : Nat} {k : Shelf}
    {slot : Option k.Entry} (h : op.act defines number k slot = .error fault) :
    fault.Answers ∨ fault = .ruleHandleUnset ∧ op.DeletesUnset ∧ slot.isSome := by
  obtain ⟨verb, object⟩ := op
  cases k with
  | chains =>
    cases object with
    | chain r => exact .inl (Slot.answers_of_operate h)
    | rule r =>
      obtain h | ⟨rfl, rfl, hr, hslot⟩ := Slot.answers_of_operateRule h
      · exact .inl h
      · exact .inr ⟨rfl, ⟨r, rfl, hr⟩, hslot⟩
    | _ => cases h
  | containers kind =>
    cases object with
    | set kind r => exact .inl (Slot.answers_of_operate h)
    | element e => exact .inl (Slot.answers_of_operateElement h)
    | _ => cases h

namespace Store

/-- Where an operation fails: there is no table, or nothing of the sort is done, or it fails on the
slot at its place. -/
theorem cases_of_fault (h : (s.apply op).fault = some fault) :
    (s.contents = none ∧ fault = .notFound s.noTable) ∨ fault.sort = .unsupported ∨
      ∃ c p, s.contents = some c ∧ op.object.place? = some p ∧
        op.act s.defines (s.tick op.verb).lastHandle p.shelf (c.slot p) = .error fault := by
  have happlied := s.applied op
  generalize s.apply op = o at h happlied
  cases happlied with
  | tableAdded | tableThere | tableFlushed | tableDeleted | placed => cases h
  | noTable hc => exact .inl ⟨hc, (Option.some.inj h).symm⟩
  | unsupported c _ hc hp hs =>
    cases h
    exact .inr (.inl hs)
  | failed c p _ hc hp ha =>
    cases h
    exact .inr (.inr ⟨c, p, hc, hp, ha⟩)

/-- What comes of an operation that fails, and the one way to the fault that is no answer. -/
theorem answers_of_apply (h : (s.apply op).fault = some fault) :
    fault.Answers ∨ fault = .ruleHandleUnset ∧
      ∃ r, op = ⟨.delete, .rule r⟩ ∧ r.handle = none ∧ (s.chain? r.chain).isSome := by
  obtain ⟨-, rfl⟩ | hunsupported | ⟨c, p, hc, hp, ha⟩ := cases_of_fault h
  · exact .inl (.inl rfl)
  · exact .inl (.inr hunsupported)
  · obtain hanswer | ⟨hf, ⟨r, rfl, hr⟩, hslot⟩ := Operation.answers_of_act ha
    · exact .inl hanswer
    · cases hp
      exact .inr ⟨hf, r, rfl, hr, by rw [chain?, hc]; exact hslot⟩

/-- The chain is there and the rule to be deleted is not said: this fault and no other way to it. -/
theorem fault_apply_eq_ruleHandleUnset_iff : (s.apply op).fault = some .ruleHandleUnset ↔
    ∃ r, op = ⟨.delete, .rule r⟩ ∧ r.handle = none ∧ (s.chain? r.chain).isSome := by
  constructor
  · intro h
    obtain hanswer | ⟨-, hr⟩ := answers_of_apply h
    · exact absurd hanswer (by decide)
    · exact hr
  · rintro ⟨r, rfl, hr, hchain⟩
    obtain ⟨entry, hentry⟩ := Option.isSome_iff_exists.1 hchain
    obtain ⟨c, hc, hfind⟩ := Option.bind_eq_some_iff.1 hentry
    have ha : (⟨.delete, .rule r⟩ : Operation).act s.defines (s.tick .delete).lastHandle .chains
        (c.slot ⟨.chains, r.chain⟩) = .error .ruleHandleUnset := by
      simp only [Operation.act, Slot.operateRule, Contents.slot, Contents.catalog, hfind, hr]
    rw [apply_of_act_error hc rfl ha]

/-- An operation that is queued as it is can get there. -/
example : ((new .inet "filter").run (.queueRaw .empty
    [⟨.add, .table ⟨none, none, none, none⟩⟩,
     ⟨.add, .chain ⟨"in", none, none, none, none, none, none⟩⟩,
     ⟨.delete, .rule ⟨"in", none, none, none, none⟩⟩])).fault = some .ruleHandleUnset := by
  decide

/-- A valid object gets an answer. -/
theorem answers_of_valid (hv : op.Valid) (h : (s.apply op).fault = some fault) : fault.Answers := by
  obtain hanswer | ⟨-, r, hop, hr, -⟩ := answers_of_apply h
  · exact hanswer
  · exact absurd ⟨r, hop, hr⟩ hv.not_deletesUnset

/-! ## The table that is not there -/

/-- A handler left to itself does not look whether there is a table. It fails on the catalog that it
needs. -/
theorem outcome_of_noTable (hc : s.contents = none) {o : Object} {p : Place}
    (hp : o.place? = some p) {handler : Verb → Work Unit} (hh : o.handler? = some handler)
    (verb : Verb) : (handler verb).outcome s = ⟨s, [], some (.tableUnset p.shelf)⟩ := by
  have hcatalog := fun k => Work.run_catalog_of_no_contents (p := ⟨s, []⟩) hc k
  cases o with
  | chain _ | set _ _ =>
    cases hp
    cases hh
    simp [Work.outcome, Work.handleEntry, hcatalog]
  | rule _ =>
    cases hp
    cases hh
    simp [Work.outcome, Work.handleRule, hcatalog]
  | element _ =>
    cases hp
    cases hh
    simp [Work.outcome, Work.handleElement, hcatalog]
  | table _ | counter _ | bare => cases hp

/-- But no handler gets that far. -/
theorem fault_apply_ne_tableUnset (s : Store) (op : Operation) (k : Shelf) :
    (s.apply op).fault ≠ some (.tableUnset k) := by
  intro h
  obtain hanswer | ⟨hf, -⟩ := answers_of_apply h
  · obtain hs | hs := hanswer <;> cases hs
  · cases hf

/-! ## Runs -/

/-- A run that comes to an operation without a table ends there with all that was done before,
unless the operation adds the table. -/
theorem applyAll_of_noTable {ops : List Operation} {i : Nat} (hi : ops[i]? = some op)
    (hbefore : (s.applyAll (ops.take i)).fault = none)
    (hc : (s.applyAll (ops.take i)).store.contents = none) :
    (∃ t, op = ⟨.add, .table t⟩) ∨
      s.applyAll ops = { s.applyAll (ops.take i) with fault := some (.notFound s.noTable) } := by
  refine (cases_of_noTable hc op).imp_right fun happly => ?_
  obtain ⟨hlt, rfl⟩ := List.getElem?_eq_some_iff.1 hi
  have hops : ops = ops.take i ++ ops[i] :: ops.drop (i + 1) := by
    rw [← List.drop_eq_getElem_cons hlt, List.take_append_drop]
  have hnames : (s.applyAll (ops.take i)).store.noTable = s.noTable := by
    rw [noTable, noTable, ← run_queueRaw, family_run, table_run]
  calc s.applyAll ops
      = (s.applyAll (ops.take i)).andThen fun s => s.applyAll (ops[i] :: ops.drop (i + 1)) := by
        rw [← applyAll_append, ← hops]
    _ = { s.applyAll (ops.take i) with fault := some (.notFound s.noTable) } := by
        rw [Outcome.andThen_of_ok hbefore, applyAll, happly, Outcome.andThen_of_fault rfl,
          List.append_nil, hnames]

/-- No run looks for anything in a table that is not there. -/
theorem fault_run_ne_tableUnset (s : Store) (tx : Transaction) (k : Shelf) :
    (s.run tx).fault ≠ some (.tableUnset k) := by
  intro h
  unfold run at h
  split at h
  · cases h
  · obtain ⟨before, op, rest, -, -, hop⟩ := exists_fault_of_applyAll h
    exact fault_apply_ne_tableUnset _ op k hop

/-- How a run of what was queued fails: before anything is applied, or with an answer. -/
theorem answers_of_run {tx : Transaction} (htx : tx.Queued)
    (hf : (s.run tx).fault = some fault) :
    (∃ cause, tx.fault = some cause ∧ fault = .invalid cause ∧ (s.run tx).store = s) ∨
      tx.fault = none ∧ fault.Answers := by
  cases hcause : tx.fault with
  | some cause =>
    have hrun : s.run tx = ⟨s, [], some (.invalid cause)⟩ := by rw [run, hcause]
    rw [hrun] at hf
    exact .inl ⟨cause, rfl, (Option.some.inj hf).symm, by rw [hrun]⟩
  | none =>
    have hrun : s.run tx = s.applyAll tx.operations := by rw [run, hcause]
    rw [hrun] at hf
    obtain ⟨before, op, rest, hops, -, hop⟩ := exists_fault_of_applyAll hf
    have hv : op.Valid := htx.valid op (by simp [hops])
    exact .inr ⟨rfl, answers_of_valid hv hop⟩

/-- A run of what was queued ends with the fault of the transaction, before anything is applied, or
with an answer. Where the table is not there, whether it never was or went on the way, the run ends
unless the next operation adds it, and says that it is not there. No handle is missed, and nothing
is looked for in a table that is not there. -/
theorem faults_of_queued {tx : Transaction} (htx : tx.Queued) (s : Store) :
    (∀ fault, (s.run tx).fault = some fault →
      (∃ cause, tx.fault = some cause ∧ fault = .invalid cause ∧ (s.run tx).store = s) ∨
        tx.fault = none ∧ fault.Answers) ∧
    (tx.fault = none → ∀ i op, tx.operations[i]? = some op →
      (s.runUpTo tx.operations i).fault = none →
      (s.runUpTo tx.operations i).store.contents = none →
        (∃ t, op = ⟨.add, .table t⟩) ∨
          s.run tx = { s.runUpTo tx.operations i with fault := some (.notFound s.noTable) }) ∧
    (s.run tx).fault ≠ some .ruleHandleUnset ∧ ∀ k, (s.run tx).fault ≠ some (.tableUnset k) := by
  refine ⟨fun fault hf => answers_of_run htx hf, ?_, ?_, s.fault_run_ne_tableUnset tx⟩
  · intro hfault i op hi hbefore hc
    have hrun : s.run tx = s.applyAll tx.operations := by rw [run, hfault]
    rw [hrun]
    exact applyAll_of_noTable hi hbefore hc
  · intro h
    obtain ⟨cause, -, hinvalid, -⟩ | ⟨-, hanswer⟩ := answers_of_run htx h
    · cases hinvalid
    · exact absurd hanswer (by decide)

end Store

/-- The table is made with a rule in a chain, then it is flushed or deleted, and after that the rule
is to be deleted, by a handle if one is given. -/
def stranding (verb : Verb) (handle : Option Int) : List Operation :=
  [⟨.add, .table ⟨none, none, none, none⟩⟩,
   ⟨.add, .chain ⟨"in", none, none, none, none, none, none⟩⟩,
   ⟨.add, .rule ⟨"in", some "drop", none, none, none⟩⟩,
   ⟨verb, .table ⟨none, none, none, none⟩⟩,
   ⟨.delete, .rule ⟨"in", none, none, none, handle⟩⟩]

/-- The same, queued object by object. -/
def stranded (verb : Verb) (handle : Option Int) : Transaction :=
  (Transaction.empty.queueAll (stranding verb handle)).1

theorem faults_of_stranded :
    (((Store.new .inet "filter").run (stranded .flush (some 3))).fault
        = some (.notFound (.named "chain" "in")) ∧
      (Fault.notFound (.named "chain" "in")).Answers) ∧
    (Store.new .inet "filter").run (stranded .delete (some 3))
      = { (Store.new .inet "filter").runUpTo (stranding .delete (some 3)) 4 with
          fault := some (.notFound (.table "inet" "filter")) } ∧
    ∃ cause, (stranded .delete none).fault = some cause ∧
      ((Store.new .inet "filter").run (stranded .delete none)).fault = some (.invalid cause) ∧
      ((Store.new .inet "filter").run (stranded .delete none)).store = .new .inet "filter" := by
  have hq : ∀ verb handle, (stranded verb handle).Queued := fun verb handle =>
    Transaction.Queued.empty.queueAll (stranding verb handle)
  refine ⟨?_, ?_, ?_⟩
  · have hf : ((Store.new .inet "filter").run (stranded .flush (some 3))).fault
        = some (.notFound (.named "chain" "in")) := by decide
    obtain ⟨cause, hcause, -⟩ | ⟨-, hanswer⟩ :=
      (Store.faults_of_queued (hq .flush (some 3)) (.new .inet "filter")).1 _ hf
    · cases hcause
    · exact ⟨hf, hanswer⟩
  · obtain ⟨t, ht⟩ | hrun :=
      (Store.faults_of_queued (hq .delete (some 3)) (.new .inet "filter")).2.1 rfl 4
        ⟨.delete, .rule ⟨"in", none, none, none, some 3⟩⟩ rfl (by decide) (by decide)
    · cases ht
    · exact hrun
  · have hf : ((Store.new .inet "filter").run (stranded .delete none)).fault
        = some (.invalid (.ruleWithoutHandle "in")) := by decide
    obtain ⟨cause, hcause, hinvalid, hstore⟩ | ⟨hnone, -⟩ :=
      (Store.faults_of_queued (hq .delete none) (.new .inet "filter")).1 _ hf
    · exact ⟨cause, hcause, by rw [hf, hinvalid], hstore⟩
    · cases hnone

end NftStore
