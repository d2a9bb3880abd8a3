import NftStore.Store.Run

/-!
Work that fails before it changes anything. Handlers change the store in place and nothing is taken
back, so a fault after a change would leave the change behind. There is none: a handler first looks
for what it needs, which may fail and changes nothing (`Work.Reads`), and what it does then cannot
fail (`Work.Succeeds`). Handlers are atomic for this order of their steps alone
(`Object.atomic_of_handler?`).
-/
namespace NftStore

namespace Work

variable {α β : Type} {work : Work α} {next : α → Work β} {fault : Fault}

/-- The work changes nothing, whether it fails or not. -/
def Reads (work : Work α) : Prop :=
  ∀ p, (∃ a, work.run p = .ok a p) ∨ ∃ fault, work.run p = .error fault p

/-- The work does not fail. -/
def Succeeds (work : Work α) : Prop :=
  ∀ p, ∃ a p', work.run p = .ok a p'

/-- If the work fails, it has changed nothing by then. -/
def Atomic (work : Work α) : Prop :=
  ∀ p fault p', work.run p = .error fault p' → p' = p

theorem Succeeds.atomic (h : work.Succeeds) : work.Atomic := by
  intro p fault p' hf
  obtain ⟨a, q, ha⟩ := h p
  cases ha.symm.trans hf

/-- What is atomic stays so if something is read before. -/
theorem Reads.bind (h : work.Reads) (hnext : ∀ a, (next a).Atomic) : (work >>= next).Atomic := by
  intro p fault p' hf
  rw [EStateM.run_bind] at hf
  obtain ⟨a, ha⟩ | ⟨cause, hc⟩ := h p
  · rw [ha] at hf
    exact hnext a p fault p' hf
  · rw [hc] at hf
    cases hf
    rfl

theorem Succeeds.bind (h : work.Succeeds) (hnext : ∀ a, (next a).Succeeds) :
    (work >>= next).Succeeds := by
  intro p
  obtain ⟨a, p', ha⟩ := h p
  obtain ⟨b, q, hb⟩ := hnext a p'
  refine ⟨b, q, ?_⟩
  rw [EStateM.run_bind, ha]
  exact hb

/-- The fault of atomic work comes with the store as it was and without a warning. -/
theorem Atomic.outcome_of_fault {work : Work Unit} (h : work.Atomic) {s : Store}
    (hf : (work.outcome s).fault = some fault) : work.outcome s = ⟨s, [], some fault⟩ := by
  unfold outcome at hf ⊢
  cases hrun : work.run ⟨s, []⟩ with
  | ok _ p => simp [hrun] at hf
  | error cause p =>
    obtain rfl : p = ⟨s, []⟩ := h _ _ _ hrun
    simp only [hrun] at hf ⊢
    rw [hf]

/-! ## Steps -/

theorem reads_demand (a : Option α) (fault : Fault) : (demand a fault).Reads := by
  intro p
  cases a with
  | some a => exact .inl ⟨a, rfl⟩
  | none => exact .inr ⟨fault, rfl⟩

theorem reads_check (holds : Bool) (fault : Fault) : (check holds fault).Reads := by
  intro p
  cases holds with
  | true => exact .inl ⟨(), rfl⟩
  | false => exact .inr ⟨fault, rfl⟩

theorem reads_store : store.Reads :=
  fun p => .inl ⟨p.store, rfl⟩

theorem reads_catalog (k : Shelf) : (catalog k).Reads := by
  intro p
  cases hc : p.store.contents with
  | some c => exact .inl ⟨c.catalog k, run_catalog_of_contents hc k⟩
  | none => exact .inr ⟨.tableUnset k, run_catalog_of_no_contents hc k⟩

theorem succeeds_pure (a : α) : (pure a : Work α).Succeeds :=
  fun p => ⟨a, p, rfl⟩

theorem succeeds_store : store.Succeeds :=
  fun p => ⟨p.store, p, rfl⟩

theorem succeeds_change (f : Store → Store) : (change f).Succeeds :=
  fun p => ⟨(), ⟨f p.store, p.warnings⟩, rfl⟩

theorem succeeds_setCatalog (k : Shelf) (entries : Catalog k.Entry) :
    (setCatalog k entries).Succeeds :=
  succeeds_change _

theorem succeeds_warnAll (warnings : List Warning) : (warnings.forM warn).Succeeds := by
  induction warnings with
  | nil => exact succeeds_pure ()
  | cons w warnings ih => exact Succeeds.bind (fun p => ⟨(), _, rfl⟩) fun _ => ih

/-! ## Handlers -/

theorem succeeds_makeTable (t : Table) : (makeTable t).Succeeds := by
  refine succeeds_store.bind fun s => ?_
  split
  · exact succeeds_change _
  · exact succeeds_pure ()

theorem succeeds_handleTable (verb : Verb) (t : Table) : (handleTable verb t).Succeeds := by
  have hdrop : dropTable.Succeeds := succeeds_change _
  unfold handleTable
  split
  · exact hdrop
  · exact hdrop.bind fun _ => succeeds_makeTable t
  · exact succeeds_makeTable t

theorem atomic_handleEntry (k : Shelf) (kind : Kind) (verb : Verb) (name : String)
    (handle : Option Int) (fresh : Store → k.Entry) (emptied : k.Entry → k.Entry) :
    (handleEntry k kind verb name handle fresh emptied).Atomic := by
  refine (reads_catalog k).bind fun entries => ?_
  split
  · refine reads_store.bind fun s => ?_
    split
    · exact (succeeds_setCatalog k _).atomic
    · exact (succeeds_pure ()).atomic
  · refine (reads_check _ _).bind fun _ => ?_
    split
    · exact (succeeds_setCatalog k _).atomic
    · exact ((succeeds_warnAll _).bind fun _ => succeeds_setCatalog k _).atomic
    · exact (succeeds_pure ()).atomic

theorem atomic_handleRule (verb : Verb) (r : Rule) : (handleRule verb r).Atomic := by
  refine (reads_catalog .chains).bind fun chains => (reads_demand _ _).bind fun entry => ?_
  split
  · exact reads_store.bind fun s => (succeeds_setCatalog .chains _).atomic
  · refine (reads_demand _ _).bind fun handle => (reads_check _ _).bind fun _ => ?_
    exact (succeeds_setCatalog .chains _).atomic
  · exact (succeeds_pure ()).atomic

theorem atomic_handleElement (verb : Verb) (e : Element) : (handleElement verb e).Atomic := by
  refine (reads_catalog (.containers e.container)).bind fun entries => ?_
  refine (reads_demand _ _).bind fun entry => reads_store.bind fun s => ?_
  split
  · exact (succeeds_setCatalog (.containers e.container) _).atomic
  · exact (reads_check _ _).bind fun _ => (succeeds_setCatalog (.containers e.container) _).atomic
  · exact (succeeds_pure ()).atomic

end Work

/-- Whatever the object and the verb, the handler fails before it changes anything. -/
theorem Object.atomic_of_handler? {o : Object} {handler : Verb → Work Unit}
    (h : o.handler? = some handler) (verb : Verb) : (handler verb).Atomic := by
  cases o with
  | table t => cases h; exact (Work.succeeds_handleTable verb t).atomic
  | chain r => cases h; exact Work.atomic_handleEntry .chains _ verb r.name r.handle _ _
  | rule r => cases h; exact Work.atomic_handleRule verb r
  | set kind r =>
    cases h
    exact Work.atomic_handleEntry (.containers kind) _ verb r.name r.handle _ _
  | element e => cases h; exact Work.atomic_handleElement verb e
  | counter _ | bare => cases h

end NftStore
