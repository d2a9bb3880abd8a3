import NftStore.Proofs.Consistency
import NftStore.Store.Dump

/-!
Validity of what is stored. A transaction that was queued has valid objects only, and as long as no
define has an empty value, replacing placeholders makes no text empty. So what is stored could be
queued once more.
-/
namespace NftStore

/-! ## Texts after substitution -/

namespace Defines

/-- No define has an empty value. -/
def Filled (ds : Defines) : Prop :=
  ∀ d ∈ ds.toList, d.value ≠ ""

theorem filled_forFamily (family : Family) : (forFamily family).Filled := by
  cases family <;> simp [Filled, forFamily, ofPairs, defineAll, define, empty]

theorem Filled.define {ds : Defines} (h : ds.Filled) (name : String) {value : String}
    (hv : value ≠ "") : (ds.define name value).Filled := by
  intro d hd
  rcases List.mem_append.1 hd with hd | hd
  · exact h d hd
  · rw [List.mem_singleton.1 hd]
    exact hv

theorem Filled.expand_eq_nil_iff {ds : Defines} (h : ds.Filled) (text : List Char) :
    ds.expand text = [] ↔ text = [] := by
  cases text with
  | nil => simp [expand]
  | cons c cs =>
    rw [expand]
    cases hd : ds.earliest? (c :: cs) with
    | none => simp
    | some d =>
      have hv : d.value ≠ "" := h d (List.mem_of_find?_eq_some hd)
      simp [hv]

theorem Filled.substitute_eq_empty_iff {ds : Defines} (h : ds.Filled) (text : String) :
    ds.substitute text = "" ↔ text = "" := by
  rw [substitute, String.ofList_eq_empty_iff, h.expand_eq_nil_iff, String.toList_eq_nil_iff]

/-- What is filled in stays so, and what is not is not filled in. -/
theorem Filled.isSome_filled {ds : Defines} (h : ds.Filled) (text : Option String) :
    (filled (text.map ds.substitute)).isSome = (filled text).isSome := by
  cases text with
  | none => rfl
  | some text =>
    by_cases ht : text = ""
    · subst ht
      have hs := (h.substitute_eq_empty_iff "").2 rfl
      simp [filled, hs, Option.filter]
    · have hs := mt (h.substitute_eq_empty_iff text).1 ht
      simp [filled, ht, hs, Option.filter]

end Defines

/-! ## Queued transactions -/

/-- A transaction as it is after calls that queue operations, whichever of them were refused. -/
inductive Transaction.Queued : Transaction → Prop
  | empty : Queued .empty
  | queue {tx tx' : Transaction} (op : Operation) (h : Queued tx) (hq : tx.queue op = .ok tx') :
      Queued tx'

/-- The object is valid for the verb. -/
def Operation.Valid (op : Operation) : Prop :=
  op.object.invalid? op.verb = .ok none

namespace Transaction

theorem queue_of_valid {tx : Transaction} (h : tx.fault = none) {op : Operation} (hv : op.Valid) :
    tx.queue op = .ok { tx with operations := tx.operations ++ [op] } := by
  simp only [queue, h, show op.object.invalid? op.verb = .ok none from hv]

theorem queueAll_of_valid {tx : Transaction} (h : tx.fault = none) {ops : List Operation}
    (hv : ∀ op ∈ ops, op.Valid) : tx.queueAll ops = (tx.queueRaw ops, none) := by
  induction ops generalizing tx with
  | nil => simp [queueAll, queueRaw]
  | cons op ops ih =>
    have hrest : ({ tx with operations := tx.operations ++ [op] } : Transaction).queueAll ops
        = (queueRaw { tx with operations := tx.operations ++ [op] } ops, none) :=
      ih h fun o ho => hv o (by simp [ho])
    rw [queueAll, queue_of_valid h (hv op (by simp))]
    simpa [queueRaw] using hrest

theorem Queued.queueAll {tx : Transaction} (h : tx.Queued) (ops : List Operation) :
    (tx.queueAll ops).1.Queued := by
  induction ops generalizing tx with
  | nil => exact h
  | cons op ops ih =>
    unfold Transaction.queueAll
    cases hq : tx.queue op with
    | error e => exact h
    | ok tx' => exact ih (.queue op h hq)

theorem Queued.valid {tx : Transaction} (h : tx.Queued) : ∀ op ∈ tx.operations, op.Valid := by
  induction h with
  | empty => simp [Transaction.empty]
  | @queue tx tx' op _ hq ih =>
    unfold Transaction.queue at hq
    split at hq
    · cases hq
      exact ih
    · split at hq
      · cases hq
      · cases hq
        exact ih
      · rename_i hvalid
        cases hq
        intro o ho
        rcases List.mem_append.1 ho with ho | ho
        · exact ih o ho
        · rw [List.mem_singleton.1 ho]
          exact hvalid

end Transaction

/-! ## Objects as they are stored -/

/-- When a chain can be added. -/
theorem Chain.invalid?_eq_none_iff {c : Chain} : c.invalid? = none ↔
    c.name ≠ "" ∧ (filled c.type).isSome = (filled c.hook).isSome ∧
      ((filled c.device).isSome → (filled c.hook).isSome) := by
  by_cases hn : c.name = ""
  · simp [invalid?, hn]
  · cases ht : filled c.type <;> cases hh : filled c.hook <;> cases hd : filled c.device <;>
      simp [invalid?, hn, ht, hh, hd]

/-- When a rule can be added. -/
theorem Rule.invalid?_add_eq_none_iff {r : Rule} :
    r.invalid? .add = none ↔
      r.chain ≠ "" ∧ (filled r.rule).isSome ∧ ¬ (r.index.isSome ∧ r.handle.isSome) := by
  by_cases hc : r.chain = ""
  · simp [invalid?, hc]
  · cases hf : filled r.rule with
    | none => simp [invalid?, hc, hf, Verb.makes]
    | some text => simp [invalid?, hc, hf, Verb.makes]

/-- When an element can be put or deleted. -/
theorem Element.invalid?_eq_none_iff {e : Element} :
    e.invalid? = none ↔ e.name ≠ "" ∧ e.key ≠ "" := by
  by_cases hn : e.name = ""
  · simp [invalid?, hn]
  · by_cases hk : e.key = "" <;> simp [invalid?, hn, hk]

section
variable {defines : Defines} {number : Nat}

/-- A rule that could be added can be added once more without its index and handle. -/
theorem Rule.invalid?_stored (h : defines.Filled) {r : Rule} (hr : r.invalid? .add = none) :
    (r.stored defines number).unplaced.invalid? .add = none := by
  obtain ⟨hchain, hrule, -⟩ := invalid?_add_eq_none_iff.1 hr
  have hstored : (filled (r.rule.map defines.substitute)).isSome := by
    rw [h.isSome_filled]
    exact hrule
  exact invalid?_add_eq_none_iff.2 ⟨hchain, hstored, by simp [unplaced]⟩

theorem SetSpec.invalid?_stored (h : defines.Filled) (s : SetSpec) (kind : SetKind)
    (verb : Verb) :
    (s.stored defines number).invalid? kind verb = s.invalid? kind verb := by
  simp only [invalid?, stored, h.isSome_filled]

theorem Element.container_stored (h : defines.Filled) (e : Element) :
    (e.stored defines).container = e.container := by
  by_cases hm : e.container = .map
  · have hv := h.isSome_filled e.value
    simp only [stored, hm, if_true]
    simpa only [container, hv] using hm
  · simp only [stored, hm, if_false]
    rfl

theorem Element.invalid?_stored (h : defines.Filled) {e : Element} (he : e.invalid? = none) :
    (e.stored defines).invalid? = none := by
  obtain ⟨hname, hkey⟩ := invalid?_eq_none_iff.1 he
  exact invalid?_eq_none_iff.2 ⟨hname, mt (h.substitute_eq_empty_iff e.key).1 hkey⟩

end

/-! ## The invariant -/

/-- The chain and its rules could be added again. -/
structure ChainEntry.Valid (entry : ChainEntry) : Prop where
  record : entry.record.invalid? = none
  rules : ∀ r ∈ entry.rules, r.unplaced.invalid? .add = none

/-- The set or map and its elements could be added again, and the elements would be put into a
container of the same kind. -/
structure SetEntry.Valid (entry : SetEntry) (kind : SetKind) : Prop where
  record : entry.record.invalid? kind .add = none
  elements : ∀ e ∈ entry.elements, e.invalid? = none ∧ e.container = kind

/-- An entry is valid for its catalog. -/
def Place.Valid : (p : Place) → p.shelf.Entry → Prop
  | ⟨.chains, _⟩, entry => ChainEntry.Valid entry
  | ⟨.containers kind, _⟩, entry => SetEntry.Valid entry kind

variable {op : Operation} {defines : Defines} {number : Nat}

theorem ChainEntry.Step.valid {old : Option ChainEntry} {new : ChainEntry}
    (h : ChainEntry.Step op defines number old (some new)) (hv : op.Valid)
    (hd : defines.Filled) (hold : ∀ entry, old = some entry → entry.Valid) : new.Valid := by
  refine ⟨h.record_of (P := fun r => r.invalid? = none) ?_ fun entry he => (hold entry he).record,
    h.forall_rules ?_ fun entry he => (hold entry he).rules⟩
  · rintro r rfl
    exact Except.ok.inj hv
  · rintro r rfl
    exact Rule.invalid?_stored hd (Except.ok.inj hv)

theorem SetEntry.Step.valid {old : Option SetEntry} {new : SetEntry} {kind : SetKind}
    {name : String} (h : SetEntry.Step op defines number old (some new)) (hv : op.Valid)
    (hp : op.object.place? = some ⟨.containers kind, name⟩) (hd : defines.Filled)
    (hold : ∀ entry, old = some entry → entry.Valid kind) : new.Valid kind := by
  refine ⟨h.record_of (P := fun r => r.invalid? kind .add = none) ?_
      fun entry he => (hold entry he).record,
    h.forall_elements ?_ fun entry he => (hold entry he).elements⟩
  · rintro other r rfl
    cases hp
    rw [SetSpec.invalid?_stored hd]
    exact Except.ok.inj hv
  · rintro e rfl
    cases hp
    exact ⟨Element.invalid?_stored hd (Except.ok.inj hv), Element.container_stored hd e⟩

/-- What a client does if it registers no empty values and runs what it queued. -/
def Event.Sound : Event → Prop
  | .define _ value => value ≠ ""
  | .run tx => tx.Queued

namespace Store

/-- No define is empty and all entries are valid. -/
structure Sound (s : Store) : Prop where
  defines : s.defines.Filled
  entries : s.All Place.Valid

theorem Sound.step {s s' : Store} (h : s.Sound) (hs : s.Step op s') (hv : op.Valid) :
    s'.Sound := by
  refine ⟨?_, h.entries.step hs ?_⟩
  · rw [hs.defines_eq]
    exact h.defines
  · rintro ⟨k, name⟩ old new hp hstep hold
    cases k with
    | chains => exact ChainEntry.Step.valid hstep hv h.defines hold
    | containers kind => exact SetEntry.Step.valid hstep hv hp h.defines hold

theorem ReachableBy.isSound {s : Store} (h : ReachableBy Event.Sound s) : s.Sound :=
  ReachableBy.of_steps (fun f t => ⟨Defines.filled_forFamily f, All.new f t⟩)
    (fun _ name _ hv hs => ⟨hs.defines.define name hv, hs.entries⟩)
    (fun _ hq _ op _ hop hs hstep => hs.step hstep (hq.valid op hop)) h

end Store

end NftStore
