import NftStore.Proofs.Failure
import NftStore.Proofs.Substitution
import NftStore.Store.Listing

/-!
Other defines. Defines have a say in what is written where a rule, a set or map, or an element is
stored, and in nothing else but the keys by which elements are found. So two stores that differ in
their defines alone go the same way as long as no key has a placeholder: they stay equal but for the
texts that were substituted. These texts are left blank to say so, and what an operation makes of a
slot is then told by the blank slot, whatever is defined (`Operation.act_blank`).
-/
namespace NftStore

variable {number : Nat} {defines others : Defines} {op : Operation}

/-! ## Blank texts -/

/-- A blank in the place of a text, nothing where there is none. -/
def blankText (text : Option String) : Option String :=
  text.map fun _ => ""

@[simp] theorem blankText_map (f : String → String) (text : Option String) :
    blankText (text.map f) = blankText text := by
  cases text <;> rfl

/-- The rule with its text left blank. -/
def Rule.blank (r : Rule) : Rule :=
  { r with rule := blankText r.rule }

/-- The set or map with its type left blank, whichever way it is given. -/
def SetSpec.blank (s : SetSpec) : SetSpec :=
  { s with type := blankText s.type, typeof := blankText s.typeof }

/-- The element of a map with its value left blank. Nothing is substituted in a set but the key. -/
def Element.blank (kind : SetKind) (e : Element) : Element :=
  match kind with
  | .set => e
  | .map => { e with value := blankText e.value }

/-- The chain with the texts of its rules left blank. -/
def ChainEntry.blank (entry : ChainEntry) : ChainEntry :=
  { entry with rules := entry.rules.map Rule.blank }

/-- The set or map with its type and, in a map, the values left blank. -/
def SetEntry.blank (kind : SetKind) (entry : SetEntry) : SetEntry :=
  { record := entry.record.blank, elements := entry.elements.map (Element.blank kind) }

/-- The entry with all that was substituted left blank, but for keys. -/
def Shelf.blank : (k : Shelf) → k.Entry → k.Entry
  | chains, entry => ChainEntry.blank entry
  | containers kind, entry => SetEntry.blank kind entry

/-- The contents with the texts of rules, the types of sets and maps and the values in maps left
blank. -/
def Contents.blank (c : Contents) : Contents :=
  c.mapEntries Shelf.blank

/-- The store without its defines and with those texts left blank. -/
def Store.blank (s : Store) : Store :=
  { s with defines := .empty, contents := s.contents.map Contents.blank }

theorem Rule.blank_stored (r : Rule) :
    (r.stored defines number).blank = (r.stored others number).blank := by
  simp [blank, stored]

theorem SetSpec.blank_stored (r : SetSpec) :
    (r.stored defines number).blank = (r.stored others number).blank := by
  simp [blank, stored]

/-- The element has no placeholder in its key. -/
def Element.KeyPlain (e : Element) : Prop :=
  Define.sigil ∉ e.key.toList

theorem Element.blank_stored {e : Element} (h : e.KeyPlain) :
    (e.stored defines).blank e.container = (e.stored others).blank e.container := by
  cases hk : e.container <;> simp [blank, stored, hk, Defines.substitute_of_not_mem _ h]

@[simp] theorem Element.key_blank (kind : SetKind) (e : Element) : (e.blank kind).key = e.key := by
  cases kind <;> rfl

namespace ChainEntry

theorem blank_emptied (entry : ChainEntry) : entry.emptied.blank = entry.blank.emptied := rfl

theorem blank_addRule (entry : ChainEntry) (r : Rule) :
    (entry.addRule r).blank = entry.blank.addRule r.blank := by
  simp [blank, addRule]

theorem hasRule_blank (entry : ChainEntry) (handle : Int) :
    entry.blank.hasRule handle = entry.hasRule handle := by
  simp [hasRule, blank, Rule.blank, Function.comp_def]

theorem blank_eraseRule (entry : ChainEntry) (handle : Int) :
    (entry.eraseRule handle).blank = entry.blank.eraseRule handle := by
  simp [eraseRule, blank, Rule.blank, List.eraseP_map, Function.comp_def]

end ChainEntry

namespace SetEntry

variable {kind : SetKind}

theorem blank_emptied (entry : SetEntry) : entry.emptied.blank kind = (entry.blank kind).emptied :=
  rfl

theorem hasKey_blank (entry : SetEntry) (key : String) :
    (entry.blank kind).hasKey key = entry.hasKey key := by
  simp [hasKey, blank, Function.comp_def]

theorem blank_putElement (e : Element) (elements : List Element) :
    (putElement e elements).map (Element.blank kind)
      = putElement (e.blank kind) (elements.map (Element.blank kind)) := by
  induction elements with
  | nil => rfl
  | cons other rest ih =>
    by_cases hk : other.key = e.key
    · simp [putElement, hk]
    · simp [putElement, hk, ih]

theorem blank_put (entry : SetEntry) (e : Element) :
    (entry.put e).blank kind = (entry.blank kind).put (e.blank kind) := by
  simp [blank, put, blank_putElement]

theorem blank_erase (entry : SetEntry) (key : String) :
    (entry.erase key).blank kind = (entry.blank kind).erase key := by
  simp [erase, blank, List.eraseP_map, Function.comp_def]

end SetEntry

/-! ## Operations on blank slots -/

/-- What an operation comes to, with the new entry left blank. -/
def Change.blank (k : Shelf) (c : Change (Option k.Entry)) : Change (Option k.Entry) :=
  c.map fun result => (result.1.map k.blank, result.2)

/-- What comes to the same with blanks goes through with the same warnings, or fails in the same
way. -/
theorem Change.cases_of_blank_eq {k : Shelf} {c c' : Change (Option k.Entry)}
    (h : Change.blank k c = Change.blank k c') :
    (∃ slot slot' warnings, c = .ok (slot, warnings) ∧ c' = .ok (slot', warnings) ∧
      slot.map k.blank = slot'.map k.blank) ∨
    ∃ fault, c = .error fault ∧ c' = .error fault := by
  cases c with
  | error fault =>
    cases c' with
    | error fault' =>
      cases h
      exact .inr ⟨fault, rfl, rfl⟩
    | ok result' => cases h
  | ok result =>
    cases c' with
    | error fault' => cases h
    | ok result' =>
      obtain ⟨slot, warnings⟩ := result
      obtain ⟨slot', warnings'⟩ := result'
      obtain ⟨hslot, rfl⟩ : slot.map k.blank = slot'.map k.blank ∧ warnings = warnings' := by
        simpa [Change.blank, Except.map] using h
      exact .inl ⟨slot, slot', warnings, rfl, rfl, hslot⟩

namespace Slot

theorem blank_operate {k : Shelf} {emptied : k.Entry → k.Entry}
    (hemptied : ∀ entry, k.blank (emptied entry) = emptied (k.blank entry)) (kind : Kind)
    (verb : Verb) (name : String) (handle : Option Int) (fresh : k.Entry) (slot : Option k.Entry) :
    Change.blank k (operate kind verb name handle fresh emptied slot)
      = operate kind verb name handle (k.blank fresh) emptied (slot.map k.blank) := by
  cases slot with
  | none => cases verb <;> rfl
  | some entry =>
    cases verb with
    | flush => simp [Change.blank, operate, Except.map, hemptied]
    | _ => rfl

theorem blank_operateRule (verb : Verb) (r stored : Rule) (slot : Option ChainEntry) :
    Change.blank .chains (operateRule verb r stored slot)
      = operateRule verb r stored.blank (slot.map ChainEntry.blank) := by
  cases slot with
  | none => cases verb <;> cases r.handle <;> rfl
  | some entry =>
    cases verb with
    | add =>
      show Except.ok (some (entry.addRule stored).blank, []) = _
      rw [ChainEntry.blank_addRule]
      rfl
    | delete =>
      cases hh : r.handle with
      | none => simp only [operateRule, Option.map_some, hh]; rfl
      | some handle =>
        -- a handle is not blanked, so the same rule is found
        simp only [operateRule, Option.map_some, hh, ChainEntry.hasRule_blank]
        by_cases hr : entry.hasRule handle
        · rw [if_pos hr, if_pos hr, ← ChainEntry.blank_eraseRule]
          rfl
        · rw [if_neg hr, if_neg hr]
          rfl
    | _ => cases r.handle <;> rfl

theorem blank_operateElement {kind : SetKind} (verb : Verb) (e stored : Element)
    (slot : Option SetEntry) :
    Change.blank (.containers kind) (operateElement verb e stored slot)
      = operateElement verb e (stored.blank kind) (slot.map (SetEntry.blank kind)) := by
  cases slot with
  | none => cases verb <;> rfl
  | some entry =>
    cases verb with
    | add =>
      show Except.ok (some ((entry.put stored).blank kind), []) = _
      rw [SetEntry.blank_put]
      rfl
    | delete =>
      simp only [operateElement, Option.map_some, SetEntry.hasKey_blank, Element.key_blank]
      by_cases hk : entry.hasKey stored.key
      · rw [if_pos hk, if_pos hk, ← SetEntry.blank_erase]
        rfl
      · rw [if_neg hk, if_neg hk]
        rfl
    | _ => rfl

end Slot

/-- No element of the operation has a placeholder in its key. -/
def Operation.KeyPlain (op : Operation) : Prop :=
  ∀ e, op.object = .element e → e.KeyPlain

/-- What an operation with a plain key makes of a slot is told by what is not blanked there, and
whatever is defined it is the same but for what is. -/
theorem Operation.act_blank (hkey : op.KeyPlain) {p : Place} (hp : op.object.place? = some p)
    {slot slot' : Option p.shelf.Entry} (hs : slot.map p.shelf.blank = slot'.map p.shelf.blank) :
    Change.blank p.shelf (op.act defines number p.shelf slot)
      = Change.blank p.shelf (op.act others number p.shelf slot') := by
  obtain ⟨verb, object⟩ := op
  cases object with
  | chain r =>
    cases hp
    show Change.blank .chains (Slot.operate _ _ _ _ _ _ _) = Change.blank .chains (Slot.operate ..)
    rw [Slot.blank_operate ChainEntry.blank_emptied, Slot.blank_operate ChainEntry.blank_emptied, hs]
  | rule r =>
    cases hp
    show Change.blank .chains (Slot.operateRule ..) = Change.blank .chains (Slot.operateRule ..)
    rw [Slot.blank_operateRule, Slot.blank_operateRule, r.blank_stored]
    exact congrArg _ hs
  | set kind r =>
    cases hp
    have hfresh : SetEntry.blank kind ⟨r.stored defines number, []⟩
        = SetEntry.blank kind ⟨r.stored others number, []⟩ :=
      congrArg (SetEntry.mk · []) r.blank_stored
    show Change.blank (.containers kind) (Slot.operate _ _ _ _ _ _ _)
      = Change.blank (.containers kind) (Slot.operate ..)
    rw [Slot.blank_operate SetEntry.blank_emptied, Slot.blank_operate SetEntry.blank_emptied, hs]
    exact congrArg (Slot.operate _ _ _ _ · _ _) hfresh
  | element e =>
    cases hp
    show Change.blank (.containers e.container) (Slot.operateElement ..)
      = Change.blank (.containers e.container) (Slot.operateElement ..)
    rw [Slot.blank_operateElement, Slot.blank_operateElement, Element.blank_stored (hkey e rfl)]
    exact congrArg _ hs
  | table _ | counter _ | bare => cases hp

/-! ## Stores and runs -/

/-- The outcome with its store left blank. -/
def Outcome.blank (o : Outcome) : Outcome :=
  { o with store := o.store.blank }

theorem Outcome.blank_eq_iff {o o' : Outcome} : o.blank = o'.blank ↔
    o.store.blank = o'.store.blank ∧ o.warnings = o'.warnings ∧ o.fault = o'.fault := by
  simp [blank]

theorem Outcome.blank_andThen {o o' : Outcome} (h : o.blank = o'.blank) {next : Store → Outcome}
    (hnext : ∀ s s', s.blank = s'.blank → (next s).blank = (next s').blank) :
    (o.andThen next).blank = (o'.andThen next).blank := by
  obtain ⟨hstore, hwarnings, hfault⟩ := blank_eq_iff.1 h
  cases ho : o.fault with
  | some fault =>
    have ho' : o'.fault = some fault := hfault.symm.trans ho
    rw [andThen_of_fault ho, andThen_of_fault ho', h]
  | none =>
    have ho' : o'.fault = none := hfault.symm.trans ho
    obtain ⟨hs, hw, hf⟩ := blank_eq_iff.1 (hnext _ _ hstore)
    rw [andThen_of_ok ho, andThen_of_ok ho', blank_eq_iff, hs, hwarnings, hw, hf]
    exact ⟨rfl, rfl, rfl⟩

namespace Contents

theorem slot_blank (c : Contents) (p : Place) :
    c.blank.slot p = (c.slot p).map p.shelf.blank :=
  c.slot_mapEntries Shelf.blank p

theorem blank_put (c : Contents) (p : Place) (slot : Option p.shelf.Entry) :
    (c.put p slot).blank = c.blank.put p (slot.map p.shelf.blank) :=
  c.mapEntries_put Shelf.blank p slot

end Contents

namespace Store

variable {s s' : Store}

theorem blank_eq_iff : s.blank = s'.blank ↔ s.family = s'.family ∧ s.table = s'.table ∧
    s.lastHandle = s'.lastHandle ∧ s.contents.map Contents.blank = s'.contents.map Contents.blank := by
  simp [blank]

theorem blank_tick (s : Store) (verb : Verb) : (s.tick verb).blank = s.blank.tick verb := by
  unfold tick
  split <;> rfl

theorem apply_blank_of_place (h : s.blank = s'.blank) (hkey : op.KeyPlain) {p : Place}
    (hp : op.object.place? = some p) {c c' : Contents} (hc : s.contents = some c)
    (hc' : s'.contents = some c') : (s.apply op).blank = (s'.apply op).blank := by
  have htick : (s.tick op.verb).blank = (s'.tick op.verb).blank := by
    rw [blank_tick, h, ← blank_tick]
  have hnumber : (s.tick op.verb).lastHandle = (s'.tick op.verb).lastHandle :=
    (blank_eq_iff.1 htick).2.2.1
  have hblank : c.blank = c'.blank := by
    simpa [hc, hc'] using (blank_eq_iff.1 h).2.2.2
  have hslot : (c.slot p).map p.shelf.blank = (c'.slot p).map p.shelf.blank := by
    rw [← Contents.slot_blank, hblank, Contents.slot_blank]
  have hact : Change.blank p.shelf
        (op.act s.defines (s.tick op.verb).lastHandle p.shelf (c.slot p))
      = Change.blank p.shelf
        (op.act s'.defines (s'.tick op.verb).lastHandle p.shelf (c'.slot p)) := by
    rw [← hnumber]
    exact op.act_blank hkey hp hslot
  obtain ⟨slot, slot', warnings, ha, ha', hnew⟩ | ⟨fault, ha, ha'⟩ := Change.cases_of_blank_eq hact
  · rw [apply_of_act_ok hc hp ha, apply_of_act_ok hc' hp ha', Outcome.blank_eq_iff]
    refine ⟨blank_eq_iff.2 ⟨(blank_eq_iff.1 htick).1, (blank_eq_iff.1 htick).2.1, hnumber, ?_⟩,
      rfl, rfl⟩
    simp only [Option.map_some, Contents.blank_put, hblank, hnew]
  · rw [apply_of_act_error hc hp ha, apply_of_act_error hc' hp ha', Outcome.blank_eq_iff]
    exact ⟨htick, rfl, rfl⟩

/-- Without a table, and about the table itself, nothing that is blanked plays a part. -/
theorem blank_apply_of_no_place (h : s.contents = none ∨ op.object.place? = none) :
    (s.apply op).blank = s.blank.apply op := by
  obtain ⟨verb, object⟩ := op
  obtain ⟨family, table, defines, lastHandle, contents⟩ := s
  cases contents with
  | none => cases object <;> cases verb <;> rfl
  | some c =>
    have hp : object.place? = none := h.resolve_left (by simp)
    cases object with
    | table t => cases verb <;> rfl
    | counter _ | bare => cases verb <;> rfl
    | chain _ | rule _ | set _ _ | element _ => cases hp

/-- An operation with a plain key does the same to stores that are alike but for what is blanked. -/
theorem apply_blank (h : s.blank = s'.blank) (hkey : op.KeyPlain) :
    (s.apply op).blank = (s'.apply op).blank := by
  have hcontents := (blank_eq_iff.1 h).2.2.2
  cases hp : op.object.place? with
  | none => rw [blank_apply_of_no_place (.inr hp), h, ← blank_apply_of_no_place (.inr hp)]
  | some p =>
    cases hc : s.contents with
    | none =>
      have hc' : s'.contents = none := by simpa [hc] using hcontents.symm
      rw [blank_apply_of_no_place (.inl hc), h, ← blank_apply_of_no_place (.inl hc')]
    | some c =>
      cases hc' : s'.contents with
      | none => simp [hc, hc'] at hcontents
      | some c' => exact apply_blank_of_place h hkey hp hc hc'

theorem applyAll_blank {ops : List Operation} (hkeys : ∀ op ∈ ops, op.KeyPlain)
    (h : s.blank = s'.blank) : (s.applyAll ops).blank = (s'.applyAll ops).blank := by
  induction ops generalizing s s' with
  | nil => exact congrArg (Outcome.mk · [] none) h
  | cons op ops ih =>
    have hop := apply_blank h (hkeys op (List.mem_cons_self ..))
    have hkeys' : ∀ o ∈ ops, o.KeyPlain := fun o ho => hkeys o (List.mem_cons_of_mem op ho)
    exact Outcome.blank_andThen hop fun _ _ hs => ih hkeys' hs

/-- The runs fail at the same operation. -/
theorem failsAt_blank {ops : List Operation} (hkeys : ∀ op ∈ ops, op.KeyPlain)
    (h : s.blank = s'.blank) (i : Nat) : s'.FailsAt ops i ↔ s.FailsAt ops i := by
  have halong : ∀ op ∈ ops, GoesAlong (fun s s' => s.blank = s'.blank) id op := by
    intro op hop s s' hs
    obtain ⟨hstore, -, hfault⟩ := Outcome.blank_eq_iff.1 (apply_blank hs (hkeys op hop))
    exact ⟨hstore, by rw [id, hfault]⟩
  have hfails := GoesAlong.failsAt halong h i
  rwa [List.map_id] at hfails

/-- The operations do to `s'` what they do to `s`, but for the texts that are blanked: they fail at
the same operation and in the same way or go through alike, give the same warnings, use up the same
handles, and leave the same contents when these texts are blanked. -/
structure RunsSameBut (s s' : Store) (ops : List Operation) : Prop where
  failsAt : ∀ i, s'.FailsAt ops i ↔ s.FailsAt ops i
  fault : (s'.run (Transaction.empty.queueRaw ops)).fault
    = (s.run (Transaction.empty.queueRaw ops)).fault
  warnings : (s'.run (Transaction.empty.queueRaw ops)).warnings
    = (s.run (Transaction.empty.queueRaw ops)).warnings
  lastHandle : (s'.run (Transaction.empty.queueRaw ops)).store.lastHandle
    = (s.run (Transaction.empty.queueRaw ops)).store.lastHandle
  contents : (s'.run (Transaction.empty.queueRaw ops)).store.contents.map Contents.blank
    = (s.run (Transaction.empty.queueRaw ops)).store.contents.map Contents.blank

/-- Whatever is defined, a run of operations with plain keys differs in nothing but the texts of
rules, the types of sets and maps and the values in maps. -/
theorem runsSameBut_of_defines (s : Store) (others : Defines) {ops : List Operation}
    (hkeys : ∀ op ∈ ops, op.KeyPlain) : RunsSameBut s { s with defines := others } ops := by
  have h : { s with defines := others }.blank = s.blank := rfl
  obtain ⟨hstore, hwarnings, hfault⟩ := Outcome.blank_eq_iff.1 (applyAll_blank hkeys h)
  obtain ⟨-, -, hlast, hcontents⟩ := blank_eq_iff.1 hstore
  exact {
    failsAt := failsAt_blank hkeys h.symm
    fault := hfault
    warnings := hwarnings
    lastHandle := hlast
    contents := hcontents }

end Store

/-- A rule, a type and a value with placeholders, keys without, and the delete of a rule that is not
there in the end. -/
def addressed : List Operation :=
  [⟨.add, .table ⟨none, none, none, none⟩⟩,
   ⟨.add, .chain ⟨"in", none, none, none, none, none, none⟩⟩,
   ⟨.add, .rule ⟨"in", some "$IP saddr @hosts drop", none, none, none⟩⟩,
   ⟨.add, .set .map ⟨"hosts", some "$INET_ADDR : mark", none, none, none, none, none, none, none,
      none, none⟩⟩,
   ⟨.add, .element ⟨"hosts", "10.0.0.1", some "$IP", none⟩⟩,
   ⟨.delete, .rule ⟨"in", none, none, none, some 3⟩⟩,
   ⟨.delete, .rule ⟨"in", none, none, none, some 3⟩⟩]

theorem runsSameBut_addressed :
    (∀ op ∈ addressed, op.KeyPlain) ∧
    Store.RunsSameBut (.new .ip "filter") { Store.new .ip "filter" with defines := .empty }
      addressed ∧
    (Store.new .ip "filter").FailsAt addressed 6 ∧
    ((Store.new .ip "filter").run (.queueRaw .empty addressed)).store.listElements "map" "hosts"
      = .ok [⟨"hosts", "10.0.0.1", some "ip", none⟩] ∧
    ({ Store.new .ip "filter" with defines := .empty }.run
        (.queueRaw .empty addressed)).store.listElements "map" "hosts"
      = .ok [⟨"hosts", "10.0.0.1", some "$IP", none⟩] := by
  have hkeys : ∀ op ∈ addressed, op.KeyPlain := by
    simp [addressed, Operation.KeyPlain, Element.KeyPlain, Define.sigil]
  have hfails : (Store.new .ip "filter").FailsAt addressed 6 :=
    ⟨by decide +kernel, _, rfl, by decide +kernel⟩
  exact ⟨hkeys, Store.runsSameBut_of_defines _ _ hkeys, hfails, by decide +kernel,
    by decide +kernel⟩

end NftStore
