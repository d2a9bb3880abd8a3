import NftStore.Proofs.Existence
import NftStore.Proofs.Failure

/-!
Setting up. A queue that adds a table, chains, sets, maps and elements can be run again at any time.
What it asks for is there by then, so that of its operations only those on elements do anything:
they write the elements of a set or map once more, and what was written last under a key is what the
key has already (`putElements_putElements`). A queue that fails fails again at the same operation.
-/
namespace NftStore

/-! ## Putting many elements -/

/-- Puts elements one after another. -/
def putElements (es l : List Element) : List Element :=
  es.foldl (fun l e => putElement e l) l

theorem find?_putElement (e : Element) (l : List Element) (key : String) :
    (putElement e l).find? (fun x => x.key == key)
      = if e.key = key then some e else l.find? fun x => x.key == key := by
  induction l with
  | nil => by_cases h : e.key = key <;> simp [putElement, h]
  | cons other rest ih =>
    by_cases ho : other.key = e.key
    · by_cases h : e.key = key <;> simp [putElement, ho, h]
    · rw [putElement, if_neg ho, List.find?_cons, ih, List.find?_cons]
      by_cases hk : other.key = key
      · have h : ¬ e.key = key := fun h => ho (hk.trans h.symm)
        simp [hk, h]
      · have hb : (other.key == key) = false := by simpa using hk
        rw [hb]

/-- Under a key is found what was put last under it, or else what was there before. -/
theorem find?_putElements (es l : List Element) (key : String) :
    (putElements es l).find? (fun x => x.key == key)
      = (es.reverse.find? fun x => x.key == key).or (l.find? fun x => x.key == key) := by
  induction es generalizing l with
  | nil => rfl
  | cons e es ih =>
    show (putElements es (putElement e l)).find? _ = _
    rw [ih, find?_putElement, List.reverse_cons, List.find?_append, Option.or_assoc]
    by_cases h : e.key = key <;> simp [h]

theorem mem_keys_putElements {es l : List Element} {key : String} :
    key ∈ (putElements es l).map Element.key
      ↔ key ∈ es.map Element.key ∨ key ∈ l.map Element.key := by
  induction es generalizing l with
  | nil => simp [putElements]
  | cons e es ih =>
    show key ∈ (putElements es (putElement e l)).map Element.key ↔ _
    rw [ih, mem_keys_putElement, List.map_cons, List.mem_cons]
    tauto

/-- Where the keys are there already, they stay in their places. -/
theorem keys_putElements {es l : List Element} (h : ∀ e ∈ es, e.key ∈ l.map Element.key) :
    (putElements es l).map Element.key = l.map Element.key := by
  induction es generalizing l with
  | nil => rfl
  | cons e es ih =>
    have he : (putElement e l).map Element.key = l.map Element.key := by
      rw [keys_putElement, if_pos (h e List.mem_cons_self)]
    show (putElements es (putElement e l)).map Element.key = _
    rw [ih, he]
    intro x hx
    rw [he]
    exact h x (List.mem_cons_of_mem _ hx)

theorem nodup_keys_putElements {l : List Element} (h : (l.map Element.key).Nodup)
    (es : List Element) : ((putElements es l).map Element.key).Nodup := by
  induction es generalizing l with
  | nil => exact h
  | cons e es ih => exact ih (nodup_keys_putElement h e)

/-- Two lists of records with the same keys in the same order are the same if one holds all that is
in the other, and no two of its records have a key in common. -/
theorem eq_of_keys_eq {α β : Type} {f : α → β} {l l' : List α} (hkeys : l.map f = l'.map f)
    (hnodup : (l'.map f).Nodup) (hsub : ∀ a ∈ l, a ∈ l') : l = l' := by
  have hlength : l.length = l'.length := by simpa using congrArg List.length hkeys
  apply List.ext_getElem hlength
  intro i hi hi'
  have hget : f l[i] = f l'[i] := by
    have hmap := congrArg (fun keys => keys[i]?) hkeys
    simpa [hi, hi'] using hmap
  exact List.inj_on_of_nodup_map hnodup (hsub _ (List.getElem_mem hi)) (List.getElem_mem hi') hget

/-- Where no key stands twice, an element is what is found under its key. -/
theorem find?_key_of_mem {l : List Element} (h : (l.map Element.key).Nodup) {e : Element}
    (he : e ∈ l) : l.find? (fun x => x.key == e.key) = some e := by
  cases hf : l.find? fun x => x.key == e.key with
  | none => exact absurd (beq_self_eq_true e.key) (List.find?_eq_none.1 hf e he)
  | some x =>
    have hx : x.key = e.key := by
      simpa using List.find?_some (p := fun x : Element => x.key == e.key) hf
    rw [List.inj_on_of_nodup_map h (List.mem_of_find?_eq_some hf) he hx]

/-- Putting the same elements once more changes nothing: each key has the element that was put last
under it already. -/
theorem putElements_putElements {l : List Element} (h : (l.map Element.key).Nodup)
    (es : List Element) : putElements es (putElements es l) = putElements es l := by
  have hkeys : (putElements es (putElements es l)).map Element.key
      = (putElements es l).map Element.key :=
    keys_putElements fun e he => mem_keys_putElements.2 (.inl (List.mem_map_of_mem he))
  have hnodup := nodup_keys_putElements h es
  apply eq_of_keys_eq hkeys hnodup
  intro e he
  have hfind := find?_key_of_mem (hkeys ▸ hnodup) he
  rw [find?_putElements, find?_putElements, ← Option.or_assoc, Option.or_self,
    ← find?_putElements] at hfind
  exact List.mem_of_find?_eq_some hfind

/-! ## Contents without elements -/

namespace Contents

/-- The contents with all sets and maps emptied. -/
def frame (c : Contents) : Contents :=
  { c with
    sets := c.sets.mapEntries fun _ => SetEntry.emptied
    maps := c.maps.mapEntries fun _ => SetEntry.emptied }

theorem containers_frame (c : Contents) (kind : SetKind) :
    c.frame.containers kind = (c.containers kind).mapEntries fun _ => SetEntry.emptied := by
  cases kind <;> rfl

theorem slot_frame (c : Contents) (kind : SetKind) (name : String) :
    c.frame.slot ⟨.containers kind, name⟩
      = (c.slot ⟨.containers kind, name⟩).map SetEntry.emptied := by
  show (c.frame.containers kind).find? name = ((c.containers kind).find? name).map _
  rw [containers_frame, Catalog.find?_mapEntries]

theorem frame_put (c : Contents) (kind : SetKind) (name : String) (slot : Option SetEntry) :
    (c.put ⟨.containers kind, name⟩ slot).frame
      = c.frame.put ⟨.containers kind, name⟩ (slot.map SetEntry.emptied) := by
  have hcat := (c.containers kind).mapEntries_put (fun _ => SetEntry.emptied) name slot
  rw [← containers_frame] at hcat
  cases kind
  all_goals
    simp only [put, catalog, withCatalog, withContainers, frame] at hcat ⊢
    rw [hcat]

/-- An element that is put does not show in the frame. -/
theorem frame_put_element {c : Contents} {kind : SetKind} {name : String} {entry : SetEntry}
    (h : c.slot ⟨.containers kind, name⟩ = some entry) (e : Element) :
    (c.put ⟨.containers kind, name⟩ (some (entry.put e))).frame = c.frame := by
  have hslot : c.frame.slot ⟨.containers kind, name⟩ = some entry.emptied := by
    rw [slot_frame, h]
    rfl
  rw [frame_put]
  show c.frame.put ⟨.containers kind, name⟩ (some entry.emptied) = c.frame
  rw [← hslot, put_slot]

/-- Contents are settled by their frame and the elements of each set and map. -/
theorem eq_of_frame_eq {c d : Contents} (h : c.frame = d.frame)
    (he : ∀ kind name, (c.slot ⟨.containers kind, name⟩).map SetEntry.elements
      = (d.slot ⟨.containers kind, name⟩).map SetEntry.elements) : c = d := by
  have hcontainers : ∀ kind, c.containers kind = d.containers kind := by
    intro kind
    have hframe : (c.containers kind).mapEntries (fun _ => SetEntry.emptied)
        = (d.containers kind).mapEntries fun _ => SetEntry.emptied := by
      rw [← containers_frame, ← containers_frame, h]
    have hnames : (c.containers kind).names = (d.containers kind).names := by
      have hmap := congrArg Catalog.names hframe
      rwa [Catalog.names_mapEntries, Catalog.names_mapEntries] at hmap
    apply Catalog.ext
    apply eq_of_keys_eq hnames (d.containers kind).nodup
    rintro ⟨name, entry⟩ hentry
    have hslot : c.slot ⟨.containers kind, name⟩ = some entry :=
      Catalog.find?_eq_some_iff.2 hentry
    -- what is there in the other contents has the same record and the same elements
    have hrecord := congrArg (fun c => Contents.slot c ⟨.containers kind, name⟩) h
    have helements := he kind name
    simp only [slot_frame] at hrecord
    rw [hslot] at hrecord helements
    cases hd : d.slot ⟨.containers kind, name⟩ with
    | none => simp [hd] at helements
    | some other =>
      rw [hd] at hrecord helements
      have hsame : entry = other := by
        simp only [Option.map_some, Option.some.injEq] at hrecord helements
        cases entry
        cases other
        simp_all [SetEntry.emptied]
      rw [hsame]
      exact Catalog.find?_eq_some_iff.1 hd
  have htable : c.table = d.table := show c.frame.table = d.frame.table by rw [h]
  have hchains : c.chains = d.chains := show c.frame.chains = d.frame.chains by rw [h]
  have hsets : c.sets = d.sets := hcontainers .set
  have hmaps : c.maps = d.maps := hcontainers .map
  cases c
  cases d
  cases htable
  cases hchains
  cases hsets
  cases hmaps
  rfl

end Contents

/-! ## Operations that set up -/

/-- The operation adds something, and not a rule. -/
def Operation.SetsUp (op : Operation) : Prop :=
  op.verb = .add ∧ op.object.kind ≠ .rule

instance (op : Operation) : Decidable op.SetsUp :=
  inferInstanceAs (Decidable (op.verb = .add ∧ op.object.kind ≠ .rule))

/-- The element that is put into a set or map where the object is added, as it is stored there. -/
def Object.element? (o : Object) (defines : Defines) (kind : SetKind) (name : String) :
    Option Element :=
  match o with
  | .element e => if e.container = kind ∧ e.name = name then some (e.stored defines) else none
  | _ => none

namespace Store

variable {s : Store} {op : Operation} {ops : List Operation}

/-- What is to be set up is there: the table, or something at the place of the object. -/
def Holds (s : Store) (o : Object) : Prop :=
  ∃ c, s.contents = some c ∧
    ((∃ t, o = .table t) ∨ ∃ p, o.place? = some p ∧ (c.slot p).isSome)

/-- The elements of a set or map, none if it is not there. -/
def elementsAt (s : Store) (kind : SetKind) (name : String) : List Element :=
  ((s.container? kind name).map SetEntry.elements).getD []

/-- What is added at a place is there afterwards. -/
theorem exists_put_of_add {p : Place} (hverb : op.verb = .add) (hp : op.object.place? = some p)
    (hok : (s.apply op).fault = none) : ∃ c entry, s.contents = some c ∧
      (s.apply op).store.contents = some (c.put p (some entry)) := by
  obtain ⟨c, slot, warnings, hc, ha, hput⟩ := exists_act_of_ok hp hok
  obtain ⟨verb, object⟩ := op
  cases hverb
  have hsome : ∃ entry, slot = some entry := by
    cases object with
    | table _ | counter _ | bare => cases hp
    | chain r | set kind r =>
      cases hp
      cases ha
      exact ⟨_, rfl⟩
    | rule r | element e =>
      cases hp
      generalize c.slot _ = old at ha
      cases old <;> cases ha
      exact ⟨_, rfl⟩
  obtain ⟨entry, rfl⟩ := hsome
  exact ⟨c, entry, hc, hput⟩

/-- Objects that are set up are the table, or have a place. -/
theorem place_of_setsUp (hop : op.SetsUp) (hok : (s.apply op).fault = none) :
    (∃ t, op = ⟨.add, .table t⟩) ∨ ∃ p, op.object.place? = some p := by
  have happlied := s.applied op
  generalize s.apply op = o at hok happlied
  cases happlied with
  | noTable | unsupported | failed => cases hok
  | tableAdded t _ hadd | tableThere t _ _ hadd => exact .inl ⟨t, hadd⟩
  | tableFlushed t _ _ hother | tableDeleted t _ _ hother =>
    cases hother
    cases hop.1
  | placed c p slot warnings hc hp ha => exact .inr ⟨p, hp⟩

/-- Adding the table makes it if it is not there. -/
theorem contents_addTable (s : Store) (t : Table) :
    (s.apply ⟨.add, .table t⟩).store.contents
      = some (s.contents.getD ((s.tick .add).freshContents t)) := by
  cases hc : s.contents with
  | none =>
    rw [apply_addTable_of_none hc]
    rfl
  | some c =>
    rw [apply_addTable_of_some hc, contents_tick, hc]
    rfl

theorem holds_apply_self (hop : op.SetsUp) (hok : (s.apply op).fault = none) :
    (s.apply op).store.Holds op.object := by
  rcases place_of_setsUp hop hok with ⟨t, rfl⟩ | ⟨p, hp⟩
  · exact ⟨_, s.contents_addTable t, .inl ⟨t, rfl⟩⟩
  · obtain ⟨c, entry, -, hput⟩ := exists_put_of_add hop.1 hp hok
    exact ⟨_, hput, .inr ⟨p, hp, by rw [Contents.slot_put_self]; rfl⟩⟩

/-- What is there stays while something is set up. -/
theorem Holds.apply {o : Object} (h : s.Holds o) (hop : op.SetsUp)
    (hok : (s.apply op).fault = none) : (s.apply op).store.Holds o := by
  obtain ⟨c, hc, ho⟩ := h
  rcases place_of_setsUp hop hok with ⟨t, rfl⟩ | ⟨p, hp⟩
  · refine ⟨c, ?_, ho⟩
    rw [contents_addTable, hc]
    rfl
  · obtain ⟨c', entry, hc', hput⟩ := exists_put_of_add hop.1 hp hok
    cases hc.symm.trans hc'
    refine ⟨_, hput, ho.imp_right ?_⟩
    rintro ⟨q, hq, hslot⟩
    refine ⟨q, hq, ?_⟩
    by_cases hqp : q = p
    · subst hqp
      rw [Contents.slot_put_self]
      rfl
    · rwa [Contents.slot_put_of_ne c hqp]

/-- What is there already is not set up again: the operation goes through, and all it can do is to
write an element. -/
theorem apply_of_holds (hop : op.SetsUp) (h : s.Holds op.object) :
    (s.apply op).fault = none ∧
      (s.apply op).store.contents.map Contents.frame = s.contents.map Contents.frame := by
  obtain ⟨c, hc, ho⟩ := h
  obtain ⟨verb, object⟩ := op
  obtain ⟨hverb, hkind⟩ := hop
  cases hverb
  rcases ho with ⟨t, rfl⟩ | ⟨p, hp, hslot⟩
  · refine ⟨by rw [apply_addTable_of_some hc], ?_⟩
    rw [contents_addTable, hc]
    rfl
  · obtain ⟨entry, he⟩ := Option.isSome_iff_exists.1 hslot
    cases object with
    | table _ | counter _ | bare => cases hp
    | rule _ => exact absurd rfl hkind
    | chain r =>
      cases hp
      have ha : (⟨.add, .chain r⟩ : Operation).act s.defines (s.tick .add).lastHandle .chains
          (c.slot ⟨.chains, r.name⟩) = .ok (c.slot ⟨.chains, r.name⟩, []) := by
        rw [he]
        rfl
      rw [apply_of_act_ok hc rfl ha, Contents.put_slot, hc]
      exact ⟨rfl, rfl⟩
    | set kind r =>
      cases hp
      have ha : (⟨.add, .set kind r⟩ : Operation).act s.defines (s.tick .add).lastHandle
          (.containers kind) (c.slot ⟨.containers kind, r.name⟩)
            = .ok (c.slot ⟨.containers kind, r.name⟩, []) := by
        rw [he]
        rfl
      rw [apply_of_act_ok hc rfl ha, Contents.put_slot, hc]
      exact ⟨rfl, rfl⟩
    | element e =>
      cases hp
      have ha : (⟨.add, .element e⟩ : Operation).act s.defines (s.tick .add).lastHandle
          (.containers e.container) (c.slot ⟨.containers e.container, e.name⟩)
            = .ok (some (entry.put (e.stored s.defines)), []) := by
        rw [he]
        rfl
      rw [apply_of_act_ok hc rfl ha, hc]
      exact ⟨rfl, congrArg some (Contents.frame_put_element he _)⟩

theorem elementsAt_of_contents {c : Contents} (hc : s.contents = some c) (kind : SetKind)
    (name : String) : s.elementsAt kind name
      = ((c.slot ⟨.containers kind, name⟩).map SetEntry.elements).getD [] := by
  rw [elementsAt, container?_of_contents hc]

/-- Setting something up writes the element that it is, if it is one, and no other. -/
theorem elementsAt_apply (hop : op.SetsUp) (hok : (s.apply op).fault = none) (kind : SetKind)
    (name : String) : (s.apply op).store.elementsAt kind name
      = putElements (op.object.element? s.defines kind name).toList (s.elementsAt kind name) := by
  rcases place_of_setsUp hop hok with ⟨t, rfl⟩ | ⟨p, hp⟩
  · rw [elementsAt_of_contents (s.contents_addTable t)]
    cases hc : s.contents with
    | none =>
      have hnone : s.container? kind name = none := by rw [container?, hc]; rfl
      rw [elementsAt, hnone, Option.getD_none, slot_freshContents]
      rfl
    | some c =>
      rw [elementsAt_of_contents hc]
      rfl
  · obtain ⟨c, slot, warnings, hc, ha, hput⟩ := exists_act_of_ok hp hok
    rw [elementsAt_of_contents hput, elementsAt_of_contents hc]
    obtain ⟨verb, object⟩ := op
    obtain ⟨hverb, hkind⟩ := hop
    cases hverb
    cases object with
    | table _ | counter _ | bare => cases hp
    | rule _ => exact absurd rfl hkind
    | chain r =>
      cases hp
      have hne : (⟨.containers kind, name⟩ : Place) ≠ ⟨.chains, r.name⟩ := by simp
      rw [Contents.slot_put_of_ne c hne]
      rfl
    | set other r =>
      cases hp
      cases ha
      by_cases hplace : (⟨.containers kind, name⟩ : Place) = ⟨.containers other, r.name⟩
      · cases hplace
        rw [Contents.slot_put_self]
        cases c.slot ⟨.containers kind, r.name⟩ <;> rfl
      · rw [Contents.slot_put_of_ne c hplace]
        rfl
    | element e =>
      cases hp
      by_cases hplace : (⟨.containers kind, name⟩ : Place) = ⟨.containers e.container, e.name⟩
      · cases hplace
        rw [Contents.slot_put_self]
        cases hold : c.slot ⟨.containers e.container, e.name⟩ with
        | none =>
          rw [hold] at ha
          cases ha
        | some entry =>
          rw [hold] at ha
          cases ha
          simp [Object.element?, putElements, SetEntry.put]
      · have hnot : ¬ (e.container = kind ∧ e.name = name) := by
          rintro ⟨rfl, rfl⟩
          exact hplace rfl
        rw [Contents.slot_put_of_ne c hplace]
        simp [Object.element?, hnot, putElements]

/-! ## Queues that set up -/

theorem holds_applyAll (hops : ∀ op ∈ ops, op.SetsUp) (hok : (s.applyAll ops).fault = none) :
    (∀ o, s.Holds o → (s.applyAll ops).store.Holds o) ∧
      ∀ op ∈ ops, (s.applyAll ops).store.Holds op.object := by
  induction ops generalizing s with
  | nil => exact ⟨fun o h => h, fun op hop => by cases hop⟩
  | cons op ops ih =>
    obtain ⟨hfirst, hrest⟩ := fault_applyAll_cons_eq_none.1 hok
    obtain ⟨hkept, hmade⟩ := ih (fun o ho => hops o (List.mem_cons_of_mem _ ho)) hrest
    have hop := hops op List.mem_cons_self
    rw [applyAll_cons_store, if_pos hfirst]
    refine ⟨fun o ho => hkept o (ho.apply hop hfirst), fun x hx => ?_⟩
    rcases List.mem_cons.1 hx with rfl | hx
    · exact hkept _ (holds_apply_self hop hfirst)
    · exact hmade x hx

/-- A queue that sets things up writes its elements in turn. -/
theorem elementsAt_applyAll (hops : ∀ op ∈ ops, op.SetsUp) (hok : (s.applyAll ops).fault = none)
    (kind : SetKind) (name : String) : (s.applyAll ops).store.elementsAt kind name
      = putElements (ops.filterMap fun op => op.object.element? s.defines kind name)
          (s.elementsAt kind name) := by
  induction ops generalizing s with
  | nil => rfl
  | cons op ops ih =>
    obtain ⟨hfirst, hrest⟩ := fault_applyAll_cons_eq_none.1 hok
    have hdefines : (s.apply op).store.defines = s.defines := (s.step_apply op).defines_eq
    rw [applyAll_cons_store, if_pos hfirst,
      ih (fun o ho => hops o (List.mem_cons_of_mem _ ho)) hrest, hdefines,
      elementsAt_apply (hops op List.mem_cons_self) hfirst, List.filterMap_cons]
    cases op.object.element? s.defines kind name <;> rfl

/-- Where all of it is there already, a queue goes through and can only write elements. -/
theorem applyAll_of_holds (hops : ∀ op ∈ ops, op.SetsUp) (h : ∀ op ∈ ops, s.Holds op.object) :
    (s.applyAll ops).fault = none ∧
      (s.applyAll ops).store.contents.map Contents.frame = s.contents.map Contents.frame := by
  induction ops generalizing s with
  | nil => exact ⟨rfl, rfl⟩
  | cons op ops ih =>
    have hop := hops op List.mem_cons_self
    obtain ⟨hfirst, hframe⟩ := apply_of_holds hop (h op List.mem_cons_self)
    obtain ⟨hrest, hframes⟩ := ih (fun o ho => hops o (List.mem_cons_of_mem _ ho)) fun o ho =>
      (h o (List.mem_cons_of_mem _ ho)).apply hop hfirst
    refine ⟨fault_applyAll_cons_eq_none.2 ⟨hfirst, hrest⟩, ?_⟩
    rw [applyAll_cons_store, if_pos hfirst, hframes, hframe]

/-- The store with another count of handles. -/
def recount (s : Store) (n : Nat) : Store :=
  { s with lastHandle := n }

/-- What an operation fails with does not depend on the count of handles. -/
theorem fault_apply_recount (hop : op.SetsUp) (n : Nat) :
    ((s.recount n).apply op).fault = (s.apply op).fault := by
  obtain ⟨verb, object⟩ := op
  obtain ⟨hverb, hkind⟩ := hop
  cases hverb
  cases hc : s.contents with
  | none =>
    have hc' : (s.recount n).contents = none := hc
    cases ha : (⟨.add, object⟩ : Operation).addsTable with
    | true =>
      obtain ⟨t, ht⟩ := Operation.addsTable_iff.1 ha
      rw [ht, apply_addTable_of_none hc, apply_addTable_of_none hc']
    | false =>
      rw [apply_of_noTable hc ha, apply_of_noTable hc' ha]
      rfl
  | some c =>
    have hc' : (s.recount n).contents = some c := hc
    cases object with
    | rule _ => exact absurd rfl hkind
    | table t => rw [apply_addTable_of_some hc, apply_addTable_of_some hc']
    | chain _ | set _ _ =>
      rw [apply_of_place hc rfl, apply_of_place hc' rfl]
      rfl
    | element e =>
      rw [apply_of_place hc rfl, apply_of_place hc' rfl]
      generalize c.slot _ = slot
      cases slot <;> rfl
    | counter _ | bare =>
      rw [apply_of_noHandler hc rfl, apply_of_noHandler hc' rfl]

theorem nodup_elementsAt (h : s.Consistent) (kind : SetKind) (name : String) :
    ((s.elementsAt kind name).map Element.key).Nodup := by
  rw [elementsAt]
  cases hentry : s.container? kind name with
  | none => exact List.nodup_nil
  | some entry =>
    obtain ⟨c, hc, he⟩ := Option.bind_eq_some_iff.1 hentry
    have hconsistent : entry.Consistent name := h.entries c hc ⟨.containers kind, name⟩ entry he
    exact hconsistent.keys

/-- Two slots that are both free or both taken are the same if the elements in them are. -/
theorem map_elements_eq {a b : Option SetEntry}
    (h : a.map SetEntry.emptied = b.map SetEntry.emptied)
    (he : (a.map SetEntry.elements).getD [] = (b.map SetEntry.elements).getD []) :
    a.map SetEntry.elements = b.map SetEntry.elements := by
  cases a <;> cases b <;> simp_all

/-- What went through once goes through again, also from another count of handles, and moves nothing
but that. -/
theorem applyAll_again (h : s.Consistent) (hops : ∀ op ∈ ops, op.SetsUp)
    (hok : (s.applyAll ops).fault = none) (n : Nat) :
    (((s.applyAll ops).store.recount n).applyAll ops).fault = none ∧
      ∃ m, (((s.applyAll ops).store.recount n).applyAll ops).store
        = (s.applyAll ops).store.recount m := by
  have hheld : ∀ op ∈ ops, ((s.applyAll ops).store.recount n).Holds op.object :=
    (holds_applyAll hops hok).2
  obtain ⟨hagain, hframe⟩ := applyAll_of_holds hops hheld
  -- the elements are those of the first run, written once more
  have helements : ∀ kind name,
      (((s.applyAll ops).store.recount n).applyAll ops).store.elementsAt kind name
        = (s.applyAll ops).store.elementsAt kind name := by
    intro kind name
    have hdefines : ((s.applyAll ops).store.recount n).defines = s.defines := by
      exact s.defines_run (Transaction.empty.queueRaw ops)
    have hstart : ((s.applyAll ops).store.recount n).elementsAt kind name
        = (s.applyAll ops).store.elementsAt kind name := rfl
    rw [elementsAt_applyAll hops hagain, hdefines, hstart, elementsAt_applyAll hops hok]
    exact putElements_putElements (nodup_elementsAt h kind name) _
  have hcontents : (((s.applyAll ops).store.recount n).applyAll ops).store.contents
      = (s.applyAll ops).store.contents := by
    have hstart : ((s.applyAll ops).store.recount n).contents
        = (s.applyAll ops).store.contents := rfl
    rw [hstart] at hframe
    cases hc : (s.applyAll ops).store.contents with
    | none => simpa [hc] using hframe
    | some c =>
      rw [hc] at hframe
      obtain ⟨d, hd, hsame⟩ := Option.map_eq_some_iff.1 hframe
      rw [hd]
      refine congrArg some (Contents.eq_of_frame_eq hsame fun kind name => ?_)
      apply map_elements_eq
      · rw [← Contents.slot_frame, ← Contents.slot_frame, hsame]
      · rw [← elementsAt_of_contents hd, ← elementsAt_of_contents hc]
        exact helements kind name
  have hstore := run_store_eq ((s.applyAll ops).store.recount n) (Transaction.empty.queueRaw ops)
  rw [run_queueRaw, hcontents] at hstore
  exact ⟨hagain, _, hstore⟩

/-- Setting up again changes nothing but the count of handles: a queue of what is to be added, other
than rules, ends as it did the first time, at the same operation and for the same reason if it
failed, and leaves the store as the first run left it. -/
theorem run_again_of_setsUp (h : s.Reachable) (hops : ∀ op ∈ ops, op.SetsUp) :
    ((s.run (Transaction.empty.queueRaw ops)).store.run (Transaction.empty.queueRaw ops)).fault
        = (s.run (Transaction.empty.queueRaw ops)).fault ∧
    (∀ i, (s.run (Transaction.empty.queueRaw ops)).store.FailsAt ops i ↔ s.FailsAt ops i) ∧
    ∃ n, ((s.run (Transaction.empty.queueRaw ops)).store.run (Transaction.empty.queueRaw ops)).store
        = { (s.run (Transaction.empty.queueRaw ops)).store with lastHandle := n } := by
  simp only [run_queueRaw]
  cases hf : (s.applyAll ops).fault with
  | none =>
    obtain ⟨hagain, m, hm⟩ := applyAll_again h.isConsistent hops hf
      (s.applyAll ops).store.lastHandle
    refine ⟨hagain, fun i => ?_, m, hm⟩
    exact iff_of_false (fun hi => hi.fault_ne_none hagain) fun hi => hi.fault_ne_none hf
  | some fault =>
    obtain ⟨before, op, rest, rfl, hbefore, hop⟩ := exists_fault_of_applyAll hf
    have hin : ∀ o ∈ before, o.SetsUp := fun o ho => hops o (List.mem_append_left _ ho)
    have hsets : op.SetsUp := hops op (List.mem_append_right _ List.mem_cons_self)
    -- the first run stopped with a handle used up, so the second starts from another count
    have hfirst : (s.applyAll (before ++ op :: rest)).store
        = (s.applyAll before).store.recount
            ((s.applyAll before).store.spent op.verb).lastHandle := by
      rw [applyAll_of_fault hbefore hop]
      exact spent_eq _ _
    obtain ⟨hagain, m, hm⟩ := applyAll_again h.isConsistent hin hbefore
      ((s.applyAll before).store.spent op.verb).lastHandle
    rw [← hfirst] at hagain hm
    have hfault : (((s.applyAll (before ++ op :: rest)).store.applyAll before).store.apply op).fault
        = some fault := by
      rw [hm, fault_apply_recount hsets, hop]
    refine ⟨?_, fun i => ?_, ?_⟩
    · rw [applyAll_of_fault hagain hfault]
    · have hi : s.FailsAt (before ++ op :: rest) before.length :=
        failsAt_iff.2 ⟨before, op, rest, fault, rfl, rfl, hbefore, hop⟩
      have hj : (s.applyAll (before ++ op :: rest)).store.FailsAt (before ++ op :: rest)
          before.length := failsAt_iff.2 ⟨before, op, rest, fault, rfl, rfl, hagain, hfault⟩
      constructor
      · intro hk
        rw [hk.unique hj]
        exact hi
      · intro hk
        rw [hk.unique hi]
        exact hj
    · refine ⟨(((s.applyAll before).store.recount m).spent op.verb).lastHandle, ?_⟩
      rw [applyAll_of_fault hagain hfault, hm, spent_eq, hfirst]
      rfl

end Store

/-- One element three times, under the placeholder of its key and as it is, and one for a map that
is not there. -/
def settingUp : List Operation :=
  [⟨.add, .table ⟨none, none, none, none⟩⟩,
   ⟨.add, .set .set ⟨"in", some "ipv4_addr", none, none, none, none, none, none, none, none, none⟩⟩,
   ⟨.add, .element ⟨"in", "$HOST", none, some "first"⟩⟩,
   ⟨.add, .element ⟨"in", "10.0.0.1", none, some "second"⟩⟩,
   ⟨.add, .element ⟨"in", "$HOST", none, none⟩⟩,
   ⟨.add, .chain ⟨"out", none, none, none, none, none, some 9⟩⟩,
   ⟨.add, .element ⟨"out", "10.0.0.1", some "accept", none⟩⟩,
   ⟨.add, .counter (some "packets")⟩]

theorem run_again_settingUp :
    ((Store.new .inet "filter").replay colliding).Reachable ∧ (∀ op ∈ settingUp, op.SetsUp) ∧
    (((Store.new .inet "filter").replay colliding).run (.queueRaw .empty settingUp)).store.FailsAt
      settingUp 6 ∧
    ∃ n, ((((Store.new .inet "filter").replay colliding).run (.queueRaw .empty settingUp)).store.run
        (.queueRaw .empty settingUp)).store
      = { (((Store.new .inet "filter").replay colliding).run
            (.queueRaw .empty settingUp)).store with lastHandle := n } := by
  have h : ((Store.new .inet "filter").replay colliding).Reachable :=
    (Store.Reachable.new .inet "filter").replay colliding
  have hops : ∀ op ∈ settingUp, op.SetsUp := by decide
  have hi : ((Store.new .inet "filter").replay colliding).FailsAt settingUp 6 :=
    ⟨by decide +kernel, _, rfl, by decide +kernel⟩
  obtain ⟨-, hfails, hstore⟩ := Store.run_again_of_setsUp h hops
  exact ⟨h, hops, (hfails 6).2 hi, hstore⟩

end NftStore
