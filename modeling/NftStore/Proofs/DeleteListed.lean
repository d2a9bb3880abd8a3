import NftStore.Proofs.Emptied
import NftStore.Proofs.Existence
import NftStore.Proofs.Failure
import NftStore.Proofs.StaleHandle

/-!
Deleting what was listed. A client that lists the rules of a chain and hands one back to be deleted
is rid of just that one. With an element that is not so: its key was substituted when it was put and
is substituted again, and the value tells whether a set or a map is meant. An element is deleted if
the defines leave its key alone and, in a map, something is left of its value; else it stays, and
what is deleted may be another.
-/
namespace NftStore

/-! ## Elements in sets -/

/-- Whatever is in a set is an element of sets. In a map the value may have been emptied. -/
def Place.HoldsItsKind : (p : Place) → p.shelf.Entry → Prop
  | ⟨.containers .set, _⟩, entry => ∀ e ∈ entry.elements, e.container = .set
  | ⟨.containers .map, _⟩, _ | ⟨.chains, _⟩, _ => True

namespace Store

theorem Reachable.holdsItsKind {s : Store} (h : s.Reachable) : s.All Place.HoldsItsKind := by
  refine Reachable.of_steps (fun f t => All.new f t) (fun _ _ _ hs => hs) ?_ h
  intro s op s' hs hstep
  refine hs.step hstep ?_
  rintro ⟨k, name⟩ old new hp hslot hold
  cases k with
  | chains => trivial
  | containers kind =>
    cases kind with
    | map => trivial
    | set =>
      refine SetEntry.Step.forall_elements hslot ?_ hold
      rintro e rfl
      obtain ⟨hset, -⟩ : e.container = .set ∧ e.name = name := by
        simpa [Object.place?] using hp
      exact Element.container_stored_of_set hset

variable {s : Store}

/-- Whether an element belongs to the container that it is listed in. -/
theorem Reachable.container_iff (h : s.Reachable) {kind : SetKind} {name : String}
    {entry : SetEntry} (he : s.container? kind name = some entry) {e : Element}
    (hmem : e ∈ entry.elements) :
    e.container = kind ↔ (kind = .map → (filled e.value).isSome) := by
  cases kind with
  | map => simp [Element.container_eq_map_iff]
  | set =>
    obtain ⟨c, hc, hf⟩ := Option.bind_eq_some_iff.1 he
    have hset : e.container = .set := h.holdsItsKind c hc ⟨.containers .set, name⟩ entry hf e hmem
    simp [hset]

/-! ## Rules -/

theorem listRules_setRules {chain : String} {entry : ChainEntry}
    (he : s.chain? chain = some entry) (rules : List Rule) :
    (s.setRules chain rules).listRules chain = .ok rules := by
  obtain ⟨c, hc, hf⟩ := Option.bind_eq_some_iff.1 he
  rw [setRules_eq_put hc hf, listRules_eq_ok]
  exact ⟨_, (chain?_of_contents rfl chain).trans (c.slot_put_self ⟨.chains, chain⟩ _), rfl⟩

/-- Deleting the rule takes it out of the list of its chain and changes nothing else. -/
def TakesOutRule (s : Store) (chain : String) (r : Rule) : Prop :=
  ∃ before after, s.listRules chain = .ok (before ++ r :: after) ∧ r ∉ before ++ after ∧
    s.run (Transaction.empty.queueRaw [⟨.delete, .rule r⟩])
      = ⟨s.setRules chain (before ++ after), [], none⟩ ∧
    (s.setRules chain (before ++ after)).listRules chain = .ok (before ++ after)

theorem takesOutRule_of_lists (h : s.Reachable) {chain : String} {r : Rule}
    (hr : s.ListsRule chain r) : s.TakesOutRule chain r := by
  obtain ⟨entry, he, hmem⟩ := listsRule_iff.1 hr
  obtain ⟨c, hc, hf⟩ := Option.bind_eq_some_iff.1 he
  have hn := h.isNumbered c hc
  -- the rule names its chain and has a handle, which no other rule has
  have hentry : entry.Consistent chain := h.isConsistent.entries c hc ⟨.chains, chain⟩ entry hf
  have hchain : r.chain = chain := hentry.rules r hmem
  have hin : r.handle ∈ c.innerHandles :=
    Contents.mem_innerHandles (p := ⟨.chains, chain⟩) hf
      (List.mem_cons_of_mem _ (List.mem_map_of_mem hmem))
  obtain ⟨handle, _, hhandle, -, -⟩ := hn.inner_le r.handle hin
  obtain ⟨before, found, after, hrules, hfound, hrun⟩ :=
    run_deleteRule_of_mem (d := r) (hchain ▸ he) hhandle hmem hhandle
  have hfoundmem : found ∈ entry.rules := by simp [hrules]
  obtain ⟨-, rfl⟩ := hn.rule_unique hf hf hmem hfoundmem (hfound.trans hhandle.symm)
  have hnodup := hn.nodup_rules hf
  rw [hrules, List.nodup_middle] at hnodup
  rw [hchain] at hrun
  exact ⟨before, after, listRules_eq_ok.2 ⟨entry, he, hrules⟩, (List.nodup_cons.1 hnodup).1, hrun,
    listRules_setRules he _⟩

/-! ## Elements -/

/-- The store with other elements in one set or map. -/
def setElements (s : Store) (kind : SetKind) (name : String) (elements : List Element) : Store :=
  { s with contents := s.contents.map fun c =>
      c.withContainers kind ((c.containers kind).modify name fun entry =>
        { entry with elements := elements }) }

theorem setElements_eq_put {c : Contents} (hc : s.contents = some c) {kind : SetKind}
    {name : String} {entry : SetEntry} (he : (c.containers kind).find? name = some entry)
    (elements : List Element) :
    s.setElements kind name elements =
      { s with contents := some (c.put ⟨.containers kind, name⟩
          (some { entry with elements := elements })) } := by
  simp only [setElements, hc, Option.map_some, Contents.put, Contents.withCatalog,
    Contents.catalog, Catalog.modify_eq_put he]

theorem listElements_setElements {kind : SetKind} {name : String} {entry : SetEntry}
    (he : s.container? kind name = some entry) (elements : List Element) :
    (s.setElements kind name elements).listElements kind.kind.text name = .ok elements := by
  obtain ⟨c, hc, hf⟩ := Option.bind_eq_some_iff.1 he
  rw [setElements_eq_put hc hf, listElements_eq_ok]
  exact ⟨_, (container?_of_contents rfl kind name).trans
    (c.slot_put_self ⟨.containers kind, name⟩ _), rfl⟩

/-- Deleting the element takes it out of the list of its set or map and changes nothing else. -/
def TakesOutElement (s : Store) (kind : SetKind) (name : String) (e : Element) : Prop :=
  ∃ before after, s.listElements kind.kind.text name = .ok (before ++ e :: after) ∧
    e ∉ before ++ after ∧
    s.run (Transaction.empty.queueRaw [⟨.delete, .element e⟩])
      = ⟨s.setElements kind name (before ++ after), [], none⟩ ∧
    (s.setElements kind name (before ++ after)).listElements kind.kind.text name
      = .ok (before ++ after)

/-- An element whose key is left alone is taken out of the container that it belongs to. -/
theorem takesOutElement_of_key (h : s.Reachable) {name : String} {e : Element}
    (he : s.ListsElement e.container.kind.text name e)
    (hkey : s.defines.substitute e.key = e.key) : s.TakesOutElement e.container name e := by
  obtain ⟨entry, hentry, hmem⟩ := listsElement_iff.1 he
  obtain ⟨c, hc, hf⟩ := Option.bind_eq_some_iff.1 hentry
  have hcons : entry.Consistent name :=
    h.isConsistent.entries c hc ⟨.containers e.container, name⟩ entry hf
  have hname : e.name = name := hcons.elements e hmem
  obtain ⟨found, before, after, -, hfound, helements, herase⟩ :=
    List.exists_of_eraseP (p := fun x : Element => x.key == e.key) hmem (by simp)
  have hfoundmem : found ∈ entry.elements := by simp [helements]
  obtain rfl : found = e :=
    List.inj_on_of_nodup_map hcons.keys hfoundmem hmem (by simpa using hfound)
  have hnodup : entry.elements.Nodup := .of_map _ hcons.keys
  rw [helements, List.nodup_middle] at hnodup
  have hhas : entry.hasKey found.key = true := List.any_eq_true.2 ⟨found, hmem, by simp⟩
  have ha : (⟨.delete, .element found⟩ : Operation).act s.defines (s.tick .delete).lastHandle
      (.containers found.container) (c.slot ⟨.containers found.container, name⟩)
        = .ok (some { entry with elements := before ++ after }, []) := by
    have hslot : c.slot ⟨.containers found.container, name⟩ = some entry := hf
    simp only [Operation.act, Slot.operateElement, Element.stored, hslot, hkey, hhas, if_true,
      SetEntry.erase, herase]
  refine ⟨before, after, listElements_eq_ok.2 ⟨entry, hentry, helements⟩,
    (List.nodup_cons.1 hnodup).1, ?_, listElements_setElements hentry _⟩
  have hp : (Object.element found).place? = some ⟨.containers found.container, name⟩ :=
    hname ▸ rfl
  rw [run_single, setElements_eq_put hc hf, apply_of_act_ok hc hp ha,
    tick_of_makes_eq_false s .delete rfl]

/-- An element stays if it belongs to the other kind of container or its key is substituted. -/
theorem listsElement_of_delete {kind : SetKind} {name : String} {e : Element}
    (he : s.ListsElement kind.kind.text name e)
    (hne : e.container ≠ kind ∨ s.defines.substitute e.key ≠ e.key) :
    (s.run (Transaction.empty.queueRaw [⟨.delete, .element e⟩])).store.ListsElement
      kind.kind.text name e := by
  obtain ⟨entry, hentry, hmem⟩ := listsElement_iff.1 he
  obtain ⟨c, hc, hf⟩ := Option.bind_eq_some_iff.1 hentry
  rw [run_single, listsElement_iff]
  cases hfault : (s.apply ⟨.delete, .element e⟩).fault with
  | some fault =>
    -- nothing was found under the key, or there is no such container
    rw [apply_of_fault hfault, container?, spent_eq]
    exact ⟨entry, hentry, hmem⟩
  | none =>
    have hp : (⟨.delete, .element e⟩ : Operation).object.place?
        = some ⟨.containers e.container, e.name⟩ := rfl
    obtain ⟨c', slot, warnings, hc', ha, hput⟩ := exists_act_of_ok hp hfault
    cases hc.symm.trans hc'
    rw [container?_of_contents hput]
    by_cases hplace : (⟨.containers kind, name⟩ : Place) = ⟨.containers e.container, e.name⟩
    · -- an element of another key was erased
      cases hplace
      have hkey : s.defines.substitute e.key ≠ e.key := hne.resolve_left fun h => h rfl
      have hslot : c.slot ⟨.containers e.container, e.name⟩ = some entry := hf
      simp only [hslot, Operation.act, Slot.operateElement] at ha
      split at ha <;> cases ha
      refine ⟨_, c.slot_put_self _ _, ?_⟩
      have hother : ¬ (e.key == (e.stored s.defines).key) = true := by
        simpa [Element.stored] using hkey.symm
      exact (List.mem_eraseP_of_neg (p := fun x : Element => x.key == (e.stored s.defines).key)
        hother).2 hmem
    · exact ⟨entry, (c.slot_put_of_ne hplace slot).trans hf, hmem⟩

/-- Deleting what was listed, whatever a client did before. Of rules the one listed is deleted, and
nothing else is changed. Of elements it is exactly if the defines leave its key as it is and, in a
map, its value is not empty; in every other case the element is still listed afterwards. -/
theorem deletes_listed (h : s.Reachable) :
    (∀ chain r, s.ListsRule chain r → s.TakesOutRule chain r) ∧
    ∀ (kind : SetKind) name e, s.ListsElement kind.kind.text name e →
      (s.TakesOutElement kind name e ↔
        s.defines.substitute e.key = e.key ∧ (kind = .map → (filled e.value).isSome)) ∧
      (¬ (s.defines.substitute e.key = e.key ∧ (kind = .map → (filled e.value).isSome)) →
        (s.run (Transaction.empty.queueRaw [⟨.delete, .element e⟩])).store.ListsElement
          kind.kind.text name e) := by
  refine ⟨fun chain r hr => takesOutRule_of_lists h hr, ?_⟩
  intro kind name e he
  obtain ⟨entry, hentry, hmem⟩ := listsElement_iff.1 he
  have hstays : ¬ (s.defines.substitute e.key = e.key ∧ (kind = .map → (filled e.value).isSome)) →
      (s.run (Transaction.empty.queueRaw [⟨.delete, .element e⟩])).store.ListsElement
        kind.kind.text name e := by
    intro hnot
    refine listsElement_of_delete he ?_
    rw [← h.container_iff hentry hmem] at hnot
    tauto
  refine ⟨⟨?_, ?_⟩, hstays⟩
  · rintro ⟨before, after, -, hout, hrun, hlist⟩
    by_contra hnot
    -- what was taken out is not listed any more
    obtain ⟨elements, helements, hin⟩ := hstays hnot
    rw [hrun] at helements
    cases hlist.symm.trans helements
    exact hout hin
  · rintro ⟨hkey, hvalue⟩
    obtain rfl := (h.container_iff hentry hmem).2 hvalue
    exact takesOutElement_of_key h he hkey

end Store

/-- A define comes late, so that a key in the set is substituted only when its element is deleted,
and the value of an element in the map is emptied. -/
def relisting : List Event :=
  [.define "NONE" "",
   .run ⟨[⟨.add, .table ⟨none, none, none, none⟩⟩,
      ⟨.add, .chain ⟨"in", none, none, none, none, none, none⟩⟩,
      ⟨.add, .rule ⟨"in", some "drop", none, none, none⟩⟩,
      ⟨.add, .rule ⟨"in", some "drop", none, none, none⟩⟩,
      ⟨.add, .set .set ⟨"hosts", some "ipv4_addr", none, none, none, none, none, none, none, none,
        none⟩⟩,
      ⟨.add, .element ⟨"hosts", "10.0.0.1", none, none⟩⟩,
      ⟨.add, .element ⟨"hosts", "$HOST", none, none⟩⟩,
      ⟨.add, .set .map ⟨"marks", some "ipv4_addr : mark", none, none, none, none, none, none, none,
        none, none⟩⟩,
      ⟨.add, .element ⟨"marks", "10.0.0.1", some "$NONE", none⟩⟩,
      ⟨.add, .element ⟨"marks", "10.0.0.2", some "1", none⟩⟩], none⟩,
   .define "HOST" "10.0.0.1"]

/-- The store that `relisting` leaves. -/
def relisted : Store :=
  (Store.new .inet "filter").replay relisting

theorem deletes_relisted :
    relisted.Reachable ∧
    relisted.TakesOutRule "in" ⟨"in", some "drop", none, none, some 4⟩ ∧
    relisted.TakesOutElement .set "hosts" ⟨"hosts", "10.0.0.1", none, none⟩ ∧
    ¬ relisted.TakesOutElement .set "hosts" ⟨"hosts", "$HOST", none, none⟩ ∧
    relisted.TakesOutElement .map "marks" ⟨"marks", "10.0.0.2", some "1", none⟩ ∧
    ¬ relisted.TakesOutElement .map "marks" ⟨"marks", "10.0.0.1", some "", none⟩ ∧
    (relisted.run (Transaction.empty.queueRaw
      [⟨.delete, .element ⟨"marks", "10.0.0.1", some "", none⟩⟩])).store.ListsElement
        SetKind.map.kind.text "marks" ⟨"marks", "10.0.0.1", some "", none⟩ := by
  have h : relisted.Reachable := (Store.Reachable.new .inet "filter").replay relisting
  obtain ⟨hrules, helements⟩ := Store.deletes_listed h
  have hin : relisted.listRules "in"
      = .ok [⟨"in", some "drop", none, none, some 3⟩, ⟨"in", some "drop", none, none, some 4⟩] := by
    decide +kernel
  have hhosts : relisted.listElements SetKind.set.kind.text "hosts"
      = .ok [⟨"hosts", "10.0.0.1", none, none⟩, ⟨"hosts", "$HOST", none, none⟩] := by
    decide +kernel
  have hmarks : relisted.listElements SetKind.map.kind.text "marks"
      = .ok [⟨"marks", "10.0.0.1", some "", none⟩, ⟨"marks", "10.0.0.2", some "1", none⟩] := by
    decide +kernel
  refine ⟨h, hrules _ _ ⟨_, hin, by simp⟩, ?_, ?_, ?_, ?_, ?_⟩
  · exact (helements .set _ _ ⟨_, hhosts, by simp⟩).1.2 (by decide +kernel)
  · exact mt (helements .set _ _ ⟨_, hhosts, by simp⟩).1.1 (by decide +kernel)
  · exact (helements .map _ _ ⟨_, hmarks, by simp⟩).1.2 (by decide +kernel)
  · exact mt (helements .map _ _ ⟨_, hmarks, by simp⟩).1.1 (by decide +kernel)
  · exact (helements .map _ _ ⟨_, hmarks, by simp⟩).2 (by decide +kernel)

/-- What is deleted by the key that was listed is another element than the one listed. -/
example :
    (relisted.run (Transaction.empty.queueRaw
      [⟨.delete, .element ⟨"hosts", "$HOST", none, none⟩⟩])).store.listElements "set" "hosts"
        = .ok [⟨"hosts", "$HOST", none, none⟩] := by
  decide +kernel

end NftStore
