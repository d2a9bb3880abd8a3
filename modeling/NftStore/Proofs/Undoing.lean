import NftStore.Proofs.Frame
import NftStore.Proofs.Handle

/-!
Adding undone. What is added where nothing was is all that a delete of it takes away: a chain, set or
map by its name, an element by its key, and a rule by its handle, because no stored rule has the
handle of a new one. What remains is the store from before, in every order that it keeps, with one
handle used up.
-/
namespace NftStore

/-! ## Children added and deleted -/

/-- An element of a new key is the one that a delete of the key takes out. -/
theorem SetEntry.erase_put {entry : SetEntry} {e : Element}
    (h : e.key ∉ entry.elements.map Element.key) : (entry.put e).erase e.key = entry := by
  have hnone : ∀ x ∈ entry.elements, ¬ (x.key == e.key) = true := by
    intro x hx hkey
    exact h (beq_iff_eq.1 hkey ▸ List.mem_map_of_mem hx)
  obtain ⟨record, elements⟩ := entry
  rw [put, erase, putElement_of_not_mem h, List.eraseP_append_right _ hnone]
  simp

theorem SetEntry.hasKey_put {entry : SetEntry} {e : Element}
    (h : e.key ∉ entry.elements.map Element.key) : (entry.put e).hasKey e.key = true := by
  rw [put, hasKey, putElement_of_not_mem h]
  simp

/-- A rule of a new handle is the one that a delete by the handle takes out. -/
theorem ChainEntry.eraseRule_addRule {entry : ChainEntry} {r : Rule} {handle : Int}
    (hr : r.handle = some handle) (h : some handle ∉ entry.rules.map Rule.handle) :
    (entry.addRule r).eraseRule handle = entry := by
  have hnone : ∀ x ∈ entry.rules, ¬ (x.handle == some handle) = true := by
    intro x hx hhandle
    exact h (beq_iff_eq.1 hhandle ▸ List.mem_map_of_mem hx)
  obtain ⟨record, rules⟩ := entry
  rw [addRule, eraseRule, List.eraseP_append_right _ hnone]
  simp [hr]

theorem ChainEntry.hasRule_addRule {entry : ChainEntry} {r : Rule} {handle : Int}
    (hr : r.handle = some handle) : (entry.addRule r).hasRule handle = true := by
  simp [addRule, hasRule, hr]

/-- No rule of a reachable store has the handle that is used next. -/
theorem Store.Reachable.nextHandle_not_mem {s : Store} (h : s.Reachable) {c : Contents}
    (hc : s.contents = some c) {name : String} {entry : ChainEntry}
    (he : c.chains.find? name = some entry) :
    some (((s.lastHandle + 1 : Nat) : Int)) ∉ entry.rules.map Rule.handle := by
  intro hmem
  have hin : some (((s.lastHandle + 1 : Nat) : Int)) ∈ c.innerHandles :=
    Contents.mem_innerHandles (p := ⟨.chains, name⟩) he (List.mem_cons_of_mem _ hmem)
  obtain ⟨m, n, hm, hn, hlt⟩ := (h.isNumbered c hc).inner_le _ hin
  cases hm
  cases hn
  omega

/-! ## Operations that undo each other -/

/-- The first operation goes through and after it the second does, which leads back to the store, but
for a handle that is used up. So do both in one run. -/
structure Store.Undoes (s : Store) (op undo : Operation) : Prop where
  op_ok : (s.run (Transaction.empty.queueRaw [op])).fault = none
  undo_ok : ((s.run (Transaction.empty.queueRaw [op])).store.run
    (Transaction.empty.queueRaw [undo])).fault = none
  restored : ((s.run (Transaction.empty.queueRaw [op])).store.run
    (Transaction.empty.queueRaw [undo])).store = { s with lastHandle := s.lastHandle + 1 }
  together : (s.run (Transaction.empty.queueRaw [op, undo])).fault = none ∧
    (s.run (Transaction.empty.queueRaw [op, undo])).store
      = { s with lastHandle := s.lastHandle + 1 }

namespace Operation

variable {o : Object} {p : Place}

/-- A chain, set or map can be added where none is. -/
theorem exists_act_add (hnamed : o.isNamed) (hp : o.place? = some p) (defines : Defines)
    (number : Nat) :
    ∃ entry, (⟨.add, o⟩ : Operation).act defines number p.shelf none = .ok (some entry, []) := by
  cases o with
  | chain _ | set _ _ =>
    cases hp
    exact ⟨_, rfl⟩
  | table _ | rule _ | element _ | counter _ | bare => cases hnamed

/-- A chain, set or map can be deleted where one is. -/
theorem exists_act_delete (hnamed : o.isNamed) (hp : o.place? = some p) (defines : Defines)
    (number : Nat) (entry : p.shelf.Entry) : ∃ warnings,
      (⟨.delete, o⟩ : Operation).act defines number p.shelf (some entry) = .ok (none, warnings) := by
  cases o with
  | chain _ | set _ _ =>
    cases hp
    exact ⟨_, rfl⟩
  | table _ | rule _ | element _ | counter _ | bare => cases hnamed

end Operation

namespace Store

variable {s : Store} {c : Contents}

theorem undoes_of_apply {op undo : Operation} (hop : (s.apply op).fault = none)
    (hundo : ((s.apply op).store.apply undo).fault = none)
    (hstore : ((s.apply op).store.apply undo).store = { s with lastHandle := s.lastHandle + 1 }) :
    s.Undoes op undo := by
  refine ⟨by rwa [run_single], by rwa [run_single, run_single], by rwa [run_single, run_single], ?_⟩
  rw [run_queueRaw, fault_applyAll_cons_eq_none, applyAll_cons_store, if_pos hop, ← run_queueRaw,
    run_single]
  exact ⟨⟨hop, hundo⟩, hstore⟩

/-- What is put at a place by an add is gone after a delete that puts back what was there. -/
theorem undoes_of_act (hc : s.contents = some c) {o u : Object} {p : Place}
    (ho : o.place? = some p) (hu : u.place? = some p) {entry : p.shelf.Entry}
    {warnings : List Warning}
    (hadd : (⟨.add, o⟩ : Operation).act s.defines (s.lastHandle + 1) p.shelf (c.slot p)
      = .ok (some entry, []))
    (hdelete : (⟨.delete, u⟩ : Operation).act s.defines (s.lastHandle + 1) p.shelf (some entry)
      = .ok (c.slot p, warnings)) :
    s.Undoes ⟨.add, o⟩ ⟨.delete, u⟩ := by
  have hfirst : s.apply ⟨.add, o⟩ = ⟨{ s with
      lastHandle := s.lastHandle + 1, contents := some (c.put p (some entry)) }, [], none⟩ :=
    apply_of_act_ok hc ho hadd
  have hput : (c.put p (some entry)).put p (c.slot p) = c := by
    rw [Contents.put_put_some, Contents.put_slot]
  have hsecond : (s.apply ⟨.add, o⟩).store.apply ⟨.delete, u⟩ = ⟨{ s with
      lastHandle := s.lastHandle + 1
      contents := some ((c.put p (some entry)).put p (c.slot p)) }, warnings, none⟩ := by
    rw [hfirst]
    refine apply_of_act_ok rfl hu ?_
    rw [Contents.slot_put_self]
    exact hdelete
  refine undoes_of_apply (by rw [hfirst]) (by rw [hsecond]) ?_
  rw [hsecond, hput, ← hc]

/-- What is put into a free place under its own name is taken out again. -/
theorem undoes_named (hc : s.contents = some c) {o : Object} (hnamed : o.isNamed) {p : Place}
    (hp : o.place? = some p) (hfree : c.slot p = none) : s.Undoes ⟨.add, o⟩ ⟨.delete, o⟩ := by
  obtain ⟨entry, hadd⟩ := Operation.exists_act_add hnamed hp s.defines (s.lastHandle + 1)
  obtain ⟨warnings, hdelete⟩ :=
    Operation.exists_act_delete hnamed hp s.defines (s.lastHandle + 1) entry
  rw [← hfree] at hadd hdelete
  exact undoes_of_act hc hp hp hadd hdelete

/-- A rule is found by the handle that it was added under, and no other rule has that. -/
theorem undoes_rule (h : s.Reachable) (hc : s.contents = some c) {r d : Rule}
    (hname : r.chain ∈ c.chains.names) (hchain : d.chain = r.chain)
    (hhandle : d.handle = some ((s.lastHandle + 1 : Nat) : Int)) :
    s.Undoes ⟨.add, .rule r⟩ ⟨.delete, .rule d⟩ := by
  obtain ⟨entry, he⟩ := Option.ne_none_iff_exists'.1 fun hn => Catalog.find?_eq_none_iff.1 hn hname
  have hslot : c.slot ⟨.chains, r.chain⟩ = some entry := he
  have hadd : (⟨.add, .rule r⟩ : Operation).act s.defines (s.lastHandle + 1) .chains
      (c.slot ⟨.chains, r.chain⟩)
        = .ok (some (entry.addRule (r.stored s.defines (s.lastHandle + 1))), []) := by
    rw [hslot]
    rfl
  have hstored : (r.stored s.defines (s.lastHandle + 1)).handle
      = some ((s.lastHandle + 1 : Nat) : Int) := rfl
  have hdelete : (⟨.delete, .rule d⟩ : Operation).act s.defines (s.lastHandle + 1) .chains
      (some (entry.addRule (r.stored s.defines (s.lastHandle + 1))))
        = .ok (c.slot ⟨.chains, r.chain⟩, []) := by
    simp only [Operation.act, Slot.operateRule, hhandle, ChainEntry.hasRule_addRule hstored,
      if_true, ChainEntry.eraseRule_addRule hstored (h.nextHandle_not_mem hc he), hslot]
  have hplace : (Object.rule d).place? = some ⟨.chains, r.chain⟩ := by rw [← hchain]; rfl
  exact undoes_of_act hc rfl hplace hadd hdelete

/-- An element is found by its key, and was put behind all others. -/
theorem undoes_element (hc : s.contents = some c) {e : Element} {entry : SetEntry}
    (he : (c.containers e.container).find? e.name = some entry)
    (hkey : (e.stored s.defines).key ∉ entry.elements.map Element.key) :
    s.Undoes ⟨.add, .element e⟩ ⟨.delete, .element e⟩ := by
  have hslot : c.slot ⟨.containers e.container, e.name⟩ = some entry := he
  have hadd : (⟨.add, .element e⟩ : Operation).act s.defines (s.lastHandle + 1)
      (.containers e.container) (c.slot ⟨.containers e.container, e.name⟩)
        = .ok (some (entry.put (e.stored s.defines)), []) := by
    rw [hslot]
    rfl
  have hdelete : (⟨.delete, .element e⟩ : Operation).act s.defines (s.lastHandle + 1)
      (.containers e.container) (some (entry.put (e.stored s.defines)))
        = .ok (c.slot ⟨.containers e.container, e.name⟩, []) := by
    simp only [Operation.act, Slot.operateElement, SetEntry.hasKey_put hkey, if_true,
      SetEntry.erase_put hkey, hslot]
  exact undoes_of_act hc rfl rfl hadd hdelete

/-- Deleting undoes adding. In a reachable store with a table this holds of a chain, set or map of a
name that is not taken; of any rule of a chain that is there, deleted by the handle that it got; and
of an element whose key, as it is stored, no element of its set or map has. -/
theorem undoes_of_reachable (h : s.Reachable) (hc : s.contents = some c) :
    (∀ r : Chain, r.name ∉ c.chains.names → s.Undoes ⟨.add, .chain r⟩ ⟨.delete, .chain r⟩) ∧
    (∀ kind (r : SetSpec), r.name ∉ (c.containers kind).names →
      s.Undoes ⟨.add, .set kind r⟩ ⟨.delete, .set kind r⟩) ∧
    (∀ r d : Rule, r.chain ∈ c.chains.names → d.chain = r.chain →
      d.handle
        = some ((s.run (Transaction.empty.queueRaw [⟨.add, .rule r⟩])).store.lastHandle : Int) →
      s.Undoes ⟨.add, .rule r⟩ ⟨.delete, .rule d⟩) ∧
    ∀ (e : Element) (entry : SetEntry), (c.containers e.container).find? e.name = some entry →
      s.defines.substitute e.key ∉ entry.elements.map Element.key →
      s.Undoes ⟨.add, .element e⟩ ⟨.delete, .element e⟩ := by
  refine ⟨fun r hname => undoes_named hc rfl rfl (Catalog.find?_eq_none_iff.2 hname),
    fun kind r hname => undoes_named hc rfl rfl (Catalog.find?_eq_none_iff.2 hname), ?_,
    fun e entry he hkey => undoes_element hc he hkey⟩
  intro r d hname hchain hhandle
  -- the handle after the add is the one that the rule got
  have hnext : s.Undoes ⟨.add, .rule r⟩
      ⟨.delete, .rule ⟨r.chain, none, none, none, some ((s.lastHandle + 1 : Nat) : Int)⟩⟩ :=
    undoes_rule h hc hname rfl rfl
  have hlast := lastHandle_apply_of_ok (by simpa only [run_single] using hnext.op_ok)
  rw [run_single, hlast, lastHandle_tick] at hhandle
  exact undoes_rule h hc hname hchain hhandle

/-- With a chain, a set and a map of one name, a chain and a set of another name are undone, and so
are a rule in the chain and an element in the map. -/
theorem undoes_collided :
    ((Store.new .inet "filter").replay colliding).Reachable ∧
    ((Store.new .inet "filter").replay colliding).contents = some collided ∧
    ((Store.new .inet "filter").replay colliding).Undoes
      ⟨.add, .chain ⟨"out", none, none, none, none, none, none⟩⟩
      ⟨.delete, .chain ⟨"out", none, none, none, none, none, none⟩⟩ ∧
    ((Store.new .inet "filter").replay colliding).Undoes
      ⟨.add, .set .set ⟨"out", some "ipv4_addr", none, none, none, none, none, none, none, none,
        none⟩⟩
      ⟨.delete, .set .set ⟨"out", some "ipv4_addr", none, none, none, none, none, none, none, none,
        none⟩⟩ ∧
    ((Store.new .inet "filter").replay colliding).Undoes
      ⟨.add, .rule ⟨"in", some "ip saddr $HOST drop", none, none, none⟩⟩
      ⟨.delete, .rule ⟨"in", none, none, none, some 13⟩⟩ ∧
    ((Store.new .inet "filter").replay colliding).Undoes
      ⟨.add, .element ⟨"in", "10.0.0.2", some "drop", none⟩⟩
      ⟨.delete, .element ⟨"in", "10.0.0.2", some "drop", none⟩⟩ := by
  have h : ((Store.new .inet "filter").replay colliding).Reachable :=
    (Store.Reachable.new .inet "filter").replay colliding
  obtain ⟨hchain, hset, hrule, helement⟩ := undoes_of_reachable h contents_colliding
  refine ⟨h, contents_colliding, hchain _ (by decide), hset _ _ (by decide),
    hrule _ _ (by decide) rfl ?_,
    helement _ ⟨⟨"in", none, some "ip saddr : verdict", none, none, none, none, none, none, none,
      some 5⟩, [⟨"in", "10.0.0.1", some "drop", none⟩]⟩ (by decide) (by decide +kernel)⟩
  decide +kernel

end Store

end NftStore
