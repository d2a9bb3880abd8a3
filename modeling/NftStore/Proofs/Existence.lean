import NftStore.Proofs.Consistency
import NftStore.Proofs.Handle
import NftStore.Store.Listing

/-!
Existence. Whether the target of an operation is there is judged where the operation is applied,
and also where names, rules and elements are read, each time by a look-up of its own. Both come to
the same: an operation that its kind has fails exactly if the target cannot be read, and what it
added can be read afterwards and what it deleted cannot.
-/
namespace NftStore

/-! ## What is read -/

namespace Store

/-- The name is among those listed under a word. -/
def Lists (s : Store) (word name : String) : Prop :=
  ∃ names, s.list word = .ok names ∧ name ∈ names

/-- The rule is among those of a chain. -/
def ListsRule (s : Store) (chain : String) (r : Rule) : Prop :=
  ∃ rules, s.listRules chain = .ok rules ∧ r ∈ rules

/-- The element is among those of a set or map. -/
def ListsElement (s : Store) (word name : String) (e : Element) : Prop :=
  ∃ elements, s.listElements word name = .ok elements ∧ e ∈ elements

/-- What an operation needs can be read: the chain, set or map that it flushes, deletes or puts
something in, the rule of the handle that it deletes, or the element of the key, with its
placeholders replaced, that it deletes. Nothing else needs anything but the table. -/
def ListsTarget (s : Store) : Operation → Prop
  | ⟨.flush, .chain r⟩ | ⟨.delete, .chain r⟩ => s.Lists Kind.chain.text r.name
  | ⟨.flush, .set kind r⟩ | ⟨.delete, .set kind r⟩ => s.Lists kind.kind.text r.name
  | ⟨.add, .rule r⟩ => s.Lists "chains" r.chain
  | ⟨.delete, .rule r⟩ =>
    s.Lists "chains" r.chain ∧ ∃ q, s.ListsRule r.chain q ∧ q.handle = r.handle
  | ⟨.add, .element e⟩ => s.Lists e.container.kind.text e.name
  | ⟨.delete, .element e⟩ =>
    s.Lists e.container.kind.text e.name ∧
      ∃ x, s.ListsElement e.container.kind.text e.name x ∧ x.key = s.defines.substitute e.key
  | _ => True

/-- What an operation did can be read: what it added is there, a rule under the last handle that was
given, and what it deleted is not. -/
def Reflects (s : Store) : Operation → Prop
  | ⟨.add, .table _⟩ => ∃ names, s.list "chains" = .ok names
  | ⟨.delete, .table _⟩ => ∀ word names, s.list word ≠ .ok names
  | ⟨.add, .chain r⟩ => s.Lists Kind.chain.text r.name ∧ ∃ rules, s.listRules r.name = .ok rules
  | ⟨.delete, .chain r⟩ =>
    ¬ s.Lists Kind.chain.text r.name ∧ ∀ rules, s.listRules r.name ≠ .ok rules
  | ⟨.add, .set kind r⟩ =>
    s.Lists kind.kind.text r.name ∧ ∃ elements, s.listElements kind.kind.text r.name = .ok elements
  | ⟨.delete, .set kind r⟩ =>
    ¬ s.Lists kind.kind.text r.name ∧
      ∀ elements, s.listElements kind.kind.text r.name ≠ .ok elements
  | ⟨.add, .rule r⟩ => s.ListsRule r.chain (r.stored s.defines s.lastHandle)
  | ⟨.delete, .rule r⟩ => ∀ q, s.ListsRule r.chain q → q.handle ≠ r.handle
  | ⟨.add, .element e⟩ => s.ListsElement e.container.kind.text e.name (e.stored s.defines)
  | ⟨.delete, .element e⟩ =>
    ∀ x, s.ListsElement e.container.kind.text e.name x → x.key ≠ s.defines.substitute e.key
  | _ => True

variable {s : Store}

theorem lists_chain {name : String} :
    s.Lists Kind.chain.text name ↔ (s.chain? name).isSome := by
  cases hc : s.contents with
  | none => simp [Lists, list, chain?, hc]
  | some c =>
    simp [Lists, list, chain?, hc, Kind.text, Listing.ofText?, Contents.names,
      Catalog.mem_sorted_names]

/-- The plural lists the same chains. -/
theorem lists_chains {name : String} : s.Lists "chains" name ↔ s.Lists Kind.chain.text name :=
  Iff.rfl

theorem lists_container {kind : SetKind} {name : String} :
    s.Lists kind.kind.text name ↔ (s.container? kind name).isSome := by
  cases hc : s.contents with
  | none => simp [Lists, list, container?, hc]
  | some c =>
    cases kind <;>
      simp [Lists, list, container?, hc, SetKind.kind, Kind.text, Listing.ofText?, Contents.names,
        Contents.containers, Catalog.mem_sorted_names]

theorem listRules_eq_ok {chain : String} {rules : List Rule} :
    s.listRules chain = .ok rules ↔ ∃ entry, s.chain? chain = some entry ∧ entry.rules = rules := by
  unfold listRules
  cases s.chain? chain <;> simp

theorem listElements_eq_ok {kind : SetKind} {name : String} {elements : List Element} :
    s.listElements kind.kind.text name = .ok elements ↔
      ∃ entry, s.container? kind name = some entry ∧ entry.elements = elements := by
  have hkind : SetKind.ofText? kind.kind.text = some kind := by
    cases kind <;> rfl
  unfold listElements
  rw [hkind, Option.bind_some]
  cases s.container? kind name <;> simp

theorem listsRule_iff {chain : String} {r : Rule} :
    s.ListsRule chain r ↔ ∃ entry, s.chain? chain = some entry ∧ r ∈ entry.rules := by
  simp [ListsRule, listRules_eq_ok]

theorem listsElement_iff {kind : SetKind} {name : String} {e : Element} :
    s.ListsElement kind.kind.text name e ↔
      ∃ entry, s.container? kind name = some entry ∧ e ∈ entry.elements := by
  simp [ListsElement, listElements_eq_ok]

/-! ## Verdicts -/

/-- What comes of an operation agrees with what can be read: it is unsupported if its kind does not
have the verb, else its target is not found if it cannot be read, and else it goes through. After
that, what it did can be read. -/
structure Agrees (s : Store) (op : Operation) : Prop where
  unsupported : op.verb ∉ op.object.kind.verbs →
    (s.run (Transaction.empty.queueRaw [op])).fault.map Fault.sort = some .unsupported
  missing : op.verb ∈ op.object.kind.verbs → ¬ s.ListsTarget op →
    (s.run (Transaction.empty.queueRaw [op])).fault.map Fault.sort = some .notFound
  present : op.verb ∈ op.object.kind.verbs → s.ListsTarget op →
    (s.run (Transaction.empty.queueRaw [op])).fault = none
  reflects : (s.run (Transaction.empty.queueRaw [op])).fault = none →
    (s.run (Transaction.empty.queueRaw [op])).store.Reflects op

variable {c : Contents} {op : Operation}

theorem agrees_of_unsupported (hv : op.verb ∉ op.object.kind.verbs) {fault : Fault}
    (hf : (s.apply op).fault = some fault) (hs : fault.sort = .unsupported) : s.Agrees op where
  unsupported _ := by rw [run_single, hf, Option.map_some, hs]
  missing h := absurd h hv
  present h := absurd h hv
  reflects h := by rw [run_single, hf] at h; cases h

theorem agrees_of_missing (hv : op.verb ∈ op.object.kind.verbs) (ht : ¬ s.ListsTarget op)
    {cause : NotFound} (hf : (s.apply op).fault = some (.notFound cause)) : s.Agrees op where
  unsupported h := absurd hv h
  missing _ _ := by rw [run_single, hf]; rfl
  present _ h := absurd h ht
  reflects h := by rw [run_single, hf] at h; cases h

theorem agrees_of_present (hv : op.verb ∈ op.object.kind.verbs) (ht : s.ListsTarget op)
    (hf : (s.apply op).fault = none) (hr : (s.apply op).store.Reflects op) : s.Agrees op where
  unsupported h := absurd hv h
  missing _ h := absurd ht h
  present _ _ := by rw [run_single, hf]
  reflects _ := by rw [run_single]; exact hr

/-- The target of an operation that fails on its slot cannot be read. -/
theorem agrees_of_act_error (hc : s.contents = some c) {p : Place} (hp : op.object.place? = some p)
    {cause : NotFound}
    (ha : op.act s.defines (s.tick op.verb).lastHandle p.shelf (c.slot p)
      = .error (.notFound cause))
    (hv : op.verb ∈ op.object.kind.verbs) (ht : ¬ s.ListsTarget op) : s.Agrees op := by
  have hf : (s.apply op).fault = some (.notFound cause) := by rw [apply_of_act_error hc hp ha]
  exact agrees_of_missing hv ht hf

/-- An operation that changes its slot has a target, and the changed slot is what is read then. -/
theorem agrees_of_act_ok (hc : s.contents = some c) {p : Place} (hp : op.object.place? = some p)
    {slot : Option p.shelf.Entry} {warnings : List Warning}
    (ha : op.act s.defines (s.tick op.verb).lastHandle p.shelf (c.slot p) = .ok (slot, warnings))
    (hv : op.verb ∈ op.object.kind.verbs) (ht : s.ListsTarget op)
    (hr : ∀ s' : Store, s'.contents = some (c.put p slot) → s'.defines = s.defines →
      s'.lastHandle = (s.tick op.verb).lastHandle → s'.Reflects op) : s.Agrees op := by
  have happly := apply_of_act_ok hc hp ha
  refine agrees_of_present hv ht (by rw [happly]) ?_
  rw [happly]
  exact hr _ rfl (s.defines_tick op.verb) rfl

theorem chain?_of_contents (hc : s.contents = some c) (name : String) :
    s.chain? name = c.slot ⟨.chains, name⟩ := by
  rw [chain?, hc]
  rfl

theorem container?_of_contents (hc : s.contents = some c) (kind : SetKind) (name : String) :
    s.container? kind name = c.slot ⟨.containers kind, name⟩ := by
  rw [container?, hc]
  rfl

/-! ## Kind by kind -/

/-- A verb that the kind does not have is refused before anything is looked up. -/
theorem exists_fault_of_unsupported (hc : s.contents = some c)
    (hv : op.verb ∉ op.object.kind.verbs) :
    ∃ fault, (s.apply op).fault = some fault ∧ fault.sort = .unsupported := by
  cases hh : op.object.handler? with
  | none => exact ⟨.kindUnhandled op.object.kind, by rw [apply_of_noHandler hc hh], rfl⟩
  | some handler =>
    exact ⟨.verbUnhandled op.verb op.object.kind, by rw [apply_of_noVerb hh hc hv], rfl⟩

theorem agrees_table (hc : s.contents = some c) (t : Table) {verb : Verb}
    (hv : verb ∈ Kind.table.verbs) : s.Agrees ⟨verb, .table t⟩ := by
  cases verb with
  | add =>
    refine agrees_of_present hv trivial (by rw [apply_addTable_of_some hc]) ?_
    rw [apply_addTable_of_some hc, Reflects, list, contents_tick, hc]
    exact ⟨_, rfl⟩
  | flush => exact agrees_of_present hv trivial (by rw [apply_flushTable hc]) trivial
  | delete =>
    refine agrees_of_present hv trivial (by rw [apply_deleteTable hc]) ?_
    rw [apply_deleteTable hc]
    exact fun word names h => by cases h
  | create | other => simp [Kind.mem_verbs_iff] at hv

/-- A chain, set or map is added to its slot, or emptied or taken out of it. Its target can be read
if something is in the slot, and nothing is read from the slot that it was taken out of. -/
theorem agrees_of_operate (hc : s.contents = some c) {p : Place} (hp : op.object.place? = some p)
    {kind : Kind} {handle : Option Int} {fresh : p.shelf.Entry}
    {emptied : p.shelf.Entry → p.shelf.Entry}
    (hact : ∀ slot, op.act s.defines (s.tick op.verb).lastHandle p.shelf slot
      = Slot.operate kind op.verb p.name handle fresh emptied slot)
    (hverbs : op.object.kind.verbs = [.add, .flush, .delete])
    (hv : op.verb ∈ op.object.kind.verbs)
    (ht : s.ListsTarget op ↔ op.verb = .add ∨ (c.slot p).isSome)
    (hr : ∀ (s' : Store) (c' : Contents), s'.contents = some c' →
      (op.verb = .add → ∃ entry, c'.slot p = some entry) →
      (op.verb = .delete → c'.slot p = none) → s'.Reflects op) : s.Agrees op := by
  obtain ⟨verb, object⟩ := op
  cases verb with
  | add =>
    refine agrees_of_act_ok hc hp (hact _) hv (ht.2 (.inl rfl)) fun s' hc' _ _ => ?_
    exact hr s' _ hc' (fun _ => ⟨_, c.slot_put_self p _⟩) nofun
  | flush =>
    cases hs : c.slot p with
    | none =>
      refine agrees_of_act_error hc hp (by rw [hs, hact]; rfl) hv ?_
      simp [ht, hs]
    | some entry =>
      refine agrees_of_act_ok hc hp (by rw [hs, hact]; rfl) hv ?_ fun s' hc' _ _ => ?_
      · simp [ht, hs]
      · exact hr s' _ hc' nofun nofun
  | delete =>
    cases hs : c.slot p with
    | none =>
      refine agrees_of_act_error hc hp (by rw [hs, hact]; rfl) hv ?_
      simp [ht, hs]
    | some entry =>
      refine agrees_of_act_ok hc hp (by rw [hs, hact]; rfl) hv ?_ fun s' hc' _ _ => ?_
      · simp [ht, hs]
      · exact hr s' _ hc' nofun fun _ => c.slot_put_self p _
  | create | other => simp [hverbs] at hv

theorem agrees_chain (hc : s.contents = some c) (r : Chain) {verb : Verb}
    (hv : verb ∈ Kind.chain.verbs) : s.Agrees ⟨verb, .chain r⟩ := by
  have hp : (Object.chain r).place? = some ⟨.chains, r.name⟩ := rfl
  refine agrees_of_operate hc hp (fun slot => rfl) rfl hv ?_ ?_
  · have hread := chain?_of_contents hc r.name
    cases verb with
    | add => simp [ListsTarget]
    | flush | delete => simp [ListsTarget, lists_chain, hread]
    | create | other => simp [Kind.mem_verbs_iff] at hv
  · intro s' c' hc' hadd hdelete
    have hread := chain?_of_contents hc' r.name
    cases verb with
    | add =>
      obtain ⟨entry, he⟩ := hadd rfl
      rw [he] at hread
      exact ⟨lists_chain.2 (by rw [hread]; rfl), _, listRules_eq_ok.2 ⟨_, hread, rfl⟩⟩
    | delete =>
      rw [hdelete rfl] at hread
      simp [Reflects, lists_chain, listRules_eq_ok, hread]
    | flush | create | other => trivial

theorem agrees_set (hc : s.contents = some c) (kind : SetKind) (r : SetSpec) {verb : Verb}
    (hv : verb ∈ kind.kind.verbs) : s.Agrees ⟨verb, .set kind r⟩ := by
  have hverbs : kind.kind.verbs = [.add, .flush, .delete] := by cases kind <;> rfl
  have hp : (Object.set kind r).place? = some ⟨.containers kind, r.name⟩ := rfl
  refine agrees_of_operate hc hp (fun slot => rfl) hverbs hv ?_ ?_
  · have hread := container?_of_contents hc kind r.name
    cases verb with
    | add => simp [ListsTarget]
    | flush | delete => simp [ListsTarget, lists_container, hread]
    | create | other => simp [hverbs] at hv
  · intro s' c' hc' hadd hdelete
    have hread := container?_of_contents hc' kind r.name
    cases verb with
    | add =>
      obtain ⟨entry, he⟩ := hadd rfl
      rw [he] at hread
      exact ⟨lists_container.2 (by rw [hread]; rfl), _, listElements_eq_ok.2 ⟨_, hread, rfl⟩⟩
    | delete =>
      rw [hdelete rfl] at hread
      simp [Reflects, lists_container, listElements_eq_ok, hread]
    | flush | create | other => trivial

theorem agrees_addRule (hc : s.contents = some c) (r : Rule) : s.Agrees ⟨.add, .rule r⟩ := by
  have hp : (Object.rule r).place? = some ⟨.chains, r.chain⟩ := rfl
  have hread := chain?_of_contents hc r.chain
  cases hs : c.slot ⟨.chains, r.chain⟩ with
  | none =>
    refine agrees_of_act_error hc hp (by rw [hs]; rfl) List.mem_cons_self ?_
    simp [ListsTarget, lists_chains, lists_chain, hread, hs]
  | some entry =>
    refine agrees_of_act_ok hc hp (by rw [hs]; rfl) List.mem_cons_self ?_ fun s' hc' hd hl => ?_
    · simp [ListsTarget, lists_chains, lists_chain, hread, hs]
    · have hadded := chain?_of_contents hc' r.chain
      rw [Contents.slot_put_self] at hadded
      refine listsRule_iff.2 ⟨_, hadded, ?_⟩
      rw [hd, hl]
      exact List.mem_append_right _ List.mem_cons_self

theorem agrees_deleteRule (hc : s.contents = some c) (hn : s.Numbered) {r : Rule} {handle : Int}
    (hh : r.handle = some handle) : s.Agrees ⟨.delete, .rule r⟩ := by
  have hp : (Object.rule r).place? = some ⟨.chains, r.chain⟩ := rfl
  have hv : Verb.delete ∈ Kind.rule.verbs := by decide
  have hread := chain?_of_contents hc r.chain
  cases hs : c.slot ⟨.chains, r.chain⟩ with
  | none =>
    have ha : (⟨.delete, .rule r⟩ : Operation).act s.defines (s.tick .delete).lastHandle .chains
        (c.slot ⟨.chains, r.chain⟩) = .error (.notFound (.named Kind.chain.text r.chain)) := by
      rw [hs]
      rfl
    refine agrees_of_act_error hc hp ha hv ?_
    simp [ListsTarget, lists_chains, lists_chain, hread, hs]
  | some entry =>
    have htarget : s.ListsTarget ⟨.delete, .rule r⟩ ↔ entry.hasRule handle = true := by
      simp [ListsTarget, lists_chains, lists_chain, listsRule_iff, hread, hs, hh,
        ChainEntry.hasRule]
    by_cases hrule : entry.hasRule handle
    · have ha : (⟨.delete, .rule r⟩ : Operation).act s.defines (s.tick .delete).lastHandle .chains
          (c.slot ⟨.chains, r.chain⟩) = .ok (some (entry.eraseRule handle), []) := by
        simp [Operation.act, Slot.operateRule, hs, hh, hrule]
      refine agrees_of_act_ok hc hp ha hv (htarget.2 hrule) fun s' hc' _ _ => ?_
      have hdeleted := chain?_of_contents hc' r.chain
      rw [Contents.slot_put_self] at hdeleted
      intro q hq
      obtain ⟨entry', he', hq⟩ := listsRule_iff.1 hq
      cases hdeleted.symm.trans he'
      -- no two rules of the chain have a handle in common
      have hnodup : (entry.rules.map Rule.handle).Nodup :=
        ((hn c hc).rules r.chain entry hs).tail.imp Earlier.ne
      rw [hh]
      exact ne_of_mem_eraseP hnodup hq
    · have ha : (⟨.delete, .rule r⟩ : Operation).act s.defines (s.tick .delete).lastHandle .chains
          (c.slot ⟨.chains, r.chain⟩) = .error (.notFound (.rule handle r.chain)) := by
        simp [Operation.act, Slot.operateRule, hs, hh, hrule]
      exact agrees_of_act_error hc hp ha hv (mt htarget.1 hrule)

theorem agrees_addElement (hc : s.contents = some c) (e : Element) :
    s.Agrees ⟨.add, .element e⟩ := by
  have hp : (Object.element e).place? = some ⟨.containers e.container, e.name⟩ := rfl
  have hread := container?_of_contents hc e.container e.name
  cases hs : c.slot ⟨.containers e.container, e.name⟩ with
  | none =>
    refine agrees_of_act_error hc hp (by rw [hs]; rfl) List.mem_cons_self ?_
    simp [ListsTarget, lists_container, hread, hs]
  | some entry =>
    refine agrees_of_act_ok hc hp (by rw [hs]; rfl) List.mem_cons_self ?_ fun s' hc' hd _ => ?_
    · simp [ListsTarget, lists_container, hread, hs]
    · have hadded := container?_of_contents hc' e.container e.name
      rw [Contents.slot_put_self] at hadded
      refine listsElement_iff.2 ⟨_, hadded, ?_⟩
      rw [hd]
      exact mem_putElement_self _ _

theorem agrees_deleteElement (hc : s.contents = some c) (hcons : s.Consistent) (e : Element) :
    s.Agrees ⟨.delete, .element e⟩ := by
  have hp : (Object.element e).place? = some ⟨.containers e.container, e.name⟩ := rfl
  have hv : Verb.delete ∈ Kind.element.verbs := by decide
  have hread := container?_of_contents hc e.container e.name
  cases hs : c.slot ⟨.containers e.container, e.name⟩ with
  | none =>
    refine agrees_of_act_error hc hp (by rw [hs]; rfl) hv ?_
    simp [ListsTarget, lists_container, hread, hs]
  | some entry =>
    have htarget : s.ListsTarget ⟨.delete, .element e⟩ ↔
        entry.hasKey (s.defines.substitute e.key) = true := by
      simp [ListsTarget, lists_container, listsElement_iff, hread, hs, SetEntry.hasKey]
    by_cases hkey : entry.hasKey (s.defines.substitute e.key)
    · have ha : (⟨.delete, .element e⟩ : Operation).act s.defines (s.tick .delete).lastHandle
          (.containers e.container) (c.slot ⟨.containers e.container, e.name⟩)
            = .ok (some (entry.erase (s.defines.substitute e.key)), []) := by
        simp [Operation.act, Slot.operateElement, Element.stored, hs, hkey]
      refine agrees_of_act_ok hc hp ha hv (htarget.2 hkey) fun s' hc' hd _ => ?_
      have hdeleted := container?_of_contents hc' e.container e.name
      rw [Contents.slot_put_self] at hdeleted
      intro x hx
      obtain ⟨entry', he', hx⟩ := listsElement_iff.1 hx
      cases hdeleted.symm.trans he'
      have hentry : entry.Consistent e.name :=
        hcons.entries c hc ⟨.containers e.container, e.name⟩ entry hs
      rw [hd]
      exact ne_of_mem_eraseP hentry.keys hx
    · have ha : (⟨.delete, .element e⟩ : Operation).act s.defines (s.tick .delete).lastHandle
          (.containers e.container) (c.slot ⟨.containers e.container, e.name⟩)
            = .error (.notFound (.element (s.defines.substitute e.key) e.container e.name)) := by
        simp [Operation.act, Slot.operateElement, Element.stored, hs, hkey]
      exact agrees_of_act_error hc hp ha hv (mt htarget.1 hkey)

/-- Whatever a client did before, an operation on a table that is there agrees with what the client
can read. Only a delete of a rule by an unset handle is left out, which no valid object asks for. -/
theorem agrees_of_reachable (h : s.Reachable) (hc : s.contents = some c)
    (hop : ∀ r, op = ⟨.delete, .rule r⟩ → r.handle ≠ none) : s.Agrees op := by
  by_cases hv : op.verb ∈ op.object.kind.verbs
  · obtain ⟨verb, object⟩ := op
    cases object with
    | table t => exact agrees_table hc t hv
    | chain r => exact agrees_chain hc r hv
    | set kind r => exact agrees_set hc kind r hv
    | rule r =>
      cases verb with
      | add => exact agrees_addRule hc r
      | delete =>
        obtain ⟨handle, hh⟩ := Option.ne_none_iff_exists'.1 (hop r rfl)
        exact agrees_deleteRule hc h.isNumbered hh
      | flush | create | other => simp [Object.kind, Kind.mem_verbs_iff] at hv
    | element e =>
      cases verb with
      | add => exact agrees_addElement hc e
      | delete => exact agrees_deleteElement hc h.isConsistent e
      | flush | create | other => simp [Object.kind, Kind.mem_verbs_iff] at hv
    | counter _ | bare => simp [Object.kind, Kind.mem_verbs_iff] at hv
  · obtain ⟨fault, hf, hs⟩ := exists_fault_of_unsupported hc hv
    exact agrees_of_unsupported hv hf hs

end Store

/-- The rule of the chain `in` that `colliding` leaves is deleted by its handle, and an element of a
set by a key with a placeholder. -/
theorem agrees_collided :
    ((Store.new .inet "filter").replay colliding).Reachable ∧
    ((Store.new .inet "filter").replay colliding).contents = some collided ∧
    (∀ r, (⟨.delete, .rule ⟨"in", none, none, none, some 3⟩⟩ : Operation) = ⟨.delete, .rule r⟩ →
      r.handle ≠ none) ∧
    ((Store.new .inet "filter").replay colliding).Agrees
      ⟨.delete, .rule ⟨"in", none, none, none, some 3⟩⟩ ∧
    ((Store.new .inet "filter").replay colliding).Agrees
      ⟨.delete, .element ⟨"in", "$HOST", none, none⟩⟩ := by
  have h : ((Store.new .inet "filter").replay colliding).Reachable :=
    (Store.Reachable.new .inet "filter").replay colliding
  have hc : ((Store.new .inet "filter").replay colliding).contents = some collided := by
    decide +kernel
  have hop : ∀ r, (⟨.delete, .rule ⟨"in", none, none, none, some 3⟩⟩ : Operation)
      = ⟨.delete, .rule r⟩ → r.handle ≠ none := by
    rintro r hr
    cases hr
    exact Option.some_ne_none 3
  exact ⟨h, hc, hop, Store.agrees_of_reachable h hc hop, Store.agrees_of_reachable h hc nofun⟩

end NftStore
