import NftStore.Proofs.Consistency
import NftStore.Proofs.Handle
import NftStore.Store.Listing
import Mathlib.Data.List.Lattice
import Mathlib.Data.List.Pairwise

/-!
Handles of rules over time. A client may keep the handle of a rule while the store goes on: chains,
and the table itself, are deleted and added again, and runs fail halfway. The handle never comes to
stand for another rule. Deleting by it later takes out that rule, or finds nothing.
-/
namespace NftStore

/-! ## One rule to a handle -/

theorem Contents.Numbered.rule_unique {c : Contents} {last : Nat} (h : c.Numbered last)
    {name other : String} {entry entry' : ChainEntry} (he : c.chains.find? name = some entry)
    (he' : c.chains.find? other = some entry') {r r' : Rule} (hr : r ∈ entry.rules)
    (hr' : r' ∈ entry'.rules) (hrr : r'.handle = r.handle) : other = name ∧ r' = r := by
  have hd : (c.handlesOn .chains).Nodup := by
    have hi := h.nodup
    rw [innerHandles_eq] at hi
    exact hi.of_append_left.of_append_left
  obtain ⟨hin, hbetween⟩ := List.nodup_flatMap.1 hd
  have hmem : (name, entry) ∈ c.chains.entries := Catalog.find?_eq_some_iff.1 he
  have hmem' : (other, entry') ∈ c.chains.entries := Catalog.find?_eq_some_iff.1 he'
  have hx : r.handle ∈ entry.handles := List.mem_cons_of_mem _ (List.mem_map_of_mem hr)
  have hx' : r.handle ∈ entry'.handles :=
    hrr ▸ List.mem_cons_of_mem _ (List.mem_map_of_mem hr')
  -- two chains would have a handle in common
  have heq : (other, entry') = (name, entry) := by
    by_contra hne
    have hsymm : Std.Symm (Function.onFun List.Disjoint
        fun e : String × ChainEntry => Shelf.handles .chains e.2) :=
      ⟨fun _ _ hab => List.Disjoint.symm hab⟩
    exact hbetween.forall hmem' hmem hne hx' hx
  cases heq
  have hn : entry.handles.Nodup := hin _ hmem
  exact ⟨rfl, List.inj_on_of_nodup_map (List.nodup_cons.1 hn).2 hr' hr hrr⟩

theorem Contents.Numbered.nodup_rules {c : Contents} {last : Nat} (h : c.Numbered last)
    {name : String} {entry : ChainEntry} (he : c.chains.find? name = some entry) :
    entry.rules.Nodup :=
  List.Nodup.of_map Rule.handle (((h.rules name entry he).imp Earlier.ne).tail)

/-! ## Rules of the past -/

/-- No chain but the given ones has a rule with a handle up to the limit, and these have no other
such rules than the given. -/
def OldRules (chains : Catalog ChainEntry) (limit : Nat) : (p : Place) → p.shelf.Entry → Prop
  | ⟨.chains, name⟩, entry =>
    ∀ r ∈ entry.rules, ∀ h : Int, r.handle = some h → h ≤ limit →
      ∃ old, chains.find? name = some old ∧ r ∈ old.rules
  | ⟨.containers _, _⟩, _ => True

/-- The count of handles has reached the limit, and rules with handles up to it are old ones. -/
def Store.After (chains : Catalog ChainEntry) (limit : Nat) (s : Store) : Prop :=
  limit ≤ s.lastHandle ∧ s.All (OldRules chains limit)

theorem Store.After.step {chains : Catalog ChainEntry} {limit : Nat} {s s' : Store}
    {op : Operation} (h : s.After chains limit) (hs : s.Step op s') :
    s'.After chains limit := by
  refine ⟨Nat.le_trans h.1 hs.lastHandle_le, h.2.step hs ?_⟩
  rintro ⟨k, name⟩ old new hp hstep hold
  cases k with
  | containers kind => trivial
  | chains =>
    refine ChainEntry.Step.forall_rules hstep ?_ hold
    -- a new rule has a number beyond the limit
    intro r hop x hx hle
    cases hx
    have hl := h.1
    simp [lastHandle_tick, hop, Verb.makes] at hle
    omega

/-- A rule found under a handle that was given before a moment was there at that moment. -/
theorem Store.after_replay {s : Store} {c : Contents} (hc : s.contents = some c)
    (events : List Event) : (s.replay events).After c.chains s.lastHandle := by
  refine replay_invariant (fun s name value hs => hs) (fun s op s' hs hstep => hs.step hstep)
    ⟨Nat.le_refl _, ?_⟩ events
  rintro c' hc' ⟨k, name⟩ entry he
  cases hc.symm.trans hc'
  cases k with
  | containers kind => trivial
  | chains => exact fun r hr _ _ _ => ⟨entry, he, hr⟩

/-! ## Deleting by a handle -/

namespace Store

/-- The store with other rules in one chain. -/
def setRules (s : Store) (chain : String) (rules : List Rule) : Store :=
  { s with contents := s.contents.map fun c =>
      { c with chains := c.chains.modify chain fun entry => { entry with rules := rules } } }

theorem setRules_eq_put {s : Store} {c : Contents} (hc : s.contents = some c) {name : String}
    {entry : ChainEntry} (he : c.chains.find? name = some entry) (rules : List Rule) :
    s.setRules name rules =
      { s with contents := some (c.put ⟨.chains, name⟩ (some { entry with rules := rules })) } := by
  simp only [setRules, hc, Option.map_some, Contents.put, Contents.withCatalog, Contents.catalog,
    Catalog.modify_eq_put he]

/-- Deleting by a handle that a rule of the chain has takes out the first such rule. -/
theorem run_deleteRule_of_mem {s : Store} {d : Rule} {entry : ChainEntry}
    (he : s.chain? d.chain = some entry) {handle : Int} (hd : d.handle = some handle)
    {r : Rule} (hr : r ∈ entry.rules) (hrh : r.handle = some handle) :
    ∃ before found after, entry.rules = before ++ found :: after ∧ found.handle = some handle ∧
      s.run (Transaction.empty.queueRaw [⟨.delete, .rule d⟩])
        = ⟨s.setRules d.chain (before ++ after), [], none⟩ := by
  obtain ⟨c, hc, hf⟩ := Option.bind_eq_some_iff.1 he
  obtain ⟨found, before, after, -, hfound, hrules, herase⟩ :=
    List.exists_of_eraseP (p := fun r : Rule => r.handle == some handle) hr (by simpa using hrh)
  have hhas : entry.hasRule handle = true :=
    List.any_eq_true.2 ⟨r, hr, by simpa using hrh⟩
  refine ⟨before, found, after, hrules, by simpa using hfound, ?_⟩
  have ha : (⟨.delete, .rule d⟩ : Operation).act s.defines (s.tick .delete).lastHandle .chains
      (c.slot ⟨.chains, d.chain⟩) = .ok (some { entry with rules := before ++ after }, []) := by
    simp only [Operation.act, Slot.operateRule, Contents.slot, Contents.catalog, hf, hd, hhas,
      if_true, ChainEntry.eraseRule, herase]
  rw [run_single, setRules_eq_put hc hf, apply_of_act_ok hc rfl ha,
    tick_of_makes_eq_false s .delete rfl]

/-- Deleting by a handle that no rule of the chain has finds nothing. -/
theorem run_deleteRule_of_not_mem {s : Store} {d : Rule} {handle : Int}
    (hd : d.handle = some handle)
    (hno : ∀ entry, s.chain? d.chain = some entry → ∀ r ∈ entry.rules, r.handle ≠ some handle) :
    ∃ cause, s.run (Transaction.empty.queueRaw [⟨.delete, .rule d⟩])
      = ⟨s, [], some (.notFound cause)⟩ := by
  rw [run_single]
  cases hc : s.contents with
  | none => exact ⟨s.noTable, apply_of_noTable hc rfl⟩
  | some c =>
    have hp : (Object.rule d).place? = some ⟨.chains, d.chain⟩ := rfl
    obtain ⟨cause, ha⟩ : ∃ cause, (⟨.delete, .rule d⟩ : Operation).act s.defines
        (s.tick .delete).lastHandle .chains (c.slot ⟨.chains, d.chain⟩)
          = .error (.notFound cause) := by
      cases hf : c.chains.find? d.chain with
      | none =>
        exact ⟨.named Kind.chain.text d.chain, by
          simp only [Operation.act, Slot.operateRule, Contents.slot, Contents.catalog, hf]⟩
      | some entry =>
        have hhas : entry.hasRule handle = false := by
          refine List.any_eq_false.2 fun r hr => ?_
          simpa using hno entry (Option.bind_eq_some_iff.2 ⟨c, hc, hf⟩) r hr
        exact ⟨.rule handle d.chain, by
          simp [Operation.act, Slot.operateRule, Contents.slot, Contents.catalog, hf, hd, hhas]⟩
    exact ⟨cause, by rw [apply_of_act_error hc hp ha, tick_of_makes_eq_false s .delete rfl]⟩

/-- The handle of a rule in a chain stands for that rule or for nothing: no other rule has it, and
deleting by it takes out the rule and nothing else if it is there, and else finds nothing and leaves
the store as it is. -/
structure HandleMeans (s : Store) (name : String) (r : Rule) : Prop where
  unique : ∀ other entry r', s.chain? other = some entry → r' ∈ entry.rules →
    r'.handle = r.handle → other = name ∧ r' = r
  deletes : ∀ d : Rule, d.chain = name → d.handle = r.handle →
    ∀ entry, s.chain? name = some entry → r ∈ entry.rules → ∃ before after,
      entry.rules = before ++ r :: after ∧ r ∉ before ++ after ∧
      s.run (Transaction.empty.queueRaw [⟨.delete, .rule d⟩])
        = ⟨s.setRules name (before ++ after), [], none⟩
  refuses : ∀ d : Rule, d.chain = name → d.handle = r.handle →
    (∀ entry, s.chain? name = some entry → r ∉ entry.rules) → ∃ cause,
      s.run (Transaction.empty.queueRaw [⟨.delete, .rule d⟩])
        = ⟨s, [], some (.notFound cause)⟩

/-- However a store goes on, the handle of a rule that was in it never comes to stand for
another. -/
theorem handleMeans_replay {s : Store} (hs : s.Reachable) {name : String} {entry : ChainEntry}
    (he : s.chain? name = some entry) {r : Rule} (hr : r ∈ entry.rules) (events : List Event) :
    (s.replay events).HandleMeans name r := by
  obtain ⟨c, hc, hf⟩ := Option.bind_eq_some_iff.1 he
  have hn := hs.isNumbered c hc
  have hin : r.handle ∈ c.innerHandles :=
    Contents.mem_innerHandles (p := ⟨.chains, name⟩) hf
      (List.mem_cons_of_mem _ (List.mem_map_of_mem hr))
  obtain ⟨x, k, hx, hk, hxk⟩ := hn.inner_le r.handle hin
  have hle : x ≤ s.lastHandle := by
    cases hk
    omega
  have hunique : ∀ other entry' r', (s.replay events).chain? other = some entry' →
      r' ∈ entry'.rules → r'.handle = r.handle → other = name ∧ r' = r := by
    intro other entry' r' he' hr' hrr
    -- a rule with a handle of the past is one of the past, and there the handle had one rule
    obtain ⟨c', hc', hf'⟩ := Option.bind_eq_some_iff.1 he'
    obtain ⟨old, hold, hmem⟩ := (after_replay hc events).2 c' hc' ⟨.chains, other⟩ entry' hf' r'
      hr' x (hrr.trans hx) hle
    exact hn.rule_unique hf hold hr hmem hrr
  refine ⟨hunique, ?_, ?_⟩
  · rintro d rfl hd entry' he' hr'
    obtain ⟨before, found, after, hrules, hfound, hrun⟩ :=
      run_deleteRule_of_mem he' (hd.trans hx) hr' hx
    obtain ⟨-, rfl⟩ := hunique d.chain entry' found he' (by simp [hrules]) (hfound.trans hx.symm)
    obtain ⟨c', hc', hf'⟩ := Option.bind_eq_some_iff.1 he'
    have hnd := ((hs.replay events).isNumbered c' hc').nodup_rules hf'
    rw [hrules, List.nodup_middle] at hnd
    exact ⟨before, after, hrules, (List.nodup_cons.1 hnd).1, hrun⟩
  · rintro d rfl hd hno
    refine run_deleteRule_of_not_mem (hd.trans hx) fun entry' he' r' hr' hh => ?_
    obtain ⟨-, rfl⟩ := hunique d.chain entry' r' he' hr' (hh.trans hx.symm)
    exact hno entry' he' hr'

end Store

/-- The first rule of the chain `in` that `refilling` leaves. -/
def refilledRule : Rule :=
  ⟨"in", some "tcp dport 80 accept", none, some 0, some 7⟩

/-- The chain is deleted, added again and given the same rule, then the table is added once more and
a chain of another name gets the rule too. -/
def startingOver : List Event :=
  [.run ⟨[⟨.delete, .chain ⟨"in", none, none, none, none, none, none⟩⟩,
      ⟨.add, .chain ⟨"in", none, none, none, none, none, some 7⟩⟩,
      ⟨.add, .rule refilledRule⟩,
      ⟨.delete, .rule refilledRule⟩], none⟩,
   .run ⟨[⟨.delete, .table ⟨none, none, none, none⟩⟩,
      ⟨.add, .table ⟨none, none, none, some 7⟩⟩,
      ⟨.add, .chain ⟨"out", none, none, none, none, none, none⟩⟩,
      ⟨.add, .rule { refilledRule with chain := "out" }⟩], none⟩]

theorem handleMeans_refilled :
    ((Store.new .inet "filter").replay refilling).Reachable ∧
    ((Store.new .inet "filter").replay refilling).chain? "in"
      = some ⟨⟨"in", none, none, none, none, none, some 6⟩,
          [refilledRule, ⟨"in", some "drop", none, none, some 11⟩]⟩ ∧
    refilledRule ∈ [refilledRule, ⟨"in", some "drop", none, none, some 11⟩] ∧
    (((Store.new .inet "filter").replay refilling).replay startingOver).HandleMeans "in"
      refilledRule := by
  have h : ((Store.new .inet "filter").replay refilling).Reachable :=
    (Store.Reachable.new .inet "filter").replay refilling
  have he : ((Store.new .inet "filter").replay refilling).chain? "in"
      = some ⟨⟨"in", none, none, none, none, none, some 6⟩,
          [refilledRule, ⟨"in", some "drop", none, none, some 11⟩]⟩ := by
    decide +kernel
  have hr : refilledRule ∈ [refilledRule, ⟨"in", some "drop", none, none, some 11⟩] :=
    List.mem_cons_self
  exact ⟨h, he, hr, Store.handleMeans_replay h he hr startingOver⟩

end NftStore
