import NftStore.Proofs.DumpLines
import NftStore.Proofs.Validity
import NftStore.Store.Snapshot

/-!
Restoring a store from its snapshot. The snapshot of a store that was filled by queued transactions
can be queued, and place by place it makes what it was taken from once more, but for handles and
for the indexes of rules. No dump shows these, so the restored store has the same dump.
-/
namespace NftStore

/-! ## Snapshots place by place -/

/-- The operations that add an entry and all that is in it. -/
def Shelf.snapshot : (k : Shelf) → k.Entry → List Operation
  | chains, entry => ChainEntry.snapshot entry
  | containers kind, entry => SetEntry.snapshot entry kind

theorem ChainEntry.mem_snapshot {entry : ChainEntry} {name : String}
    (hc : entry.Consistent name) (hv : entry.Valid) {op : Operation} (hop : op ∈ entry.snapshot) :
    op.verb = .add ∧ op.object.place? = some ⟨.chains, name⟩ ∧ op.Valid := by
  obtain ⟨rfl, hrules⟩ := hc
  rcases List.mem_cons.1 hop with rfl | hop
  · exact ⟨rfl, rfl, congrArg Except.ok hv.record⟩
  · obtain ⟨r, hr, rfl⟩ := List.mem_map.1 hop
    refine ⟨rfl, ?_, congrArg Except.ok (hv.rules r hr)⟩
    rw [← hrules r hr]
    rfl

theorem SetEntry.mem_snapshot {entry : SetEntry} {kind : SetKind} {name : String}
    (hc : entry.Consistent name) (hv : entry.Valid kind) {op : Operation}
    (hop : op ∈ entry.snapshot kind) :
    op.verb = .add ∧ op.object.place? = some ⟨.containers kind, name⟩ ∧ op.Valid := by
  obtain ⟨rfl, helements, -⟩ := hc
  rcases List.mem_cons.1 hop with rfl | hop
  · exact ⟨rfl, rfl, congrArg Except.ok hv.record⟩
  · obtain ⟨e, he, rfl⟩ := List.mem_map.1 hop
    obtain ⟨hve, rfl⟩ := hv.elements e he
    refine ⟨rfl, ?_, congrArg Except.ok hve⟩
    rw [← helements e he]
    rfl

/-- A snapshot of an entry has valid adds only, and all of them are about the place of the entry. -/
theorem Shelf.mem_snapshot {p : Place} {entry : p.shelf.Entry} (hc : p.Consistent entry)
    (hv : p.Valid entry) {op : Operation} (hop : op ∈ p.shelf.snapshot entry) :
    op.verb = .add ∧ op.object.place? = some p ∧ op.Valid := by
  obtain ⟨k, name⟩ := p
  cases k with
  | chains => exact ChainEntry.mem_snapshot hc hv hop
  | containers kind => exact SetEntry.mem_snapshot hc hv hop

/-- Among operations gathered place by place, those about one place are the ones gathered there. -/
theorem filter_flatMap_places {places : List Place} (hd : places.Nodup)
    {f : Place → List Operation} (hf : ∀ p, ∀ op ∈ f p, op.object.place? = some p) (p : Place) :
    (places.flatMap f).filter (Operation.isAt p) = if p ∈ places then f p else [] := by
  induction places with
  | nil => rfl
  | cons q places ih =>
    obtain ⟨hq, hd⟩ := List.nodup_cons.1 hd
    rw [List.flatMap_cons, List.filter_append, ih hd]
    by_cases hp : p = q
    · subst hp
      have hself : (f p).filter (Operation.isAt p) = f p :=
        List.filter_eq_self.2 fun op hop => by simpa [Operation.isAt] using hf p op hop
      simp [hself, hq]
    · have hother : (f q).filter (Operation.isAt p) = [] := by
        refine List.filter_eq_nil_iff.2 fun op hop => ?_
        simpa [Operation.isAt, hf q op hop] using fun he : q = p => hp he.symm
      simp [hother, hp]

namespace Contents

/-- The operations that add all that is in the table. -/
def innerSnapshot (c : Contents) : List Operation :=
  c.places.flatMap (c.collect Shelf.snapshot)

theorem snapshot_eq (c : Contents) :
    c.snapshot = ⟨.add, .table c.table⟩ :: c.innerSnapshot := by
  rw [innerSnapshot, ← flatMap_sorted]
  simp [snapshot, Shelf.all, catalog, containers, Shelf.snapshot]

theorem mem_collect_snapshot {c : Contents} (hc : c.All Place.Consistent)
    (hv : c.All Place.Valid) {p : Place} {op : Operation}
    (hop : op ∈ c.collect Shelf.snapshot p) :
    op.verb = .add ∧ op.object.place? = some p ∧ op.Valid := by
  unfold collect at hop
  cases hp : c.slot p with
  | none => simp [hp] at hop
  | some entry =>
    rw [hp] at hop
    exact Shelf.mem_snapshot (hc p entry hp) (hv p entry hp) hop

theorem mem_innerSnapshot {c : Contents} (hc : c.All Place.Consistent) (hv : c.All Place.Valid)
    {op : Operation} (hop : op ∈ c.innerSnapshot) :
    op.verb = .add ∧ op.object.place?.isSome ∧ op.Valid := by
  obtain ⟨p, -, hp⟩ := List.mem_flatMap.1 hop
  obtain ⟨hverb, hplace, hvalid⟩ := mem_collect_snapshot hc hv hp
  exact ⟨hverb, by rw [hplace]; rfl, hvalid⟩

/-- The operations about a place add the entry there. -/
theorem filter_innerSnapshot {c : Contents} (hc : c.All Place.Consistent)
    (hv : c.All Place.Valid) (p : Place) :
    c.innerSnapshot.filter (Operation.isAt p) = c.collect Shelf.snapshot p := by
  rw [innerSnapshot, filter_flatMap_places c.nodup_places
    fun q op hop => (mem_collect_snapshot hc hv hop).2.1]
  split
  · rfl
  · rename_i hp
    rw [mem_places, Option.not_isSome_iff_eq_none] at hp
    simp [collect, hp]

end Contents

/-! ## Texts that defines leave alone -/

/-- No placeholder in the rule is replaced. -/
def Rule.FixedBy (defines : Defines) (r : Rule) : Prop :=
  r.rule.map defines.substitute = r.rule

/-- No placeholder in the types is replaced. -/
def SetSpec.FixedBy (defines : Defines) (s : SetSpec) : Prop :=
  s.type.map defines.substitute = s.type ∧ s.typeof.map defines.substitute = s.typeof

/-- No placeholder in the key or the value is replaced. -/
def Element.FixedBy (defines : Defines) (e : Element) : Prop :=
  defines.substitute e.key = e.key ∧ e.value.map defines.substitute = e.value

/-- No placeholder in an entry is replaced. -/
def Shelf.FixedBy (defines : Defines) : (k : Shelf) → k.Entry → Prop
  | chains, entry => ∀ r ∈ ChainEntry.rules entry, r.FixedBy defines
  | containers _, entry =>
    (SetEntry.record entry).FixedBy defines ∧ ∀ e ∈ SetEntry.elements entry, e.FixedBy defines

/-- No placeholder in the contents is replaced. -/
def Contents.FixedBy (defines : Defines) (c : Contents) : Prop :=
  c.All fun p => p.shelf.FixedBy defines

instance (defines : Defines) : (k : Shelf) → (entry : k.Entry) → Decidable (k.FixedBy defines entry)
  | .chains, entry =>
    inferInstanceAs (Decidable (∀ r ∈ ChainEntry.rules entry, r.rule.map defines.substitute = r.rule))
  | .containers _, entry =>
    inferInstanceAs (Decidable (((SetEntry.record entry).type.map defines.substitute
        = (SetEntry.record entry).type ∧ (SetEntry.record entry).typeof.map defines.substitute
        = (SetEntry.record entry).typeof) ∧ ∀ e ∈ SetEntry.elements entry,
          defines.substitute e.key = e.key ∧ e.value.map defines.substitute = e.value))

instance (defines : Defines) (c : Contents) : Decidable (c.FixedBy defines) :=
  decidable_of_iff' (∀ k ∈ Shelf.all, ∀ e ∈ (c.catalog k).entries, k.FixedBy defines e.2)
    Contents.all_iff

/-! ## Traces of snapshots -/

variable {defines : Defines} {limit : Nat}

theorem Rule.forget_unplaced_stored {r : Rule} (h : r.FixedBy defines) :
    (r.unplaced.stored defines (limit + 1)).forget limit = r.unplaced := by
  have hr : r.rule.map defines.substitute = r.rule := h
  rw [Rule.forget_stored _ _ (Nat.lt_succ_self limit)]
  simp [unplaced, hr]

theorem ChainEntry.forget_unplaced (entry : ChainEntry) :
    entry.unplaced.forget limit = entry.unplaced := by
  simp [forget, unplaced, Rule.forget, Rule.unplaced]

/-- Adding rules once more puts them behind those that are there. -/
theorem trace_addRules {name : String} (record : Chain) (done : List Rule) {rules : List Rule}
    (hname : ∀ r ∈ rules, r.chain = name) (hfixed : ∀ r ∈ rules, r.FixedBy defines) :
    trace defines limit ⟨.chains, name⟩ (rules.map fun r => ⟨.add, .rule r.unplaced⟩)
        (some (ChainEntry.unplaced ⟨record, done⟩))
      = .ok (some (ChainEntry.unplaced ⟨record, done ++ rules⟩)) := by
  induction rules generalizing done with
  | nil => simp [trace_nil]
  | cons r rules ih =>
    have hp : (Object.rule r.unplaced).place? = some ⟨.chains, name⟩ := by
      rw [← hname r (by simp)]
      rfl
    have hact : (⟨.add, .rule r.unplaced⟩ : Operation).actForgetting defines limit .chains
        (some (ChainEntry.unplaced ⟨record, done⟩))
          = .ok (some (ChainEntry.unplaced ⟨record, done ++ [r]⟩)) := by
      show Except.ok (some ((ChainEntry.addRule (.unplaced ⟨record, done⟩)
        (r.unplaced.stored defines (limit + 1))).forget limit)) = _
      rw [ChainEntry.forget_addRule, ChainEntry.forget_unplaced,
        Rule.forget_unplaced_stored (hfixed r (by simp))]
      simp [ChainEntry.unplaced, ChainEntry.addRule]
    have hrest := ih (done ++ [r]) (fun q hq => hname q (by simp [hq]))
      fun q hq => hfixed q (by simp [hq])
    rw [List.map_cons, trace_cons_of_ok hp hact]
    simpa using hrest

/-- Adding elements of different keys once more puts them behind those that are there. -/
theorem trace_addElements {kind : SetKind} {name : String} (record : SetSpec)
    (done : List Element) {elements : List Element}
    (hplace : ∀ e ∈ elements, e.container = kind ∧ e.name = name)
    (hfixed : ∀ e ∈ elements, e.FixedBy defines)
    (hkeys : ((done ++ elements).map Element.key).Nodup) :
    trace defines limit ⟨.containers kind, name⟩ (elements.map fun e => ⟨.add, .element e⟩)
        (some (SetEntry.forget ⟨record, done⟩))
      = .ok (some (SetEntry.forget ⟨record, done ++ elements⟩)) := by
  induction elements generalizing done with
  | nil => simp [trace_nil]
  | cons e elements ih =>
    have hp : (Object.element e).place? = some ⟨.containers kind, name⟩ := by
      rw [← (hplace e (by simp)).1, ← (hplace e (by simp)).2]
      rfl
    have hstored : e.stored defines = e := by
      obtain ⟨hkey, hvalue⟩ := hfixed e (by simp)
      simp [Element.stored, hkey, hvalue]
    -- its key is new, so that it does not take the place of another
    have hnew : e.key ∉ done.map Element.key := by
      intro hin
      simp only [List.map_append, List.map_cons, List.nodup_append] at hkeys
      exact hkeys.2.2 _ hin _ List.mem_cons_self rfl
    have hact : (⟨.add, .element e⟩ : Operation).actForgetting defines limit (.containers kind)
        (some (SetEntry.forget ⟨record, done⟩))
          = .ok (some (SetEntry.forget ⟨record, done ++ [e]⟩)) := by
      show Except.ok (some (SetEntry.forget (SetEntry.put (.forget ⟨record, done⟩)
        (e.stored defines)))) = _
      rw [hstored, SetEntry.forget_put, SetEntry.forget_forget, SetEntry.put,
        putElement_of_not_mem hnew]
    have hrest := ih (done ++ [e]) (fun x hx => hplace x (by simp [hx]))
      (fun x hx => hfixed x (by simp [hx])) (by simpa using hkeys)
    rw [List.map_cons, trace_cons_of_ok hp hact]
    simpa using hrest

/-- The snapshot of an entry makes it once more. -/
theorem trace_snapshot {p : Place} {entry : p.shelf.Entry} (hc : p.Consistent entry)
    (hv : p.Valid entry) (hf : p.shelf.FixedBy defines entry) :
    trace defines limit p (p.shelf.snapshot entry) none
      = .ok (some (p.shelf.unplaced entry)) := by
  obtain ⟨k, name⟩ := p
  cases k with
  | chains =>
    have hchain : ChainEntry.Consistent entry name := hc
    have hp : (Object.chain (ChainEntry.record entry)).place? = some ⟨.chains, name⟩ := by
      rw [← hchain.record]
      rfl
    have hact : (⟨.add, .chain (ChainEntry.record entry)⟩ : Operation).actForgetting defines limit
        .chains none = .ok (some (ChainEntry.unplaced ⟨ChainEntry.record entry, []⟩)) := rfl
    exact (trace_cons_of_ok hp hact).trans
      (trace_addRules (ChainEntry.record entry) [] hchain.rules hf)
  | containers kind =>
    have hset : SetEntry.Consistent entry name := hc
    have hvalid : SetEntry.Valid entry kind := hv
    obtain ⟨⟨htype, htypeof⟩, helements⟩ := hf
    have hp : (Object.set kind (SetEntry.record entry)).place? = some ⟨.containers kind, name⟩ := by
      rw [← hset.record]
      rfl
    have hact : (⟨.add, .set kind (SetEntry.record entry)⟩ : Operation).actForgetting defines limit
        (.containers kind) none = .ok (some (SetEntry.forget ⟨SetEntry.record entry, []⟩)) := by
      show Except.ok (some (SetEntry.forget ⟨SetSpec.stored _ defines (limit + 1), []⟩)) = _
      simp only [SetEntry.forget, SetSpec.stored, htype, htypeof]
    exact (trace_cons_of_ok hp hact).trans (trace_addElements (SetEntry.record entry) []
      (fun e he => ⟨(hvalid.elements e he).2, hset.elements e he⟩) helements hset.keys)

namespace Contents

variable {c : Contents}

/-- At every place the snapshot makes what is stored there. -/
theorem trace_innerSnapshot (hc : c.All Place.Consistent) (hv : c.All Place.Valid)
    (hf : c.FixedBy defines) (p : Place) :
    trace defines limit p c.innerSnapshot none = .ok ((c.slot p).map p.shelf.unplaced) := by
  have hfilter := filter_innerSnapshot hc hv p
  cases hp : c.slot p with
  | none =>
    have hnil : c.innerSnapshot.filter (Operation.isAt p)
        = ([] : List Operation).filter (Operation.isAt p) := by
      rw [hfilter, collect, hp]
      rfl
    exact trace_congr hnil none
  | some entry =>
    have hself : c.innerSnapshot.filter (Operation.isAt p)
        = (p.shelf.snapshot entry).filter (Operation.isAt p) := by
      rw [hfilter, collect, hp]
      refine (List.filter_eq_self.2 fun op hop => ?_).symm
      simpa [Operation.isAt] using (Shelf.mem_snapshot (hc p entry hp) (hv p entry hp) hop).2.1
    rw [trace_congr hself]
    exact trace_snapshot (hc p entry hp) (hv p entry hp) (hf p entry hp)

end Contents

/-! ## Restoring -/

namespace Store

/-- A new store of the same table, with other defines. -/
def renewed (s : Store) (defines : Defines) : Store :=
  { new s.family s.table with defines := defines }

theorem snapshot_valid {s : Store} (hs : s.ReachableBy Event.Sound) {c : Contents}
    (hc : s.contents = some c) : ∀ op ∈ c.snapshot, op.Valid := by
  have hcons := hs.reachable.isConsistent
  intro op hop
  rw [Contents.snapshot_eq] at hop
  rcases List.mem_cons.1 hop with rfl | hop
  · show Except.ok c.table.invalid? = .ok none
    simp [Table.invalid?, (hcons.table c hc).1]
  · exact (Contents.mem_innerSnapshot (hcons.entries c hc) (hs.isSound.entries c hc) hop).2.2

/-- In an empty table the snapshot of another makes all that is in the other. -/
theorem applyAll_innerSnapshot {s : Store} {c₀ c : Contents} (hc₀ : s.contents = some c₀)
    (hempty : ∀ p, c₀.slot p = none) (hc : c.All Place.Consistent) (hv : c.All Place.Valid)
    (hf : c.FixedBy s.defines) :
    (s.applyAll c.innerSnapshot).fault = none ∧
    ∃ c', (s.applyAll c.innerSnapshot).store.contents = some c' ∧ c'.table = c₀.table ∧
      ∀ p target, (c'.slot p).map (p.shelf.lines target) = (c.slot p).map (p.shelf.lines target) := by
  have hdeleted : ∀ op ∈ c.innerSnapshot, ∀ h ∈ op.deletedHandle?, h ≤ ((0 : Nat) : Int) := by
    intro op hop h hh
    simp [Operation.deletedHandle?, (Contents.mem_innerSnapshot hc hv hop).1] at hh
  have htrace : ∀ p, trace s.defines 0 p c.innerSnapshot (c₀.trimmed 0 p)
      = .ok ((c.slot p).map p.shelf.unplaced) := by
    intro p
    rw [Contents.trimmed, hempty p]
    exact Contents.trace_innerSnapshot hc hv hf p
  rcases applyAll_traced hc₀ (fun op hop => (Contents.mem_innerSnapshot hc hv hop).2.1) hdeleted
    (Nat.zero_le _) with ⟨c', hc', hfault, htable, htraced⟩ | ⟨fault, p, -, hp⟩
  · refine ⟨hfault, c', hc', htable, fun p target => ?_⟩
    have hp : c'.trimmed 0 p = (c.slot p).map p.shelf.unplaced :=
      Except.ok.inj ((htraced p).symm.trans (htrace p))
    rw [← c'.lines_trimmed p, hp, Option.map_map]
    exact congrArg (fun f => (c.slot p).map f) (funext fun entry => p.shelf.lines_unplaced entry)
  · rw [htrace p] at hp
    cases hp

/-- If a store was filled by queued transactions, and no define was empty, then the snapshot of its
table can be queued. Run on a new store whose defines leave the stored texts alone, it succeeds, and
the new store then has the same dump. -/
theorem restore_snapshot {s : Store} (hs : s.ReachableBy Event.Sound) {c : Contents}
    (hc : s.contents = some c) :
    Transaction.empty.queueAll c.snapshot = (⟨c.snapshot, none⟩, none) ∧
    ∀ defines, c.FixedBy defines →
      ((s.renewed defines).run ⟨c.snapshot, none⟩).fault = none ∧
      ((s.renewed defines).run ⟨c.snapshot, none⟩).store.dump = s.dump := by
  refine ⟨Transaction.queueAll_of_valid rfl (snapshot_valid hs hc), fun defines hf => ?_⟩
  -- the first operation makes the table, and the others fill it
  have hrun : (s.renewed defines).run ⟨c.snapshot, none⟩
      = ((s.renewed defines).apply ⟨.add, .table c.table⟩).store.applyAll c.innerSnapshot := by
    show (s.renewed defines).applyAll c.snapshot = _
    rw [Contents.snapshot_eq, applyAll, Outcome.andThen_of_ok rfl]
    rfl
  obtain ⟨hfault, c', hc', htable, hlines⟩ := applyAll_innerSnapshot
    (s := ((s.renewed defines).apply ⟨.add, .table c.table⟩).store) rfl (slot_freshContents _ _)
    (hs.reachable.isConsistent.entries c hc) (hs.isSound.entries c hc) hf
  rw [hrun]
  refine ⟨hfault, ?_⟩
  rw [dump_of_contents hc', dump_of_contents hc, target_applyAll]
  exact congrArg String.join (Contents.lines_congr (by rw [htable]; rfl) fun p => hlines p _)

end Store

/-- A chain with rules, a set and a map of one name, and a chain that is deleted and added again, all
of it queued; the last transaction is refused. -/
def fillingUp : List Event :=
  [.define "PORT" "80",
   .run (Transaction.empty.queueAll
     [⟨.add, .table ⟨none, none, some "all", none⟩⟩,
      ⟨.add, .chain ⟨"out", none, none, none, none, none, none⟩⟩,
      ⟨.add, .chain ⟨"in", some "filter", some "input", some "0", none, none, none⟩⟩,
      ⟨.add, .rule ⟨"in", some "tcp dport $PORT accept", none, some 0, none⟩⟩,
      ⟨.add, .rule ⟨"in", some "tcp dport $PORT accept", none, none, none⟩⟩,
      ⟨.add, .set .map ⟨"in", some "ipv4_addr : verdict", none, none, none, none, none, none, none,
        none, none⟩⟩,
      ⟨.add, .set .set ⟨"in", none, some "ip saddr", none, none, none, none, none, none, none,
        none⟩⟩,
      ⟨.add, .element ⟨"in", "10.0.0.1", some "accept", none⟩⟩,
      ⟨.add, .element ⟨"in", "10.0.0.1", some "drop", none⟩⟩,
      ⟨.add, .element ⟨"in", "10.0.0.2", some "", some "host"⟩⟩,
      ⟨.delete, .chain ⟨"out", none, none, none, none, none, none⟩⟩,
      ⟨.add, .chain ⟨"out", none, none, none, none, some "late", none⟩⟩]).1,
   .run (Transaction.empty.queueAll
     [⟨.delete, .table ⟨none, none, none, none⟩⟩, ⟨.delete, .rule ⟨"in", none, none, none, none⟩⟩]).1]

/-- The table that `fillingUp` leaves. -/
def filledUp : Contents where
  table := ⟨some "inet", some "filter", some "all", some 1⟩
  chains := ⟨[("in", ⟨⟨"in", some "filter", some "input", some "0", none, none, some 3⟩,
      [⟨"in", some "tcp dport 80 accept", none, some 0, some 4⟩,
       ⟨"in", some "tcp dport 80 accept", none, none, some 5⟩]⟩),
    ("out", ⟨⟨"out", none, none, none, none, some "late", some 11⟩, []⟩)], by decide⟩
  sets := ⟨[("in", ⟨⟨"in", none, some "ip saddr", none, none, none, none, none, none, none, some 7⟩,
    [⟨"in", "10.0.0.2", some "", some "host"⟩]⟩)], by decide⟩
  maps := ⟨[("in", ⟨⟨"in", some "ipv4_addr : verdict", none, none, none, none, none, none, none,
    none, some 6⟩, [⟨"in", "10.0.0.1", some "drop", none⟩]⟩)], by decide⟩

theorem restore_filledUp :
    ((Store.new .inet "filter").replay fillingUp).ReachableBy Event.Sound ∧
    ((Store.new .inet "filter").replay fillingUp).contents = some filledUp ∧
    filledUp.FixedBy (.ofPairs [("PORT", "443")]) ∧
    Transaction.empty.queueAll filledUp.snapshot = (⟨filledUp.snapshot, none⟩, none) ∧
    ((((Store.new .inet "filter").replay fillingUp).renewed (.ofPairs [("PORT", "443")])).run
      ⟨filledUp.snapshot, none⟩).fault = none ∧
    ((((Store.new .inet "filter").replay fillingUp).renewed (.ofPairs [("PORT", "443")])).run
      ⟨filledUp.snapshot, none⟩).store.dump
        = ((Store.new .inet "filter").replay fillingUp).dump := by
  have hs : ((Store.new .inet "filter").replay fillingUp).ReachableBy Event.Sound := by
    refine (Store.ReachableBy.new .inet "filter").replay fun e he => ?_
    simp only [fillingUp, List.mem_cons, List.not_mem_nil, or_false] at he
    rcases he with rfl | rfl | rfl
    · exact (by decide : "80" ≠ "")
    · exact Transaction.Queued.empty.queueAll _
    · exact Transaction.Queued.empty.queueAll _
  have hc : ((Store.new .inet "filter").replay fillingUp).contents = some filledUp := by
    decide +kernel
  have hf : filledUp.FixedBy (.ofPairs [("PORT", "443")]) := by decide +kernel
  obtain ⟨hqueued, hrestored⟩ := Store.restore_snapshot hs hc
  exact ⟨hs, hc, hf, hqueued, hrestored _ hf⟩

end NftStore
