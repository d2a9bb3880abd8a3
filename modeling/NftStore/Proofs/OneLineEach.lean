import NftStore.Proofs.Consistency
import NftStore.Proofs.DumpLines
import NftStore.Proofs.OneLine

/-!
One line for one object. As long as no line feed comes in with a table name, a value of a define or
a text of an object, there is none in anything that is stored, for substitution takes its characters
from the text and from values (`mem_expand`). So the dump has as many lines as objects are stored.
What the lines say is settled by the records without their handles, whatever the order in which they
were added.
-/
namespace NftStore

open Text (IsAddLine)

variable {target : Target}

/-! ## What is stored -/

/-- No define has a line feed in its value. -/
def Defines.OneLine (ds : Defines) : Prop :=
  ∀ d ∈ ds.toList, Text.OneLine d.value

instance (ds : Defines) : Decidable ds.OneLine :=
  inferInstanceAs (Decidable (∀ d ∈ ds.toList, Text.OneLine d.value))

namespace Defines

variable {ds : Defines}

/-- Substitution takes every character from the text or from a value. -/
theorem mem_expand {text : List Char} {c : Char} (h : c ∈ ds.expand text) :
    c ∈ text ∨ ∃ d ∈ ds.toList, c ∈ d.value.toList := by
  induction text using expand.induct ds with
  | case1 =>
    rw [expand] at h
    cases h
  | case2 b cs d hd ih =>
    simp only [expand, hd] at h
    rcases List.mem_append.1 h with hvalue | hrest
    · exact .inr ⟨d, List.mem_of_find?_eq_some hd, hvalue⟩
    · exact (ih hrest).imp_left fun hin => List.mem_cons_of_mem _ (List.mem_of_mem_drop hin)
  | case3 b cs hno ih =>
    simp only [expand, hno] at h
    rcases List.mem_cons.1 h with rfl | hrest
    · exact .inl List.mem_cons_self
    · exact (ih hrest).imp_left (List.mem_cons_of_mem _)

theorem OneLine.substitute (h : ds.OneLine) {text : String} (htext : Text.OneLine text) :
    Text.OneLine (ds.substitute text) := by
  intro hfeed
  rw [Defines.substitute, String.toList_ofList] at hfeed
  rcases mem_expand hfeed with hin | ⟨d, hd, hin⟩
  · exact htext hin
  · exact h d hd hin

theorem OneLine.substitute_of_mem (h : ds.OneLine) {text : Option String}
    (htext : ∀ s ∈ text, Text.OneLine s) : ∀ s ∈ text.map ds.substitute, Text.OneLine s :=
  Option.forall_mem_map.2 fun s hs => h.substitute (htext s hs)

theorem oneLine_forFamily (family : Family) : (forFamily family).OneLine := by
  cases family <;> decide

theorem OneLine.define (h : ds.OneLine) (name : String) {value : String}
    (hvalue : Text.OneLine value) : (ds.define name value).OneLine := by
  intro d hd
  rcases List.mem_append.1 hd with hd | hd
  · exact h d hd
  · rw [List.mem_singleton.1 hd]
    exact hvalue

end Defines

section
variable {defines : Defines} {number : Nat}

theorem Rule.oneLine_stored (h : defines.OneLine) {r : Rule} (hr : (Object.rule r).OneLine) :
    (Object.rule (r.stored defines number)).OneLine := by
  obtain ⟨hchain, hrule, hcomment⟩ := Object.oneLine_rule.1 hr
  exact Object.oneLine_rule.2 ⟨hchain, h.substitute_of_mem hrule, hcomment⟩

theorem SetSpec.oneLine_stored (h : defines.OneLine) {kind : SetKind} {s : SetSpec}
    (hs : (Object.set kind s).OneLine) (other : SetKind) :
    (Object.set other (s.stored defines number)).OneLine := by
  obtain ⟨hname, htype, htypeof, hrest⟩ := Object.oneLine_set.1 hs
  exact Object.oneLine_set.2
    ⟨hname, h.substitute_of_mem htype, h.substitute_of_mem htypeof, hrest⟩

theorem Element.oneLine_stored (h : defines.OneLine) {e : Element}
    (he : (Object.element e).OneLine) : (Object.element (e.stored defines)).OneLine := by
  obtain ⟨hname, hkey, hvalue, hcomment⟩ := Object.oneLine_element.1 he
  refine Object.oneLine_element.2 ⟨hname, h.substitute hkey, ?_, hcomment⟩
  unfold stored
  split
  · exact h.substitute_of_mem hvalue
  · exact hvalue

end

/-- Neither the chain nor a rule of it has a line feed in a text. -/
structure ChainEntry.OneLine (entry : ChainEntry) : Prop where
  record : (Object.chain entry.record).OneLine
  rules : ∀ r ∈ entry.rules, (Object.rule r).OneLine

/-- Neither the set or map nor an element of it has a line feed in a text. -/
structure SetEntry.OneLine (entry : SetEntry) (kind : SetKind) : Prop where
  record : (Object.set kind entry.record).OneLine
  elements : ∀ e ∈ entry.elements, (Object.element e).OneLine

/-- No text of an entry has a line feed. -/
def Place.OneLine : (p : Place) → p.shelf.Entry → Prop
  | ⟨.chains, _⟩, entry => ChainEntry.OneLine entry
  | ⟨.containers kind, _⟩, entry => SetEntry.OneLine entry kind

section
variable {op : Operation} {defines : Defines} {number : Nat}

theorem ChainEntry.Step.oneLine {old : Option ChainEntry} {new : ChainEntry}
    (h : ChainEntry.Step op defines number old (some new)) (hop : op.object.OneLine)
    (hd : defines.OneLine) (hold : ∀ entry, old = some entry → entry.OneLine) : new.OneLine := by
  refine ⟨h.record_of (P := fun r => (Object.chain r).OneLine) ?_
      fun entry he => (hold entry he).record,
    h.forall_rules ?_ fun entry he => (hold entry he).rules⟩
  · rintro r rfl
    exact Object.oneLine_chain.2 ((Object.oneLine_chain (c := r)).1 hop)
  · rintro r rfl
    exact Rule.oneLine_stored hd hop

theorem SetEntry.Step.oneLine {old : Option SetEntry} {new : SetEntry} {kind : SetKind}
    (h : SetEntry.Step op defines number old (some new)) (hop : op.object.OneLine)
    (hd : defines.OneLine) (hold : ∀ entry, old = some entry → entry.OneLine kind) :
    new.OneLine kind := by
  refine ⟨h.record_of (P := fun r => (Object.set kind r).OneLine) ?_
      fun entry he => (hold entry he).record,
    h.forall_elements ?_ fun entry he => (hold entry he).elements⟩
  · rintro other r rfl
    exact SetSpec.oneLine_stored hd hop kind
  · rintro e rfl
    exact Element.oneLine_stored hd hop

/-- What a client does without line feeds in values and in texts of objects. -/
def Event.OneLine : Event → Prop
  | .define _ value => Text.OneLine value
  | .run tx => ∀ op ∈ tx.operations, op.object.OneLine

instance : (e : Event) → Decidable e.OneLine
  | .define _ value => inferInstanceAs (Decidable (Text.OneLine value))
  | .run tx => inferInstanceAs (Decidable (∀ op ∈ tx.operations, op.object.OneLine))

namespace Store

/-- Nothing in the store has a line feed, but for its own name. -/
structure OneLine (s : Store) : Prop where
  defines : s.defines.OneLine
  table : ∀ c, s.contents = some c → ∀ text ∈ c.table.comment, Text.OneLine text
  entries : s.All Place.OneLine

theorem OneLine.step {s s' : Store} (h : s.OneLine) (hs : s.Step op s')
    (hop : op.object.OneLine) : s'.OneLine := by
  refine ⟨?_, ?_, h.entries.step hs ?_⟩
  · rw [hs.defines_eq]
    exact h.defines
  · intro c' hc'
    cases hs with
    | noTable hc => exact h.table c' hc'
    | tableAdded t _ hadd =>
      cases hc'
      subst hadd
      exact (Object.oneLine_table.1 hop).2.2
    | unchanged c hc => exact h.table c' (by simpa using hc')
    | tableFlushed t c _ hflush =>
      cases hc'
      subst hflush
      exact (Object.oneLine_table.1 hop).2.2
    | tableDeleted c _ => cases hc'
    | placed c p slot hc _ _ =>
      cases hc'
      rw [Contents.table_put]
      exact h.table c hc
  · rintro ⟨k, name⟩ old new _ hstep hold
    cases k with
    | chains => exact ChainEntry.Step.oneLine hstep hop h.defines hold
    | containers kind => exact SetEntry.Step.oneLine hstep hop h.defines hold

theorem ReachableBy.oneLine {s : Store} (h : s.ReachableBy Event.OneLine) : s.OneLine := by
  refine ReachableBy.of_steps (fun family table => ?_) ?_ ?_ h
  · exact ⟨Defines.oneLine_forFamily family, fun c hc => (by cases hc), All.new family table⟩
  · exact fun s name value hvalue hs => ⟨hs.defines.define name hvalue, hs.table, hs.entries⟩
  · exact fun tx hops s op s' hop hs hstep => hs.step hstep (hops op hop)

end Store

end

/-! ## Lines of a dump -/

theorem ChainEntry.OneLine.lines {entry : ChainEntry} (h : entry.OneLine) (ht : target.OneLine) :
    ∀ line ∈ entry.lines target, IsAddLine line := by
  refine List.forall_mem_cons.2 ⟨Chain.isAddLine_line h.record ht, fun line hline => ?_⟩
  obtain ⟨r, hr, rfl⟩ := List.mem_map.1 hline
  have hrule := Object.oneLine_rule.1 (h.rules r hr)
  exact Rule.isAddLine_line (r := r.unplaced) (Object.oneLine_rule.2 hrule) ht

theorem SetEntry.OneLine.lines {entry : SetEntry} {kind : SetKind} (h : entry.OneLine kind)
    (ht : target.OneLine) : ∀ line ∈ entry.lines kind target, IsAddLine line := by
  refine List.forall_mem_cons.2 ⟨SetSpec.isAddLine_line h.record ht, fun line hline => ?_⟩
  obtain ⟨e, he, rfl⟩ := List.mem_map.1 hline
  exact Element.isAddLine_line (h.elements e he) ht

/-- Where entries are sorted by name, as many lines come out as there are entries and things in
them. -/
theorem Catalog.length_flatMap_sorted {α β γ : Type} (c : Catalog α) (lines : α → List β)
    (inner : α → List γ) (h : ∀ a, (lines a).length = (inner a).length + 1) :
    (c.sorted.flatMap fun e => lines e.2).length
      = c.entries.length + (c.entries.flatMap fun e => inner e.2).length := by
  rw [(c.sorted_perm.flatMap_right _).length_eq]
  induction c.entries with
  | nil => rfl
  | cons e entries ih =>
    simp only [List.flatMap_cons, List.length_append, List.length_cons, ih, h]
    omega

namespace Contents

variable {c d : Contents}

theorem isAddLine_lines (htable : ∀ text ∈ c.table.comment, Text.OneLine text)
    (h : c.All Place.OneLine) (ht : target.OneLine) : ∀ line ∈ c.lines target, IsAddLine line := by
  rw [lines_eq]
  refine List.forall_mem_cons.2 ⟨Table.isAddLine_line htable ht, fun line hline => ?_⟩
  obtain ⟨⟨k, name⟩, -, hin⟩ := List.mem_flatMap.1 hline
  rw [collect] at hin
  cases hslot : c.slot ⟨k, name⟩ with
  | none =>
    rw [hslot] at hin
    cases hin
  | some entry =>
    rw [hslot] at hin
    have hentry := h ⟨k, name⟩ entry hslot
    cases k with
    | chains => exact ChainEntry.OneLine.lines hentry ht line hin
    | containers kind => exact SetEntry.OneLine.lines hentry ht line hin

theorem length_lines (c : Contents) (target : Target) : (c.lines target).length
    = 1 + c.chains.entries.length + (c.chains.entries.flatMap fun e => e.2.rules).length
      + c.sets.entries.length + (c.sets.entries.flatMap fun e => e.2.elements).length
      + c.maps.entries.length + (c.maps.entries.flatMap fun e => e.2.elements).length := by
  have hchains := c.chains.length_flatMap_sorted (fun entry => entry.lines target)
    ChainEntry.rules fun entry => by simp [ChainEntry.lines]
  have hsets := c.sets.length_flatMap_sorted (fun entry => entry.lines .set target)
    SetEntry.elements fun entry => by simp [SetEntry.lines]
  have hmaps := c.maps.length_flatMap_sorted (fun entry => entry.lines .map target)
    SetEntry.elements fun entry => by simp [SetEntry.lines]
  simp only [lines, List.length_append, List.length_cons, hchains, hsets, hmaps]
  omega

/-! ## Contents that are alike -/

/-- The contents are equal, but for handles, the index of rules, and the order in which chains, sets
and maps were added. -/
structure Alike (c d : Contents) : Prop where
  table : { c.table with handle := none } = { d.table with handle := none }
  chains : (c.chains.mapEntries fun _ => ChainEntry.unplaced).entries.Perm
    (d.chains.mapEntries fun _ => ChainEntry.unplaced).entries
  sets : (c.sets.mapEntries fun _ => SetEntry.forget).entries.Perm
    (d.sets.mapEntries fun _ => SetEntry.forget).entries
  maps : (c.maps.mapEntries fun _ => SetEntry.forget).entries.Perm
    (d.maps.mapEntries fun _ => SetEntry.forget).entries

instance (c d : Contents) : Decidable (c.Alike d) :=
  decidable_of_iff
    ({ c.table with handle := none } = { d.table with handle := none } ∧
      (c.chains.mapEntries fun _ => ChainEntry.unplaced).entries.Perm
        (d.chains.mapEntries fun _ => ChainEntry.unplaced).entries ∧
      (c.sets.mapEntries fun _ => SetEntry.forget).entries.Perm
        (d.sets.mapEntries fun _ => SetEntry.forget).entries ∧
      (c.maps.mapEntries fun _ => SetEntry.forget).entries.Perm
        (d.maps.mapEntries fun _ => SetEntry.forget).entries)
    ⟨fun ⟨ht, hc, hs, hm⟩ => ⟨ht, hc, hs, hm⟩, fun h => ⟨h.table, h.chains, h.sets, h.maps⟩⟩

theorem Alike.slot (h : c.Alike d) (p : Place) :
    (c.slot p).map p.shelf.unplaced = (d.slot p).map p.shelf.unplaced := by
  obtain ⟨k, name⟩ := p
  match k with
  | .chains =>
    have hfind := Catalog.find?_of_perm h.chains name
    rwa [Catalog.find?_mapEntries, Catalog.find?_mapEntries] at hfind
  | .containers .set =>
    have hfind := Catalog.find?_of_perm h.sets name
    rwa [Catalog.find?_mapEntries, Catalog.find?_mapEntries] at hfind
  | .containers .map =>
    have hfind := Catalog.find?_of_perm h.maps name
    rwa [Catalog.find?_mapEntries, Catalog.find?_mapEntries] at hfind

/-- Contents that are alike have the same lines. -/
theorem Alike.lines (h : c.Alike d) (target : Target) : c.lines target = d.lines target := by
  have htable : ∀ t : Table, t.line .add target = { t with handle := none }.line .add target :=
    fun _ => rfl
  refine lines_congr ?_ fun p => ?_
  · rw [htable c.table, h.table, ← htable]
  · have hlines := congrArg (Option.map (p.shelf.lines target)) (h.slot p)
    simpa only [Option.map_map, Function.comp_def, Shelf.lines_unplaced] using hlines

end Contents

namespace Store

/-- The dump of what was stored without line feeds in the table's name, in values and in texts of
objects. It ends with a line feed and has as many as there are objects stored. Each line so ended
adds something, the first one the table. And the dumps of two stores of one table are the same if
their contents are equal but for handles, the index of rules and the order in which chains, sets and
maps were added. -/
theorem dump_of_reachableBy :
    (∀ (s : Store) (c : Contents), s.ReachableBy Event.OneLine → Text.OneLine s.table →
      s.contents = some c →
        s.dump.toList.getLast? = some '\n' ∧
        s.dump.toList.count '\n'
          = 1 + c.chains.entries.length + (c.chains.entries.flatMap fun e => e.2.rules).length
            + c.sets.entries.length + (c.sets.entries.flatMap fun e => e.2.elements).length
            + c.maps.entries.length + (c.maps.entries.flatMap fun e => e.2.elements).length ∧
        (∀ line ∈ Text.splitLines s.dump.toList, "add ".toList <+: line) ∧
        (Text.splitLines s.dump.toList).head? = some (c.table.line .add s.target).toList) ∧
    ∀ s t : Store, s.family = t.family → s.table = t.table →
      Option.Rel Contents.Alike s.contents t.contents → s.dump = t.dump := by
  refine ⟨fun s c h htable hc => ?_, fun s t hfamily htable halike => ?_⟩
  · have hone := h.oneLine
    have ht : s.target.OneLine := by
      refine ⟨?_, htable⟩
      show Text.OneLine s.family.text
      cases s.family <;> decide
    have hadd := c.isAddLine_lines (hone.table c hc) (hone.entries c hc) ht
    have hsplit := Text.splitLines_join hadd
    rw [dump_of_contents hc]
    refine ⟨Text.getLast?_join hadd (List.cons_ne_nil _ _), ?_, fun line hline => ?_, ?_⟩
    · rw [Text.count_join hadd, c.length_lines]
    · rw [hsplit] at hline
      obtain ⟨text, htext, rfl⟩ := List.mem_map.1 hline
      obtain ⟨cs, hcs, -, hverb⟩ := (hadd text htext).toList_eq
      rw [hcs]
      exact hverb.trans (List.prefix_append _ _)
    · rw [hsplit, Contents.lines_eq]
      rfl
  · have htarget : s.target = t.target := by rw [target, target, hfamily, htable]
    cases hs : s.contents with
    | none =>
      rw [hs] at halike
      generalize ht : t.contents = contents at halike
      cases halike
      simp only [dump, hs, ht]
    | some c =>
      rw [hs] at halike
      generalize ht : t.contents = contents at halike
      cases halike with
      | some h => rw [dump_of_contents hs, dump_of_contents ht, h.lines, htarget]

end Store

/-- Chains, sets and maps of some names, in the order of these, each with something in it. The rules
are added at an index. -/
def naming (names : List String) (index : Int) : List Event :=
  [.define "HOST" "10.0.0.1",
   .run ⟨⟨.add, .table ⟨none, none, some "a \"table\"", none⟩⟩ :: names.flatMap fun name =>
     [⟨.add, .chain ⟨name, some "filter", some "input", none, none, some name, none⟩⟩,
      ⟨.add, .rule ⟨name, some "ip saddr $HOST drop", none, some index, none⟩⟩,
      ⟨.add, .set .set ⟨name, some "ipv4_addr", none, some ["interval", "timeout"], some (-1), none,
        some 0, none, some true, none, none⟩⟩,
      ⟨.add, .element ⟨name, "$HOST", none, none⟩⟩,
      ⟨.add, .set .map ⟨name, none, some "ip saddr : verdict", none, none, none, none, none, none,
        none, none⟩⟩,
      ⟨.add, .element ⟨name, "10.0.0.2", some "drop", some "gone"⟩⟩], none⟩]

/-- The store after it. -/
def named (names : List String) (index : Int) : Store :=
  (Store.new .inet "filter").replay (naming names index)

theorem dump_named :
    (named ["in", "out"] 0).ReachableBy Event.OneLine ∧
    Text.OneLine (named ["in", "out"] 0).table ∧
    (∃ c, (named ["in", "out"] 0).contents = some c) ∧
    (named ["in", "out"] 0).dump.toList.count '\n' = 13 ∧
    Option.Rel Contents.Alike (named ["in", "out"] 0).contents (named ["out", "in"] 7).contents ∧
    (named ["in", "out"] 0).dump = (named ["out", "in"] 7).dump := by
  have hevents : ∀ e ∈ naming ["in", "out"] 0, e.OneLine := by decide +kernel
  have hreach : (named ["in", "out"] 0).ReachableBy Event.OneLine :=
    (Store.ReachableBy.new .inet "filter").replay hevents
  have htable : Text.OneLine (named ["in", "out"] 0).table := by decide +kernel
  have hsize : (named ["in", "out"] 0).contents.map (fun c => 1 + c.chains.entries.length
      + (c.chains.entries.flatMap fun e => e.2.rules).length
      + c.sets.entries.length + (c.sets.entries.flatMap fun e => e.2.elements).length
      + c.maps.entries.length + (c.maps.entries.flatMap fun e => e.2.elements).length)
      = some 13 := by
    decide +kernel
  have hall : ∀ c ∈ (named ["in", "out"] 0).contents, ∀ d ∈ (named ["out", "in"] 7).contents,
      c.Alike d := by
    decide +kernel
  obtain ⟨c, hc, hcount⟩ := Option.map_eq_some_iff.1 hsize
  obtain ⟨d, hd⟩ := Option.isSome_iff_exists.1
    (by decide +kernel : (named ["out", "in"] 7).contents.isSome = true)
  have halike : Option.Rel Contents.Alike (named ["in", "out"] 0).contents
      (named ["out", "in"] 7).contents := by
    rw [hc, hd]
    exact .some (hall c hc d hd)
  have hdump := (Store.dump_of_reachableBy.1 _ c hreach htable hc).2.1
  exact ⟨hreach, htable, ⟨c, hc⟩, hdump.trans hcount, halike,
    Store.dump_of_reachableBy.2 _ _ (by decide +kernel) (by decide +kernel) halike⟩

end NftStore
