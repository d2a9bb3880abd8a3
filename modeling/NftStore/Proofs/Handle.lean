import NftStore.Proofs.Step
import Mathlib.Data.List.Perm.Subperm

/-!
Handles. Every handle in a store is a number that the count of handles has gone past, and no two
are the same: a new record gets the next number and goes behind those that are there. In which order
objects were added can so be read off their handles, and the table is the oldest of all.
-/
namespace NftStore

/-- Both handles are set, and the first is the smaller. -/
def Earlier (a b : Option Int) : Prop :=
  ∃ m n : Int, a = some m ∧ b = some n ∧ m < n

theorem Earlier.trans {a b d : Option Int} (h : Earlier a b) (h' : Earlier b d) : Earlier a d := by
  obtain ⟨m, n, rfl, rfl, hmn⟩ := h
  obtain ⟨n', k, hn, rfl, hk⟩ := h'
  cases hn
  exact ⟨m, k, rfl, rfl, by omega⟩

theorem Earlier.ne {a b : Option Int} (h : Earlier a b) : a ≠ b := by
  obtain ⟨m, n, rfl, rfl, hmn⟩ := h
  intro he
  cases he
  omega

theorem Earlier.mono {a : Option Int} {m n : Int} (h : Earlier a (some m)) (hmn : m ≤ n) :
    Earlier a (some n) := by
  obtain ⟨k, m', rfl, hm, hk⟩ := h
  cases hm
  exact ⟨k, n, rfl, rfl, by omega⟩

/-! ## The handles of contents -/

/-- The handle of a chain and the handles of its rules. -/
def ChainEntry.handles (entry : ChainEntry) : List (Option Int) :=
  entry.record.handle :: entry.rules.map Rule.handle

namespace Shelf

/-- The handle of the record of an entry. -/
def handle : (k : Shelf) → k.Entry → Option Int
  | chains, entry => entry.record.handle
  | containers _, entry => entry.record.handle

/-- All handles of an entry; elements have none. -/
def handles : (k : Shelf) → k.Entry → List (Option Int)
  | chains, entry => entry.handles
  | containers _, entry => [entry.record.handle]

end Shelf

namespace Contents

/-- The handles of the records of one catalog, in the order of its entries. -/
def recordHandles (c : Contents) (k : Shelf) : List (Option Int) :=
  (c.catalog k).entries.map fun e => k.handle e.2

/-- All handles in one catalog. -/
def handlesOn (c : Contents) (k : Shelf) : List (Option Int) :=
  (c.catalog k).entries.flatMap fun e => k.handles e.2

/-- The handles of all that is in the table: of chains, rules, sets and maps. -/
def innerHandles (c : Contents) : List (Option Int) :=
  Shelf.all.flatMap c.handlesOn

/-- The handle of the table and those of all that is in it. -/
def handles (c : Contents) : List (Option Int) :=
  c.table.handle :: c.innerHandles

end Contents

/-! ## What a step adds -/

/-- The handles that an operation may add, the number for a new object being given. -/
def Operation.newHandles (op : Operation) (number : Nat) : List (Option Int) :=
  if op.verb = .add then [some (number : Int)] else []

variable {op : Operation} {defines : Defines} {number : Nat}

theorem Operation.mem_newHandles {x : Option Int} :
    x ∈ op.newHandles number ↔ op.verb = .add ∧ x = some (number : Int) := by
  unfold newHandles
  split <;> simp [*]

theorem ChainEntry.Step.handles_sublist {old new : Option ChainEntry}
    (h : ChainEntry.Step op defines number old new) :
    (new.toList.flatMap ChainEntry.handles).Sublist
      (old.toList.flatMap ChainEntry.handles ++ op.newHandles number) := by
  cases h with
  | same slot => exact List.sublist_append_left _ _
  | fresh r hop => simp [hop, ChainEntry.handles, Chain.stored, Operation.newHandles]
  | emptied entry => simp [ChainEntry.handles, ChainEntry.emptied]
  | erased entry => simp
  | addRule entry r hop =>
    simp [hop, ChainEntry.handles, ChainEntry.addRule, Rule.stored, Operation.newHandles]
  | eraseRule entry handle =>
    have hs : (entry.rules.eraseP fun r => r.handle == some handle).Sublist entry.rules :=
      List.eraseP_sublist
    simpa [ChainEntry.handles, ChainEntry.eraseRule] using
      (hs.map Rule.handle).trans (List.sublist_append_left _ _)

theorem Shelf.Step.handles_sublist {k : Shelf} {old new : Option k.Entry}
    (h : k.Step op defines number old new) :
    (new.toList.flatMap k.handles).Sublist
      (old.toList.flatMap k.handles ++ op.newHandles number) := by
  cases k with
  | chains => exact ChainEntry.Step.handles_sublist h
  | containers kind =>
    cases h with
    | same slot => exact List.sublist_append_left _ _
    | fresh kind r hop => simp [hop, Shelf.handles, SetSpec.stored, Operation.newHandles]
    | emptied entry => simp [Shelf.handles, SetEntry.emptied]
    | erased entry => simp
    | put entry e hop => simp [Shelf.handles, SetEntry.put]
    | erase entry key => simp [Shelf.handles, SetEntry.erase]

/-- The record of an entry keeps its handle, and a new one gets the number. -/
theorem Shelf.Step.handle_sublist {k : Shelf} {old new : Option k.Entry}
    (h : k.Step op defines number old new) :
    (new.toList.map k.handle).Sublist (old.toList.map k.handle) ∨
      old = none ∧ (new.toList.map k.handle).Sublist (op.newHandles number) := by
  cases k with
  | chains =>
    cases h with
    | same slot => exact .inl (List.Sublist.refl _)
    | fresh r hop =>
      exact .inr ⟨rfl, by simp [hop, Shelf.handle, Chain.stored, Operation.newHandles]⟩
    | _ => left; simp [Shelf.handle, ChainEntry.emptied, ChainEntry.addRule, ChainEntry.eraseRule]
  | containers kind =>
    cases h with
    | same slot => exact .inl (List.Sublist.refl _)
    | fresh kind r hop =>
      exact .inr ⟨rfl, by simp [hop, Shelf.handle, SetSpec.stored, Operation.newHandles]⟩
    | _ => left; simp [Shelf.handle, SetEntry.emptied, SetEntry.put, SetEntry.erase]

namespace Contents

/-- A step puts at most the new number behind the handles of the records of a catalog. -/
theorem recordHandles_put {c : Contents} {p : Place} {slot : Option p.shelf.Entry}
    (h : p.shelf.Step op defines number (c.slot p) slot) (k : Shelf) :
    ((c.put p slot).recordHandles k).Sublist (c.recordHandles k ++ op.newHandles number) := by
  by_cases hk : k = p.shelf
  · subst hk
    obtain ⟨before, after, hput, hafter⟩ := (c.catalog p.shelf).exists_entries_put p.name
    have hold := hput (c.slot p)
    rw [Contents.slot, Catalog.put_find?, ← Contents.slot] at hold
    simp only [recordHandles, catalog_put_self, hold, hput slot, Catalog.inPlace, List.map_append,
      List.map_map, Function.comp_def]
    rcases h.handle_sublist with hs | ⟨hnone, hs⟩
    · exact (((List.Sublist.refl _).append hs).append (List.Sublist.refl _)).trans
        (List.sublist_append_left _ _)
    · -- a new entry stands at the end, so its number does too
      rw [hafter hnone, hnone]
      simpa using hs
  · simp only [recordHandles, c.catalog_put_of_ne hk slot]
    exact List.sublist_append_left _ _

/-- What is added to a part of a list is added to the list. -/
theorem subperm_part {new old added : List (Option Int)} (h : new.Subperm (added ++ old))
    (before after : List (Option Int)) :
    (before ++ new ++ after).Subperm (added ++ (before ++ old ++ after)) := by
  have hp : (before ++ (added ++ old) ++ after).Perm (added ++ (before ++ old ++ after)) := by
    simpa only [List.append_assoc] using List.perm_append_comm_assoc before added (old ++ after)
  exact (((List.subperm_append_left before).2 h).append (List.Subperm.refl after)).trans hp.subperm

/-- A step adds at most the new number to the handles in its catalog. -/
theorem handlesOn_put {c : Contents} {p : Place} {slot : Option p.shelf.Entry}
    (h : p.shelf.Step op defines number (c.slot p) slot) :
    ((c.put p slot).handlesOn p.shelf).Subperm (op.newHandles number ++ c.handlesOn p.shelf) := by
  obtain ⟨before, after, hput, -⟩ := (c.catalog p.shelf).exists_entries_put p.name
  have hold := hput (c.slot p)
  rw [Contents.slot, Catalog.put_find?, ← Contents.slot] at hold
  simp only [handlesOn, catalog_put_self, hold, hput slot, Catalog.inPlace, List.flatMap_append,
    List.flatMap_map]
  exact subperm_part (h.handles_sublist.subperm.trans List.perm_append_comm.subperm) _ _

theorem innerHandles_eq (c : Contents) :
    c.innerHandles
      = c.handlesOn .chains ++ c.handlesOn (.containers .set) ++ c.handlesOn (.containers .map) := by
  simp [innerHandles, Shelf.all]

/-- A step adds at most the new number to the handles of all that is in the table. -/
theorem innerHandles_put {c : Contents} {p : Place} {slot : Option p.shelf.Entry}
    (h : p.shelf.Step op defines number (c.slot p) slot) :
    (c.put p slot).innerHandles.Subperm (op.newHandles number ++ c.innerHandles) := by
  -- the other catalogs have the handles that they had
  have hp := handlesOn_put h
  obtain ⟨k, name⟩ := p
  have hne : ∀ l, l ≠ k → (c.put ⟨k, name⟩ slot).handlesOn l = c.handlesOn l := by
    intro l hl
    rw [handlesOn, catalog_put_of_ne c hl, handlesOn]
  rw [innerHandles_eq, innerHandles_eq]
  match k with
  | .chains =>
    rw [hne (.containers .set) (by decide), hne (.containers .map) (by decide)]
    simpa using subperm_part hp []
      (c.handlesOn (.containers .set) ++ c.handlesOn (.containers .map))
  | .containers .set =>
    rw [hne .chains (by decide), hne (.containers .map) (by decide)]
    exact subperm_part hp _ _
  | .containers .map =>
    rw [hne .chains (by decide), hne (.containers .set) (by decide)]
    simpa using subperm_part hp
      (c.handlesOn .chains ++ c.handlesOn (.containers .set)) []

theorem mem_innerHandles {c : Contents} {p : Place} {entry : p.shelf.Entry}
    (hp : c.slot p = some entry) {x : Option Int} (hx : x ∈ p.shelf.handles entry) :
    x ∈ c.innerHandles := by
  have he : (p.name, entry) ∈ (c.catalog p.shelf).entries := Catalog.find?_eq_some_iff.1 hp
  exact List.mem_flatMap.2 ⟨p.shelf, p.shelf.mem_all, List.mem_flatMap.2 ⟨_, he, hx⟩⟩

theorem mem_innerHandles_of_record {c : Contents} {k : Shelf} {x : Option Int}
    (hx : x ∈ c.recordHandles k) : x ∈ c.innerHandles := by
  obtain ⟨⟨name, entry⟩, he, rfl⟩ := List.mem_map.1 hx
  have hp : c.slot ⟨k, name⟩ = some entry := Catalog.find?_eq_some_iff.2 he
  refine mem_innerHandles hp ?_
  cases k with
  | chains => exact List.mem_cons_self
  | containers kind => exact List.mem_cons_self

end Contents

/-! ## The invariant -/

/-- The handles are numbers from one up to the last that was given, the table's the smallest, no two
of them are the same, and they grow along each chain and along each catalog. -/
structure Contents.Numbered (c : Contents) (last : Nat) : Prop where
  table_pos : Earlier (some 0) c.table.handle
  table_le : Earlier c.table.handle (some (last + 1))
  inner_gt : ∀ h ∈ c.innerHandles, Earlier c.table.handle h
  inner_le : ∀ h ∈ c.innerHandles, Earlier h (some (last + 1))
  nodup : c.innerHandles.Nodup
  records : ∀ k, (c.recordHandles k).Pairwise Earlier
  rules : ∀ name entry, c.chains.find? name = some entry → entry.handles.Pairwise Earlier

namespace Contents.Numbered

variable {c : Contents} {last : Nat}

theorem mono (h : c.Numbered last) {later : Nat} (hle : last ≤ later) : c.Numbered later where
  table_pos := h.table_pos
  table_le := h.table_le.mono (by omega)
  inner_gt := h.inner_gt
  inner_le := fun x hx => (h.inner_le x hx).mono (by omega)
  nodup := h.nodup
  records := h.records
  rules := h.rules

/-- A table without anything in it. -/
theorem fresh (s : Store) (t : Table) (h : 1 ≤ s.lastHandle) :
    (s.freshContents t).Numbered s.lastHandle where
  table_pos := ⟨0, s.lastHandle, rfl, rfl, by omega⟩
  table_le := ⟨s.lastHandle, _, rfl, rfl, by omega⟩
  inner_gt := fun x hx => by cases hx
  inner_le := fun x hx => by cases hx
  nodup := List.nodup_nil
  records := fun k => by
    match k with
    | .chains => exact List.Pairwise.nil
    | .containers .set => exact List.Pairwise.nil
    | .containers .map => exact List.Pairwise.nil
  rules := fun name entry he => by cases he

/-- A number that none of the handles reaches can follow them. -/
theorem pairwise_append {l : List (Option Int)} (h : l.Pairwise Earlier)
    (hlt : ∀ x ∈ l, Earlier x (some (last + 1))) (hnum : op.verb = .add → number = last + 1) :
    (l ++ op.newHandles number).Pairwise Earlier := by
  refine List.pairwise_append.2 ⟨h, ?_, fun x hx y hy => ?_⟩
  · unfold Operation.newHandles
    split <;> simp
  · obtain ⟨hadd, rfl⟩ := Operation.mem_newHandles.1 hy
    rw [hnum hadd]
    exact hlt x hx

theorem put_rules (h : c.Numbered last) {p : Place} {slot : Option p.shelf.Entry}
    (hstep : p.shelf.Step op defines number (c.slot p) slot)
    (hnum : op.verb = .add → number = last + 1) (name : String) (entry : ChainEntry)
    (he : (c.put p slot).chains.find? name = some entry) : entry.handles.Pairwise Earlier := by
  by_cases hq : (⟨.chains, name⟩ : Place) = p
  · subst hq
    obtain rfl : slot = some entry := (slot_put_self c ⟨.chains, name⟩ slot).symm.trans he
    have hl := hstep.handles_sublist
    cases hold : c.slot ⟨.chains, name⟩ with
    | none =>
      rw [hold] at hl
      have hp : ([] ++ op.newHandles number).Pairwise Earlier :=
        pairwise_append .nil (fun x hx => by cases hx) hnum
      exact hp.sublist (by simpa [Shelf.handles] using hl)
    | some old =>
      rw [hold] at hl
      have hp := pairwise_append (h.rules name old hold)
        (fun x hx => h.inner_le x (mem_innerHandles hold hx)) hnum
      exact hp.sublist (by simpa [Shelf.handles] using hl)
  · exact h.rules name entry ((slot_put_of_ne c hq slot).symm.trans he)

/-- A step at a place keeps the invariant, with the count that the step leads to. -/
theorem put (h : c.Numbered last) {p : Place} {slot : Option p.shelf.Entry}
    (hstep : p.shelf.Step op defines number (c.slot p) slot) (hle : last ≤ number)
    (hnum : op.verb = .add → number = last + 1) : (c.put p slot).Numbered number := by
  have hsub := innerHandles_put hstep
  have hmem : ∀ x ∈ (c.put p slot).innerHandles,
      x ∈ c.innerHandles ∨ x = some (number : Int) ∧ number = last + 1 := by
    intro x hx
    rcases List.mem_append.1 (hsub.subset hx) with hx | hx
    · obtain ⟨hadd, rfl⟩ := Operation.mem_newHandles.1 hx
      exact .inr ⟨rfl, hnum hadd⟩
    · exact .inl hx
  refine ⟨?_, ?_, ?_, ?_, ?_, ?_, put_rules h hstep hnum⟩
  · simpa using h.table_pos
  · simpa using h.table_le.mono (by omega)
  · intro x hx
    rw [table_put]
    rcases hmem x hx with hx | ⟨rfl, hn⟩
    · exact h.inner_gt x hx
    · exact h.table_le.mono (by omega)
  · intro x hx
    rcases hmem x hx with hx | ⟨rfl, hn⟩
    · exact (h.inner_le x hx).mono (by omega)
    · exact ⟨number, _, rfl, rfl, by omega⟩
  · obtain ⟨l, hperm, hl⟩ := hsub
    refine hperm.nodup_iff.1 (List.Nodup.sublist hl ?_)
    refine List.nodup_append.2 ⟨?_, h.nodup, ?_⟩
    · unfold Operation.newHandles
      split <;> simp
    · -- no handle in the table has reached the new number
      intro x hx y hy hxy
      obtain ⟨hadd, rfl⟩ := Operation.mem_newHandles.1 hx
      have hnext : number = last + 1 := hnum hadd
      have hlt : (last : Int) + 1 ≤ number := by omega
      exact ((h.inner_le y hy).mono hlt).ne hxy.symm
  · intro k
    exact (pairwise_append (h.records k)
      (fun x hx => h.inner_le x (mem_innerHandles_of_record hx)) hnum).sublist
      (recordHandles_put hstep k)

end Contents.Numbered

namespace Store

/-- What is stored is numbered up to the count of handles. -/
def Numbered (s : Store) : Prop :=
  ∀ c, s.contents = some c → c.Numbered s.lastHandle

theorem Numbered.step {s s' : Store} (h : s.Numbered) (hs : s.Step op s') : s'.Numbered := by
  intro c' hc'
  cases hs with
  | noTable hc => exact h c' hc'
  | tableAdded t hc hop =>
    cases hc'
    exact .fresh (s.tick .add) t (by simp [lastHandle_tick, Verb.makes])
  | unchanged c hc => exact (h c' (by simpa using hc')).mono (s.lastHandle_le_tick _)
  | tableFlushed t c hc =>
    -- the table takes over the last number that was given, and one was given to the table before
    cases hc'
    obtain ⟨m, n, hm, hn, hmn⟩ := (h c hc).table_pos
    obtain ⟨n', k, hn', hk, hnk⟩ := (h c hc).table_le
    cases hm
    cases hk
    cases hn.symm.trans hn'
    exact .fresh s t (by omega)
  | tableDeleted c hc => cases hc'
  | placed c p slot hc hp hslot =>
    cases hc'
    refine (h c hc).put hslot (s.lastHandle_le_tick _) fun hadd => ?_
    simp [lastHandle_tick, hadd, Verb.makes]

theorem Reachable.isNumbered {s : Store} (h : Reachable s) : s.Numbered :=
  Reachable.of_steps (fun f t c hc => by cases hc) (fun s name value hs => hs)
    (fun s op s' hs hstep => hs.step hstep) h

end Store

/-! ## The handles of a reachable store -/

/-- Whatever a client did and whatever handles it gave, what is stored has handles of its own: all
are set and lie between one and the count of handles, no two are the same, the table's is the
smallest, and they grow along the rules of each chain, from the chain's own on, and along the
chains, the sets and the maps in the order in which these were added. -/
theorem Store.handles_of_reachable {s : Store} (h : s.Reachable) {c : Contents}
    (hc : s.contents = some c) :
    (∀ x ∈ c.handles, ∃ n : Nat, x = some (n : Int) ∧ 1 ≤ n ∧ n ≤ s.lastHandle) ∧
    c.handles.Nodup ∧
    (∀ x ∈ c.innerHandles, Earlier c.table.handle x) ∧
    (∀ name entry, c.chains.find? name = some entry → entry.handles.Pairwise Earlier) ∧
    ∀ k, (c.recordHandles k).Pairwise Earlier := by
  have hn := h.isNumbered c hc
  refine ⟨?_, ?_, hn.inner_gt, hn.rules, hn.records⟩
  · intro x hx
    have hbounds : Earlier (some 0) x ∧ Earlier x (some (s.lastHandle + 1)) := by
      rcases List.mem_cons.1 hx with rfl | hx
      · exact ⟨hn.table_pos, hn.table_le⟩
      · exact ⟨hn.table_pos.trans (hn.inner_gt x hx), hn.inner_le x hx⟩
    obtain ⟨⟨m, n, hm, rfl, hmn⟩, ⟨n', k, hn', hk, hnk⟩⟩ := hbounds
    cases hm
    cases hn'
    cases hk
    exact ⟨n.toNat, by rw [Int.toNat_of_nonneg (by omega)], by omega, by omega⟩
  · exact List.nodup_cons.2 ⟨fun hx => (hn.inner_gt _ hx).ne rfl, hn.nodup⟩

/-- A history with a table that is flushed on the way, objects that come with handles, a chain that
is deleted and added again, and runs that fail. -/
def refilling : List Event :=
  [.run ⟨[⟨.add, .table ⟨none, none, some "old", some 77⟩⟩,
      ⟨.add, .chain ⟨"in", none, none, none, none, none, some 2⟩⟩,
      ⟨.add, .rule ⟨"in", some "drop", none, none, none⟩⟩,
      ⟨.create, .rule ⟨"in", some "accept", none, none, none⟩⟩], none⟩,
   .define "PORT" "80",
   .run ⟨[⟨.flush, .table ⟨none, none, some "new", some 1⟩⟩,
      ⟨.add, .chain ⟨"out", none, none, none, none, none, some 4⟩⟩,
      ⟨.add, .chain ⟨"in", none, none, none, none, none, some 4⟩⟩,
      ⟨.add, .rule ⟨"in", some "tcp dport $PORT accept", none, some 0, none⟩⟩,
      ⟨.add, .rule ⟨"out", some "accept", none, none, none⟩⟩,
      ⟨.add, .set .set ⟨"in", some "ipv4_addr", none, none, none, none, none, none, none, none,
        some 6⟩⟩,
      ⟨.delete, .chain ⟨"out", none, none, none, none, none, some 5⟩⟩,
      ⟨.add, .chain ⟨"out", none, none, none, none, none, none⟩⟩,
      ⟨.add, .rule ⟨"in", some "drop", none, none, none⟩⟩,
      ⟨.add, .rule ⟨"none", some "drop", none, none, none⟩⟩], none⟩]

/-- The table that `refilling` leaves. -/
def refilled : Contents where
  table := ⟨some "inet", some "filter", some "new", some 4⟩
  chains := ⟨[("in", ⟨⟨"in", none, none, none, none, none, some 6⟩,
      [⟨"in", some "tcp dport 80 accept", none, some 0, some 7⟩,
       ⟨"in", some "drop", none, none, some 11⟩]⟩),
    ("out", ⟨⟨"out", none, none, none, none, none, some 10⟩, []⟩)], by decide⟩
  sets := ⟨[("in", ⟨⟨"in", some "ipv4_addr", none, none, none, none, none, none, none, none,
    some 9⟩, []⟩)], by decide⟩
  maps := .empty

theorem handles_of_refilled :
    ((Store.new .inet "filter").replay refilling).Reachable ∧
    ((Store.new .inet "filter").replay refilling).contents = some refilled ∧
    (∀ x ∈ refilled.handles, ∃ n : Nat, x = some (n : Int) ∧ 1 ≤ n ∧
      n ≤ ((Store.new .inet "filter").replay refilling).lastHandle) ∧
    refilled.handles.Nodup ∧
    (∀ x ∈ refilled.innerHandles, Earlier refilled.table.handle x) ∧
    (∀ name entry, refilled.chains.find? name = some entry → entry.handles.Pairwise Earlier) ∧
    ∀ k, (refilled.recordHandles k).Pairwise Earlier := by
  have h : ((Store.new .inet "filter").replay refilling).Reachable :=
    (Store.Reachable.new .inet "filter").replay refilling
  have hc : ((Store.new .inet "filter").replay refilling).contents = some refilled := by
    decide +kernel
  exact ⟨h, hc, Store.handles_of_reachable h hc⟩

end NftStore
