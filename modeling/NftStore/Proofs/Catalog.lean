import NftStore.Catalog
import Mathlib.Data.List.Nodup

/-!
Catalogs name by name. Under a name a catalog has a slot: an entry, or nothing. Every change of a
catalog puts something in one slot, which is said here once for look-ups, for the list of entries
and for the sorted list.
-/
namespace NftStore.Catalog

variable {α β : Type}

/-! ## Entries and look-ups -/

theorem lookup_eq_some_iff {l : List (String × α)} (h : (l.map Prod.fst).Nodup) {name : String}
    {a : α} : l.lookup name = some a ↔ (name, a) ∈ l := by
  induction l with
  | nil => simp
  | cons e l ih =>
    obtain ⟨key, b⟩ := e
    simp only [List.map_cons, List.nodup_cons] at h
    by_cases hk : name = key
    · subst hk
      have hl : (name, a) ∉ l := fun ha => h.1 (List.mem_map_of_mem (f := Prod.fst) ha)
      simp [hl, eq_comm]
    · simp [lookup_cons_of_ne hk, ih h.2, hk]

theorem find?_eq_some_iff {c : Catalog α} {name : String} {a : α} :
    c.find? name = some a ↔ (name, a) ∈ c.entries :=
  lookup_eq_some_iff c.nodup

theorem nodup_entries (c : Catalog α) : c.entries.Nodup :=
  List.Nodup.of_map Prod.fst c.nodup

theorem not_mem_names_empty (name : String) : name ∉ (empty : Catalog α).names :=
  List.not_mem_nil

/-- Two catalogs with the same look-ups have the same entries, perhaps in another order. -/
theorem entries_perm {c d : Catalog α} (h : ∀ name, c.find? name = d.find? name) :
    c.entries.Perm d.entries := by
  rw [List.perm_ext_iff_of_nodup c.nodup_entries d.nodup_entries]
  rintro ⟨name, a⟩
  rw [← find?_eq_some_iff, ← find?_eq_some_iff, h]

/-- And the other way round: the order of the entries plays no part in look-ups. -/
theorem find?_of_perm {c d : Catalog α} (h : c.entries.Perm d.entries) (name : String) :
    c.find? name = d.find? name := by
  ext a
  rw [find?_eq_some_iff, find?_eq_some_iff, h.mem_iff]

/-! ## Sorted entries -/

theorem mem_sorted {c : Catalog α} {e : String × α} : e ∈ c.sorted ↔ e ∈ c.entries :=
  List.mem_mergeSort

theorem nodup_sorted (c : Catalog α) : (c.sorted.map Prod.fst).Nodup :=
  (c.sorted_perm.map Prod.fst).nodup_iff.2 c.nodup

theorem pairwise_sorted (c : Catalog α) : c.sorted.Pairwise fun e e' => e.1 ≤ e'.1 := by
  -- sorting asks for an order that is transitive and total
  have trans : ∀ a b d : String × α, decide (a.1 ≤ b.1) → decide (b.1 ≤ d.1) →
      decide (a.1 ≤ d.1) := by
    intro a b d hab hbd
    simp only [decide_eq_true_eq] at hab hbd ⊢
    exact String.le_trans hab hbd
  have total : ∀ a b : String × α, decide (a.1 ≤ b.1) || decide (b.1 ≤ a.1) := by
    intro a b
    simpa using String.le_total a.1 b.1
  refine (List.pairwise_mergeSort trans total c.entries).imp ?_
  intro e e' he
  simpa using he

/-- The sorted entries are settled by the look-ups, whatever the order of the entries. -/
theorem sorted_congr {c d : Catalog α} (h : ∀ name, c.find? name = d.find? name) :
    c.sorted = d.sorted := by
  refine List.Perm.eq_of_pairwise ?_ c.pairwise_sorted d.pairwise_sorted
    (c.sorted_perm.trans ((entries_perm h).trans d.sorted_perm.symm))
  -- of two entries in either order, the name is the same and so is what is looked up under it
  rintro ⟨name, a⟩ ⟨other, b⟩ ha hb hle hge
  obtain rfl : name = other := String.le_antisymm hle hge
  rw [mem_sorted, ← find?_eq_some_iff] at ha hb
  rw [h] at ha
  cases ha.symm.trans hb
  rfl

/-- The names in order are those under which something is found. -/
theorem mem_sorted_names {c : Catalog α} {name : String} :
    name ∈ c.sorted.map Prod.fst ↔ (c.find? name).isSome := by
  rw [(c.sorted_perm.map Prod.fst).mem_iff, isSome_find?, contains_iff]
  rfl

theorem sorted_mapEntries (c : Catalog α) (f : String → α → β) :
    (c.mapEntries f).sorted = c.sorted.map fun e => (e.1, f e.1 e.2) := by
  symm
  exact List.map_mergeSort fun _ _ _ _ => rfl

/-! ## Changes of an entry in its place -/

theorem mem_names_of_find? {c : Catalog α} {name : String} {a : α} (h : c.find? name = some a) :
    name ∈ c.names :=
  List.mem_map_of_mem (f := Prod.fst) (find?_eq_some_iff.1 h)

/-- Only what a change makes of the entry under the name matters. -/
theorem modify_congr {c : Catalog α} {name : String} {f g : α → α}
    (h : ∀ a, c.find? name = some a → f a = g a) : c.modify name f = c.modify name g := by
  ext1
  refine List.map_congr_left fun e he => ?_
  by_cases hn : e.1 = name
  · simp [hn, h e.2 (find?_eq_some_iff.2 (hn ▸ he))]
  · simp [hn]

theorem modify_id (c : Catalog α) (name : String) : c.modify name id = c := by
  ext1
  simp [modify, mapEntries]

theorem modify_modify (c : Catalog α) (name : String) (f g : α → α) :
    (c.modify name f).modify name g = c.modify name fun a => g (f a) := by
  ext1
  show (c.entries.map _).map _ = c.entries.map _
  rw [List.map_map]
  refine List.map_congr_left fun e _ => ?_
  by_cases hn : e.1 = name <;> simp [hn]

theorem modify_of_not_mem {c : Catalog α} {name : String} (h : name ∉ c.names) (f : α → α) :
    c.modify name f = c :=
  (modify_congr fun _ ha => absurd (mem_names_of_find? ha) h).trans (c.modify_id name)

theorem modify_add_of_not_mem {c : Catalog α} {name : String} (h : name ∉ c.names) (a : α)
    (f : α → α) : (c.add name a).modify name f = c.add name (f a) := by
  have hold : (c.modify name f).entries = c.entries := by rw [modify_of_not_mem h]
  apply Catalog.ext
  rw [entries_add_of_not_mem h, ← hold]
  show ((c.add name a).entries.map fun e => (e.1, if e.1 = name then f e.2 else e.2)) = _
  rw [entries_add_of_not_mem h, List.map_append]
  simp [modify, mapEntries]

theorem erase_of_not_mem {c : Catalog α} {name : String} (h : name ∉ c.names) :
    c.erase name = c := by
  ext1
  refine List.filter_eq_self.2 fun e he => ?_
  have hn : e.1 ≠ name := fun hn => h (hn ▸ List.mem_map_of_mem (f := Prod.fst) he)
  simpa using hn

/-! ## Putting something in a slot -/

/-- The catalog with something else under a name. An entry that takes the place of another keeps
that place, and a new one goes to the end. -/
def put (c : Catalog α) (name : String) : Option α → Catalog α
  | none => c.erase name
  | some a => (c.modify name fun _ => a).add name a

theorem put_none (c : Catalog α) (name : String) : c.put name none = c.erase name := rfl

theorem put_some_of_mem {c : Catalog α} {name : String} (h : name ∈ c.names) (a : α) :
    c.put name (some a) = c.modify name fun _ => a :=
  add_of_mem (by simpa only [names_modify] using h) a

theorem put_some_of_not_mem {c : Catalog α} {name : String} (h : name ∉ c.names) (a : α) :
    c.put name (some a) = c.add name a := by
  rw [put, modify_of_not_mem h]

theorem modify_eq_put {c : Catalog α} {name : String} {a : α} (h : c.find? name = some a)
    (f : α → α) : c.modify name f = c.put name (some (f a)) := by
  rw [put_some_of_mem (mem_names_of_find? h)]
  refine modify_congr fun b hb => ?_
  rw [Option.some.inj (h.symm.trans hb)]

/-- Putting back what is there changes nothing. -/
theorem put_find? (c : Catalog α) (name : String) : c.put name (c.find? name) = c := by
  cases hf : c.find? name with
  | none => exact erase_of_not_mem (find?_eq_none_iff.1 hf)
  | some a => rw [← id_eq a, ← modify_eq_put hf id, modify_id]

theorem find?_put (c : Catalog α) (name : String) (slot : Option α) (other : String) :
    (c.put name slot).find? other = if other = name then slot else c.find? other := by
  cases slot with
  | none => exact c.find?_erase name other
  | some a =>
    by_cases h : name ∈ c.names
    · rw [put_some_of_mem h, find?_modify]
      obtain ⟨b, hb⟩ := Option.ne_none_iff_exists'.1 fun hn => find?_eq_none_iff.1 hn h
      by_cases ho : other = name
      · simp [ho, hb]
      · simp [ho]
    · rw [put_some_of_not_mem h, find?_add_of_not_mem h]

@[simp] theorem find?_put_self (c : Catalog α) (name : String) (slot : Option α) :
    (c.put name slot).find? name = slot := by
  simp [find?_put]

theorem find?_put_of_ne (c : Catalog α) {name other : String} (h : other ≠ name)
    (slot : Option α) : (c.put name slot).find? other = c.find? other := by
  simp [find?_put, h]

/-- The entries of all other names stay what they are, and in their order. -/
theorem erase_put (c : Catalog α) (name : String) (slot : Option α) :
    (c.put name slot).erase name = c.erase name := by
  ext1
  show (c.put name slot).entries.filter (fun e => e.1 != name) = _
  cases slot with
  | none => simp [put_none, erase]
  | some a =>
    by_cases h : name ∈ c.names
    · rw [put_some_of_mem h]
      show ((c.entries.map _).filter _) = c.entries.filter _
      rw [List.filter_map]
      refine (List.map_congr_left fun e he => ?_).trans (List.map_id _)
      have hn : e.1 ≠ name := by simpa using (List.mem_filter.1 he).2
      simp [hn]
    · rw [put_some_of_not_mem h, entries_add_of_not_mem h, List.filter_append]
      simp [erase]

/-- An entry that is put in a slot leaves no trace once something else is in it. -/
theorem put_put_some (c : Catalog α) (name : String) (a : α) (slot : Option α) :
    (c.put name (some a)).put name slot = c.put name slot := by
  cases slot with
  | none => exact c.erase_put name (some a)
  | some b =>
    have hmem : name ∈ (c.put name (some a)).names :=
      mem_names_of_find? (c.find?_put_self name (some a))
    rw [put_some_of_mem hmem]
    by_cases h : name ∈ c.names
    · rw [put_some_of_mem h, put_some_of_mem h, modify_modify]
    · rw [put_some_of_not_mem h, put_some_of_not_mem h, modify_add_of_not_mem h]

/-- Changing every entry and putting one in its slot can be done in either order. -/
theorem mapEntries_put (c : Catalog α) (f : String → α → β) (name : String) (slot : Option α) :
    (c.mapEntries f).put name (slot.map (f name)) = (c.put name slot).mapEntries f := by
  ext1
  cases slot with
  | none => simp [put_none, erase, mapEntries, List.filter_map, Function.comp_def]
  | some a =>
    by_cases h : name ∈ c.names
    · have hmap : name ∈ (c.mapEntries f).names := by rwa [names_mapEntries]
      rw [Option.map_some, put_some_of_mem hmap, put_some_of_mem h]
      simp only [modify, mapEntries, List.map_map]
      refine List.map_congr_left fun e _ => ?_
      by_cases hn : e.1 = name <;> simp [hn]
    · have hmap : name ∉ (c.mapEntries f).names := by rwa [names_mapEntries]
      rw [Option.map_some, put_some_of_not_mem hmap, put_some_of_not_mem h,
        entries_add_of_not_mem hmap]
      simp [mapEntries, entries_add_of_not_mem h]

/-- What is in a slot, as a part of the list of entries. -/
def inPlace (name : String) (slot : Option α) : List (String × α) :=
  slot.toList.map (Prod.mk name)

/-- Around the slot of a name the entries stay what they are, and nothing stands behind the slot of
a name that is not taken. -/
theorem exists_entries_put (c : Catalog α) (name : String) : ∃ before after,
    (∀ slot, (c.put name slot).entries = before ++ inPlace name slot ++ after) ∧
    (c.find? name = none → after = []) := by
  cases hf : c.find? name with
  | none =>
    have hn : name ∉ c.names := find?_eq_none_iff.1 hf
    refine ⟨c.entries, [], ?_, fun _ => rfl⟩
    rintro (_ | a)
    · simp [put_none, erase_of_not_mem hn, inPlace]
    · simp [put_some_of_not_mem hn, entries_add_of_not_mem hn, inPlace]
  | some b =>
    obtain ⟨before, after, he⟩ := List.append_of_mem (find?_eq_some_iff.1 hf)
    have hd := c.nodup
    simp only [he, List.map_append, List.map_cons, List.nodup_append, List.nodup_cons] at hd
    -- no entry but the one in the middle has the name, so that only this one changes
    have hb : ∀ e ∈ before, e.1 ≠ name := fun e h =>
      hd.2.2 _ (List.mem_map_of_mem h) _ List.mem_cons_self
    have ha : ∀ e ∈ after, e.1 ≠ name := fun e h hn =>
      hd.2.1.1 (hn ▸ List.mem_map_of_mem (f := Prod.fst) h)
    refine ⟨before, after, ?_, fun h => by simp at h⟩
    rintro (_ | a)
    · have hfb : before.filter (fun e => e.1 != name) = before :=
        List.filter_eq_self.2 fun e h => by simpa using hb e h
      have hfa : after.filter (fun e => e.1 != name) = after :=
        List.filter_eq_self.2 fun e h => by simpa using ha e h
      simp [put_none, erase, he, hfb, hfa, inPlace]
    · have hmb : before.map (fun e => (e.1, if e.1 = name then a else e.2)) = before :=
        (List.map_congr_left fun e h => by simp [hb e h]).trans (List.map_id _)
      have hma : after.map (fun e => (e.1, if e.1 = name then a else e.2)) = after :=
        (List.map_congr_left fun e h => by simp [ha e h]).trans (List.map_id _)
      simp [put_some_of_mem (mem_names_of_find? hf), modify, mapEntries, he, hmb, hma, inPlace]

end NftStore.Catalog
