/-!
Catalogs: entries under distinct names, in the order in which they were added. Adding under a
taken name changes nothing, an entry that is erased and added again goes to the end, and changing
an entry keeps its place.
-/
namespace NftStore

/-- Entries under distinct names, the oldest first. -/
structure Catalog (α : Type) where
  entries : List (String × α)
  nodup : (entries.map Prod.fst).Nodup

namespace Catalog

variable {α β : Type}

@[ext] theorem ext {c d : Catalog α} (h : c.entries = d.entries) : c = d := by
  cases c; cases d; cases h; rfl

instance [DecidableEq α] : DecidableEq (Catalog α) := fun c d =>
  decidable_of_iff (c.entries = d.entries) ⟨ext, fun h => h ▸ rfl⟩

/-- The catalog without entries. -/
def empty : Catalog α := ⟨[], List.nodup_nil⟩

instance : Inhabited (Catalog α) := ⟨empty⟩

/-- The names, the oldest first. -/
def names (c : Catalog α) : List String :=
  c.entries.map Prod.fst

/-- The entry under a name. -/
def find? (c : Catalog α) (name : String) : Option α :=
  c.entries.lookup name

/-- There is an entry under the name. -/
def contains (c : Catalog α) (name : String) : Bool :=
  c.names.contains name

theorem contains_iff {c : Catalog α} {name : String} :
    c.contains name = true ↔ name ∈ c.names := by
  simp [contains]

/-- Adds an entry at the end, unless the name is taken. -/
def add (c : Catalog α) (name : String) (a : α) : Catalog α :=
  if h : name ∈ c.names then c
  else
    ⟨c.entries ++ [(name, a)], by
      simpa [List.nodup_append, c.nodup, names] using fun b a hb (e : b = name) =>
        h (e ▸ List.mem_map_of_mem (f := Prod.fst) hb)⟩

/-- Erases the entry under a name. -/
def erase (c : Catalog α) (name : String) : Catalog α :=
  ⟨c.entries.filter fun e => e.1 != name,
   (List.filter_sublist.map Prod.fst).nodup c.nodup⟩

/-- Changes every entry and keeps names and places. -/
def mapEntries (c : Catalog α) (f : String → α → β) : Catalog β :=
  ⟨c.entries.map fun e => (e.1, f e.1 e.2), by
    simpa [Function.comp_def] using c.nodup⟩

/-- Changes the entry under a name, in its place. -/
def modify (c : Catalog α) (name : String) (f : α → α) : Catalog α :=
  c.mapEntries fun n a => if n = name then f a else a

/-- The entries in the order of their names. -/
def sorted (c : Catalog α) : List (String × α) :=
  c.entries.mergeSort fun e e' => e.1 ≤ e'.1

@[simp] theorem names_empty : (empty : Catalog α).names = [] := rfl

theorem add_of_mem {c : Catalog α} {name : String} (h : name ∈ c.names) (a : α) :
    c.add name a = c := by
  simp [add, h]

theorem entries_add_of_not_mem {c : Catalog α} {name : String} (h : name ∉ c.names) (a : α) :
    (c.add name a).entries = c.entries ++ [(name, a)] := by
  simp [add, h]

theorem names_add_of_not_mem {c : Catalog α} {name : String} (h : name ∉ c.names) (a : α) :
    (c.add name a).names = c.names ++ [name] := by
  simp [names, entries_add_of_not_mem h]

@[simp] theorem names_mapEntries (c : Catalog α) (f : String → α → β) :
    (c.mapEntries f).names = c.names := by
  simp [names, mapEntries]

@[simp] theorem names_modify (c : Catalog α) (name : String) (f : α → α) :
    (c.modify name f).names = c.names :=
  names_mapEntries c _

/-! What a look-up finds after each operation. -/

theorem lookup_cons_of_ne {name key : String} (h : name ≠ key) (a : α) (l : List (String × α)) :
    ((key, a) :: l).lookup name = l.lookup name := by
  have hb : (name == key) = false := by simpa using h
  rw [List.lookup_cons, hb]

theorem lookup_eq_none_iff_not_mem {l : List (String × α)} {name : String} :
    l.lookup name = none ↔ name ∉ l.map Prod.fst := by
  induction l with
  | nil => simp
  | cons e l ih =>
    obtain ⟨key, a⟩ := e
    by_cases h : name = key
    · simp [h]
    · simp [lookup_cons_of_ne h, ih, h]

theorem lookup_map (l : List (String × α)) (f : String → α → β) (name : String) :
    (l.map fun e => (e.1, f e.1 e.2)).lookup name = (l.lookup name).map (f name) := by
  induction l with
  | nil => rfl
  | cons e l ih =>
    obtain ⟨key, a⟩ := e
    by_cases h : name = key
    · subst h
      simp
    · rw [List.map_cons, lookup_cons_of_ne h, lookup_cons_of_ne h, ih]

theorem lookup_filter (l : List (String × α)) (p : String → Bool) (name : String) :
    (l.filter fun e => p e.1).lookup name = if p name then l.lookup name else none := by
  induction l with
  | nil => simp
  | cons e l ih =>
    obtain ⟨key, a⟩ := e
    by_cases hn : name = key
    · subst hn
      by_cases hp : p name = true
      · simp [hp]
      · simp [hp, ih]
    · by_cases hp : p key = true
      · simp [hp, lookup_cons_of_ne hn, ih]
      · simp [hp, lookup_cons_of_ne hn, ih]

theorem find?_eq_none_iff {c : Catalog α} {name : String} :
    c.find? name = none ↔ name ∉ c.names :=
  lookup_eq_none_iff_not_mem

theorem isSome_find? (c : Catalog α) (name : String) :
    (c.find? name).isSome = c.contains name := by
  rw [Bool.eq_iff_iff, contains_iff, Option.isSome_iff_ne_none, ne_eq, find?_eq_none_iff,
    Classical.not_not]

@[simp] theorem find?_empty (name : String) : (empty : Catalog α).find? name = none := rfl

theorem find?_add_of_not_mem {c : Catalog α} {name : String} (h : name ∉ c.names) (a : α)
    (other : String) :
    (c.add name a).find? other = if other = name then some a else c.find? other := by
  unfold find?
  rw [entries_add_of_not_mem h, List.lookup_append]
  by_cases hn : other = name
  · subst hn
    simp [lookup_eq_none_iff_not_mem.2 h]
  · rw [lookup_cons_of_ne hn]
    simp [hn]

/-- What is added first under a name stays. -/
theorem find?_add (c : Catalog α) (name : String) (a : α) (other : String) :
    (c.add name a).find? other
      = if other = name then some ((c.find? name).getD a) else c.find? other := by
  by_cases h : name ∈ c.names
  · obtain ⟨b, hb⟩ := Option.ne_none_iff_exists'.1 fun hn => find?_eq_none_iff.1 hn h
    rw [add_of_mem h]
    by_cases ho : other = name
    · simp [ho, hb]
    · simp [ho]
  · rw [find?_add_of_not_mem h, find?_eq_none_iff.2 h]
    rfl

theorem find?_erase (c : Catalog α) (name other : String) :
    (c.erase name).find? other = if other = name then none else c.find? other := by
  show (c.entries.filter fun e => e.1 != name).lookup other = _
  rw [lookup_filter c.entries fun key => key != name]
  by_cases h : other = name
  · simp [h]
  · simp [h, find?]

theorem find?_mapEntries (c : Catalog α) (f : String → α → β) (name : String) :
    (c.mapEntries f).find? name = (c.find? name).map (f name) :=
  lookup_map c.entries f name

theorem find?_modify (c : Catalog α) (name : String) (f : α → α) (other : String) :
    (c.modify name f).find? other
      = if other = name then (c.find? other).map f else c.find? other := by
  rw [modify, find?_mapEntries]
  by_cases h : other = name
  · simp [h]
  · simp [h]

theorem sorted_perm (c : Catalog α) : c.sorted.Perm c.entries :=
  List.mergeSort_perm ..

end Catalog

end NftStore
