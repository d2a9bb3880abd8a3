import NftStore.Proofs.Trace
import NftStore.Store.Dump

/-!
The lines of a dump, place by place. A dump goes through the places of the table in the order of
the catalogs and of the names in them, so it is settled by the lines of each slot; and no line shows
a handle.
-/
namespace NftStore

/-! ## The places of a table in order -/

namespace Contents

variable {β : Type}

/-- The places where something is stored, in the order of a dump. -/
def places (c : Contents) : List Place :=
  Shelf.all.flatMap fun k => (c.catalog k).sorted.map fun e => ⟨k, e.1⟩

theorem mem_places {c : Contents} {p : Place} : p ∈ c.places ↔ (c.slot p).isSome := by
  constructor
  · intro h
    obtain ⟨k, -, hk⟩ := List.mem_flatMap.1 h
    obtain ⟨e, he, rfl⟩ := List.mem_map.1 hk
    have hp : c.slot ⟨k, e.1⟩ = some e.2 :=
      Catalog.find?_eq_some_iff.2 (Catalog.mem_sorted.1 he)
    rw [hp]
    rfl
  · intro h
    obtain ⟨entry, hp⟩ := Option.isSome_iff_exists.1 h
    have he : (p.name, entry) ∈ (c.catalog p.shelf).sorted :=
      Catalog.mem_sorted.2 (Catalog.find?_eq_some_iff.1 hp)
    exact List.mem_flatMap.2 ⟨p.shelf, p.shelf.mem_all, List.mem_map.2 ⟨_, he, rfl⟩⟩

theorem nodup_places (c : Contents) : c.places.Nodup := by
  refine List.nodup_flatMap.2 ⟨fun k _ => ?_, ?_⟩
  · have hn := (c.catalog k).nodup_sorted.map (f := Place.mk k) fun a b hab => by cases hab; rfl
    rwa [List.map_map] at hn
  · have hall : Shelf.all.Nodup := by decide
    refine hall.imp fun {k l} hkl p hp hq => hkl ?_
    obtain ⟨e, -, rfl⟩ := List.mem_map.1 hp
    obtain ⟨e', -, he⟩ := List.mem_map.1 hq
    exact (congrArg Place.shelf he).symm

/-- The places only depend on which slots are filled. -/
theorem places_congr {c d : Contents} (h : ∀ p, (c.slot p).isSome = (d.slot p).isSome) :
    c.places = d.places := by
  -- with the entries blotted out, the look-ups are the same
  have hnames : ∀ (a : Contents) (k : Shelf), ((a.catalog k).sorted.map fun e => Place.mk k e.1)
      = ((a.catalog k).mapEntries fun _ _ => ()).sorted.map fun e => Place.mk k e.1 := by
    intro a k
    rw [Catalog.sorted_mapEntries, List.map_map]
    rfl
  have hsorted : ∀ k : Shelf, ((c.catalog k).mapEntries fun _ _ => ()).sorted
      = ((d.catalog k).mapEntries fun _ _ => ()).sorted := by
    intro k
    refine Catalog.sorted_congr fun name => ?_
    have hs : ((c.catalog k).find? name).isSome = ((d.catalog k).find? name).isSome := h ⟨k, name⟩
    rw [Catalog.find?_mapEntries, Catalog.find?_mapEntries]
    cases hc : (c.catalog k).find? name <;> cases hd : (d.catalog k).find? name <;>
      simp [hc, hd] at hs ⊢
  simp only [places, hnames, hsorted]

/-- What is collected at a place, nothing where nothing is stored. -/
def collect (c : Contents) (f : (k : Shelf) → k.Entry → List β) (p : Place) : List β :=
  ((c.slot p).map (f p.shelf)).getD []

/-- Going through the sorted catalogs is going through the places. -/
theorem flatMap_sorted (c : Contents) (f : (k : Shelf) → k.Entry → List β) :
    (Shelf.all.flatMap fun k => (c.catalog k).sorted.flatMap fun e => f k e.2)
      = c.places.flatMap (c.collect f) := by
  have hk : ∀ k : Shelf, ((c.catalog k).sorted.map fun e => Place.mk k e.1).flatMap (c.collect f)
      = (c.catalog k).sorted.flatMap fun e => f k e.2 := by
    intro k
    rw [List.flatMap_map]
    refine List.flatMap_congr fun e he => ?_
    have hp : c.slot ⟨k, e.1⟩ = some e.2 :=
      Catalog.find?_eq_some_iff.2 (Catalog.mem_sorted.1 he)
    simp [collect, hp]
  simp only [places, List.flatMap_assoc, hk]

end Contents

/-! ## Lines -/

/-- The lines of an entry and of all that is in it. -/
def Shelf.lines (target : Target) : (k : Shelf) → k.Entry → List String
  | chains, entry => ChainEntry.lines entry target
  | containers kind, entry => SetEntry.lines entry kind target

variable {target : Target} {limit : Nat}

theorem Chain.line_add (c : Chain) (handle : Option Int) :
    { c with handle := handle }.line .add target = c.line .add target := rfl

theorem SetSpec.line_add (s : SetSpec) (kind : SetKind) (handle : Option Int) :
    { s with handle := handle }.line kind .add target = s.line kind .add target := rfl

/-- No line shows a handle. -/
theorem Shelf.lines_forget (k : Shelf) (entry : k.Entry) :
    k.lines target (k.forget limit entry) = k.lines target entry := by
  cases k with
  | chains =>
    simp only [lines, ChainEntry.lines, forget, ChainEntry.forget, Chain.line_add, List.map_map]
    rfl
  | containers kind =>
    simp only [lines, SetEntry.lines, forget, SetEntry.forget, SetSpec.line_add]

/-- The chain without its handle, and its rules without what names their place. -/
def ChainEntry.unplaced (entry : ChainEntry) : ChainEntry :=
  { record := { entry.record with handle := none }
    rules := entry.rules.map Rule.unplaced }

/-- The entry without handles and without what names the place of a rule. -/
def Shelf.unplaced : (k : Shelf) → k.Entry → k.Entry
  | chains, entry => ChainEntry.unplaced entry
  | containers _, entry => SetEntry.forget entry

/-- No line shows a handle or the index of a rule. -/
theorem Shelf.lines_unplaced (k : Shelf) (entry : k.Entry) :
    k.lines target (k.unplaced entry) = k.lines target entry := by
  cases k with
  | chains =>
    simp only [lines, ChainEntry.lines, unplaced, ChainEntry.unplaced, Chain.line_add,
      List.map_map]
    rfl
  | containers kind =>
    show Shelf.lines target _ (Shelf.forget 0 (.containers kind) entry) = _
    exact lines_forget _ entry

namespace Contents

theorem lines_eq (c : Contents) (target : Target) :
    c.lines target = c.table.line .add target :: c.places.flatMap (c.collect (Shelf.lines target)) := by
  rw [← flatMap_sorted]
  simp [lines, Shelf.all, catalog, containers, Shelf.lines]

/-- The lines of contents are settled by the table's line and the lines of each slot. -/
theorem lines_congr {c d : Contents} (ht : c.table.line .add target = d.table.line .add target)
    (h : ∀ p, (c.slot p).map (p.shelf.lines target) = (d.slot p).map (p.shelf.lines target)) :
    c.lines target = d.lines target := by
  have hplaces : c.places = d.places := by
    refine places_congr fun p => ?_
    simpa using congrArg Option.isSome (h p)
  have hcollect : c.collect (Shelf.lines target) = d.collect (Shelf.lines target) := by
    funext p
    simp only [collect, h]
  rw [lines_eq, lines_eq, ht, hplaces, hcollect]

theorem lines_trimmed (c : Contents) (p : Place) :
    (c.trimmed limit p).map (p.shelf.lines target) = (c.slot p).map (p.shelf.lines target) := by
  simp [trimmed, Function.comp_def, Shelf.lines_forget]

end Contents

namespace Store

/-- A run does not change which table the store is about. -/
theorem target_applyAll (s : Store) (ops : List Operation) :
    (s.applyAll ops).store.target = s.target := by
  show (s.run ⟨ops, none⟩).store.target = s.target
  rw [target, target, family_run, table_run]

theorem dump_of_contents {s : Store} {c : Contents} (h : s.contents = some c) :
    s.dump = String.join (c.lines s.target) := by
  simp only [dump, h]

end Store

end NftStore
