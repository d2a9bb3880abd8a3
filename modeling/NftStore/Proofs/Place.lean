import NftStore.Proofs.Catalog
import NftStore.Store.Run

/-!
Places. A table has three catalogs, and a name in one of them is a place. Every operation on a
chain, rule, set, map or element is about one place: what it comes to depends on the slot there,
and nothing but that slot changes. So an operation can be told by what it makes of a slot
(`Operation.act`).
-/
namespace NftStore

/-- The catalogs of a table, in the order of a dump. -/
def Shelf.all : List Shelf :=
  [.chains, .containers .set, .containers .map]

theorem Shelf.mem_all : ∀ k : Shelf, k ∈ all
  | .chains | .containers .set | .containers .map => by decide

/-- A name in one of the catalogs. -/
structure Place where
  shelf : Shelf
  name : String
deriving DecidableEq, Repr

/-- The place that an operation on an object is about. A table has none, and neither has an object
of a kind that no store holds. -/
def Object.place? : Object → Option Place
  | .chain c => some ⟨.chains, c.name⟩
  | .rule r => some ⟨.chains, r.chain⟩
  | .set kind s => some ⟨.containers kind, s.name⟩
  | .element e => some ⟨.containers e.container, e.name⟩
  | .table _ | .counter _ | .bare => none

namespace Contents

@[simp] theorem catalog_withCatalog (c : Contents) (k : Shelf) (entries : Catalog k.Entry) :
    (c.withCatalog k entries).catalog k = entries := by
  cases k with
  | chains => rfl
  | containers kind => exact c.containers_withContainers kind entries

theorem catalog_withCatalog_of_ne (c : Contents) {k l : Shelf} (h : l ≠ k)
    (entries : Catalog k.Entry) : (c.withCatalog k entries).catalog l = c.catalog l := by
  cases k with
  | chains =>
    cases l with
    | chains => exact absurd rfl h
    | containers kind => cases kind <;> rfl
  | containers kind =>
    cases l with
    | chains => cases kind <;> rfl
    | containers other =>
      exact c.containers_withContainers_of_ne (fun he => h (congrArg Shelf.containers he)) entries

@[simp] theorem table_withCatalog (c : Contents) (k : Shelf) (entries : Catalog k.Entry) :
    (c.withCatalog k entries).table = c.table := by
  cases k with
  | chains => rfl
  | containers kind => cases kind <;> rfl

/-- The slot at a place. -/
def slot (c : Contents) (p : Place) : Option p.shelf.Entry :=
  (c.catalog p.shelf).find? p.name

/-- The contents with something else at a place. -/
def put (c : Contents) (p : Place) (slot : Option p.shelf.Entry) : Contents :=
  c.withCatalog p.shelf ((c.catalog p.shelf).put p.name slot)

@[simp] theorem catalog_put_self (c : Contents) (p : Place) (slot : Option p.shelf.Entry) :
    (c.put p slot).catalog p.shelf = (c.catalog p.shelf).put p.name slot :=
  c.catalog_withCatalog p.shelf _

theorem catalog_put_of_ne (c : Contents) {p : Place} {k : Shelf} (h : k ≠ p.shelf)
    (slot : Option p.shelf.Entry) : (c.put p slot).catalog k = c.catalog k :=
  c.catalog_withCatalog_of_ne h _

@[simp] theorem table_put (c : Contents) (p : Place) (slot : Option p.shelf.Entry) :
    (c.put p slot).table = c.table :=
  c.table_withCatalog p.shelf _

@[simp] theorem slot_put_self (c : Contents) (p : Place) (slot : Option p.shelf.Entry) :
    (c.put p slot).slot p = slot := by
  simp [Contents.slot]

/-- Nothing changes at any other place. -/
theorem slot_put_of_ne (c : Contents) {p q : Place} (h : q ≠ p) (slot : Option p.shelf.Entry) :
    (c.put p slot).slot q = c.slot q := by
  obtain ⟨k, name⟩ := p
  obtain ⟨l, other⟩ := q
  by_cases hk : l = k
  · subst hk
    have hn : other ≠ name := fun hn => h (by rw [hn])
    simp [Contents.slot, put, Catalog.find?_put_of_ne _ hn]
  · rw [Contents.slot, catalog_put_of_ne c hk, Contents.slot]

@[simp] theorem withCatalog_catalog (c : Contents) (k : Shelf) :
    c.withCatalog k (c.catalog k) = c := by
  match k with
  | .chains | .containers .set | .containers .map => rfl

@[simp] theorem withCatalog_withCatalog (c : Contents) (k : Shelf)
    (entries other : Catalog k.Entry) :
    (c.withCatalog k entries).withCatalog k other = c.withCatalog k other := by
  match k with
  | .chains | .containers .set | .containers .map => rfl

/-- Putting back what is there changes nothing. -/
theorem put_slot (c : Contents) (p : Place) : c.put p (c.slot p) = c := by
  rw [put, slot, Catalog.put_find?, withCatalog_catalog]

/-- An entry that is put at a place leaves no trace once something else is there. -/
theorem put_put_some (c : Contents) (p : Place) (entry : p.shelf.Entry)
    (slot : Option p.shelf.Entry) : (c.put p (some entry)).put p slot = c.put p slot := by
  rw [put, catalog_put_self, Catalog.put_put_some, put, withCatalog_withCatalog, put]

/-- The contents with another record of the table. -/
def withTable (c : Contents) (table : Table) : Contents :=
  { c with table := table }

theorem put_withTable (c : Contents) (table : Table) (p : Place) (slot : Option p.shelf.Entry) :
    (c.withTable table).put p slot = (c.put p slot).withTable table := by
  obtain ⟨k, name⟩ := p
  match k with
  | .chains | .containers .set | .containers .map => rfl

/-- The contents with every entry changed in its place. -/
def mapEntries (c : Contents) (f : (k : Shelf) → k.Entry → k.Entry) : Contents :=
  { c with
    chains := c.chains.mapEntries fun _ => f .chains
    sets := c.sets.mapEntries fun _ => f (.containers .set)
    maps := c.maps.mapEntries fun _ => f (.containers .map) }

theorem catalog_mapEntries (c : Contents) (f : (k : Shelf) → k.Entry → k.Entry) (k : Shelf) :
    (c.mapEntries f).catalog k = (c.catalog k).mapEntries fun _ => f k := by
  match k with
  | .chains | .containers .set | .containers .map => rfl

theorem slot_mapEntries (c : Contents) (f : (k : Shelf) → k.Entry → k.Entry) (p : Place) :
    (c.mapEntries f).slot p = (c.slot p).map (f p.shelf) := by
  rw [slot, catalog_mapEntries, Catalog.find?_mapEntries, slot]

/-- Changing every entry and putting one at its place can be done in either order. -/
theorem mapEntries_put (c : Contents) (f : (k : Shelf) → k.Entry → k.Entry) (p : Place)
    (slot : Option p.shelf.Entry) :
    (c.put p slot).mapEntries f = (c.mapEntries f).put p (slot.map (f p.shelf)) := by
  have hcat := (c.catalog p.shelf).mapEntries_put (fun _ => f p.shelf) p.name slot
  rw [← catalog_mapEntries] at hcat
  rw [put, put, hcat]
  obtain ⟨k, name⟩ := p
  match k with
  | .chains | .containers .set | .containers .map => rfl

end Contents

/-! ## What an operation makes of a slot -/

/-- What becomes of a slot, with the warnings about it, or the fault that leaves it as it is. -/
abbrev Change (α : Type) :=
  Except Fault (α × List Warning)

namespace Slot

/-- An object of a catalog is added to its slot if that is free, or emptied or taken out of it. -/
def operate {α : Type} (kind : Kind) (verb : Verb) (name : String) (handle : Option Int)
    (fresh : α) (emptied : α → α) (slot : Option α) : Change (Option α) :=
  match verb, slot with
  | .add, slot => .ok (some (slot.getD fresh), [])
  | .flush, some a => .ok (some (emptied a), [])
  | .delete, some _ => .ok (none, (handle.map fun h => ⟨kind, name, h⟩).toList)
  | .flush, none | .delete, none => .error (.notFound (.named kind.text name))
  | verb, _ => .error (.verbUnhandled verb kind)

/-- A rule is added to the chain in its slot or deleted from it. -/
def operateRule (verb : Verb) (r stored : Rule) (slot : Option ChainEntry) :
    Change (Option ChainEntry) :=
  match verb, slot, r.handle with
  | .add, some entry, _ => .ok (some (entry.addRule stored), [])
  | .delete, some entry, some handle =>
    if entry.hasRule handle then .ok (some (entry.eraseRule handle), [])
    else .error (.notFound (.rule handle r.chain))
  | .delete, some _, none => .error .ruleHandleUnset
  | .add, none, _ | .delete, none, _ => .error (.notFound (.named Kind.chain.text r.chain))
  | verb, _, _ => .error (.verbUnhandled verb .rule)

/-- An element is put into the container in its slot or deleted from it. -/
def operateElement (verb : Verb) (e stored : Element) (slot : Option SetEntry) :
    Change (Option SetEntry) :=
  match verb, slot with
  | .add, some entry => .ok (some (entry.put stored), [])
  | .delete, some entry =>
    if entry.hasKey stored.key then .ok (some (entry.erase stored.key), [])
    else .error (.notFound (.element stored.key e.container e.name))
  | .add, none | .delete, none => .error (.notFound (.named e.container.kind.text e.name))
  | verb, _ => .error (.verbUnhandled verb .element)

end Slot

/-- What an operation makes of the slot at its place, with the defines in force and the number that
a new object gets. -/
def Operation.act (op : Operation) (defines : Defines) (number : Nat) :
    (k : Shelf) → Option k.Entry → Change (Option k.Entry)
  | .chains, slot =>
    match op.object with
    | .chain r =>
      Slot.operate .chain op.verb r.name r.handle ⟨r.stored number, []⟩ ChainEntry.emptied slot
    | .rule r => Slot.operateRule op.verb r (r.stored defines number) slot
    | _ => .ok (slot, [])
  | .containers _, slot =>
    match op.object with
    | .set kind r =>
      Slot.operate kind.kind op.verb r.name r.handle ⟨r.stored defines number, []⟩
        SetEntry.emptied slot
    | .element e => Slot.operateElement op.verb e (e.stored defines) slot
    | _ => .ok (slot, [])

end NftStore
