import NftStore.Proofs.Consistency

/-!
What an operation leaves alone. An operation on anything but the table is about one place, and all
other entries of the three catalogs stay what they are and in their order (`Operation.Frames`). The
entry at that place keeps its record unless it is itself deleted: its children may change, by a
flush or by an operation on one of them. The rest of the store is the same but for the count of
handles.
-/
namespace NftStore

/-! ## Records -/

/-- What is stored of an object itself, without what is in it. -/
@[reducible] def Shelf.Record : Shelf → Type
  | chains => Chain
  | containers _ => SetSpec

/-- The record of an entry. -/
def Shelf.record : (k : Shelf) → k.Entry → k.Record
  | chains => ChainEntry.record
  | containers _ => SetEntry.record

/-- The object is kept under its own name: it is a chain, a set or a map, and not part of one. -/
def Object.isNamed : Object → Bool
  | .chain _ | .set _ _ => true
  | .table _ | .rule _ | .element _ | .counter _ | .bare => false

/-- What an object that is added, flushed or deleted makes of an entry that is there. -/
theorem Slot.operate_some {α : Type} {kind : Kind} {verb : Verb} {name : String}
    {handle : Option Int} {fresh a : α} {emptied : α → α} {new : Option α} {warnings : List Warning}
    (h : Slot.operate kind verb name handle fresh emptied (some a) = .ok (new, warnings)) :
    verb = .add ∧ new = some a ∨ verb = .flush ∧ new = some (emptied a) ∨ verb = .delete := by
  cases verb with
  | add =>
    cases h
    exact .inl ⟨rfl, rfl⟩
  | flush =>
    cases h
    exact .inr (.inl ⟨rfl, rfl⟩)
  | delete => exact .inr (.inr rfl)
  | create | other _ => cases h

/-- An operation on a rule changes the rules of a chain and nothing else about it. -/
theorem Slot.operateRule_some {verb : Verb} {r stored : Rule} {entry : ChainEntry}
    {new : Option ChainEntry} {warnings : List Warning}
    (h : Slot.operateRule verb r stored (some entry) = .ok (new, warnings)) :
    ∃ rules, new = some ⟨entry.record, rules⟩ := by
  cases verb with
  | add =>
    cases h
    exact ⟨_, rfl⟩
  | delete =>
    simp only [operateRule] at h
    cases hh : r.handle with
    | none => simp [hh] at h
    | some handle =>
      simp only [hh] at h
      split at h <;> cases h
      exact ⟨_, rfl⟩
  | create | flush | other _ => cases h

/-- An operation on an element changes the elements of a set or map and nothing else about it. -/
theorem Slot.operateElement_some {verb : Verb} {e stored : Element} {entry : SetEntry}
    {new : Option SetEntry} {warnings : List Warning}
    (h : Slot.operateElement verb e stored (some entry) = .ok (new, warnings)) :
    ∃ elements, new = some ⟨entry.record, elements⟩ := by
  cases verb with
  | add =>
    cases h
    exact ⟨_, rfl⟩
  | delete =>
    simp only [operateElement] at h
    split at h <;> cases h
    exact ⟨_, rfl⟩
  | create | flush | other _ => cases h

namespace Operation

variable {op : Operation} {defines : Defines} {number : Nat}

/-- An entry keeps its record, unless it is what is deleted. -/
theorem record_act {k : Shelf} {entry : k.Entry} {new : Option k.Entry} {warnings : List Warning}
    (h : op.act defines number k (some entry) = .ok (new, warnings))
    (hdelete : op.object.isNamed → op.verb ≠ .delete) :
    new.map k.record = some (k.record entry) := by
  obtain ⟨verb, object⟩ := op
  cases k with
  | chains =>
    cases object with
    | chain r =>
      obtain ⟨-, rfl⟩ | ⟨-, rfl⟩ | hverb := Slot.operate_some h
      · rfl
      · rfl
      · exact absurd hverb (hdelete rfl)
    | rule r =>
      obtain ⟨rules, rfl⟩ := Slot.operateRule_some h
      rfl
    | table _ | set _ _ | element _ | counter _ | bare =>
      cases h
      rfl
  | containers kind =>
    cases object with
    | set _ r =>
      obtain ⟨-, rfl⟩ | ⟨-, rfl⟩ | hverb := Slot.operate_some h
      · rfl
      · rfl
      · exact absurd hverb (hdelete rfl)
    | element e =>
      obtain ⟨elements, rfl⟩ := Slot.operateElement_some h
      rfl
    | table _ | chain _ | rule _ | counter _ | bare =>
      cases h
      rfl

/-- An object that is added where one of its name is changes nothing about that. -/
theorem act_add_of_some {k : Shelf} {entry : k.Entry} {new : Option k.Entry}
    {warnings : List Warning} (hnamed : op.object.isNamed) (hverb : op.verb = .add)
    (h : op.act defines number k (some entry) = .ok (new, warnings)) : new = some entry := by
  obtain ⟨verb, object⟩ := op
  cases hverb
  cases object with
  | chain _ | set _ _ =>
    cases k <;> cases h <;> rfl
  | table _ | rule _ | element _ | counter _ | bare => cases hnamed

end Operation

/-! ## The frame of an operation -/

/-- The entries of a catalog in their order, apart from the one at a place if it is there. -/
def Contents.apartFrom (c : Contents) (place : Option Place) (k : Shelf) :
    List (String × k.Entry) :=
  (c.catalog k).entries.filter fun e => some ⟨k, e.1⟩ ≠ place

theorem Contents.apartFrom_self (c : Contents) (p : Place) :
    c.apartFrom (some p) p.shelf = ((c.catalog p.shelf).erase p.name).entries := by
  obtain ⟨k, name⟩ := p
  refine List.filter_congr fun e _ => ?_
  rw [Bool.eq_iff_iff]
  simp

theorem Contents.apartFrom_put (c : Contents) (p : Place) (slot : Option p.shelf.Entry)
    (k : Shelf) : (c.put p slot).apartFrom (some p) k = c.apartFrom (some p) k := by
  by_cases hk : k = p.shelf
  · subst hk
    rw [apartFrom_self, catalog_put_self, Catalog.erase_put, apartFrom_self]
  · rw [apartFrom, catalog_put_of_ne c hk, apartFrom]

/-- What an operation leaves alone. Of the contents, the record of the table stays, and so do all
entries apart from the one at the place that the operation is about, with all that is in them and in
their order. The entry at that place keeps its record, unless it is what is deleted; and if it is
what is added once more, nothing changes at all. -/
structure Operation.Frames (op : Operation) (c c' : Contents) : Prop where
  table : c'.table = c.table
  others : ∀ k, c'.apartFrom op.object.place? k = c.apartFrom op.object.place? k
  record : (op.object.isNamed → op.verb ≠ .delete) → ∀ p, op.object.place? = some p →
    ∀ entry, c.slot p = some entry → (c'.slot p).map p.shelf.record = some (p.shelf.record entry)
  readded : op.object.isNamed → op.verb = .add → ∀ p, op.object.place? = some p →
    (c.slot p).isSome → c' = c

namespace Operation

variable {op : Operation}

theorem Frames.refl (op : Operation) (c : Contents) : op.Frames c c where
  table := rfl
  others _ := rfl
  record _ p _ entry he := by rw [he, Option.map_some]
  readded _ _ _ _ _ := rfl

/-- What an operation makes of the slot at its place stays within its frame. -/
theorem Frames.put {c : Contents} {p : Place} (hp : op.object.place? = some p) {defines : Defines}
    {number : Nat} {slot : Option p.shelf.Entry} {warnings : List Warning}
    (ha : op.act defines number p.shelf (c.slot p) = .ok (slot, warnings)) :
    op.Frames c (c.put p slot) where
  table := c.table_put p slot
  others k := by rw [hp, c.apartFrom_put p slot k]
  record hdelete q hq entry he := by
    cases hp.symm.trans hq
    rw [he] at ha
    rw [c.slot_put_self p slot]
    exact record_act ha hdelete
  readded hnamed hverb q hq hsome := by
    cases hp.symm.trans hq
    obtain ⟨entry, he⟩ := Option.isSome_iff_exists.1 hsome
    rw [he] at ha
    rw [act_add_of_some hnamed hverb ha, ← he, c.put_slot p]

end Operation

namespace Store

theorem tick_eq (s : Store) (verb : Verb) :
    s.tick verb = { s with lastHandle := s.lastHandle + if verb.makes then 1 else 0 } := by
  unfold tick
  split <;> rfl

/-- An operation on anything but the table, whether it goes through or fails, does nothing to a store
without contents. Else it uses up a handle if its verb makes an object, and changes the contents
within its frame; all else is kept. -/
theorem frame_of_run (s : Store) {op : Operation} (h : op.object.kind ≠ .table) :
    (s.contents = none → (s.run (Transaction.empty.queueRaw [op])).store = s) ∧
    ∀ c, s.contents = some c → ∃ c', op.Frames c c' ∧
      (s.run (Transaction.empty.queueRaw [op])).store = { s with
        lastHandle := s.lastHandle + if op.verb.makes then 1 else 0
        contents := some c' } := by
  rw [run_single]
  constructor
  · intro hc
    obtain ⟨t, rfl⟩ | happly := cases_of_noTable hc op
    · exact absurd rfl h
    · rw [happly]
  · intro c hc
    have hsame : s.tick op.verb = { s with
        lastHandle := s.lastHandle + if op.verb.makes then 1 else 0
        contents := some c } := by
      rw [tick_eq, ← hc]
    have happlied := s.applied op
    generalize s.apply op = o at happlied ⊢
    cases happlied with
    | noTable hn | tableAdded _ hn _ => cases hc.symm.trans hn
    | tableThere _ _ _ hop | tableFlushed _ _ _ hop | tableDeleted _ _ _ hop =>
      cases hop
      exact absurd rfl h
    | unsupported | failed => exact ⟨c, .refl op c, hsame⟩
    | placed d p slot warnings hd hp ha =>
      cases hc.symm.trans hd
      exact ⟨c.put p slot, .put hp ha, by rw [tick_eq]⟩

/-- With a chain, a set and a map of one name, an element with a value is put into the map. -/
theorem frame_of_collided :
    (Object.element ⟨"in", "$HOST", some "queue", none⟩).kind ≠ .table ∧
    ∃ c', Operation.Frames ⟨.add, .element ⟨"in", "$HOST", some "queue", none⟩⟩ collided c' ∧
      (((Store.new .inet "filter").replay colliding).run (Transaction.empty.queueRaw
        [⟨.add, .element ⟨"in", "$HOST", some "queue", none⟩⟩])).store
          = { (Store.new .inet "filter").replay colliding with
              lastHandle := ((Store.new .inet "filter").replay colliding).lastHandle + 1
              contents := some c' } := by
  have hkind : (⟨.add, .element ⟨"in", "$HOST", some "queue", none⟩⟩ : Operation).object.kind
      ≠ .table := by
    decide
  exact ⟨hkind, (frame_of_run _ hkind).2 collided contents_colliding⟩

end Store

end NftStore
