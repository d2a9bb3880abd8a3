import NftStore.Proofs.Step

/-!
Consistency. What is stored under a name bears that name: the record of a chain, set or map, the
rules of a chain and the elements of a set or map. No two elements of one container have the same
key, and the table's record has the names that the store has.
-/
namespace NftStore

/-! ## Putting elements -/

theorem mem_putElement {e x : Element} {l : List Element} (h : x ∈ putElement e l) :
    x = e ∨ x ∈ l := by
  induction l with
  | nil => exact .inl (List.mem_singleton.1 h)
  | cons other rest ih =>
    unfold putElement at h
    split at h
    · rcases List.mem_cons.1 h with rfl | h
      · exact .inl rfl
      · exact .inr (List.mem_cons_of_mem _ h)
    · rcases List.mem_cons.1 h with rfl | h
      · exact .inr List.mem_cons_self
      · exact (ih h).imp_right (List.mem_cons_of_mem _)

theorem mem_putElement_self (e : Element) (l : List Element) : e ∈ putElement e l := by
  induction l with
  | nil => exact List.mem_singleton_self e
  | cons other rest ih =>
    unfold putElement
    split
    · exact List.mem_cons_self
    · exact List.mem_cons_of_mem _ ih

/-- An element whose key is there takes over a place, any other one goes to the end. -/
theorem keys_putElement (e : Element) (l : List Element) :
    (putElement e l).map Element.key
      = if e.key ∈ l.map Element.key then l.map Element.key else l.map Element.key ++ [e.key] := by
  induction l with
  | nil => rfl
  | cons other rest ih =>
    unfold putElement
    by_cases h : other.key = e.key
    · simp [h]
    · have hne : ¬ e.key = other.key := fun he => h he.symm
      simp only [h, if_false, List.map_cons, ih, List.mem_cons, hne, false_or]
      split <;> rfl

theorem putElement_of_not_mem {e : Element} {l : List Element} (h : e.key ∉ l.map Element.key) :
    putElement e l = l ++ [e] := by
  induction l with
  | nil => rfl
  | cons other rest ih =>
    simp only [List.map_cons, List.mem_cons, not_or] at h
    have hne : ¬ other.key = e.key := fun he => h.1 he.symm
    rw [putElement, if_neg hne, ih h.2]
    rfl

theorem mem_keys_putElement {e : Element} {l : List Element} {key : String} :
    key ∈ (putElement e l).map Element.key ↔ key = e.key ∨ key ∈ l.map Element.key := by
  rw [keys_putElement]
  split
  · rename_i he
    refine (or_iff_right_of_imp ?_).symm
    rintro rfl
    exact he
  · simp [or_comm]

theorem nodup_keys_putElement {l : List Element} (h : (l.map Element.key).Nodup) (e : Element) :
    ((putElement e l).map Element.key).Nodup := by
  rw [keys_putElement]
  split
  · exact h
  · rename_i hnot
    refine List.nodup_append.2 ⟨h, List.nodup_singleton _, ?_⟩
    intro a ha b hb hab
    rw [List.mem_singleton.1 hb] at hab
    exact hnot (hab ▸ ha)

/-- Of elements with different keys, those with another key than the one put stay. -/
theorem mem_putElement_of_nodup {e x : Element} {l : List Element} (h : (l.map Element.key).Nodup)
    (hx : x ∈ putElement e l) : x = e ∨ x.key ≠ e.key ∧ x ∈ l := by
  rcases mem_putElement hx with rfl | hmem
  · exact .inl rfl
  · by_cases hkey : x.key = e.key
    · exact .inl (List.inj_on_of_nodup_map (nodup_keys_putElement h e) hx
        (mem_putElement_self e l) hkey)
    · exact .inr ⟨hkey, hmem⟩

/-! ## Erasing records -/

section
variable {α β : Type} [BEq β]

/-- Erasing the first record of a key or handle takes this out of the list of them. -/
theorem map_eraseP (f : α → β) (l : List α) (b : β) :
    (l.eraseP fun a => f a == b).map f = (l.map f).erase b := by
  rw [List.erase_eq_eraseP', List.eraseP_map]
  rfl

/-- Where no two records have it in common, it is gone then. -/
theorem ne_of_mem_eraseP [LawfulBEq β] {f : α → β} {l : List α} (h : (l.map f).Nodup) {b : β}
    {a : α} (ha : a ∈ l.eraseP fun a => f a == b) : f a ≠ b := by
  intro he
  refine h.not_mem_erase (a := b) ?_
  rw [← map_eraseP]
  exact List.mem_map.2 ⟨a, ha, he⟩

/-- Then erasing the first record is keeping all the others. -/
theorem eraseP_eq_filter [LawfulBEq β] {f : α → β} {l : List α} (h : (l.map f).Nodup) (b : β) :
    (l.eraseP fun a => f a == b) = l.filter fun a => f a != b := by
  induction l with
  | nil => rfl
  | cons a l ih =>
    obtain ⟨ha, hl⟩ := List.nodup_cons.1 h
    by_cases hb : f a = b
    · have hrest : ∀ x ∈ l, f x ≠ b := by
        intro x hx he
        exact ha (List.mem_map.2 ⟨x, hx, he.trans hb.symm⟩)
      rw [List.eraseP_cons_of_pos (by simpa using hb), List.filter_cons_of_neg (by simpa using hb)]
      exact (List.filter_eq_self.2 fun x hx => by simpa using hrest x hx).symm
    · rw [List.eraseP_cons_of_neg (by simpa using hb), List.filter_cons_of_pos (by simpa using hb),
        ih hl]

end

/-! ## Properties of single records -/

section
variable {op : Operation} {defines : Defines} {number : Nat}

/-- The record of a chain is an old one, or that of the chain just added. -/
theorem ChainEntry.Step.record_of {P : Chain → Prop} {old : Option ChainEntry} {new : ChainEntry}
    (h : ChainEntry.Step op defines number old (some new))
    (hfresh : ∀ r, op = ⟨.add, .chain r⟩ → P (r.stored number))
    (hold : ∀ entry, old = some entry → P entry.record) : P new.record := by
  cases h with
  | same => exact hold new rfl
  | fresh r hop => exact hfresh r hop
  | emptied entry | addRule entry | eraseRule entry => exact hold entry rfl

/-- The rules of a chain are old ones, but for the one just added. -/
theorem ChainEntry.Step.forall_rules {P : Rule → Prop} {old : Option ChainEntry}
    {new : ChainEntry} (h : ChainEntry.Step op defines number old (some new))
    (hadd : ∀ r, op = ⟨.add, .rule r⟩ → P (r.stored defines number))
    (hold : ∀ entry, old = some entry → ∀ q ∈ entry.rules, P q) : ∀ q ∈ new.rules, P q := by
  intro q hq
  cases h with
  | same => exact hold new rfl q hq
  | fresh | emptied => cases hq
  | addRule entry r hop =>
    rcases List.mem_append.1 hq with hq | hq
    · exact hold entry rfl q hq
    · rw [List.mem_singleton.1 hq]
      exact hadd r hop
  | eraseRule entry handle => exact hold entry rfl q (List.mem_of_mem_eraseP hq)

/-- The record of a set or map is an old one, or that of the set or map just added. -/
theorem SetEntry.Step.record_of {P : SetSpec → Prop} {old : Option SetEntry} {new : SetEntry}
    (h : SetEntry.Step op defines number old (some new))
    (hfresh : ∀ kind r, op = ⟨.add, .set kind r⟩ → P (r.stored defines number))
    (hold : ∀ entry, old = some entry → P entry.record) : P new.record := by
  cases h with
  | same => exact hold new rfl
  | fresh kind r hop => exact hfresh kind r hop
  | emptied entry | put entry | erase entry => exact hold entry rfl

/-- The elements of a set or map are old ones, but for the one just put. -/
theorem SetEntry.Step.forall_elements {P : Element → Prop} {old : Option SetEntry}
    {new : SetEntry} (h : SetEntry.Step op defines number old (some new))
    (hput : ∀ e, op = ⟨.add, .element e⟩ → P (e.stored defines))
    (hold : ∀ entry, old = some entry → ∀ x ∈ entry.elements, P x) : ∀ x ∈ new.elements, P x := by
  intro x hx
  cases h with
  | same => exact hold new rfl x hx
  | fresh | emptied => cases hx
  | put entry e hop =>
    rcases mem_putElement hx with rfl | hx
    · exact hput e hop
    · exact hold entry rfl x hx
  | erase entry key => exact hold entry rfl x (List.mem_of_mem_eraseP hx)

end

/-! ## The invariant -/

/-- A chain and its rules bear the name. -/
structure ChainEntry.Consistent (entry : ChainEntry) (name : String) : Prop where
  record : entry.record.name = name
  rules : ∀ r ∈ entry.rules, r.chain = name

/-- A set or map and its elements bear the name, and the elements have different keys. -/
structure SetEntry.Consistent (entry : SetEntry) (name : String) : Prop where
  record : entry.record.name = name
  elements : ∀ e ∈ entry.elements, e.name = name
  keys : (entry.elements.map Element.key).Nodup

/-- An entry is consistent with its place. -/
def Place.Consistent : (p : Place) → p.shelf.Entry → Prop
  | ⟨.chains, name⟩, entry => ChainEntry.Consistent entry name
  | ⟨.containers _, name⟩, entry => SetEntry.Consistent entry name

variable {op : Operation} {defines : Defines} {number : Nat}

theorem ChainEntry.Step.consistent {old : Option ChainEntry} {new : ChainEntry} {name : String}
    (h : ChainEntry.Step op defines number old (some new))
    (hp : op.object.place? = some ⟨.chains, name⟩)
    (hold : ∀ entry, old = some entry → entry.Consistent name) : new.Consistent name := by
  refine ⟨h.record_of (P := fun r => r.name = name) ?_ fun entry he => (hold entry he).record,
    h.forall_rules ?_ fun entry he => (hold entry he).rules⟩
  -- the place of a new chain bears its name, and that of a new rule the name of its chain
  · rintro r rfl
    cases hp
    rfl
  · rintro r rfl
    cases hp
    rfl

theorem SetEntry.Step.nodup_keys {old : Option SetEntry} {new : SetEntry}
    (h : SetEntry.Step op defines number old (some new))
    (hold : ∀ entry, old = some entry → (entry.elements.map Element.key).Nodup) :
    (new.elements.map Element.key).Nodup := by
  cases h with
  | same => exact hold new rfl
  | fresh | emptied => exact List.nodup_nil
  | put entry e hop => exact nodup_keys_putElement (hold entry rfl) _
  | erase entry key => exact (hold entry rfl).sublist (List.eraseP_sublist.map _)

theorem SetEntry.Step.consistent {old : Option SetEntry} {new : SetEntry} {p : Place}
    (h : SetEntry.Step op defines number old (some new)) (hp : op.object.place? = some p)
    (hold : ∀ entry, old = some entry → entry.Consistent p.name) : new.Consistent p.name := by
  refine ⟨h.record_of (P := fun r => r.name = p.name) ?_ fun entry he => (hold entry he).record,
    h.forall_elements ?_ fun entry he => (hold entry he).elements,
    h.nodup_keys fun entry he => (hold entry he).keys⟩
  · rintro kind r rfl
    cases hp
    rfl
  · rintro e rfl
    cases hp
    rfl

namespace Store

/-- All that is stored is consistent with where it is stored. -/
structure Consistent (s : Store) : Prop where
  table : ∀ c, s.contents = some c →
    c.table.family = some s.family.text ∧ c.table.name = some s.table
  entries : s.All Place.Consistent

theorem Consistent.new (family : Family) (table : String) : (Store.new family table).Consistent :=
  ⟨fun c hc => (by cases hc), All.new family table⟩

theorem Consistent.step {s s' : Store} (h : s.Consistent) (hs : s.Step op s') :
    s'.Consistent := by
  refine ⟨?_, h.entries.step hs ?_⟩
  · intro c' hc'
    rw [hs.family_eq, hs.table_eq]
    cases hs with
    | noTable hc => exact h.table c' hc'
    | tableAdded t _ _ =>
      cases hc'
      simp [freshContents]
    | unchanged c hc => exact h.table c' (by simpa using hc')
    | tableFlushed t c _ =>
      cases hc'
      exact ⟨rfl, rfl⟩
    | tableDeleted c _ => cases hc'
    | placed c p slot hc _ _ =>
      cases hc'
      simpa using h.table c hc
  · rintro ⟨k, name⟩ old new hp hstep hold
    cases k with
    | chains => exact ChainEntry.Step.consistent hstep hp hold
    | containers kind => exact SetEntry.Step.consistent hstep hp hold

theorem Reachable.isConsistent {s : Store} (h : s.Reachable) : s.Consistent :=
  Reachable.of_steps Consistent.new (fun _ _ _ hs => ⟨hs.table, hs.entries⟩)
    (fun _ _ _ hs hstep => hs.step hstep) h

end Store

/-- Whatever objects a client submits, what is stored bears the names of where it is: the table those
of the store, a chain, set or map the name it is found under, and rules and elements the name of the
chain, set or map they are in. No key stands twice in a set or map. -/
theorem Store.names_of_reachable {s : Store} (h : s.Reachable) {c : Contents}
    (hc : s.contents = some c) :
    (c.table.family = some s.family.text ∧ c.table.name = some s.table) ∧
    (∀ name entry, c.chains.find? name = some entry →
      entry.record.name = name ∧ ∀ r ∈ entry.rules, r.chain = name) ∧
    ∀ kind name entry, (c.containers kind).find? name = some entry →
      entry.record.name = name ∧ (∀ e ∈ entry.elements, e.name = name) ∧
        (entry.elements.map Element.key).Nodup := by
  have hcons := h.isConsistent
  refine ⟨hcons.table c hc, ?_, ?_⟩
  · intro name entry he
    have hentry : entry.Consistent name := hcons.entries c hc ⟨.chains, name⟩ entry he
    exact ⟨hentry.record, hentry.rules⟩
  · intro kind name entry he
    have hentry : entry.Consistent name := hcons.entries c hc ⟨.containers kind, name⟩ entry he
    exact ⟨hentry.record, hentry.elements, hentry.keys⟩

/-- A table with a family and a name of its own, a chain, a set and a map of one name, keys that
become the same by a define, an element that is deleted and put again, and a run that fails. -/
def colliding : List Event :=
  [.define "HOST" "10.0.0.1",
   .run ⟨[⟨.add, .table ⟨some "ip", some "old", none, some 9⟩⟩,
      ⟨.add, .chain ⟨"in", none, none, none, none, none, some 9⟩⟩,
      ⟨.add, .rule ⟨"in", some "ip saddr $HOST drop", none, none, none⟩⟩,
      ⟨.add, .set .set ⟨"in", some "ipv4_addr", none, none, none, none, none, none, none, none,
        none⟩⟩,
      ⟨.add, .set .map ⟨"in", none, some "ip saddr : verdict", none, none, none, none, none, none,
        none, none⟩⟩,
      ⟨.add, .element ⟨"in", "$HOST", none, none⟩⟩,
      ⟨.add, .element ⟨"in", "10.0.0.2", none, none⟩⟩,
      ⟨.add, .element ⟨"in", "10.0.0.1", none, some "again"⟩⟩,
      ⟨.add, .element ⟨"in", "10.0.0.1", some "accept", none⟩⟩,
      ⟨.create, .element ⟨"in", "10.0.0.3", none, none⟩⟩], none⟩,
   .run ⟨[⟨.delete, .element ⟨"in", "$HOST", none, none⟩⟩,
      ⟨.add, .element ⟨"in", "$HOST", some "drop", none⟩⟩,
      ⟨.add, .element ⟨"in", "$HOST", none, none⟩⟩], none⟩]

/-- The table that `colliding` leaves. -/
def collided : Contents where
  table := ⟨some "inet", some "filter", none, some 1⟩
  chains := ⟨[("in", ⟨⟨"in", none, none, none, none, none, some 2⟩,
    [⟨"in", some "ip saddr 10.0.0.1 drop", none, none, some 3⟩]⟩)], by decide⟩
  sets := ⟨[("in", ⟨⟨"in", some "ipv4_addr", none, none, none, none, none, none, none, none,
    some 4⟩, [⟨"in", "10.0.0.2", none, none⟩, ⟨"in", "10.0.0.1", none, none⟩]⟩)], by decide⟩
  maps := ⟨[("in", ⟨⟨"in", none, some "ip saddr : verdict", none, none, none, none, none, none,
    none, some 5⟩, [⟨"in", "10.0.0.1", some "drop", none⟩]⟩)], by decide⟩

theorem contents_colliding :
    ((Store.new .inet "filter").replay colliding).contents = some collided := by
  decide +kernel

theorem names_of_collided :
    ((Store.new .inet "filter").replay colliding).Reachable ∧
    ((Store.new .inet "filter").replay colliding).contents = some collided ∧
    (collided.table.family = some ((Store.new .inet "filter").replay colliding).family.text ∧
      collided.table.name = some ((Store.new .inet "filter").replay colliding).table) ∧
    (∀ name entry, collided.chains.find? name = some entry →
      entry.record.name = name ∧ ∀ r ∈ entry.rules, r.chain = name) ∧
    ∀ kind name entry, (collided.containers kind).find? name = some entry →
      entry.record.name = name ∧ (∀ e ∈ entry.elements, e.name = name) ∧
        (entry.elements.map Element.key).Nodup := by
  have h : ((Store.new .inet "filter").replay colliding).Reachable :=
    (Store.Reachable.new .inet "filter").replay colliding
  have hc : ((Store.new .inet "filter").replay colliding).contents = some collided := by
    decide +kernel
  exact ⟨h, hc, Store.names_of_reachable h hc⟩

end NftStore
