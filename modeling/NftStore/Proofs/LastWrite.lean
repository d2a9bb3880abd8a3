import NftStore.Proofs.Existence
import NftStore.Proofs.Failure
import NftStore.Store.Log
import Mathlib.Data.List.Induction

/-!
Last writes. A set or map is kept as a list that is changed in place, and still it is an ordered
dictionary: of what was put and dropped since it was made or emptied, each key has the last element
that was put under it, unless it was dropped after that, and the keys stand in the order in which
they came up. That is said of writes alone first (`lastWriteWins_elements`), and then the log of a
history is found to hold the writes (`logged_replay`).
-/
namespace NftStore

/-! ## Writes -/

/-- A change of the elements of a set or map. -/
inductive Write
  | put (e : Element)
  | drop (key : String)
deriving DecidableEq, Repr

namespace Write

/-- The elements after a write. -/
def apply (elements : List Element) : Write → List Element
  | put e => putElement e elements
  | drop key => elements.eraseP fun e => e.key == key

/-- The elements after writes in turn, from none. -/
def elements (ws : List Write) : List Element :=
  ws.foldl apply []

theorem elements_concat (ws : List Write) (w : Write) :
    elements (ws ++ [w]) = apply (elements ws) w := by
  simp [elements]

variable {ws : List Write} {w : Write} {e x : Element} {key other : String}

/-- Some element was put, and with what was written before and after it it has the property. -/
def Written (ws : List Write) (Q : List Write → Element → List Write → Prop) : Prop :=
  ∃ before e after, ws = before ++ put e :: after ∧ Q before e after

/-- An element was put under the key, and the key was not dropped after that. -/
def Stands (ws : List Write) (key : String) : Prop :=
  Written ws fun _ e after => e.key = key ∧ drop key ∉ after

/-- The element was put, and after that no other was put under its key, nor was the key dropped. -/
def LastPut (ws : List Write) (x : Element) : Prop :=
  Written ws fun _ e after =>
    e = x ∧ drop x.key ∉ after ∧ ∀ later, put later ∈ after → later.key ≠ x.key

/-- With the write at a position an element was put under the key for the first time since the key
was last dropped. -/
def FirstPut (ws : List Write) (key : String) (i : Nat) : Prop :=
  Written ws fun before e after =>
    before.length = i ∧ e.key = key ∧ drop key ∉ after ∧ ¬ Stands before key

/-- The element was put with the last write, or before it. -/
theorem written_concat {Q : List Write → Element → List Write → Prop} :
    Written (ws ++ [w]) Q ↔
      (∃ e, w = put e ∧ Q ws e []) ∨
        Written ws fun before x after => Q before x (after ++ [w]) := by
  constructor
  · rintro ⟨before, x, after, hws, hq⟩
    rcases List.eq_nil_or_concat after with rfl | ⟨after, last, rfl⟩
    · obtain ⟨rfl, hw⟩ := List.append_inj' hws rfl
      exact .inl ⟨x, List.singleton_inj.1 hw, hq⟩
    · rw [List.concat_eq_append] at hws hq
      rw [← List.cons_append, ← List.append_assoc] at hws
      obtain ⟨rfl, hw⟩ := List.append_inj' hws rfl
      rw [← List.singleton_inj.1 hw] at hq
      exact .inr ⟨before, x, after, rfl, hq⟩
  · rintro (⟨e, rfl, hq⟩ | ⟨before, x, after, rfl, hq⟩)
    · exact ⟨ws, e, [], rfl, hq⟩
    · exact ⟨before, x, after ++ [w], by simp, hq⟩

/-- Of a property that only a drop of the key can end, a drop that comes last says nothing unless it
is of the key. -/
theorem written_concat_drop {Q : List Write → Element → List Write → Prop}
    (hq : ∀ before e after,
      Q before e (after ++ [drop other]) ↔ key ≠ other ∧ Q before e after) :
    Written (ws ++ [drop other]) Q ↔ key ≠ other ∧ Written ws Q := by
  rw [written_concat, or_iff_right (by simp)]
  constructor
  · rintro ⟨before, e, after, hws, he⟩
    obtain ⟨hne, he⟩ := (hq before e after).1 he
    exact ⟨hne, before, e, after, hws, he⟩
  · rintro ⟨hne, before, e, after, hws, he⟩
    exact ⟨before, e, after, hws, (hq before e after).2 ⟨hne, he⟩⟩

theorem not_stands_nil : ¬ Stands [] key := by
  rintro ⟨before, e, after, hws, -⟩
  simp at hws

theorem stands_concat_put : Stands (ws ++ [put e]) key ↔ key = e.key ∨ Stands ws key := by
  simp [Stands, written_concat, eq_comm]

theorem stands_concat_drop : Stands (ws ++ [drop other]) key ↔ key ≠ other ∧ Stands ws key := by
  refine written_concat_drop fun before x after => ?_
  simp only [List.mem_append, List.mem_singleton, drop.injEq, not_or]
  tauto

/-- An element that was put last stays so until one is put under its key. -/
theorem lastPut_concat_put :
    LastPut (ws ++ [put e]) x ↔ x = e ∨ x.key ≠ e.key ∧ LastPut ws x := by
  rw [LastPut, written_concat]
  refine or_congr (by simp [eq_comm]) ?_
  constructor
  · rintro ⟨before, x, after, hws, rfl, hdrop, hput⟩
    refine ⟨fun hkey => hput e (by simp) hkey.symm, before, x, after, hws, rfl, ?_, ?_⟩
    · exact fun h => hdrop (List.mem_append_left _ h)
    · exact fun later h => hput later (List.mem_append_left _ h)
  · rintro ⟨hkey, before, x, after, hws, rfl, hdrop, hput⟩
    refine ⟨before, x, after, hws, rfl, by simpa using hdrop, fun later h => ?_⟩
    rcases List.mem_append.1 h with h | h
    · exact hput later h
    · cases List.mem_singleton.1 h
      exact fun he => hkey he.symm

theorem lastPut_concat_drop : LastPut (ws ++ [drop other]) x ↔ x.key ≠ other ∧ LastPut ws x := by
  refine written_concat_drop fun before e after => ?_
  simp only [List.mem_append, List.mem_singleton, reduceCtorEq, or_false, drop.injEq, not_or]
  tauto

theorem firstPut_concat_put {i : Nat} :
    FirstPut (ws ++ [put e]) key i ↔
      (i = ws.length ∧ e.key = key ∧ ¬ Stands ws key) ∨ FirstPut ws key i := by
  simp [FirstPut, written_concat, eq_comm]

theorem firstPut_concat_drop {i : Nat} :
    FirstPut (ws ++ [drop other]) key i ↔ key ≠ other ∧ FirstPut ws key i := by
  refine written_concat_drop fun before e after => ?_
  simp only [List.mem_append, List.mem_singleton, drop.injEq, not_or]
  tauto

theorem FirstPut.stands {i : Nat} (h : FirstPut ws key i) : Stands ws key := by
  obtain ⟨before, e, after, hws, -, hkey, hdrop, -⟩ := h
  exact ⟨before, e, after, hws, hkey, hdrop⟩

theorem FirstPut.lt_length {i : Nat} (h : FirstPut ws key i) : i < ws.length := by
  obtain ⟨before, e, after, rfl, rfl, -⟩ := h
  simp

/-- A key that stands keeps the position where it came up. -/
theorem firstPut_concat_put_of_stands (h : Stands ws key) {i : Nat} :
    FirstPut (ws ++ [put e]) key i ↔ FirstPut ws key i := by
  simp [firstPut_concat_put, h]

/-- A key that does not stand comes up where it is put. -/
theorem firstPut_concat_put_self (h : ¬ Stands ws e.key) {i : Nat} :
    FirstPut (ws ++ [put e]) e.key i ↔ i = ws.length := by
  have hnot : ¬ FirstPut ws e.key i := fun hi => h hi.stands
  simp [firstPut_concat_put, h, hnot]

/-- A key that stands came up once after it was last dropped. -/
theorem existsUnique_firstPut (h : Stands ws key) : ∃! i, FirstPut ws key i := by
  induction ws using List.reverseRecOn with
  | nil => exact absurd h not_stands_nil
  | append_singleton ws w ih =>
    cases w with
    | put e =>
      by_cases hs : Stands ws key
      · simpa only [firstPut_concat_put_of_stands hs] using ih hs
      · obtain rfl : key = e.key := (stands_concat_put.1 h).resolve_right hs
        simp [firstPut_concat_put_self hs]
    | drop other =>
      obtain ⟨hne, hs⟩ := stands_concat_drop.1 h
      simpa [firstPut_concat_drop, hne] using ih hs

end Write

/-! ## The elements that writes leave -/

/-- The elements are what writes come to: one for each key that stands, the last that was put under
it, in the order in which the keys came up. -/
structure LastWriteWins (ws : List Write) (elements : List Element) : Prop where
  nodup : (elements.map Element.key).Nodup
  keys : ∀ key, key ∈ elements.map Element.key ↔ Write.Stands ws key
  records : ∀ e ∈ elements, Write.LastPut ws e
  first : ∀ key ∈ elements.map Element.key, ∃! i, Write.FirstPut ws key i
  order : (elements.map Element.key).Pairwise fun a b =>
    ∀ i j, Write.FirstPut ws a i → Write.FirstPut ws b j → i < j

namespace LastWriteWins

variable {ws : List Write} {elements : List Element}

theorem put (h : LastWriteWins ws elements) (e : Element) :
    LastWriteWins (ws ++ [.put e]) (putElement e elements) := by
  have hkeys : ∀ key, key ∈ (putElement e elements).map Element.key ↔
      Write.Stands (ws ++ [.put e]) key := by
    intro key
    rw [mem_keys_putElement, Write.stands_concat_put, h.keys]
  have hold : (elements.map Element.key).Pairwise fun a b => ∀ i j,
      Write.FirstPut (ws ++ [.put e]) a i → Write.FirstPut (ws ++ [.put e]) b j → i < j := by
    refine h.order.imp_of_mem fun {a b} ha hb hab i j hi hj => ?_
    rw [Write.firstPut_concat_put_of_stands ((h.keys _).1 ha)] at hi
    rw [Write.firstPut_concat_put_of_stands ((h.keys _).1 hb)] at hj
    exact hab i j hi hj
  refine ⟨nodup_keys_putElement h.nodup e, hkeys, ?_, ?_, ?_⟩
  · intro x hx
    rw [Write.lastPut_concat_put]
    exact (mem_putElement_of_nodup h.nodup hx).imp_right (And.imp_right (h.records x))
  · exact fun key hkey => Write.existsUnique_firstPut ((hkeys key).1 hkey)
  · rw [keys_putElement]
    split
    · exact hold
    · -- the new key came up last, behind all those that stood
      rename_i hnew
      refine List.pairwise_append.2 ⟨hold, List.pairwise_singleton _ _, ?_⟩
      intro a ha b hb i j hi hj
      rw [Write.firstPut_concat_put_of_stands ((h.keys _).1 ha)] at hi
      rw [List.mem_singleton.1 hb,
        Write.firstPut_concat_put_self (mt (h.keys e.key).2 hnew)] at hj
      rw [hj]
      exact hi.lt_length

theorem drop (h : LastWriteWins ws elements) (key : String) :
    LastWriteWins (ws ++ [.drop key]) (elements.eraseP fun e => e.key == key) := by
  have hkeys := map_eraseP Element.key elements key
  have hmem : ∀ other, other ∈ (elements.eraseP fun e => e.key == key).map Element.key ↔
      other ≠ key ∧ other ∈ elements.map Element.key := by
    intro other
    rw [hkeys, h.nodup.mem_erase_iff]
  have hstands : ∀ other, other ∈ (elements.eraseP fun e => e.key == key).map Element.key ↔
      Write.Stands (ws ++ [.drop key]) other := by
    intro other
    rw [hmem, h.keys, Write.stands_concat_drop]
  refine ⟨?_, hstands, ?_, ?_, ?_⟩
  · rw [hkeys]
    exact h.nodup.erase key
  · intro x hx
    exact Write.lastPut_concat_drop.2
      ⟨ne_of_mem_eraseP h.nodup hx, h.records x (List.mem_of_mem_eraseP hx)⟩
  · exact fun other hother => Write.existsUnique_firstPut ((hstands other).1 hother)
  · rw [hkeys]
    refine (h.order.sublist List.erase_sublist).imp fun {a b} hab i j hi hj => ?_
    exact hab i j (Write.firstPut_concat_drop.1 hi).2 (Write.firstPut_concat_drop.1 hj).2

end LastWriteWins

/-- The elements after any writes, each made in place, are what the writes come to. -/
theorem lastWriteWins_elements (ws : List Write) : LastWriteWins ws (Write.elements ws) := by
  induction ws using List.reverseRecOn with
  | nil =>
    exact ⟨List.nodup_nil, by simp [Write.elements, Write.not_stands_nil], by simp [Write.elements],
      by simp [Write.elements], List.Pairwise.nil⟩
  | append_singleton ws w ih =>
    rw [Write.elements_concat]
    cases w with
    | put e => exact ih.put e
    | drop key => exact ih.drop key

/-! ## The writes in a log -/

namespace Moment

/-- The set or map is made: it is added and was not there. -/
def Creates (m : Moment) (kind : SetKind) (name : String) : Prop :=
  (∃ r, m.operation = ⟨.add, .set kind r⟩ ∧ r.name = name) ∧ m.store.container? kind name = none

/-- The set or map is emptied. -/
def Flushes (m : Moment) (kind : SetKind) (name : String) : Prop :=
  ∃ r, m.operation = ⟨.flush, .set kind r⟩ ∧ r.name = name

/-- What is written to the set or map, with the placeholders replaced by the defines in force. -/
def write? (m : Moment) (kind : SetKind) (name : String) : Option Write :=
  match m.operation with
  | ⟨.add, .element e⟩ =>
    if e.container = kind ∧ e.name = name then some (.put (e.stored m.store.defines)) else none
  | ⟨.delete, .element e⟩ =>
    if e.container = kind ∧ e.name = name then some (.drop (m.store.defines.substitute e.key))
    else none
  | _ => none

/-- The set or map is empty afterwards, whatever was in it. -/
def Renews (m : Moment) (kind : SetKind) (name : String) : Prop :=
  m.Creates kind name ∨ m.Flushes kind name

variable {m : Moment} {kind : SetKind} {name : String}

/-- Only an operation about the set or map makes or empties it or writes to it. -/
theorem not_renews_of_ne (h : m.operation.object.place? ≠ some ⟨.containers kind, name⟩) :
    ¬ m.Renews kind name := by
  rintro (⟨⟨r, hop, rfl⟩, -⟩ | ⟨r, hop, rfl⟩) <;> exact h (by rw [hop]; rfl)

theorem write?_of_ne (h : m.operation.object.place? ≠ some ⟨.containers kind, name⟩) :
    m.write? kind name = none := by
  unfold write?
  split
  · rename_i e hop
    rw [hop] at h
    refine if_neg ?_
    rintro ⟨rfl, rfl⟩
    exact h rfl
  · rename_i e hop
    rw [hop] at h
    refine if_neg ?_
    rintro ⟨rfl, rfl⟩
    exact h rfl
  · rfl

end Moment

/-- The set or map was renewed last at some moment of the log, and has what was written since. -/
def WrittenSince (log : List Moment) (kind : SetKind) (name : String) (elements : List Element) :
    Prop :=
  ∃ earlier m later, log = earlier ++ m :: later ∧ m.Renews kind name ∧
    (∀ x ∈ later, ¬ x.Renews kind name) ∧
    elements = Write.elements (later.filterMap fun x => x.write? kind name)

namespace WrittenSince

variable {log : List Moment} {m : Moment} {kind : SetKind} {name : String}
  {elements : List Element}

theorem renewed (h : m.Renews kind name) : WrittenSince (log ++ [m]) kind name [] :=
  RenewedLast.now h rfl

theorem kept (h : WrittenSince log kind name elements) (hm : ¬ m.Renews kind name)
    (hw : m.write? kind name = none) : WrittenSince (log ++ [m]) kind name elements := by
  refine RenewedLast.concat h hm ?_
  rintro later rfl
  simp [hw]

theorem written (h : WrittenSince log kind name elements) (hm : ¬ m.Renews kind name) {w : Write}
    (hw : m.write? kind name = some w) :
    WrittenSince (log ++ [m]) kind name (w.apply elements) := by
  refine RenewedLast.concat h hm ?_
  rintro later rfl
  simp [hw, Write.elements_concat]

end WrittenSince

namespace Store

/-- Every set and map has what was written to it since it was renewed last. -/
def Logged (log : List Moment) (s : Store) : Prop :=
  ∀ kind name entry, s.container? kind name = some entry →
    WrittenSince log kind name entry.elements

variable {log : List Moment} {s : Store} {op : Operation}

/-- An operation about a set or map renews it, writes to it, or finds it there already. -/
theorem Logged.act (h : s.Logged log) {c : Contents} (hc : s.contents = some c) {kind : SetKind}
    {name : String} (hp : op.object.place? = some ⟨.containers kind, name⟩) {entry : SetEntry}
    {warnings : List Warning}
    (ha : op.act s.defines (s.tick op.verb).lastHandle (.containers kind)
      (c.slot ⟨.containers kind, name⟩) = .ok (some entry, warnings)) :
    WrittenSince (log ++ [⟨s, op⟩]) kind name entry.elements := by
  have hread := container?_of_contents hc kind name
  generalize c.slot ⟨.containers kind, name⟩ = slot at ha hread
  obtain ⟨verb, object⟩ := op
  cases object with
  | set kind r =>
    cases hp
    cases verb with
    | add =>
      cases slot with
      | none =>
        cases ha
        exact .renewed (.inl ⟨⟨r, rfl, rfl⟩, hread⟩)
      | some old =>
        cases ha
        refine (h kind r.name old hread).kept ?_ rfl
        rintro (⟨-, hnone⟩ | ⟨r', hop, -⟩)
        · cases hread.symm.trans hnone
        · cases hop
    | flush =>
      cases slot with
      | none => cases ha
      | some old =>
        cases ha
        exact .renewed (.inr ⟨r, rfl, rfl⟩)
    | delete | create | other => cases slot <;> cases ha
  | element e =>
    cases hp
    have hnot : ∀ verb, ¬ Moment.Renews ⟨s, ⟨verb, .element e⟩⟩ e.container e.name := by
      rintro verb (⟨⟨r, hop, -⟩, -⟩ | ⟨r, hop, -⟩) <;> cases hop
    cases verb with
    | add =>
      cases slot with
      | none => cases ha
      | some old =>
        cases ha
        exact (h _ _ old hread).written (hnot .add) (if_pos ⟨rfl, rfl⟩)
    | delete =>
      cases slot with
      | none => cases ha
      | some old =>
        simp only [Operation.act, Slot.operateElement] at ha
        split at ha <;> cases ha
        exact (h _ _ old hread).written (hnot .delete) (if_pos ⟨rfl, rfl⟩)
    | flush | create | other => cases slot <;> cases ha
  | table _ | chain _ | rule _ | counter _ | bare => cases hp

theorem Logged.apply (h : s.Logged log) (hok : (s.apply op).fault = none) :
    (s.apply op).store.Logged (log ++ [⟨s, op⟩]) := by
  intro kind name entry he
  obtain ⟨c', hc', he⟩ := Option.bind_eq_some_iff.1 he
  obtain ⟨c, hc, hslot⟩ := slot_apply_of_ok (p := ⟨.containers kind, name⟩) hok hc' he
  rcases hslot with ⟨hp, warnings, ha⟩ | ⟨hp, hold⟩
  · exact h.act hc hp ha
  · have hentry : s.container? kind name = some entry := Option.bind_eq_some_iff.2 ⟨c, hc, hold⟩
    exact (h kind name entry hentry).kept (Moment.not_renews_of_ne hp) (Moment.write?_of_ne hp)

/-- The sets and maps of a store are those that the log of its history tells of. -/
theorem logged_replay (family : Family) (table : String) (events : List Event) :
    ((new family table).replay events).Logged ((new family table).log events) := by
  have hnew : (new family table).Logged [] := fun kind name entry he => by cases he
  refine log_invariant (P := fun log s => s.Logged log) (fun _ _ _ _ h => h)
    (fun _ _ _ h hok => h.apply hok) ?_ hnew events
  intro log s op h hf kind name entry he
  obtain ⟨fault, hf⟩ := Option.ne_none_iff_exists'.1 hf
  rw [apply_of_fault hf, container?, spent_eq] at he
  exact h kind name entry he

end Store

/-! ## Reading by keys -/

theorem Key.join_eq_intercalate (parts : List String) :
    Key.join parts = " . ".intercalate parts := by
  induction parts with
  | nil => rfl
  | cons part parts ih =>
    cases parts with
    | nil => simp [join]
    | cons next parts => simp [join, ih, separator]

namespace SetEntry

variable {entry : SetEntry}

theorem findElement_eq_none_iff {parts : List String} :
    entry.findElement parts = none ↔ ∀ e ∈ entry.elements, e.key ≠ " . ".intercalate parts := by
  simp [findElement, find?, Key.join_eq_intercalate]

/-- Where no key stands twice, the element that is found is the only one with the key. -/
theorem findElement_eq_some_iff (h : (entry.elements.map Element.key).Nodup) {parts : List String}
    {e : Element} :
    entry.findElement parts = some e ↔ e ∈ entry.elements ∧ e.key = " . ".intercalate parts := by
  constructor
  · intro hf
    refine ⟨List.mem_of_find?_eq_some hf, ?_⟩
    rw [← Key.join_eq_intercalate]
    simpa using List.find?_some (p := fun e : Element => e.key == Key.join parts) hf
  · rintro ⟨he, hkey⟩
    cases hf : entry.findElement parts with
    | none => exact absurd hkey (findElement_eq_none_iff.1 hf e he)
    | some x =>
      have hx := List.find?_some (p := fun e : Element => e.key == Key.join parts) hf
      rw [beq_iff_eq, Key.join_eq_intercalate, ← hkey] at hx
      rw [List.inj_on_of_nodup_map h (List.mem_of_find?_eq_some hf) he hx]

end SetEntry

/-- Whatever a client did with a new store, a set or map in it was made or emptied last by some
operation of the log, and its elements are what was written to it after that: for each key that
stands the last element put, in the order in which the keys came up. An element is found by the
parts of its key if it is there, and else nothing is. -/
theorem Store.elements_of_log {family : Family} {table : String} {events : List Event}
    {kind : SetKind} {name : String} {entry : SetEntry}
    (he : ((new family table).replay events).container? kind name = some entry) :
    ((new family table).replay events).listElements kind.kind.text name = .ok entry.elements ∧
    (∃ earlier m later, (new family table).log events = earlier ++ m :: later ∧
      m.Renews kind name ∧ (∀ x ∈ later, ¬ x.Renews kind name) ∧
      LastWriteWins (later.filterMap fun x => x.write? kind name) entry.elements) ∧
    ∀ parts,
      (∀ e, entry.findElement parts = some e ↔
        e ∈ entry.elements ∧ e.key = " . ".intercalate parts) ∧
      (entry.findElement parts = none ↔
        ∀ e ∈ entry.elements, e.key ≠ " . ".intercalate parts) := by
  obtain ⟨earlier, m, later, hlog, hm, hlater, helements⟩ :=
    logged_replay family table events kind name entry he
  have hwins := lastWriteWins_elements (later.filterMap fun x => x.write? kind name)
  rw [← helements] at hwins
  refine ⟨listElements_eq_ok.2 ⟨entry, he, rfl⟩, ⟨earlier, m, later, hlog, hm, hlater, hwins⟩, ?_⟩
  exact fun parts => ⟨fun e => SetEntry.findElement_eq_some_iff hwins.nodup,
    SetEntry.findElement_eq_none_iff⟩

/-- A map from an address and a port to a verdict. One key is put with a placeholder and without, a
value before its define is there and after that, and an element is deleted and put again. -/
def remapping : List Event :=
  [.define "HOST" "10.0.0.1",
   .run ⟨[⟨.add, .table ⟨none, none, none, none⟩⟩,
      ⟨.add, .set .map ⟨"web", some "ipv4_addr . inet_service : verdict", none, none, none, none,
        none, none, none, none, none⟩⟩,
      ⟨.add, .element ⟨"web", "$HOST . 80", some "accept", some "first"⟩⟩,
      ⟨.add, .element ⟨"web", "10.0.0.2 . 80", some "$DENY", some "early"⟩⟩,
      ⟨.add, .element ⟨"web", "10.0.0.3 . 80", some "$DENY", none⟩⟩], none⟩,
   .define "DENY" "drop",
   .run ⟨[⟨.add, .element ⟨"web", "10.0.0.1 . 80", some "$DENY", some "again"⟩⟩,
      ⟨.delete, .element ⟨"web", "10.0.0.2 . 80", some "accept", none⟩⟩,
      ⟨.add, .element ⟨"web", "10.0.0.2 . 80", some "queue", some "late"⟩⟩], none⟩]

/-- The map that is left. -/
def remapped : SetEntry where
  record := ⟨"web", some "ipv4_addr . inet_service : verdict", none, none, none, none, none, none,
    none, none, some 2⟩
  elements := [⟨"web", "10.0.0.1 . 80", some "drop", some "again"⟩,
    ⟨"web", "10.0.0.3 . 80", some "$DENY", none⟩,
    ⟨"web", "10.0.0.2 . 80", some "queue", some "late"⟩]

theorem elements_remapped :
    ((Store.new .inet "filter").replay remapping).container? .map "web" = some remapped ∧
    ((Store.new .inet "filter").replay remapping).listElements SetKind.map.kind.text "web"
      = .ok remapped.elements ∧
    (∃ earlier m later, (Store.new .inet "filter").log remapping = earlier ++ m :: later ∧
      m.Renews .map "web" ∧ (∀ x ∈ later, ¬ x.Renews .map "web") ∧
      LastWriteWins (later.filterMap fun x => x.write? .map "web") remapped.elements) ∧
    remapped.findElement ["10.0.0.1", "80"]
      = some ⟨"web", "10.0.0.1 . 80", some "drop", some "again"⟩ ∧
    remapped.findElement ["$HOST", "80"] = none := by
  have he : ((Store.new .inet "filter").replay remapping).container? .map "web"
      = some remapped := by
    decide +kernel
  obtain ⟨hlist, hwins, hfind⟩ := Store.elements_of_log he
  refine ⟨he, hlist, hwins, ?_, ?_⟩
  · exact ((hfind _).1 _).2 ⟨by decide, by decide⟩
  · exact (hfind _).2.2 (by decide)

/-- What is written there: a key that is put once more keeps its place, and one that was dropped in
between comes behind the others. -/
example :
    ((Store.new .inet "filter").log remapping).filterMap (fun m => m.write? .map "web")
      = [.put ⟨"web", "10.0.0.1 . 80", some "accept", some "first"⟩,
         .put ⟨"web", "10.0.0.2 . 80", some "$DENY", some "early"⟩,
         .put ⟨"web", "10.0.0.3 . 80", some "$DENY", none⟩,
         .put ⟨"web", "10.0.0.1 . 80", some "drop", some "again"⟩,
         .drop "10.0.0.2 . 80",
         .put ⟨"web", "10.0.0.2 . 80", some "queue", some "late"⟩] := by
  decide +kernel

end NftStore
