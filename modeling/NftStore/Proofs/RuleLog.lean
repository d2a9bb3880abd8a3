import NftStore.Proofs.Existence
import NftStore.Proofs.Failure
import NftStore.Store.Log

/-!
The rules of a chain as its log. A chain is changed in place too: rules are added at its end and
taken out by their handles, and it is emptied, deleted and made again. What it lists is still told
by the log of the history alone: the rules that were added since it was made or emptied last, as
they were stored then, but those whose handle was deleted after that (`keptRules`). No handle is
ever given twice, so taking out the first rule of a handle takes out all of them.
-/
namespace NftStore

/-! ## What is added and deleted -/

namespace Moment

/-- The chain is made: it is added and was not there. -/
def CreatesChain (m : Moment) (name : String) : Prop :=
  (∃ r, m.operation = ⟨.add, .chain r⟩ ∧ r.name = name) ∧ m.store.chain? name = none

/-- The chain is emptied. -/
def FlushesChain (m : Moment) (name : String) : Prop :=
  ∃ r, m.operation = ⟨.flush, .chain r⟩ ∧ r.name = name

/-- The chain has no rules afterwards, whatever was in it. -/
def RenewsChain (m : Moment) (name : String) : Prop :=
  m.CreatesChain name ∨ m.FlushesChain name

/-- The rule that is added to the chain, as it was submitted but for its text, substituted by the
defines in force, and its handle, the next of the count. -/
def addedRule? (m : Moment) (name : String) : Option Rule :=
  match m.operation with
  | ⟨.add, .rule r⟩ =>
    if r.chain = name then
      some { r with
        rule := r.rule.map m.store.defines.substitute
        handle := some ↑(m.store.lastHandle + 1) }
    else none
  | _ => none

/-- The handle is deleted from the chain. -/
def deletesRule (m : Moment) (name : String) (handle : Option Int) : Bool :=
  match m.operation with
  | ⟨.delete, .rule d⟩ => d.chain == name && d.handle == handle
  | _ => false

variable {m : Moment} {name : String}

/-- Only an operation about the chain makes or empties it, adds a rule to it or deletes one. -/
theorem not_renewsChain_of_ne (h : m.operation.object.place? ≠ some ⟨.chains, name⟩) :
    ¬ m.RenewsChain name := by
  rintro (⟨⟨r, hop, rfl⟩, -⟩ | ⟨r, hop, rfl⟩) <;> exact h (by rw [hop]; rfl)

theorem addedRule?_of_ne (h : m.operation.object.place? ≠ some ⟨.chains, name⟩) :
    m.addedRule? name = none := by
  unfold addedRule?
  split
  · rename_i r hop
    rw [hop] at h
    refine if_neg ?_
    rintro rfl
    exact h rfl
  · rfl

theorem deletesRule_of_ne (h : m.operation.object.place? ≠ some ⟨.chains, name⟩)
    (handle : Option Int) : m.deletesRule name handle = false := by
  unfold deletesRule
  split
  · rename_i d hop
    rw [hop] at h
    have hne : d.chain ≠ name := by
      rintro rfl
      exact h rfl
    simp [hne]
  · rfl

end Moment

/-- The rules that are added to the chain in turn, but those whose handle is deleted from it
later. -/
def keptRules (name : String) : List Moment → List Rule
  | [] => []
  | m :: later =>
    ((m.addedRule? name).toList.filter fun r => !later.any fun x => x.deletesRule name r.handle)
      ++ keptRules name later

/-- One more moment takes out the rules of the handle that it deletes and puts the rule that it adds
behind the others. -/
theorem keptRules_concat (name : String) (later : List Moment) (m : Moment) :
    keptRules name (later ++ [m])
      = (keptRules name later).filter (fun r => !m.deletesRule name r.handle)
        ++ (m.addedRule? name).toList := by
  induction later with
  | nil => simp [keptRules]
  | cons first later ih =>
    simp only [List.cons_append, keptRules, ih, List.filter_append, List.filter_filter,
      List.any_append, List.any_cons, List.any_nil, Bool.or_false, Bool.not_or, List.append_assoc,
      Bool.and_comm]

/-- The chain was made or emptied last at some moment of the log, and has the rules that were added
since and not deleted. -/
def KeptSince (log : List Moment) (name : String) (rules : List Rule) : Prop :=
  RenewedLast log (fun m => m.RenewsChain name) fun later => rules = keptRules name later

namespace KeptSince

variable {log : List Moment} {m : Moment} {name : String} {rules : List Rule}

theorem renewed (h : m.RenewsChain name) : KeptSince (log ++ [m]) name [] :=
  RenewedLast.now h rfl

theorem concat (h : KeptSince log name rules) (hm : ¬ m.RenewsChain name) :
    KeptSince (log ++ [m]) name
      (rules.filter (fun r => !m.deletesRule name r.handle) ++ (m.addedRule? name).toList) := by
  refine RenewedLast.concat h hm ?_
  rintro later rfl
  exact (keptRules_concat name later m).symm

theorem kept (h : KeptSince log name rules) (hm : ¬ m.RenewsChain name)
    (hadd : m.addedRule? name = none) (hdelete : ∀ handle, m.deletesRule name handle = false) :
    KeptSince (log ++ [m]) name rules := by
  have hnext := h.concat hm
  simpa [hadd, hdelete] using hnext

end KeptSince

/-! ## The rules in a log -/

namespace Store

/-- Handles are numbered, and every chain has the rules that were added since it was renewed last and
not deleted. -/
def RulesLogged (log : List Moment) (s : Store) : Prop :=
  s.Numbered ∧ ∀ name entry, s.chain? name = some entry → KeptSince log name entry.rules

variable {log : List Moment} {s : Store} {op : Operation}

/-- An operation on a chain itself makes it, empties it, or finds it there already. -/
theorem RulesLogged.act_chain (h : s.RulesLogged log) {verb : Verb} {r : Chain}
    {slot : Option ChainEntry} (hread : s.chain? r.name = slot) {entry : ChainEntry}
    {warnings : List Warning}
    (ha : (⟨verb, .chain r⟩ : Operation).act s.defines (s.tick verb).lastHandle .chains slot
      = .ok (some entry, warnings)) :
    KeptSince (log ++ [⟨s, ⟨verb, .chain r⟩⟩]) r.name entry.rules := by
  cases verb with
  | add =>
    cases slot with
    | none =>
      cases ha
      exact .renewed (.inl ⟨⟨r, rfl, rfl⟩, hread⟩)
    | some old =>
      cases ha
      refine (h.2 r.name old hread).kept ?_ rfl fun _ => rfl
      rintro (⟨-, hnone⟩ | ⟨r', hop, -⟩)
      · cases hread.symm.trans hnone
      · cases hop
  | flush =>
    cases slot with
    | none => cases ha
    | some old =>
      cases ha
      exact .renewed (.inr ⟨r, rfl, rfl⟩)
  | delete | create | other => cases slot <;> cases ha

/-- An operation on a rule adds it to its chain or takes one out. -/
theorem RulesLogged.act_rule (h : s.RulesLogged log) {verb : Verb} {r : Rule} {old entry : ChainEntry}
    (hread : s.chain? r.chain = some old) {warnings : List Warning}
    (ha : (⟨verb, .rule r⟩ : Operation).act s.defines (s.tick verb).lastHandle .chains (some old)
      = .ok (some entry, warnings)) :
    KeptSince (log ++ [⟨s, ⟨verb, .rule r⟩⟩]) r.chain entry.rules := by
  have hnot : ¬ Moment.RenewsChain ⟨s, ⟨verb, .rule r⟩⟩ r.chain := by
    rintro (⟨⟨r', hop, -⟩, -⟩ | ⟨r', hop, -⟩) <;> cases hop
  have hnext := (h.2 r.chain old hread).concat hnot
  cases verb with
  | add =>
    cases ha
    simpa [Moment.deletesRule, Moment.addedRule?, ChainEntry.addRule, Rule.stored, lastHandle_tick,
      Verb.makes] using hnext
  | delete =>
    cases hh : r.handle with
    | none => simp [Operation.act, Slot.operateRule, hh] at ha
    | some handle =>
      simp only [Operation.act, Slot.operateRule, hh] at ha
      split at ha <;> cases ha
      -- the handle is that of one rule at most
      obtain ⟨c, hc, hslot⟩ := Option.bind_eq_some_iff.1 hread
      have hnodup : (old.rules.map Rule.handle).Nodup :=
        ((h.1 c hc).rules r.chain old hslot).tail.imp Earlier.ne
      show KeptSince _ _ (old.rules.eraseP fun q => q.handle == some handle)
      rw [eraseP_eq_filter hnodup]
      simpa [Moment.deletesRule, Moment.addedRule?, hh, bne, Bool.beq_comm] using hnext
  | flush | create | other => cases ha

theorem RulesLogged.act (h : s.RulesLogged log) {name : String}
    (hp : op.object.place? = some ⟨.chains, name⟩) {entry : ChainEntry} {warnings : List Warning}
    (ha : op.act s.defines (s.tick op.verb).lastHandle .chains (s.chain? name)
      = .ok (some entry, warnings)) : KeptSince (log ++ [⟨s, op⟩]) name entry.rules := by
  obtain ⟨verb, object⟩ := op
  cases object with
  | chain r =>
    cases hp
    exact h.act_chain rfl ha
  | rule r =>
    cases hp
    cases hread : s.chain? r.chain with
    | none =>
      rw [hread] at ha
      cases verb <;> cases ha
    | some old => exact h.act_rule hread (hread ▸ ha)
  | table _ | set _ _ | element _ | counter _ | bare => cases hp

theorem RulesLogged.apply (h : s.RulesLogged log) (hok : (s.apply op).fault = none) :
    (s.apply op).store.RulesLogged (log ++ [⟨s, op⟩]) := by
  refine ⟨h.1.step (s.step_apply op), ?_⟩
  intro name entry he
  obtain ⟨c', hc', he⟩ := Option.bind_eq_some_iff.1 he
  obtain ⟨c, hc, hslot⟩ := slot_apply_of_ok (p := ⟨.chains, name⟩) hok hc' he
  rcases hslot with ⟨hp, warnings, ha⟩ | ⟨hp, hold⟩
  · exact h.act hp (chain?_of_contents hc name ▸ ha)
  · have hentry : s.chain? name = some entry := Option.bind_eq_some_iff.2 ⟨c, hc, hold⟩
    exact (h.2 name entry hentry).kept (Moment.not_renewsChain_of_ne hp)
      (Moment.addedRule?_of_ne hp) (Moment.deletesRule_of_ne hp)

/-- An operation that fails leaves the chains as they are. -/
theorem RulesLogged.apply_of_fault (h : s.RulesLogged log) {fault : Fault}
    (hf : (s.apply op).fault = some fault) : (s.apply op).store.RulesLogged log := by
  refine ⟨h.1.step (s.step_apply op), ?_⟩
  intro name entry he
  rw [Store.apply_of_fault hf, chain?, spent_eq] at he
  exact h.2 name entry he

/-- The rules in a store are those that the log of its history tells of. -/
theorem rulesLogged_replay (family : Family) (table : String) (events : List Event) :
    ((new family table).replay events).RulesLogged ((new family table).log events) := by
  have hnew : (new family table).RulesLogged [] :=
    ⟨(Reachable.new family table).isNumbered, fun name entry he => by cases he⟩
  refine log_invariant (P := fun log s => s.RulesLogged log) (fun _ _ _ _ h => h)
    (fun _ _ _ h hok => h.apply hok) ?_ hnew events
  intro log s op h hf
  obtain ⟨fault, hf⟩ := Option.ne_none_iff_exists'.1 hf
  exact h.apply_of_fault hf

end Store

/-- Whatever a client did with a new store, a chain that is there was made or emptied last by some
operation of the log, and it lists the rules that were added to it after that, in the order in
which they were, but those whose handle was deleted from it later. Each is the rule that was
submitted, with the text as the defines of its time made it and the handle that was next then. -/
theorem Store.rules_of_log {family : Family} {table : String} {events : List Event}
    {name : String} (h : ((new family table).replay events).Lists Kind.chain.text name) :
    ∃ earlier m later, (new family table).log events = earlier ++ m :: later ∧
      m.RenewsChain name ∧ (∀ x ∈ later, ¬ x.RenewsChain name) ∧
      ((new family table).replay events).listRules name = .ok (keptRules name later) := by
  obtain ⟨entry, he⟩ := Option.isSome_iff_exists.1 (lists_chain.1 h)
  obtain ⟨earlier, m, later, hlog, hm, hlater, hrules⟩ :=
    (rulesLogged_replay family table events).2 name entry he
  exact ⟨earlier, m, later, hlog, hm, hlater, listRules_eq_ok.2 ⟨entry, he, hrules⟩⟩

/-- A chain is filled, deleted and filled again: by then one define more is there and the first of
its rules is deleted, and another rule by a handle that is not one of the chain's. -/
def editing : List Event :=
  [.define "PORT" "80",
   .run ⟨[⟨.add, .table ⟨none, none, none, none⟩⟩,
      ⟨.add, .chain ⟨"in", none, none, none, none, none, none⟩⟩,
      ⟨.add, .rule ⟨"in", some "drop", none, none, none⟩⟩,
      ⟨.delete, .chain ⟨"in", none, none, none, none, none, none⟩⟩,
      ⟨.add, .chain ⟨"in", none, none, none, none, none, none⟩⟩,
      ⟨.add, .rule ⟨"in", some "$IF drop", none, none, none⟩⟩,
      ⟨.add, .rule ⟨"in", some "tcp dport $PORT accept", some "web", some 0, some 5⟩⟩], none⟩,
   .define "IF" "eth0",
   .run ⟨[⟨.add, .chain ⟨"in", none, none, none, none, none, none⟩⟩,
      ⟨.add, .rule ⟨"in", some "$IF accept", none, some 0, none⟩⟩,
      ⟨.delete, .rule ⟨"in", none, none, none, some 5⟩⟩,
      ⟨.delete, .rule ⟨"in", none, none, none, some 3⟩⟩], none⟩]

/-- What the chain lists in the end: the rule added first after the chain was made again is gone,
and the others have the texts that the defines of their time gave them. -/
def editedRules : List Rule :=
  [⟨"in", some "tcp dport 80 accept", some "web", some 0, some 6⟩,
   ⟨"in", some "eth0 accept", none, some 0, some 8⟩]

theorem rules_of_edited :
    ((Store.new .inet "filter").replay editing).Lists Kind.chain.text "in" ∧
    ((Store.new .inet "filter").replay editing).listRules "in" = .ok editedRules ∧
    ∃ earlier m later, (Store.new .inet "filter").log editing = earlier ++ m :: later ∧
      m.RenewsChain "in" ∧ (∀ x ∈ later, ¬ x.RenewsChain "in") ∧
      keptRules "in" later = editedRules := by
  have h : ((Store.new .inet "filter").replay editing).Lists Kind.chain.text "in" :=
    ⟨["in"], by decide +kernel, List.mem_singleton_self "in"⟩
  have hlist : ((Store.new .inet "filter").replay editing).listRules "in" = .ok editedRules := by
    decide +kernel
  obtain ⟨earlier, m, later, hlog, hm, hlater, hrules⟩ := Store.rules_of_log h
  exact ⟨h, hlist, earlier, m, later, hlog, hm, hlater, Except.ok.inj (hrules.symm.trans hlist)⟩

end NftStore
