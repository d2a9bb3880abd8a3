import NftStore.Backend
import NftStore.Proofs.Emptied
import NftStore.Proofs.Existence
import NftStore.Proofs.SubstitutionLaws

/-!
Configured defines. The store of a configuration file has the defines of its family first and those
of the file after them. Where no name is the beginning of another, the one define whose placeholder
starts a text is found wherever it stands (`find?_startsAt`). So a placeholder stands for the
configured value, but for those that a default one of the family starts: the default one was
registered before.
-/
namespace NftStore

/-! ## Names of configured defines -/

theorem prefixFree_forFamily (family : Family) : PrefixFree (Defines.forFamily family).toList := by
  cases family <;> decide

namespace Ini.Document

variable {d : Document} {sectionName : String}

theorem sublist_of_values {options : List String} {pairs : List (String × String)}
    (h : d.values sectionName options = .ok pairs) : (pairs.map Prod.fst).Sublist options := by
  induction options generalizing pairs with
  | nil =>
    cases h
    exact List.Sublist.slnil
  | cons option rest ih =>
    rw [values] at h
    split at h
    · cases h
    · rename_i value _
      cases hrest : d.values sectionName rest with
      | error e =>
        rw [hrest] at h
        cases h
      | ok others =>
        rw [hrest] at h
        cases h
        cases value with
        | none => exact (ih hrest).cons option
        | some v => exact (ih hrest).cons_cons option

theorem nodup_optionNames (d : Document) (sectionName : String) :
    (d.optionNames sectionName).Nodup := by
  refine List.nodup_append.2 ⟨d.defaults.nodup, (d.ownOptions sectionName).nodup.filter _, ?_⟩
  rintro name hdefault _ hown rfl
  simp [Catalog.contains_iff.2 hdefault] at hown

/-- No option stands twice among those of a section. -/
theorem nodup_items {pairs : List (String × String)} (h : d.items sectionName = .ok pairs) :
    (pairs.map Prod.fst).Nodup :=
  (sublist_of_values h).nodup (d.nodup_optionNames sectionName)

end Ini.Document

namespace Config

variable {c : Config}

theorem exists_of_bind_eq_ok {ε α β : Type} {x : Except ε α} {f : α → Except ε β} {b : β}
    (h : x >>= f = .ok b) : ∃ a, x = .ok a ∧ f a = .ok b := by
  cases x with
  | error e => cases h
  | ok a => exact ⟨a, rfl, h⟩

theorem definesOf_of_ofDocument {d : Ini.Document} (h : ofDocument d = .ok c) :
    definesOf d = .ok c.defines := by
  rw [ofDocument] at h
  split at h
  · cases h
  · obtain ⟨backend, -, h⟩ := exists_of_bind_eq_ok h
    obtain ⟨word, -, h⟩ := exists_of_bind_eq_ok h
    dsimp only at h
    split at h
    · obtain ⟨table, -, h⟩ := exists_of_bind_eq_ok h
      split at h
      · obtain ⟨defines, hdefines, h⟩ := exists_of_bind_eq_ok h
        cases h
        exact hdefines
      · cases h
    · cases h

/-- No two defines of a configuration have one name. -/
theorem nodup_defines {file : Option (List UInt8)} (h : read file = .ok c) :
    (c.defines.map Prod.fst).Nodup := by
  cases file with
  | none => cases h
  | some bytes =>
    simp only [read] at h
    split at h
    · cases h
    · rename_i d _
      have hdefines := definesOf_of_ofDocument h
      rw [definesOf] at hdefines
      split at hdefines
      · cases hitems : d.items definesSection with
        | error e =>
          rw [hitems] at hdefines
          cases hdefines
        | ok pairs =>
          rw [hitems] at hdefines
          rw [← Except.ok.inj hdefines]
          exact Ini.Document.nodup_items hitems
      · rw [← Except.ok.inj hdefines]
        exact List.nodup_nil

end Config

/-! ## Rules in the store of a file -/

theorem Backend.exists_error_of_ne {name : String} (h : name ≠ "fake") :
    ∃ e, ofName? name = .error e := by
  rw [ofName?, if_neg h]
  split <;> exact ⟨_, rfl⟩

namespace Store

/-- The store of a file for the backend in memory has the defines of the file after those of the
family. -/
theorem ofFile_of_read {file : Option (List UInt8)} {c : Config} (hc : Config.read file = .ok c)
    (hbackend : c.backend = "fake") : Store.ofFile file = .ok { Store.new c.family c.table with
      defines := ⟨(Defines.forFamily c.family).toList ++ c.defines.map fun d => ⟨d.1, d.2⟩⟩ } := by
  have hdefines := (Defines.forFamily c.family).toList_defineAll c.defines
  rw [ofFile, hc]
  simp only [ofConfig, Backend.ofName?, hbackend, if_true, defineAll_eq]
  rw [← hdefines]
  rfl

/-- A store of a file has a configuration of the file behind it, for the backend in memory. -/
theorem exists_read_of_ofFile {file : Option (List UInt8)} {s : Store}
    (hs : Store.ofFile file = .ok s) : ∃ c, Config.read file = .ok c ∧ c.backend = "fake" := by
  unfold ofFile at hs
  split at hs
  · cases hs
  · rename_i c hc
    by_cases hbackend : c.backend = "fake"
    · exact ⟨c, hc, hbackend⟩
    · obtain ⟨e, he⟩ := Backend.exists_error_of_ne hbackend
      simp [ofConfig, he] at hs

/-- Every store of a file is that one. -/
theorem ofFile_eq {file : Option (List UInt8)} {s : Store} (hs : Store.ofFile file = .ok s)
    {c : Config} (hc : Config.read file = .ok c) : s = { Store.new c.family c.table with
      defines := ⟨(Defines.forFamily c.family).toList ++ c.defines.map fun d => ⟨d.1, d.2⟩⟩ } := by
  obtain ⟨found, hfound, hbackend⟩ := exists_read_of_ofFile hs
  cases hc.symm.trans hfound
  exact Except.ok.inj (hs.symm.trans (ofFile_of_read hc hbackend))

variable {s : Store}

/-- A table and a chain are added where there was nothing, and the chain has no rules. -/
theorem exists_chain_of_add (hc : s.contents = none) (t : Table) (r : Chain) :
    (s.applyAll [⟨.add, .table t⟩, ⟨.add, .chain r⟩]).fault = none ∧
      ∃ c record, (s.applyAll [⟨.add, .table t⟩, ⟨.add, .chain r⟩]).store.contents = some c ∧
        c.slot ⟨.chains, r.name⟩ = some ⟨record, []⟩ := by
  have hfree := slot_freshContents (s.tick .add) t ⟨.chains, r.name⟩
  rw [applyAll, apply_addTable_of_none hc, Outcome.andThen_of_ok rfl]
  show (Store.run _ (Transaction.empty.queueRaw [⟨.add, .chain r⟩])).fault = none ∧ ∃ c record,
    (Store.run _ (Transaction.empty.queueRaw [⟨.add, .chain r⟩])).store.contents = some c ∧ _
  rw [run_single, apply_of_act_ok (p := ⟨.chains, r.name⟩) rfl rfl (by rw [hfree]; rfl)]
  exact ⟨rfl, _, _, rfl, Contents.slot_put_self _ _ _⟩

theorem apply_addRule {c : Contents} (hc : s.contents = some c) {q : Rule} {entry : ChainEntry}
    (he : c.slot ⟨.chains, q.chain⟩ = some entry) : s.apply ⟨.add, .rule q⟩
      = ⟨{ s.tick .add with contents := some (c.put ⟨.chains, q.chain⟩
          (some (entry.addRule (q.stored s.defines (s.tick .add).lastHandle)))) }, [], none⟩ := by
  apply apply_of_act_ok hc rfl
  rw [he]
  rfl

/-- A table, a chain in it and a rule in that. -/
def addingRule (t : Table) (r : Chain) (q : Rule) : List Operation :=
  [⟨.add, .table t⟩, ⟨.add, .chain r⟩, ⟨.add, .rule q⟩]

/-- The rule is then the only one of its chain. -/
theorem listRules_addingRule (hc : s.contents = none) (t : Table) {r : Chain} {q : Rule}
    (hchain : q.chain = r.name) : (s.applyAll (addingRule t r q)).fault = none ∧
      (s.applyAll (addingRule t r q)).store.listRules r.name
        = .ok [q.stored s.defines (s.lastHandle + 3)] := by
  obtain ⟨hok, c, record, hc₂, hslot⟩ := exists_chain_of_add hc t r
  have hdefines : (s.applyAll [⟨.add, .table t⟩, ⟨.add, .chain r⟩]).store.defines = s.defines :=
    s.defines_run (Transaction.empty.queueRaw _)
  have hlast := lastHandle_applyAll_of_ok hok
  have hsplit : addingRule t r q = [⟨.add, .table t⟩, ⟨.add, .chain r⟩] ++ [⟨.add, .rule q⟩] := rfl
  rw [hsplit, applyAll_append, Outcome.andThen_of_ok hok]
  generalize (s.applyAll [⟨.add, .table t⟩, ⟨.add, .chain r⟩]).store = s₂ at *
  have hrule := apply_addRule hc₂ (q := q) (by rw [hchain]; exact hslot)
  show (s₂.run (Transaction.empty.queueRaw [⟨.add, .rule q⟩])).fault = none ∧
    listRules (s₂.run (Transaction.empty.queueRaw [⟨.add, .rule q⟩])).store r.name = _
  rw [run_single, hrule, listRules, chain?_of_contents rfl, hchain, Contents.slot_put_self,
    hdefines, lastHandle_tick, hlast]
  exact ⟨rfl, rfl⟩

/-- What a configured name stands for. In the store of a file, of whose defines no name is the
beginning of another, a table, a chain and a rule are added, and the rule is the placeholder of a
name. If no define of the family begins as the placeholder does, the rule stored has the configured
value for its text. Else it has the value of that define, followed by what is left of the name. -/
theorem listRules_of_define {file : Option (List UInt8)} (hs : Store.ofFile file = .ok s)
    {c : Config} (hc : Config.read file = .ok c)
    (hfree : ∀ a ∈ c.defines, ∀ b ∈ c.defines, a.1.toList <+: b.1.toList → a.1 = b.1)
    {name value : String} (hd : (name, value) ∈ c.defines) (t : Table) {r : Chain} {q : Rule}
    (hchain : q.chain = r.name) (hrule : q.rule = some ("$" ++ name)) :
    (s.run (Transaction.empty.queueRaw (addingRule t r q))).fault = none ∧ ∃ text,
      (s.run (Transaction.empty.queueRaw (addingRule t r q))).store.listRules r.name
        = .ok [{ q with rule := some text, handle := some 3 }] ∧
      ((∀ d ∈ (Defines.forFamily c.family).toList, ¬ d.name.toList <+: name.toList) →
        text = value) ∧
      ∀ d ∈ (Defines.forFamily c.family).toList, d.name.toList <+: name.toList →
        text = d.value
          ++ s.defines.substitute (String.ofList (name.toList.drop d.name.length)) := by
  have hstore := ofFile_eq hs hc
  have hconfigured : PrefixFree (c.defines.map fun d => (⟨d.1, d.2⟩ : Define)) := by
    intro a ha b hb hprefix
    obtain ⟨x, hx, rfl⟩ := List.mem_map.1 ha
    obtain ⟨y, hy, rfl⟩ := List.mem_map.1 hb
    rw [List.inj_on_of_nodup_map (Config.nodup_defines hc) hx hy (hfree x hx y hy hprefix)]
  have hearliest : s.defines.earliest? (Define.sigil :: name.toList)
      = ((Defines.forFamily c.family).toList.find? fun d =>
          d.startsAt (Define.sigil :: name.toList)).or (some ⟨name, value⟩) := by
    rw [Defines.earliest?, hstore, List.find?_append]
    rw [find?_startsAt hconfigured (List.mem_map.2 ⟨_, hd, rfl⟩) List.prefix_rfl]
  obtain ⟨hok, hlist⟩ := listRules_addingRule (s := s) (by rw [hstore]; rfl) t hchain
  refine ⟨hok, s.defines.substitute ("$" ++ name), ?_, fun hnone => ?_,
    fun d hdefault hprefix => ?_⟩
  · rw [run_queueRaw, hlist, Rule.stored, hrule, hstore]
    rfl
  · have hfind : ((Defines.forFamily c.family).toList.find? fun d =>
        d.startsAt (Define.sigil :: name.toList)) = none := by
      apply List.find?_eq_none.2
      intro d hdefault hstart
      exact hnone d hdefault (Define.startsAt_sigil.1 hstart)
    rw [hfind] at hearliest
    exact Defines.substitute_eq_value hearliest rfl
  · rw [find?_startsAt (prefixFree_forFamily c.family) hdefault hprefix] at hearliest
    exact Defines.substitute_placeholder hearliest

end Store

/-- A file with a define of a name that the family may have one for already. -/
def overriding (family : Family) : List UInt8 :=
  ("[nftsim]\nfamily = " ++ family.text
    ++ "\ntable = t\n[defines]\nIP = 10.0.0.1\n").toUTF8.data.toList

/-- What is read from it. -/
def overridden (family : Family) : Config :=
  ⟨"fake", family, "t", [("IP", "10.0.0.1")]⟩

/-- Its store. -/
def overriddenStore (family : Family) : Store :=
  { Store.new family "t" with defines := (Defines.forFamily family).define "IP" "10.0.0.1" }

/-- A table, the chain `in` and a rule that is the placeholder of the name. -/
def addingPlaceholder : List Operation :=
  Store.addingRule ⟨none, none, none, none⟩ ⟨"in", none, none, none, none, none, none⟩
    ⟨"in", some "$IP", none, none, none⟩

/-- The family `ip` has such a define, so the one of the file has no effect. -/
theorem listRules_overridden_ip :
    Config.read (some (overriding .ip)) = .ok (overridden .ip) ∧
    Store.ofFile (some (overriding .ip)) = .ok (overriddenStore .ip) ∧
    (∀ a ∈ (overridden .ip).defines, ∀ b ∈ (overridden .ip).defines,
      a.1.toList <+: b.1.toList → a.1 = b.1) ∧
    ("IP", "10.0.0.1") ∈ (overridden .ip).defines ∧
    ((overriddenStore .ip).run (.queueRaw .empty addingPlaceholder)).store.listRules "in"
      = .ok [⟨"in", some "ip", none, none, some 3⟩] ∧
    ((overriddenStore .ip).run (.queueRaw .empty addingPlaceholder)).store.listRules "in"
      ≠ .ok [⟨"in", some "10.0.0.1", none, none, some 3⟩] := by
  decide +kernel

/-- The family `inet` has none. -/
theorem listRules_overridden_inet :
    Store.ofFile (some (overriding .inet)) = .ok (overriddenStore .inet) ∧
    Config.read (some (overriding .inet)) = .ok (overridden .inet) ∧
    (∀ a ∈ (overridden .inet).defines, ∀ b ∈ (overridden .inet).defines,
      a.1.toList <+: b.1.toList → a.1 = b.1) ∧
    ("IP", "10.0.0.1") ∈ (overridden .inet).defines ∧
    ((overriddenStore .inet).run (.queueRaw .empty addingPlaceholder)).fault = none ∧
    ((overriddenStore .inet).run (.queueRaw .empty addingPlaceholder)).store.listRules "in"
      = .ok [⟨"in", some "10.0.0.1", none, none, some 3⟩] := by
  have hs : Store.ofFile (some (overriding .inet)) = .ok (overriddenStore .inet) := by
    decide +kernel
  have hc : Config.read (some (overriding .inet)) = .ok (overridden .inet) := by
    decide +kernel
  have hfree : ∀ a ∈ (overridden .inet).defines, ∀ b ∈ (overridden .inet).defines,
      a.1.toList <+: b.1.toList → a.1 = b.1 := by
    decide
  have hd : ("IP", "10.0.0.1") ∈ (overridden .inet).defines := List.mem_cons_self
  obtain ⟨hok, text, hlist, hvalue, -⟩ := Store.listRules_of_define hs hc hfree hd
    ⟨none, none, none, none⟩ (r := ⟨"in", none, none, none, none, none, none⟩)
    (q := ⟨"in", some "$IP", none, none, none⟩) rfl rfl
  rw [hvalue (by decide)] at hlist
  exact ⟨hs, hc, hfree, hd, hok, hlist⟩

end NftStore
