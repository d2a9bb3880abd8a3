import NftStore.Proofs.Validity

/-!
Texts that substitution empties. Objects are judged when they are queued, but placeholders are
replaced when they are stored, and a define may have an empty value. So a text that has to be there
can be empty once it is stored. Nothing else that was valid becomes invalid by being stored, and
without such defines nothing at all does.
-/
namespace NftStore

/-! ## Substitution in texts that may be unset -/

theorem Defines.substitute_empty (ds : Defines) : ds.substitute "" = "" := by
  simp [substitute, expand]

/-- A text that is filled in stays so, or nothing is left of it. -/
theorem Defines.filled_or_emptied (ds : Defines) {text : Option String}
    (h : (filled text).isSome) :
    (filled (text.map ds.substitute)).isSome ∨ text.map ds.substitute = some "" := by
  cases text with
  | none => cases h
  | some t =>
    by_cases ht : ds.substitute t = ""
    · exact .inr (by rw [Option.map_some, ht])
    · exact .inl (by simp [filled, Option.filter, ht])

/-- Substitution fills in nothing. -/
theorem Defines.filled_substitute_eq_none (ds : Defines) {text : Option String}
    (h : filled text = none) : filled (text.map ds.substitute) = none := by
  cases text with
  | none => rfl
  | some t =>
    have ht : t = "" := by simpa [filled, Option.filter] using h
    rw [ht, Option.map_some, ds.substitute_empty]
    rfl

/-- Of two texts of which just one is filled in, just one is afterwards, unless it was emptied. -/
theorem Defines.one_filled_or_emptied (ds : Defines) {t u : Option String}
    (h : (filled t).isSome ≠ (filled u).isSome) :
    (filled (t.map ds.substitute)).isSome ≠ (filled (u.map ds.substitute)).isSome ∨
      (t.map ds.substitute = some "" ∨ u.map ds.substitute = some "") ∧
        filled (t.map ds.substitute) = none ∧ filled (u.map ds.substitute) = none := by
  have key : ∀ {t u : Option String}, (filled t).isSome → filled u = none →
      (filled (t.map ds.substitute)).isSome ≠ (filled (u.map ds.substitute)).isSome ∨
        t.map ds.substitute = some "" ∧ filled (t.map ds.substitute) = none ∧
          filled (u.map ds.substitute) = none := by
    intro t u ht hu
    have hu' := ds.filled_substitute_eq_none hu
    rcases ds.filled_or_emptied ht with hfilled | hempty
    · exact .inl (by rw [hfilled, hu']; decide)
    · exact .inr ⟨hempty, by rw [hempty]; rfl, hu'⟩
  cases ht : filled t with
  | some text =>
    have hu : filled u = none := by
      cases hu : filled u with
      | none => rfl
      | some other => exact absurd (by rw [ht, hu]; rfl) h
    exact (key (by rw [ht]; rfl) hu).imp_right fun ⟨he, ht', hu'⟩ => ⟨.inl he, ht', hu'⟩
  | none =>
    have hu : (filled u).isSome := by
      cases hu : filled u with
      | none => exact absurd (by rw [ht, hu]) h
      | some other => rfl
    exact (key hu ht).imp (fun hne he => hne he.symm) fun ⟨he, hu', ht'⟩ => ⟨.inr he, ht', hu'⟩

/-! ## Records that are valid, but for a text that was emptied -/

/-- The rule could be added again without its index and handle, or it has an empty text and could
be added but for that. -/
def Rule.ValidOrEmptied (r : Rule) : Prop :=
  r.unplaced.invalid? .add = none ∨
    r.rule = some "" ∧ r.unplaced.invalid? .add = some (.ruleWithoutText r.chain)

/-- The set or map could be added again, or it has an empty type or typeof and nothing else for
either, and could be added but for that. -/
def SetSpec.ValidOrEmptied (s : SetSpec) (kind : SetKind) : Prop :=
  s.invalid? kind .add = none ∨
    (s.type = some "" ∨ s.typeof = some "") ∧ filled s.type = none ∧ filled s.typeof = none ∧
      s.invalid? kind .add = some (.setTypeNotUnique kind s.name)

/-- The element could be put again, or it has an empty key and could be put but for that; and it
would be put into a container of the same kind, unless it is in a map and has an empty value. -/
def Element.ValidOrEmptied (e : Element) (kind : SetKind) : Prop :=
  (e.invalid? = none ∨ e.key = "" ∧ e.invalid? = some (.elementWithoutKey e.container e.name)) ∧
    (e.container = kind ∨ kind = .map ∧ e.value = some "")

variable {defines : Defines} {number : Nat}

theorem Rule.validOrEmptied_stored {r : Rule} (hr : r.invalid? .add = none) :
    (r.stored defines number).ValidOrEmptied := by
  obtain ⟨hchain, hrule, -⟩ := invalid?_add_eq_none_iff.1 hr
  rcases defines.filled_or_emptied hrule with hfilled | hempty
  · exact .inl (invalid?_add_eq_none_iff.2 ⟨hchain, hfilled, by simp [unplaced]⟩)
  · refine .inr ⟨hempty, ?_⟩
    simp [invalid?, unplaced, stored, hempty, hchain, Verb.makes, filled, Option.filter]

/-- When a set or map can be added. -/
theorem SetSpec.invalid?_add_eq_none_iff {s : SetSpec} {kind : SetKind} :
    s.invalid? kind .add = none ↔
      s.name ≠ "" ∧ (filled s.type).isSome ≠ (filled s.typeof).isSome := by
  by_cases hn : s.name = ""
  · simp [invalid?, hn]
  · simp [invalid?, hn, Verb.makes]

theorem SetSpec.validOrEmptied_stored {s : SetSpec} {kind : SetKind}
    (hs : s.invalid? kind .add = none) : (s.stored defines number).ValidOrEmptied kind := by
  obtain ⟨hname, hone⟩ := invalid?_add_eq_none_iff.1 hs
  rcases defines.one_filled_or_emptied hone with hstored | ⟨hempty, ht, hu⟩
  · exact .inl (invalid?_add_eq_none_iff.2 ⟨hname, hstored⟩)
  · refine .inr ⟨hempty, ht, hu, ?_⟩
    simp [invalid?, stored, hname, Verb.makes, ht, hu]

theorem Element.container_eq_map_iff {e : Element} :
    e.container = .map ↔ (filled e.value).isSome := by
  unfold container
  split <;> simp_all

theorem Element.value_stored_of_map (ds : Defines) {e : Element} (h : e.container = .map) :
    (e.stored ds).value = e.value.map ds.substitute := by
  simp only [stored, h, if_true]

/-- Nothing is replaced in the value of a set's element, so it stays one. -/
theorem Element.container_stored_of_set {e : Element} (h : e.container = .set) :
    (e.stored defines).container = .set := by
  have hv : (e.stored defines).value = e.value := by
    simp only [stored, h, reduceCtorEq, if_false]
  rw [container, hv]
  exact h

theorem Element.validOrEmptied_stored {e : Element} (he : e.invalid? = none) :
    (e.stored defines).ValidOrEmptied e.container := by
  obtain ⟨hname, hkey⟩ := invalid?_eq_none_iff.1 he
  refine ⟨?_, ?_⟩
  · by_cases hk : defines.substitute e.key = ""
    · exact .inr ⟨hk, by simp [invalid?, stored, hname, hk]⟩
    · exact .inl (invalid?_eq_none_iff.2 ⟨hname, hk⟩)
  · cases hc : e.container with
    | set => exact .inl (container_stored_of_set hc)
    | map =>
      have hv := value_stored_of_map defines hc
      rcases defines.filled_or_emptied (container_eq_map_iff.1 hc) with hfilled | hempty
      · exact .inl (container_eq_map_iff.2 (by rw [hv]; exact hfilled))
      · exact .inr ⟨rfl, hv.trans hempty⟩

/-! ## The invariant -/

/-- The chain could be added again, and so could its rules, but for emptied texts. -/
structure ChainEntry.ValidOrEmptied (entry : ChainEntry) : Prop where
  record : entry.record.invalid? = none
  rules : ∀ r ∈ entry.rules, r.ValidOrEmptied

/-- The set or map and its elements could be added again, but for emptied texts. -/
structure SetEntry.ValidOrEmptied (entry : SetEntry) (kind : SetKind) : Prop where
  record : entry.record.ValidOrEmptied kind
  elements : ∀ e ∈ entry.elements, e.ValidOrEmptied kind

/-- An entry is valid for its catalog, but for emptied texts. -/
def Place.ValidOrEmptied : (p : Place) → p.shelf.Entry → Prop
  | ⟨.chains, _⟩, entry => ChainEntry.ValidOrEmptied entry
  | ⟨.containers kind, _⟩, entry => SetEntry.ValidOrEmptied entry kind

variable {op : Operation}

theorem ChainEntry.Step.validOrEmptied {old : Option ChainEntry} {new : ChainEntry}
    (h : ChainEntry.Step op defines number old (some new)) (hv : op.Valid)
    (hold : ∀ entry, old = some entry → entry.ValidOrEmptied) : new.ValidOrEmptied := by
  refine ⟨h.record_of (P := fun r => r.invalid? = none) ?_ fun entry he => (hold entry he).record,
    h.forall_rules ?_ fun entry he => (hold entry he).rules⟩
  · rintro r rfl
    exact Except.ok.inj hv
  · rintro r rfl
    exact Rule.validOrEmptied_stored (Except.ok.inj hv)

theorem SetEntry.Step.validOrEmptied {old : Option SetEntry} {new : SetEntry} {kind : SetKind}
    {name : String} (h : SetEntry.Step op defines number old (some new)) (hv : op.Valid)
    (hp : op.object.place? = some ⟨.containers kind, name⟩)
    (hold : ∀ entry, old = some entry → entry.ValidOrEmptied kind) :
    new.ValidOrEmptied kind := by
  refine ⟨h.record_of (P := fun r => r.ValidOrEmptied kind) ?_
      fun entry he => (hold entry he).record,
    h.forall_elements ?_ fun entry he => (hold entry he).elements⟩
  · rintro other r rfl
    cases hp
    exact SetSpec.validOrEmptied_stored (Except.ok.inj hv)
  · rintro e rfl
    cases hp
    exact Element.validOrEmptied_stored (Except.ok.inj hv)

/-! ## Histories of queued transactions -/

/-- What a client does if it runs what it queued; the values that it registers may be empty. -/
def Event.Orderly : Event → Prop
  | .define _ _ => True
  | .run tx => tx.Queued

theorem Defines.Filled.of_define {ds : Defines} {name value : String}
    (h : (ds.define name value).Filled) : ds.Filled ∧ value ≠ "" :=
  ⟨fun d hd => h d (List.mem_append_left _ hd),
    h ⟨name, value⟩ (List.mem_append_right _ (List.mem_singleton_self _))⟩

namespace Store

/-- Defines only ever become more, so if none is empty now, none ever was. -/
theorem ReachableBy.sound_of_filled {s : Store} (h : s.ReachableBy Event.Orderly)
    (hd : s.defines.Filled) : s.ReachableBy Event.Sound := by
  induction h with
  | new f t => exact .new f t
  | after e he _ ih =>
    cases e with
    | define name value =>
      obtain ⟨hbefore, hvalue⟩ := Defines.Filled.of_define hd
      exact .after _ hvalue (ih hbefore)
    | run tx =>
      rw [Store.after, defines_run] at hd
      exact .after _ he (ih hd)

theorem ReachableBy.validOrEmptied {s : Store} (h : s.ReachableBy Event.Orderly) :
    s.All Place.ValidOrEmptied := by
  refine ReachableBy.of_steps (fun f t => All.new f t) (fun _ _ _ _ hs => hs) ?_ h
  intro tx hq s op s' hop hs hstep
  have hv : op.Valid := Transaction.Queued.valid hq op hop
  refine hs.step hstep ?_
  rintro ⟨k, name⟩ old new hp hslot hold
  cases k with
  | chains => exact ChainEntry.Step.validOrEmptied hslot hv hold
  | containers kind => exact SetEntry.Step.validOrEmptied hslot hv hp hold

/-- What was stored by queued transactions could be queued and would be stored again in the same
catalog, but for texts that substitution emptied, and these are only there if some define has an
empty value. -/
theorem valid_of_reachableBy {s : Store} (h : s.ReachableBy Event.Orderly) {c : Contents}
    (hc : s.contents = some c) :
    c.All Place.ValidOrEmptied ∧
    ((∀ d ∈ s.defines.toList, d.value ≠ "") → c.All Place.Valid) :=
  ⟨h.validOrEmptied c hc, fun hd => (h.sound_of_filled hd).isSound.entries c hc⟩

end Store

/-- Objects of each kind with nothing but the placeholder of one define where a text has to be. -/
def placeholding (value : String) : List Event :=
  [.define "X" value,
   .run (Transaction.empty.queueAll
     [⟨.add, .table ⟨none, none, none, none⟩⟩,
      ⟨.add, .chain ⟨"in", none, none, none, none, none, none⟩⟩,
      ⟨.add, .rule ⟨"in", some "$X", none, some 0, none⟩⟩,
      ⟨.add, .set .set ⟨"in", some "$X", some "", none, none, none, none, none, none, none,
        none⟩⟩,
      ⟨.add, .set .map ⟨"in", some "ipv4_addr : verdict", none, none, none, none, none, none, none,
        none, none⟩⟩,
      ⟨.add, .element ⟨"in", "$X", none, none⟩⟩,
      ⟨.add, .element ⟨"in", "10.0.0.1", some "$X", none⟩⟩]).1]

/-- The table that `placeholding` leaves. -/
def placeheld (value : String) : Contents where
  table := ⟨some "inet", some "filter", none, some 1⟩
  chains := ⟨[("in", ⟨⟨"in", none, none, none, none, none, some 2⟩,
    [⟨"in", some value, none, some 0, some 3⟩]⟩)], by simp⟩
  sets := ⟨[("in", ⟨⟨"in", some value, some "", none, none, none, none, none, none, none, some 4⟩,
    [⟨"in", value, none, none⟩]⟩)], by simp⟩
  maps := ⟨[("in", ⟨⟨"in", some "ipv4_addr : verdict", none, none, none, none, none, none, none,
    none, some 5⟩, [⟨"in", "10.0.0.1", some value, none⟩]⟩)], by simp⟩

theorem orderly_placeholding (value : String) :
    ((Store.new .inet "filter").replay (placeholding value)).ReachableBy Event.Orderly := by
  refine (Store.ReachableBy.new .inet "filter").replay fun e he => ?_
  simp only [placeholding, List.mem_cons, List.not_mem_nil, or_false] at he
  rcases he with rfl | rfl
  · trivial
  · exact Transaction.Queued.empty.queueAll _

/-- With an empty value nothing of this is valid any more, but for the chain and the map. -/
theorem not_valid_placeheld :
    ((Store.new .inet "filter").replay (placeholding "")).ReachableBy Event.Orderly ∧
    ((Store.new .inet "filter").replay (placeholding "")).contents = some (placeheld "") ∧
    ¬ (placeheld "").All Place.Valid := by
  refine ⟨orderly_placeholding "", by decide +kernel, fun h => ?_⟩
  have hin := h ⟨.chains, "in"⟩ _ rfl
  have hrule := hin.rules ⟨"in", some "", none, some 0, some 3⟩ (by decide)
  cases hrule

theorem valid_placeheld :
    ((Store.new .inet "filter").replay (placeholding "ip")).ReachableBy Event.Orderly ∧
    ((Store.new .inet "filter").replay (placeholding "ip")).contents = some (placeheld "ip") ∧
    (placeheld "").All Place.ValidOrEmptied ∧ (placeheld "ip").All Place.Valid := by
  have hc : ∀ value ∈ ["", "ip"],
      ((Store.new .inet "filter").replay (placeholding value)).contents
        = some (placeheld value) := by
    decide +kernel
  have hd : ∀ d ∈ ((Store.new .inet "filter").replay (placeholding "ip")).defines.toList,
      d.value ≠ "" := by
    decide +kernel
  exact ⟨orderly_placeholding "ip", hc "ip" (by simp),
    (Store.valid_of_reachableBy (orderly_placeholding "") (hc "" (by simp))).1,
    (Store.valid_of_reachableBy (orderly_placeholding "ip") (hc "ip" (by simp))).2 hd⟩

end NftStore
