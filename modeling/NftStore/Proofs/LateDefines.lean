import NftStore.Proofs.Substitution

/-!
Defines that come late. A define that is registered behind others is looked at only where none of
them starts (`earliest?_define`). So one whose name is begun by the name of an earlier one is never
found, and it may as well not be there. Any other is found in its own placeholder, and makes a
difference unless its value is that placeholder.
-/
namespace NftStore.Defines

variable {ds : Defines} {name value : String} {text : List Char}

/-! ## One more define -/

/-- The define that comes last is found where it starts the text and no other does. -/
theorem earliest?_define (ds : Defines) (name value : String) (text : List Char) :
    (ds.define name value).earliest? text
      = (ds.earliest? text).or
          (if (⟨name, value⟩ : Define).startsAt text then some ⟨name, value⟩ else none) := by
  rw [earliest?, define, List.find?_append, earliest?, List.find?_singleton]

/-- Where an earlier define is found, it is still found. -/
theorem earliest?_define_of_some {d : Define} (h : ds.earliest? text = some d) :
    (ds.define name value).earliest? text = some d := by
  rw [earliest?_define, h, Option.some_or]

theorem earliest?_define_of_none (h : ds.earliest? text = none) :
    (ds.define name value).earliest? text
      = if (⟨name, value⟩ : Define).startsAt text then some ⟨name, value⟩ else none := by
  rw [earliest?_define, h, Option.none_or]

/-! ## Defines that are never found -/

/-- The name begins with that of a registered define, or is the same. -/
def Covers (ds : Defines) (name : String) : Prop :=
  ∃ d ∈ ds.toList, d.name.toList <+: name.toList

instance (ds : Defines) (name : String) : Decidable (ds.Covers name) :=
  inferInstanceAs (Decidable (∃ d ∈ ds.toList, d.name.toList <+: name.toList))

/-- The placeholder of a covered name is started by an earlier define. -/
theorem Covers.earliest?_ne_none (h : ds.Covers name)
    (hstart : (⟨name, value⟩ : Define).startsAt text) : ds.earliest? text ≠ none := by
  obtain ⟨d, hd, hprefix⟩ := h
  obtain ⟨rest, rfl⟩ := Define.startsAt_iff.1 hstart
  intro hnone
  refine earliest?_eq_none_iff.1 hnone d hd ?_
  rw [Define.toList_placeholder, List.cons_append, Define.startsAt_sigil]
  exact hprefix.trans (List.prefix_append _ rest)

theorem Covers.earliest?_define (h : ds.Covers name) (value : String) (text : List Char) :
    (ds.define name value).earliest? text = ds.earliest? text := by
  cases hf : ds.earliest? text with
  | some d => exact earliest?_define_of_some hf
  | none =>
    have hstart : ¬ (⟨name, value⟩ : Define).startsAt text := fun hstart =>
      h.earliest?_ne_none hstart hf
    rw [earliest?_define_of_none hf, if_neg hstart]

/-- Defines that are found alike everywhere expand alike. -/
theorem expand_congr {others : Defines} (h : ∀ text, others.earliest? text = ds.earliest? text)
    (text : List Char) : others.expand text = ds.expand text := by
  induction text using expand.induct ds with
  | case1 => rw [expand, expand]
  | case2 c cs d hd ih => simp only [expand, h, hd, ih]
  | case3 c cs hno ih => simp only [expand, h, hno, ih]

/-- A define whose name is covered changes no text. -/
theorem Covers.substitute_define (h : ds.Covers name) (value text : String) :
    (ds.define name value).substitute text = ds.substitute text := by
  rw [substitute, substitute, expand_congr (h.earliest?_define value)]

/-! ## Defines that stand for themselves -/

/-- Where the define that comes last is found, no other is. -/
theorem earliest?_define_eq_some {d : Define} (hnone : ds.earliest? text = none)
    (h : (ds.define name value).earliest? text = some d) :
    d = ⟨name, value⟩ ∧ d.startsAt text := by
  rw [earliest?_define_of_none hnone] at h
  split at h
  · rename_i hstart
    cases h
    exact ⟨rfl, hstart⟩
  · cases h

/-- A define whose value is its own placeholder changes no text, if there is no sigil in its name at
which another placeholder could start. -/
theorem expand_define_placeholder (hname : Define.sigil ∉ name.toList) (text : List Char) :
    (ds.define name ("$" ++ name)).expand text = ds.expand text := by
  induction text using expand.induct (ds.define name ("$" ++ name)) with
  | case1 => rw [expand, expand]
  | case2 c cs d hd ih =>
    cases hf : ds.earliest? (c :: cs) with
    | some e =>
      cases hd.symm.trans (earliest?_define_of_some hf)
      simp only [expand, hd, hf, ih]
    | none =>
      -- without the new define the sigil is passed over, and then the name
      obtain ⟨rfl, hstart⟩ := earliest?_define_eq_some hf hd
      have htext := Define.eq_append_of_startsAt hstart
      rw [Define.toList_placeholder, List.cons_append] at htext
      obtain ⟨rfl, hcs⟩ := List.cons.inj htext
      calc (ds.define name ("$" ++ name)).expand (Define.sigil :: cs)
          = ("$" ++ name).toList ++ ds.expand (cs.drop name.length) := by
            simp only [expand, hd, ih]
        _ = Define.sigil :: ds.expand (name.toList ++ cs.drop name.length) := by
            rw [toList_sigil_append, ds.expand_append_of_not_mem hname, List.cons_append]
        _ = ds.expand (Define.sigil :: cs) := by
            rw [← hcs]
            simp only [expand, hf]
  | case3 c cs hno ih =>
    have hf : ds.earliest? (c :: cs) = none := by
      rw [earliest?_define] at hno
      exact (Option.or_eq_none_iff.1 hno).1
    simp only [expand, hno, hf, ih]

/-! ## Defines that make a difference -/

theorem earliest?_placeholder_of_not_covers (hcovers : ¬ ds.Covers name) :
    ds.earliest? (Define.sigil :: name.toList) = none := by
  refine earliest?_eq_none_iff.2 fun d hd hstart => hcovers ⟨d, hd, ?_⟩
  exact Define.startsAt_sigil.1 hstart

/-- A name that is not covered stands for the value in its placeholder. -/
theorem substitute_define_placeholder (hcovers : ¬ ds.Covers name) (value : String) :
    (ds.define name value).substitute ("$" ++ name) = value := by
  have hfound : (ds.define name value).earliest? (Define.sigil :: name.toList)
      = some ⟨name, value⟩ := by
    rw [earliest?_define_of_none (earliest?_placeholder_of_not_covers hcovers),
      if_pos (Define.startsAt_sigil.2 List.prefix_rfl)]
  exact substitute_eq_value hfound rfl

/-- Without the define the placeholder is left as it is. -/
theorem substitute_placeholder_of_not_covers (hcovers : ¬ ds.Covers name)
    (hname : Define.sigil ∉ name.toList) : ds.substitute ("$" ++ name) = "$" ++ name := by
  have hpass : ds.expand (Define.sigil :: name.toList) = Define.sigil :: ds.expand name.toList := by
    simp only [expand, earliest?_placeholder_of_not_covers hcovers]
  rw [← String.toList_inj, substitute, String.toList_ofList, toList_sigil_append, hpass,
    ds.expand_of_not_mem hname]

/-- Which defines come too late. One whose name has no sigil in it makes a difference to some text if
and only if its name is not covered, that is, no registered name begins it or is the same, and its
value is not its own placeholder. With a covered name it never makes one, whatever the name. -/
theorem exists_substitute_define_ne_iff (ds : Defines) (name value : String) :
    (Define.sigil ∉ name.toList →
      ((∃ text, (ds.define name value).substitute text ≠ ds.substitute text) ↔
        (∀ d ∈ ds.toList, ¬ d.name.toList <+: name.toList) ∧ value ≠ "$" ++ name)) ∧
    ((∃ d ∈ ds.toList, d.name.toList <+: name.toList) →
      ∀ text, (ds.define name value).substitute text = ds.substitute text) := by
  refine ⟨fun hname => ⟨?_, ?_⟩, fun hcovers text => Covers.substitute_define hcovers value text⟩
  · rintro ⟨text, hne⟩
    constructor
    · intro d hd hprefix
      exact hne (Covers.substitute_define ⟨d, hd, hprefix⟩ value text)
    · rintro rfl
      rw [substitute, expand_define_placeholder hname] at hne
      exact hne rfl
  · rintro ⟨hnone, hvalue⟩
    have hcovers : ¬ ds.Covers name := by
      rintro ⟨d, hd, hprefix⟩
      exact hnone d hd hprefix
    refine ⟨"$" ++ name, ?_⟩
    rw [substitute_define_placeholder hcovers, substitute_placeholder_of_not_covers hcovers hname]
    exact hvalue

/-- The family `ip` has a define `IP` from the start. A second one has no effect, nor has one of a
name that goes on after it. Another name has an effect unless its value is its placeholder. -/
theorem substitute_define_forFamily :
    (∀ value text, ((forFamily .ip).define "IP" value).substitute text
      = (forFamily .ip).substitute text) ∧
    (∀ value text, ((forFamily .ip).define "IPSET" value).substitute text
      = (forFamily .ip).substitute text) ∧
    (∃ text, ((forFamily .ip).define "I" "lo").substitute text
      ≠ (forFamily .ip).substitute text) ∧
    ∀ text, ((forFamily .ip).define "I" "$I").substitute text = (forFamily .ip).substitute text := by
  have hname : Define.sigil ∉ "I".toList := by decide
  refine ⟨fun value => (exists_substitute_define_ne_iff _ "IP" value).2 (by decide),
    fun value => (exists_substitute_define_ne_iff _ "IPSET" value).2 (by decide),
    ((exists_substitute_define_ne_iff _ "I" "lo").1 hname).2 (by decide), ?_⟩
  by_contra hne
  exact absurd (((exists_substitute_define_ne_iff _ "I" "$I").1 hname).1 (not_forall.1 hne))
    (by decide)

end NftStore.Defines
