import Mathlib.Data.List.Find
import NftStore.Proofs.LateDefines

/-!
Two laws of substitution. Where no name begins another, only one placeholder can start a text, so it
does not matter in which order the defines were registered (`earliest?_of_perm`). Where no name has
a sigil in it, no placeholder goes past the next sigil, so a text can be cut in front of any sigil
and the cuts of the two parts are a cut of the whole (`Cut.append_sigil`).
-/
namespace NftStore

/-! ## Defines of which none begins as another -/

/-- No name is the beginning of another one, and no two are the same. -/
def PrefixFree (l : List Define) : Prop :=
  ∀ a ∈ l, ∀ b ∈ l, a.name.toList <+: b.name.toList → a = b

instance (l : List Define) : Decidable (PrefixFree l) :=
  inferInstanceAs (Decidable (∀ a ∈ l, ∀ b ∈ l, a.name.toList <+: b.name.toList → a = b))

variable {l : List Define}

/-- It is enough to look at names that stand at different places. -/
theorem prefixFree_of_places
    (h : ∀ i j : Fin l.length, i ≠ j → ¬ l[i].name.toList <+: l[j].name.toList) : PrefixFree l := by
  intro a ha b hb hprefix
  obtain ⟨i, hi, rfl⟩ := List.mem_iff_getElem.1 ha
  obtain ⟨j, hj, rfl⟩ := List.mem_iff_getElem.1 hb
  by_contra hne
  have hplaces : (⟨i, hi⟩ : Fin l.length) ≠ ⟨j, hj⟩ := by
    rintro hij
    cases hij
    exact hne rfl
  exact h ⟨i, hi⟩ ⟨j, hj⟩ hplaces hprefix

/-- Of such defines there is but one whose placeholder can start a text. -/
theorem PrefixFree.eq_of_startsAt (h : PrefixFree l) {a b : Define} (ha : a ∈ l) (hb : b ∈ l)
    {text : List Char} (hstarts : a.startsAt text) (hstarts' : b.startsAt text) : a = b := by
  rw [Define.startsAt, List.isPrefixOf_iff_prefix, Define.toList_placeholder] at hstarts hstarts'
  -- both names begin the text, so one begins the other
  rcases List.prefix_or_prefix_of_prefix hstarts hstarts' with hprefix | hprefix
  · exact h a ha b hb (List.cons_prefix_cons.1 hprefix).2
  · exact (h b hb a ha (List.cons_prefix_cons.1 hprefix).2).symm

theorem find?_startsAt (h : PrefixFree l) {d : Define} (hd : d ∈ l)
    {cs : List Char} (hstart : d.name.toList <+: cs) :
    l.find? (fun e => e.startsAt (Define.sigil :: cs)) = some d := by
  have hstarts := Define.startsAt_sigil.2 hstart
  cases hf : l.find? fun e => e.startsAt (Define.sigil :: cs) with
  | none => exact absurd hstarts (List.find?_eq_none.1 hf d hd)
  | some e =>
    have hother := List.find?_some hf
    rw [h.eq_of_startsAt (List.mem_of_find?_eq_some hf) hd hother hstarts]

namespace Defines

variable {ds others : Defines}

/-- So the same define is found at the start of a text in whatever order they are tried. -/
theorem earliest?_of_perm (hperm : ds.toList.Perm others.toList) (h : PrefixFree ds.toList)
    (text : List Char) : others.earliest? text = ds.earliest? text := by
  symm
  refine List.find?_eq_find?_of_perm hperm fun a ha b hb => ?_
  exact h.eq_of_startsAt ha.1 hb.1 ha.2 hb.2

/-- The order of registration. Where no name begins the name at another place, the same defines in
any other order make the same of every text. -/
theorem substitute_of_perm (hperm : ds.toList.Perm others.toList)
    (hfree : ∀ i j : Fin ds.toList.length, i ≠ j →
      ¬ ds.toList[i].name.toList <+: ds.toList[j].name.toList)
    (text : String) : others.substitute text = ds.substitute text := by
  have hearliest := earliest?_of_perm hperm (prefixFree_of_places hfree)
  rw [substitute, substitute, expand_congr hearliest]

/-- Three names with sigils in them, so that the placeholders overlap in a text, though none begins
another. -/
def interlocking : List (String × String) :=
  [("A$B", "1"), ("B$A", "2"), ("$A", "3")]

theorem substitute_interlocking_reverse :
    (ofPairs interlocking).toList.Perm (ofPairs interlocking.reverse).toList ∧
    (∀ i j : Fin (ofPairs interlocking).toList.length, i ≠ j →
      ¬ (ofPairs interlocking).toList[i].name.toList
        <+: (ofPairs interlocking).toList[j].name.toList) ∧
    ∀ text, (ofPairs interlocking.reverse).substitute text
      = (ofPairs interlocking).substitute text := by
  have hperm : (ofPairs interlocking).toList.Perm (ofPairs interlocking.reverse).toList := by
    decide
  have hfree : ∀ i j : Fin (ofPairs interlocking).toList.length, i ≠ j →
      ¬ (ofPairs interlocking).toList[i].name.toList
        <+: (ofPairs interlocking).toList[j].name.toList := by
    decide
  exact ⟨hperm, hfree, substitute_of_perm hperm hfree⟩

/-! ## Texts cut in front of a sigil -/

/-- What goes on past a character that is not in it has to end before. -/
theorem prefix_of_prefix_append_cons {name cs rest : List Char} {c : Char} (hc : c ∉ name)
    (h : name <+: cs ++ c :: rest) : name <+: cs := by
  rcases List.prefix_or_prefix_of_prefix h (List.prefix_append cs (c :: rest)) with hin | hover
  · exact hin
  · obtain ⟨past, rfl⟩ := hover
    rw [List.prefix_append_right_inj] at h
    cases past with
    | nil => simp
    | cons b past =>
      obtain ⟨rfl, -⟩ := List.cons_prefix_cons.1 h
      exact absurd (List.mem_append_right _ List.mem_cons_self) hc

/-- Whether a placeholder starts a text is settled by what stands before the next sigil. -/
theorem startsAt_append_sigil {d : Define} (hd : Define.sigil ∉ d.name.toList) (c : Char)
    (cs rest : List Char) :
    d.startsAt (c :: (cs ++ Define.sigil :: rest)) = d.startsAt (c :: cs) := by
  rw [Define.startsAt, Define.startsAt, Define.toList_placeholder, Bool.eq_iff_iff,
    List.isPrefixOf_iff_prefix, List.isPrefixOf_iff_prefix, List.cons_prefix_cons,
    List.cons_prefix_cons]
  refine and_congr_right fun _ => ⟨prefix_of_prefix_append_cons hd, fun hin => ?_⟩
  exact hin.trans (List.prefix_append cs _)

theorem earliest?_append_sigil (h : ∀ d ∈ ds.toList, Define.sigil ∉ d.name.toList) (c : Char)
    (cs rest : List Char) :
    ds.earliest? (c :: (cs ++ Define.sigil :: rest)) = ds.earliest? (c :: cs) := by
  refine List.find?_congr fun d hd => ?_
  exact startsAt_append_sigil (h d hd) c cs rest

/-- The pieces of what stands before a sigil and of what starts with it are those of the whole. -/
theorem Cut.append_sigil (h : ∀ d ∈ ds.toList, Define.sigil ∉ d.name.toList)
    {text rest : List Char} {ps qs : List Piece} (htext : ds.Cut text ps)
    (hrest : ds.Cut (Define.sigil :: rest) qs) :
    ds.Cut (text ++ Define.sigil :: rest) (ps ++ qs) := by
  induction htext with
  | nil => exact hrest
  | @char c cs ps hno _ ih =>
    refine .char ?_ ih
    rw [← earliest?_eq_none_iff] at hno ⊢
    rw [← hno]
    exact earliest?_append_sigil h c cs rest
  | @placeholder d cs ps hd _ ih =>
    rw [List.append_assoc]
    refine .placeholder ?_ ih
    rw [isEarliest_iff, Define.toList_placeholder, List.cons_append] at hd ⊢
    rw [← hd, ← List.append_assoc]
    exact earliest?_append_sigil h _ _ rest

/-- So the results of the parts are, one after the other, the result of the whole. -/
theorem expand_append_sigil (h : ∀ d ∈ ds.toList, Define.sigil ∉ d.name.toList)
    (text rest : List Char) : ds.expand (text ++ Define.sigil :: rest)
      = ds.expand text ++ ds.expand (Define.sigil :: rest) := by
  obtain ⟨ps, hps, -⟩ := ds.existsUnique_cut text
  obtain ⟨qs, hqs, -⟩ := ds.existsUnique_cut (Define.sigil :: rest)
  obtain ⟨parts, hparts, hexpand⟩ := exists_results_of_cut hps
  obtain ⟨parts', hparts', hexpand'⟩ := exists_results_of_cut hqs
  obtain ⟨all, hall, hwhole⟩ := exists_results_of_cut (hps.append_sigil h hqs)
  have hboth : all = parts ++ parts' := by
    rw [List.mapM_append, hparts, hparts'] at hall
    exact (Option.some.inj hall).symm
  rw [hwhole, hexpand, hexpand', hboth, List.flatten_append]

/-- Substitution goes on from one sigil to the next. Where no name has a sigil in it, what is put in
the place of a text in front of a sigil is what would be put there if the text ended; its pieces are
the same whatever comes from the sigil on. And a text without a sigil is left as it is, whatever is
defined. -/
theorem substitute_append_sigil (ds : Defines) :
    ((∀ d ∈ ds.toList, Define.sigil ∉ d.name.toList) →
      ∀ text : String, ∃ ps, ds.Cut text.toList ps ∧ ∀ rest : String,
        (∃ qs, ds.Cut ("$" ++ rest).toList qs ∧
          ds.Cut (text ++ "$" ++ rest).toList (ps ++ qs)) ∧
        ds.substitute (text ++ "$" ++ rest)
          = ds.substitute text ++ ds.substitute ("$" ++ rest)) ∧
    ∀ text : String, Define.sigil ∉ text.toList → ds.substitute text = text := by
  refine ⟨fun h text => ?_, fun text => ds.substitute_of_not_mem⟩
  obtain ⟨ps, hps, -⟩ := ds.existsUnique_cut text.toList
  refine ⟨ps, hps, fun rest => ?_⟩
  obtain ⟨qs, hqs, -⟩ := ds.existsUnique_cut ("$" ++ rest).toList
  have hwhole : (text ++ "$" ++ rest).toList = text.toList ++ ("$" ++ rest).toList := by
    rw [String.append_assoc, String.toList_append]
  refine ⟨⟨qs, hqs, ?_⟩, ?_⟩
  · rw [hwhole]
    rw [toList_sigil_append] at hqs ⊢
    exact hps.append_sigil h hqs
  · rw [substitute, substitute, substitute, hwhole, toList_sigil_append, expand_append_sigil h,
      String.ofList_append]

/-- A name that ends at the end of the first part and another that would go on from there. -/
theorem substitute_meeting :
    (∀ d ∈ (ofPairs [("IPSET", "@s"), ("IP", "ip")]).toList, Define.sigil ∉ d.name.toList) ∧
    (∀ rest, (ofPairs [("IPSET", "@s"), ("IP", "ip")]).substitute ("daddr $IP" ++ "$" ++ rest)
      = "daddr ip" ++ (ofPairs [("IPSET", "@s"), ("IP", "ip")]).substitute ("$" ++ rest)) ∧
    Define.sigil ∉ "SET".toList ∧
      (ofPairs [("IPSET", "@s"), ("IP", "ip")]).substitute "SET" = "SET" := by
  have hnames : ∀ d ∈ (ofPairs [("IPSET", "@s"), ("IP", "ip")]).toList,
      Define.sigil ∉ d.name.toList := by
    decide
  have hset : Define.sigil ∉ "SET".toList := by decide
  obtain ⟨happend, hsame⟩ := substitute_append_sigil (ofPairs [("IPSET", "@s"), ("IP", "ip")])
  obtain ⟨ps, -, hps⟩ := happend hnames "daddr $IP"
  have hfirst : (ofPairs [("IPSET", "@s"), ("IP", "ip")]).substitute "daddr $IP" = "daddr ip" := by
    decide +kernel
  refine ⟨hnames, fun rest => ?_, hset, hsame "SET" hset⟩
  rw [(hps rest).2, hfirst]

end Defines

end NftStore
