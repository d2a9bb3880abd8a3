import NftStore.Text.Quoted

/-!
Reading quoted texts. A double quote in a text is written with a backslash before it, but a
backslash stands for itself. So one at the end of the text takes the closing quote for its own, and
the reader runs on into what follows. This is the only thing that cannot be read back: the reader
gives a text and a rest exactly where the quoted text and that rest stand, and the text does not end
in a backslash (`Quoted.read_eq_some_iff`). Two texts are never quoted alike, whatever they end in.
-/
namespace NftStore.Text

namespace Quoted

variable {c : Char} {a b cs input rest text : List Char}

/-! ## Escaping -/

/-- What is escaped does not begin with a double quote. -/
theorem escape_ne_quote_cons (cs : List Char) : escape cs ≠ '"' :: rest := by
  intro h
  cases cs with
  | nil => cases h
  | cons c cs =>
    rw [escape] at h
    split at h
    · exact absurd (List.cons.inj h).1 (by decide)
    · rename_i hc
      exact hc (List.cons.inj h).1

theorem escape_eq_nil_iff : escape a = [] ↔ a = [] := by
  cases a with
  | nil => simp [escape]
  | cons c a =>
    rw [escape]
    split <;> simp

theorem escape_inj (h : escape a = escape b) : a = b := by
  induction a generalizing b with
  | nil => exact (escape_eq_nil_iff.1 h.symm).symm
  | cons c a ih =>
    cases b with
    | nil => exact escape_eq_nil_iff.1 h
    | cons d b =>
      rw [escape, escape] at h
      split at h <;> rename_i hc <;> split at h <;> rename_i hd
      · simp only [List.cons.injEq, true_and] at h
        rw [hc, hd, ih h]
      · exact absurd (List.cons.inj h).2.symm (escape_ne_quote_cons b)
      · exact absurd (List.cons.inj h).2 (escape_ne_quote_cons a)
      · obtain ⟨rfl, htail⟩ := List.cons.inj h
        rw [ih htail]

theorem escape_of_not_mem (h : '"' ∉ a) : escape a = a := by
  induction a with
  | nil => rfl
  | cons c a ih =>
    rw [List.mem_cons, not_or] at h
    rw [escape, if_neg (Ne.symm h.1), ih h.2]

theorem escape_append (a b : List Char) : escape (a ++ b) = escape a ++ escape b := by
  induction a with
  | nil => rfl
  | cons c a ih =>
    rw [List.cons_append, escape, escape, ih]
    split <;> rfl

/-! ## Reading -/

/-- A character that neither closes the text nor protects a quote is taken as it is. -/
theorem unescape_cons (hc : c ≠ '"') (hpair : c = '\\' → cs.head? ≠ some '"') :
    unescape (c :: cs) = (unescape cs).map fun r => (c :: r.1, r.2) := by
  rw [unescape, if_neg hc]
  rintro rest rfl rfl
  exact hpair rfl rfl

/-- What was escaped is taken back, and reading goes on behind it. A backslash at its end would
protect a quote that follows. -/
theorem unescape_escape_append (h : cs.getLast? = some '\\' → rest.head? ≠ some '"') :
    unescape (escape cs ++ rest) = (unescape rest).map fun r => (cs ++ r.1, r.2) := by
  induction cs with
  | nil => simp [escape]
  | cons c cs ih =>
    have hrest : unescape (escape cs ++ rest) = (unescape rest).map fun r => (cs ++ r.1, r.2) := by
      refine ih fun hlast => h ?_
      rw [List.getLast?_cons, hlast]
      rfl
    by_cases hc : c = '"'
    · rw [escape, if_pos hc, hc]
      simp only [List.cons_append, unescape, hrest, Option.map_map, Function.comp_def]
    · rw [escape, if_neg hc, List.cons_append, unescape_cons hc, hrest, Option.map_map]
      · rfl
      · rintro rfl
        -- after the backslash stands what was escaped, or else the rest
        cases hcs : escape cs with
        | nil =>
          rw [escape_eq_nil_iff.1 hcs] at h
          exact h rfl
        | cons d ds =>
          simp only [List.cons_append, List.head?_cons, ne_eq, Option.some.injEq]
          rintro rfl
          exact escape_ne_quote_cons cs hcs

theorem getLast?_cons_ne {mark : Char} (hc : cs = [] → c ≠ mark) (h : cs.getLast? ≠ some mark) :
    (c :: cs).getLast? ≠ some mark := by
  cases cs with
  | nil => simpa using hc rfl
  | cons d ds => rwa [List.getLast?_cons_cons]

/-- Whatever is read was written as the escaped text and a closing quote, and the text does not end
in a backslash. -/
theorem eq_escape_of_unescape (h : unescape input = some (text, rest)) :
    input = escape text ++ '"' :: rest ∧ text.getLast? ≠ some '\\' := by
  fun_induction unescape input generalizing text with
  | case1 => cases h
  | case2 cs ih =>
    obtain ⟨⟨t, _⟩, hread, heq⟩ := Option.map_eq_some_iff.1 h
    cases heq
    obtain ⟨rfl, hlast⟩ := ih hread
    exact ⟨by simp [escape], getLast?_cons_ne (fun _ => by decide) hlast⟩
  | case3 cs =>
    cases h
    exact ⟨by simp [escape], by simp⟩
  | case4 c cs hpair hc ih =>
    obtain ⟨⟨t, _⟩, hread, heq⟩ := Option.map_eq_some_iff.1 h
    cases heq
    obtain ⟨rfl, hlast⟩ := ih hread
    refine ⟨by simp [escape, hc], getLast?_cons_ne ?_ hlast⟩
    -- a backslash right before the closing quote would have been read with it
    rintro rfl rfl
    exact hpair _ rfl rfl

/-- The reader takes a text and a rest exactly where the quoted text is written before that rest,
and does not end in a backslash. -/
theorem read_eq_some_iff :
    read input = some (text, rest) ↔
      input = '"' :: escape text ++ '"' :: rest ∧ text.getLast? ≠ some '\\' := by
  constructor
  · intro h
    unfold read at h
    split at h
    · obtain ⟨rfl, hlast⟩ := eq_escape_of_unescape h
      exact ⟨rfl, hlast⟩
    · cases h
  · rintro ⟨rfl, hlast⟩
    have hclose : unescape ('"' :: rest) = some ([], rest) := by simp [unescape]
    rw [List.cons_append, read, unescape_escape_append fun h => absurd h hlast, hclose]
    simp

/-- A backslash at the end takes the closing quote into the text, and the text goes on with what
follows. -/
theorem read_escape_backslash (a rest : List Char) :
    read ('"' :: escape (a ++ ['\\']) ++ '"' :: rest)
      = (unescape rest).map fun r => (a ++ '"' :: r.1, r.2) := by
  have hescape : escape (a ++ ['\\']) ++ '"' :: rest = escape a ++ '\\' :: '"' :: rest := by
    simp [escape_append, escape]
  have hhead : ('\\' :: '"' :: rest).head? ≠ some '"' := by simp
  rw [List.cons_append, read, hescape, unescape_escape_append fun _ => hhead, unescape,
    Option.map_map]
  rfl

end Quoted

variable {s t : String}

theorem toList_quote (s : String) : (quote s).toList = '"' :: Quoted.escape s.toList ++ ['"'] := by
  rw [quote, String.toList_ofList]

theorem toList_quote_append (s rest : String) :
    (quote s ++ rest).toList = '"' :: Quoted.escape s.toList ++ '"' :: rest.toList := by
  rw [String.toList_append, toList_quote, List.append_assoc, List.singleton_append]

theorem quote_inj (h : quote s = quote t) : s = t := by
  have hlist := congrArg String.toList h
  simp only [toList_quote, List.cons_append, List.cons.injEq, true_and,
    List.append_cancel_right_eq] at hlist
  exact String.toList_inj.1 (Quoted.escape_inj hlist)

/-- A quoted text is read back, with any text behind it, if and only if it does not end in a
backslash; if it does, its closing quote is read as a part of it, and so is what follows. The reader
takes nothing but what is quoted so, and no two texts are quoted alike. -/
theorem read_quote_append :
    (∀ s rest : String, Quoted.read (quote s ++ rest).toList = some (s.toList, rest.toList) ↔
      s.toList.getLast? ≠ some '\\') ∧
    (∀ s rest : String, Quoted.read (quote (s ++ "\\") ++ rest).toList
      = (Quoted.unescape rest.toList).map fun r => (s.toList ++ '"' :: r.1, r.2)) ∧
    (∀ input s rest : String, Quoted.read input.toList = some (s.toList, rest.toList) ↔
      input = quote s ++ rest ∧ s.toList.getLast? ≠ some '\\') ∧
    Function.Injective quote := by
  have hread : ∀ input s rest : String,
      Quoted.read input.toList = some (s.toList, rest.toList) ↔
        input = quote s ++ rest ∧ s.toList.getLast? ≠ some '\\' := by
    intro input s rest
    rw [Quoted.read_eq_some_iff, ← String.toList_inj, toList_quote_append]
  refine ⟨fun s rest => ?_, fun s rest => ?_, hread, fun s t => quote_inj⟩
  · rw [hread, and_iff_right rfl]
  · rw [toList_quote_append, String.toList_append]
    exact Quoted.read_escape_backslash s.toList rest.toList

/-- What follows is a second quoted text here, and the first is read up to where that begins. -/
example :
    Quoted.read (quote "C:\\" ++ " comment " ++ quote "x").toList
      = some ("C:\" comment ".toList, "x\"".toList) := by
  decide

end NftStore.Text
