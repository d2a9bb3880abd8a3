import NftStore.Config.Written
import NftStore.Proofs.Catalog

/-!
Reading a line back. The lines of a text are those it was put together from, if no line end is
within one of them (`lines_flatten`). A line that sets an option is read as that name and that
value, if neither has blanks at its ends and the name cannot be taken for anything else
(`Entry.ofChars_option`), and doubled percent signs become single ones again
(`expand_escapePercent`).
-/
namespace NftStore

namespace Text

variable {c : Char} {cs ds : List Char}

/-! ## Trimming -/

theorem trimEnd_cons_of_not_blank (hc : isBlank c = false) (cs : List Char) :
    trimEnd (c :: cs) = c :: trimEnd cs := by
  rw [trimEnd]
  split
  · rename_i hnil
    rw [hnil, hc]
    rfl
  · rfl

/-- Nothing before a character that is not blank is trimmed at the end. -/
theorem trimEnd_append_cons (hc : isBlank c = false) (before cs : List Char) :
    trimEnd (before ++ c :: cs) = before ++ c :: trimEnd cs := by
  induction before with
  | nil => exact trimEnd_cons_of_not_blank hc cs
  | cons b before ih =>
    rw [List.cons_append, trimEnd, ih]
    cases before <;> rfl

theorem trimEnd_append_blank (hc : isBlank c = true) (cs : List Char) :
    trimEnd (cs ++ [c]) = trimEnd cs := by
  induction cs with
  | nil => simp [trimEnd, hc]
  | cons b cs ih => rw [List.cons_append, trimEnd, ih, trimEnd]

theorem trimEnd_trimEnd (cs : List Char) : trimEnd (trimEnd cs) = trimEnd cs := by
  induction cs with
  | nil => rfl
  | cons c cs ih =>
    rw [trimEnd]
    split
    · by_cases hc : isBlank c
      · simp [hc, trimEnd]
      · simp [hc, trimEnd]
    · rename_i hne
      rw [trimEnd, ih]
      split
      · rename_i hnil
        exact absurd hnil hne
      · rfl

/-- It does not matter which end is trimmed first. -/
theorem trimStart_trimEnd (cs : List Char) : trimStart (trimEnd cs) = trimEnd (trimStart cs) := by
  induction cs with
  | nil => rfl
  | cons c cs ih =>
    cases hc : isBlank c with
    | true =>
      have hstart : trimStart (c :: cs) = trimStart cs := List.dropWhile_cons_of_pos hc
      rw [hstart, ← ih, trimEnd, hc]
      split
      · rename_i hnil
        rw [hnil]
        rfl
      · exact List.dropWhile_cons_of_pos hc
    | false =>
      have hstart : ∀ cs, trimStart (c :: cs) = c :: cs := fun cs =>
        List.dropWhile_cons_of_neg (by simp [hc])
      rw [trimEnd_cons_of_not_blank hc, hstart, hstart, trimEnd_cons_of_not_blank hc]

theorem trim_trimEnd (cs : List Char) : trim (trimEnd cs) = trim cs := by
  rw [trim, trimStart_trimEnd, trimEnd_trimEnd, trim]

theorem trim_cons_blank (hc : isBlank c = true) (cs : List Char) : trim (c :: cs) = trim cs := by
  rw [trim, trimStart, List.dropWhile_cons_of_pos hc]
  rfl

theorem trim_append_blank (hc : isBlank c = true) (cs : List Char) :
    trim (cs ++ [c]) = trim cs := by
  rw [← trim_trimEnd, trimEnd_append_blank hc, trim_trimEnd]

/-- There is no blank at either end. -/
structure Trimmed (cs : List Char) : Prop where
  first : ∀ c ∈ cs.head?, isBlank c = false
  last : ∀ c ∈ cs.getLast?, isBlank c = false

-- decided on the text itself, for there are finitely many characters and all of them would be tried
instance (cs : List Char) : Decidable (Trimmed cs) :=
  decidable_of_iff
    (cs.head?.all (fun c => !isBlank c) = true ∧ cs.getLast?.all (fun c => !isBlank c) = true)
    ⟨fun ⟨hfirst, hlast⟩ => ⟨by simpa [Option.all_eq_true] using hfirst,
        by simpa [Option.all_eq_true] using hlast⟩,
      fun h => ⟨by simpa [Option.all_eq_true] using h.first,
        by simpa [Option.all_eq_true] using h.last⟩⟩

theorem Trimmed.trimEnd_eq (h : Trimmed cs) : trimEnd cs = cs := by
  rcases List.eq_nil_or_concat' cs with rfl | ⟨before, c, rfl⟩
  · rfl
  · rw [trimEnd_append_cons (h.last c (by simp))]
    rfl

theorem Trimmed.trimStart_append (h : Trimmed cs) (hne : cs ≠ []) (ds : List Char) :
    trimStart (cs ++ ds) = cs ++ ds := by
  cases cs with
  | nil => exact absurd rfl hne
  | cons c cs => exact List.dropWhile_cons_of_neg (by simp [h.first c rfl])

theorem Trimmed.trim_eq (h : Trimmed cs) : trim cs = cs := by
  by_cases hne : cs = []
  · rw [hne]
    rfl
  · have hstart := h.trimStart_append hne []
    rw [List.append_nil] at hstart
    rw [trim, hstart, h.trimEnd_eq]

theorem Trimmed.indent_append (h : Trimmed cs) (hne : cs ≠ []) (ds : List Char) :
    indent (cs ++ ds) = 0 := by
  cases cs with
  | nil => exact absurd rfl hne
  | cons c cs => simp [indent, h.first c rfl]

/-! ## Lines -/

theorem unifyLineEnds_of_not_mem (h : '\r' ∉ cs) : unifyLineEnds cs = cs := by
  induction cs with
  | nil => rfl
  | cons c cs ih =>
    have hne : c ≠ '\r' := fun he => h (he ▸ List.mem_cons_self)
    have hcs : '\r' ∉ cs := fun hmem => h (List.mem_cons_of_mem _ hmem)
    rw [unifyLineEnds, ih hcs]
    · intro ds he
      exact absurd he hne
    · exact hne

theorem splitLines_append (h : '\n' ∉ cs) (ds : List Char) :
    splitLines (cs ++ '\n' :: ds) = (cs ++ ['\n']) :: splitLines ds := by
  induction cs with
  | nil => simp [splitLines]
  | cons c cs ih =>
    have hne : c ≠ '\n' := fun he => h (he ▸ List.mem_cons_self)
    have hcs : '\n' ∉ cs := fun hmem => h (List.mem_cons_of_mem _ hmem)
    rw [List.cons_append, splitLines, if_neg hne, ih hcs]
    rfl

/-- The line is ended by a line feed, and there is no other line end in it. -/
def IsLine (line : List Char) : Prop :=
  ∃ body, line = body ++ ['\n'] ∧ '\n' ∉ body ∧ '\r' ∉ body

/-- A text that is put together from lines has just these. -/
theorem lines_flatten {ls : List (List Char)} (h : ∀ line ∈ ls, IsLine line) :
    lines ls.flatten = ls := by
  have hreturn : '\r' ∉ ls.flatten := by
    intro hmem
    obtain ⟨line, hline, hin⟩ := List.mem_flatten.1 hmem
    obtain ⟨body, rfl, -, hbody⟩ := h line hline
    rcases List.mem_append.1 hin with hin | hin
    · exact hbody hin
    · simp at hin
  rw [lines, unifyLineEnds_of_not_mem hreturn]
  induction ls with
  | nil => rfl
  | cons line ls ih =>
    obtain ⟨body, rfl, hbody, -⟩ := h line List.mem_cons_self
    rw [List.flatten_cons, List.append_assoc]
    show splitLines (body ++ '\n' :: ls.flatten) = _
    rw [splitLines_append hbody, ih (fun l hl => h l (List.mem_cons_of_mem _ hl))]
    intro hmem
    exact hreturn (List.mem_append_right _ hmem)

end Text

/-! ## Doubled percent signs -/

namespace Config

theorem toList_escapePercent (text : String) : (escapePercent text).toList
    = text.toList.flatMap fun c => if c = '%' then ['%', '%'] else [c] :=
  String.toList_ofList

theorem mem_escapePercent {text : String} {c : Char} :
    c ∈ (escapePercent text).toList ↔ c ∈ text.toList := by
  rw [toList_escapePercent, List.mem_flatMap]
  constructor
  · rintro ⟨b, hb, hc⟩
    split at hc <;> simp_all
  · intro hc
    refine ⟨c, hc, ?_⟩
    split <;> simp_all

theorem trimmed_escapePercent {text : String} (h : Text.Trimmed text.toList) :
    Text.Trimmed (escapePercent text).toList := by
  obtain ⟨hfirst, hlast⟩ := h
  rw [toList_escapePercent]
  -- the outermost characters stay where they are
  constructor
  · cases hl : text.toList with
    | nil => simp
    | cons c cs =>
      rw [hl] at hfirst
      have hc := hfirst c rfl
      by_cases hp : c = '%' <;> simp_all
  · rcases List.eq_nil_or_concat' text.toList with hl | ⟨before, c, hl⟩
    · simp [hl]
    · rw [hl] at hlast ⊢
      have hc := hlast c (by simp)
      by_cases hp : c = '%' <;> simp_all

end Config

namespace Ini

theorem pieces_escapePercent (text : String) :
    pieces (Config.escapePercent text).toList = text.toList.map Piece.char := by
  rw [Config.toList_escapePercent]
  induction text.toList with
  | nil => simp [pieces]
  | cons c cs ih =>
    rw [List.flatMap_cons, List.map_cons, ← ih]
    by_cases hc : c = '%'
    · rw [if_pos hc, hc]
      simp [pieces]
    · rw [if_neg hc]
      simp [pieces, hc]

theorem join_char (resolve : String → Except Flaw (List Char)) (cs : List Char) :
    join resolve (cs.map Piece.char) = .ok cs := by
  induction cs with
  | nil => rfl
  | cons c cs ih =>
    rw [List.map_cons, join, ih]
    rfl

/-- A text whose percent signs were doubled refers to nothing, and stands for itself. -/
theorem expand_escapePercent (lookup : String → Option String) (depth : Nat) (text : String) :
    expand lookup (depth + 1) (Config.escapePercent text).toList = .ok text.toList := by
  rw [expand, pieces_escapePercent, join_char]

/-! ## Entries -/

/-- A text that an option can be set to: it is on one line and has no blanks at its ends. -/
structure IsValue (cs : List Char) : Prop where
  trimmed : Text.Trimmed cs
  lineFeed : '\n' ∉ cs
  carriageReturn : '\r' ∉ cs

/-- A name that an option can be set by: it is not empty, there is no separator in it, and it does
not start as a comment or a section does. -/
structure IsName (cs : List Char) : Prop extends IsValue cs where
  ne_nil : cs ≠ []
  separator : ∀ c ∈ cs, c ≠ '=' ∧ c ≠ ':'
  first : ∀ c ∈ cs.head?, c ≠ '#' ∧ c ≠ ';' ∧ c ≠ '['

instance (cs : List Char) : Decidable (IsValue cs) :=
  decidable_of_iff (Text.Trimmed cs ∧ '\n' ∉ cs ∧ '\r' ∉ cs)
    ⟨fun ⟨ht, hl, hr⟩ => ⟨ht, hl, hr⟩, fun h => ⟨h.trimmed, h.lineFeed, h.carriageReturn⟩⟩

instance (cs : List Char) : Decidable (IsName cs) :=
  decidable_of_iff
    (IsValue cs ∧ cs ≠ [] ∧ cs.all (fun c => c ≠ '=' ∧ c ≠ ':') = true ∧
      cs.head?.all (fun c => c ≠ '#' ∧ c ≠ ';' ∧ c ≠ '[') = true)
    ⟨fun ⟨hv, hne, hs, hf⟩ => ⟨hv, hne, by simpa using hs, by simpa [Option.all_eq_true] using hf⟩,
      fun h => ⟨h.toIsValue, h.ne_nil, by simpa using h.separator,
        by simpa [Option.all_eq_true] using h.first⟩⟩

/-- The characters of the line that sets an option. -/
def optionChars (name value : List Char) : List Char :=
  name ++ ' ' :: '=' :: ' ' :: value ++ ['\n']

variable {name value : List Char}

/-- A line that sets an option is seen as content, which is all up to the blanks at its end. -/
theorem Line.ofChars_option (hname : IsName name) (value : List Char) :
    Line.ofChars (optionChars name value)
      = .content 0 (name ++ ' ' :: '=' :: Text.trimEnd (' ' :: value ++ ['\n'])) := by
  have hindent : Text.indent (optionChars name value) = 0 := by
    rw [optionChars, List.append_assoc]
    exact hname.trimmed.indent_append hname.ne_nil _
  have htrim : Text.trim (optionChars name value)
      = name ++ ' ' :: '=' :: Text.trimEnd (' ' :: value ++ ['\n']) := by
    rw [optionChars, List.append_assoc, Text.trim, hname.trimmed.trimStart_append hname.ne_nil]
    show Text.trimEnd (name ++ ([' '] ++ '=' :: (' ' :: value ++ ['\n']))) = _
    rw [← List.append_assoc, Text.trimEnd_append_cons (by decide), List.append_assoc]
    rfl
  rw [Line.ofChars, htrim, hindent]
  cases hl : name with
  | nil => exact absurd hl hname.ne_nil
  | cons c cs =>
    obtain ⟨hhash, hsemicolon, -⟩ := hname.first c (by simp [hl])
    simp [hhash, hsemicolon]

/-- The content of such a line sets the option. -/
theorem Entry.ofChars_option (hname : IsName name) (hvalue : Text.Trimmed value) :
    Entry.ofChars (name ++ ' ' :: '=' :: Text.trimEnd (' ' :: value ++ ['\n']))
      = .option (String.ofList name) value := by
  have hheader : ∀ rest, header? (name ++ rest) = none := by
    intro rest
    cases hl : name with
    | nil => exact absurd hl hname.ne_nil
    | cons c cs =>
      obtain ⟨-, -, hbracket⟩ := hname.first c (by simp [hl])
      simp [header?, hbracket]
  have hpass : ∀ c ∈ name ++ [' '], (!isSeparator c) = true := by
    intro c hc
    rcases List.mem_append.1 hc with hc | hc
    · simpa [isSeparator] using hname.separator c hc
    · rw [List.mem_singleton.1 hc]
      rfl
  have hstop : (!isSeparator '=') = false := rfl
  have hcut : ∀ rest, option? (name ++ ' ' :: '=' :: rest)
      = some (String.ofList (Text.trimEnd (name ++ [' '])), Text.trim rest) := by
    intro rest
    have hsplit : name ++ ' ' :: '=' :: rest = (name ++ [' ']) ++ '=' :: rest := by simp
    rw [hsplit, option?, List.dropWhile_append_of_pos hpass, List.takeWhile_append_of_pos hpass]
    simp [hstop]
  have hname' : Text.trimEnd (name ++ [' ']) = name := by
    rw [Text.trimEnd_append_blank (by decide), hname.trimmed.trimEnd_eq]
  have hvalue' : Text.trim (Text.trimEnd (' ' :: value ++ ['\n'])) = value := by
    rw [Text.trim_trimEnd, Text.trim_append_blank (by decide), Text.trim_cons_blank (by decide),
      hvalue.trim_eq]
  rw [Entry.ofChars, hheader, hcut, hname', hvalue']

/-- The characters of the line that opens a section. -/
def headerChars (name : List Char) : List Char :=
  '[' :: name ++ [']', '\n']

theorem beforeLast_append (mark : Char) (before : List Char) :
    beforeLast mark (before ++ [mark]) = some before := by
  induction before with
  | nil => simp [beforeLast]
  | cons c before ih => rw [List.cons_append, beforeLast, ih]

/-- A line that opens a section is seen as content. -/
theorem Line.ofChars_header (name : List Char) :
    Line.ofChars (headerChars name) = .content 0 ('[' :: (name ++ [']'])) := by
  have htrim : Text.trim (headerChars name) = '[' :: (name ++ [']']) := by
    have hstart : Text.trimStart (headerChars name) = headerChars name := rfl
    rw [Text.trim, hstart]
    show Text.trimEnd (('[' :: name) ++ ']' :: ['\n']) = _
    rw [Text.trimEnd_append_cons (by decide)]
    rfl
  rw [Line.ofChars, htrim]
  rfl

/-- The content of such a line opens the section. -/
theorem Entry.ofChars_header (hne : name ≠ []) :
    Entry.ofChars ('[' :: (name ++ [']'])) = .header (String.ofList name) := by
  have hheader : header? ('[' :: (name ++ [']'])) = some (String.ofList name) := by
    rw [header?, beforeLast_append]
    cases name with
    | nil => exact absurd rfl hne
    | cons c cs => rfl
  rw [Entry.ofChars, hheader]

end Ini

end NftStore
