import NftStore.Text.Utf8

/-!
Decoding what was encoded. How bytes are read does not depend on where they stand nor on how they
are cut into blocks, so it is told byte by byte (`Reads`). The bytes of each character are read as
that character, whichever of the four forms it takes, and so the bytes of a text as the text. No
other bytes are: each form can be told from its first byte, and holds the bits of one character.
-/
namespace NftStore.Text.Utf8

/-! ## Reading byte by byte -/

/-- From a character begun, the bytes are read as these characters and leave that one begun. -/
inductive Reads : Option Pending → List UInt8 → List Char → Option Pending → Prop
  | nil (p : Option Pending) : Reads p [] [] p
  | char {p q : Option Pending} {b : UInt8} {bs : List UInt8} {c : Char} {cs : List Char}
      (hb : step p b = .char c) (hbs : Reads none bs cs q) : Reads p (b :: bs) (c :: cs) q
  | more {p q : Option Pending} {b : UInt8} {bs : List UInt8} {cs : List Char} {begun : Pending}
      (hb : step p b = .more begun) (hbs : Reads (some begun) bs cs q) : Reads p (b :: bs) cs q

namespace Reads

variable {p q r : Option Pending} {xs ys : List UInt8} {cs ds : List Char}

/-- A block that can be read is decoded, wherever it stands. -/
theorem decodeBlock_eq (h : Reads p xs cs q) (position : Nat) :
    decodeBlock p position xs = .ok (cs, q) := by
  induction h generalizing position with
  | nil p => rfl
  | char hb _ ih =>
    rw [decodeBlock, hb]
    show (decodeBlock none (position + 1) _).map _ = _
    rw [ih]
    rfl
  | more hb _ ih =>
    rw [decodeBlock, hb]
    exact ih (position + 1)

theorem append (hx : Reads p xs cs q) (hy : Reads q ys ds r) : Reads p (xs ++ ys) (cs ++ ds) r := by
  induction hx with
  | nil p => exact hy
  | char hb _ ih => exact .char hb (ih hy)
  | more hb _ ih => exact .more hb (ih hy)

/-- What is read in one go can be read in two. -/
theorem split (h : Reads p (xs ++ ys) cs r) : ∃ before after middle,
    cs = before ++ after ∧ Reads p xs before middle ∧ Reads middle ys after r := by
  induction xs generalizing p cs with
  | nil => exact ⟨[], cs, p, rfl, .nil p, h⟩
  | cons b xs ih =>
    cases h with
    | char hb hbs =>
      obtain ⟨before, after, middle, rfl, hx, hy⟩ := ih hbs
      exact ⟨_ :: before, after, middle, rfl, .char hb hx, hy⟩
    | more hb hbs =>
      obtain ⟨before, after, middle, rfl, hx, hy⟩ := ih hbs
      exact ⟨before, after, middle, rfl, .more hb hx, hy⟩

/-- Bytes that are read without rest are decoded in blocks of any size. -/
theorem decodeBlocks_eq {size : Nat} (hsize : size ≠ 0) (h : Reads p xs cs none) :
    decodeBlocks p (blocks size xs) = ⟨cs, none⟩ := by
  -- by induction on the blocks that are still to come
  induction xs using blocks.induct size generalizing p cs with
  | case1 xs hend =>
    obtain rfl := hend.resolve_left hsize
    cases h
    rw [blocks, if_pos hend]
    rfl
  | case2 xs hmore ih =>
    rw [← List.take_append_drop size xs] at h
    obtain ⟨before, after, middle, rfl, hx, hy⟩ := h.split
    rw [blocks, if_neg hmore, decodeBlocks, hx.decodeBlock_eq]
    show (⟨before ++ (decodeBlocks middle _).text, (decodeBlocks middle _).fault⟩ : Decoded) = _
    rw [ih hy]

end Reads

/-! ## The bytes of a character -/

theorem start_of_one {n : Nat} (h : n < 0x80) : start (UInt8.ofNat n) = .char (Char.ofNat n) := by
  have hn : (UInt8.ofNat n).toNat = n := by
    rw [UInt8.toNat_ofNat']
    omega
  simp only [start, hn, if_pos h]

theorem toNat_ofNat_add {n mark : Nat} (h : n + mark < 0x100) :
    (UInt8.ofNat (n + mark)).toNat = n + mark := by
  rw [UInt8.toNat_ofNat']
  omega

theorem start_of_two {n : Nat} (hlow : 2 ≤ n) (h : n < 0x20) :
    start (UInt8.ofNat (n + 0xC0)) = .more ⟨[UInt8.ofNat (n + 0xC0)], 1, 0x80, 0xBF, n⟩ := by
  have hn : (UInt8.ofNat (n + 0xC0)).toNat = n + 0xC0 := toNat_ofNat_add (by omega)
  simp only [start, hn]
  rw [if_neg (by omega), if_neg (by omega), if_pos (by omega), Nat.add_sub_cancel]

theorem start_of_three {n : Nat} (h : n < 0x10) :
    start (UInt8.ofNat (n + 0xE0)) = .more ⟨[UInt8.ofNat (n + 0xE0)], 2,
      if n = 0 then 0xA0 else 0x80, if n = 0xD then 0x9F else 0xBF, n⟩ := by
  have hn : (UInt8.ofNat (n + 0xE0)).toNat = n + 0xE0 := toNat_ofNat_add (by omega)
  simp only [start, hn]
  rw [if_neg (by omega), if_neg (by omega), if_neg (by omega), if_pos (by omega),
    Nat.add_sub_cancel]
  simp

theorem start_of_four {n : Nat} (h : n < 5) :
    start (UInt8.ofNat (n + 0xF0)) = .more ⟨[UInt8.ofNat (n + 0xF0)], 3,
      if n = 0 then 0x90 else 0x80, if n = 4 then 0x8F else 0xBF, n⟩ := by
  have hn : (UInt8.ofNat (n + 0xF0)).toNat = n + 0xF0 := toNat_ofNat_add (by omega)
  simp only [start, hn]
  rw [if_neg (by omega), if_neg (by omega), if_neg (by omega), if_neg (by omega),
    if_pos (by omega), Nat.add_sub_cancel]
  simp

section
variable {read : List UInt8} {low high bits n : Nat}

/-- The last byte of a character holds its last six bits. -/
theorem reads_last {code : Nat} (h : n < 0x40) (hlow : low ≤ n + 0x80) (hhigh : n + 0x80 ≤ high)
    (hcode : bits * 64 + n = code) : Reads (some ⟨read, 1, low, high, bits⟩)
      [UInt8.ofNat (n + 0x80)] [Char.ofNat code] none := by
  have hn : (UInt8.ofNat (n + 0x80)).toNat = n + 0x80 := toNat_ofNat_add (by omega)
  refine .char ?_ (.nil none)
  simp only [step, Pending.next, hn, Nat.add_sub_cancel, hcode]
  rw [if_pos ⟨hlow, hhigh⟩, if_pos (Nat.le_refl 1)]

/-- Any other byte after the first holds the next six bits. -/
theorem reads_further {missing : Nat} {bs : List UInt8} {cs : List Char} {q : Option Pending}
    (h : n < 0x40) (hlow : low ≤ n + 0x80) (hhigh : n + 0x80 ≤ high)
    (hbs : Reads (some ⟨read ++ [UInt8.ofNat (n + 0x80)], missing + 1, 0x80, 0xBF, bits * 64 + n⟩)
      bs cs q) : Reads (some ⟨read, missing + 2, low, high, bits⟩)
        (UInt8.ofNat (n + 0x80) :: bs) cs q := by
  have hn : (UInt8.ofNat (n + 0x80)).toNat = n + 0x80 := toNat_ofNat_add (by omega)
  refine .more ?_ hbs
  simp only [step, Pending.next, hn, Nat.add_sub_cancel]
  rw [if_pos ⟨hlow, hhigh⟩, if_neg (by omega)]
  rfl

end

section
variable {n : Nat}

theorem reads_two (hlow : 0x80 ≤ n) (h : n < 0x800) :
    Reads none [UInt8.ofNat (n / 64 % 0x20 + 0xC0), UInt8.ofNat (n % 0x40 + 0x80)]
      [Char.ofNat n] none := by
  apply Reads.more (p := none) (start_of_two (by omega) (by omega))
  apply reads_last <;> omega

theorem reads_three (hlow : 0x800 ≤ n) (h : n < 0x10000) (hscalar : n < 0xD800 ∨ 0xDFFF < n) :
    Reads none [UInt8.ofNat (n / 4096 % 0x10 + 0xE0), UInt8.ofNat (n / 64 % 0x40 + 0x80),
      UInt8.ofNat (n % 0x40 + 0x80)] [Char.ofNat n] none := by
  apply Reads.more (p := none) (start_of_three (by omega))
  -- the bounds of the second byte keep out what two bytes can hold, and the surrogates
  apply reads_further (by omega)
  · split <;> omega
  · split <;> omega
  · apply reads_last <;> omega

theorem reads_four (hlow : 0x10000 ≤ n) (h : n < 0x110000) :
    Reads none [UInt8.ofNat (n / 262144 % 0x08 + 0xF0), UInt8.ofNat (n / 4096 % 0x40 + 0x80),
      UInt8.ofNat (n / 64 % 0x40 + 0x80), UInt8.ofNat (n % 0x40 + 0x80)] [Char.ofNat n] none := by
  apply Reads.more (p := none) (start_of_four (by omega))
  -- the bounds of the second byte keep out what three bytes can hold, and what is no code point
  apply reads_further (by omega)
  · split <;> omega
  · split <;> omega
  · apply reads_further (by omega) (by omega) (by omega)
    apply reads_last <;> omega

end

theorem reads_char (c : Char) : Reads none (String.utf8EncodeChar c) [c] none := by
  have hvalid : c.toNat < 0xD800 ∨ 0xDFFF < c.toNat ∧ c.toNat < 0x110000 := c.valid
  have hval : c.val.toNat = c.toNat := rfl
  have hof : Char.ofNat c.toNat = c := c.ofNat_toNat
  unfold String.utf8EncodeChar
  rw [hval]
  generalize c.toNat = n at hvalid hof
  subst hof
  dsimp only
  split
  · exact .char (p := none) (start_of_one (by omega)) (.nil none)
  · split
    · exact reads_two (by omega) (by omega)
    · split
      · exact reads_three (by omega) (by omega) (by omega)
      · exact reads_four (by omega) (by omega)

/-- A text is read from its bytes. -/
theorem reads_utf8 (cs : List Char) : Reads none (cs.flatMap String.utf8EncodeChar) cs none := by
  induction cs with
  | nil => exact .nil none
  | cons c cs ih => exact (reads_char c).append ih

/-- The bytes of a text are those of its characters. -/
theorem toList_toUTF8 (text : String) :
    text.toUTF8.data.toList = text.toList.flatMap String.utf8EncodeChar := by
  rw [String.toUTF8_eq_toByteArray, ← String.ofList_toList (s := text), String.toByteArray_ofList,
    String.toList_ofList]
  simp [List.utf8Encode]

/-- A file with the bytes of a text has the text in it. -/
theorem decode_toUTF8 (text : String) : decode text.toUTF8.data.toList = ⟨text.toList, none⟩ := by
  rw [toList_toUTF8]
  exact (reads_utf8 _).decodeBlocks_eq (by decide)

/-! ## Only the bytes of a text are decoded -/

/-- A block that is decoded was read. -/
theorem reads_of_decodeBlock {p q : Option Pending} {position : Nat} {xs : List UInt8}
    {cs : List Char} (h : decodeBlock p position xs = .ok (cs, q)) : Reads p xs cs q := by
  induction xs generalizing p position cs with
  | nil =>
    cases h
    exact .nil _
  | cons b xs ih =>
    rw [decodeBlock] at h
    cases hb : step p b with
    | char c =>
      simp only [hb] at h
      cases hrest : decodeBlock none (position + 1) xs with
      | error fault =>
        rw [hrest] at h
        cases h
      | ok result =>
        obtain ⟨ds, r⟩ := result
        rw [hrest] at h
        cases h
        exact .char hb (ih hrest)
    | more begun =>
      simp only [hb] at h
      exact .more hb (ih h)
    | bad reason =>
      simp only [hb] at h
      cases h

theorem reads_of_decodeBlocks {p : Option Pending} {xss : List (List UInt8)} {cs : List Char}
    (h : decodeBlocks p xss = ⟨cs, none⟩) : Reads p xss.flatten cs none := by
  induction xss generalizing p cs with
  | nil =>
    cases p with
    | none =>
      cases h
      exact .nil none
    | some begun => cases h
  | cons xs xss ih =>
    rw [decodeBlocks] at h
    cases hblock : decodeBlock p (seen p).length xs with
    | error fault =>
      simp only [hblock] at h
      cases h
    | ok result =>
      obtain ⟨ds, q⟩ := result
      simp only [hblock] at h
      obtain ⟨htext, hfault⟩ := Decoded.mk.inj h
      have hrest : decodeBlocks q xss = ⟨(decodeBlocks q xss).text, none⟩ := by
        rw [← hfault]
      rw [List.flatten_cons, ← htext]
      exact (reads_of_decodeBlock hblock).append (ih hrest)

theorem flatten_blocks {size : Nat} (hsize : size ≠ 0) (xs : List UInt8) :
    (blocks size xs).flatten = xs := by
  induction xs using blocks.induct size with
  | case1 xs hend =>
    obtain rfl := hend.resolve_left hsize
    rw [blocks, if_pos hend, List.flatten_nil]
  | case2 xs hmore ih =>
    rw [blocks, if_neg hmore, List.flatten_cons, ih, List.take_append_drop]

section
variable {read : List UInt8} {missing low high bits : Nat} {xs : List UInt8} {cs : List Char}

/-- The last byte of a character is in its range and gives the character. -/
theorem Reads.last (h : Reads (some ⟨read, 1, low, high, bits⟩) xs cs none) :
    ∃ n rest others, xs = UInt8.ofNat n :: rest ∧ low ≤ n ∧ n ≤ high ∧
      cs = Char.ofNat (bits * 64 + (n - 0x80)) :: others ∧ Reads none rest others none := by
  cases h with
  | char hb hbs =>
    rename_i b rest c others
    simp only [step, Pending.next] at hb
    split at hb
    · rename_i hrange
      obtain rfl := Step.char.inj hb
      exact ⟨b.toNat, rest, others, by simp, hrange.1, hrange.2, rfl, hbs⟩
    · cases hb
  | more hb hbs =>
    simp only [step, Pending.next] at hb
    split at hb <;> cases hb

/-- Any other byte after the first is in its range, and the character goes on. -/
theorem Reads.further (h : Reads (some ⟨read, missing + 2, low, high, bits⟩) xs cs none) :
    ∃ n rest, xs = UInt8.ofNat n :: rest ∧ low ≤ n ∧ n ≤ high ∧
      Reads (some ⟨read ++ [UInt8.ofNat n], missing + 1, 0x80, 0xBF, bits * 64 + (n - 0x80)⟩)
        rest cs none := by
  have hmissing : ¬ missing + 2 ≤ 1 := by omega
  cases h with
  | char hb hbs =>
    simp only [step, Pending.next, if_neg hmissing] at hb
    split at hb <;> cases hb
  | more hb hbs =>
    rename_i b rest begun
    simp only [step, Pending.next, if_neg hmissing] at hb
    split at hb
    · rename_i hrange
      cases hb
      exact ⟨b.toNat, rest, by simp, hrange.1, hrange.2, by simpa using hbs⟩
    · cases hb

end

theorem toNat_ofNat {n : Nat} (h : n.isValidChar) : (Char.ofNat n).val.toNat = n := by
  rw [Char.ofNat, dif_pos h]
  rfl

section
variable {x y z w : Nat}

theorem encode_of_one (h : x < 0x80) :
    String.utf8EncodeChar (Char.ofNat x) = [UInt8.ofNat x] := by
  have hvalid : x.isValidChar := .inl (by omega)
  simp only [String.utf8EncodeChar, toNat_ofNat hvalid]
  rw [if_pos (by omega)]

theorem encode_of_two (hx : 2 ≤ x) (hx' : x < 0x20) (hy : y < 0x40) :
    String.utf8EncodeChar (Char.ofNat (x * 64 + y))
      = [UInt8.ofNat (x + 0xC0), UInt8.ofNat (y + 0x80)] := by
  have hvalid : (x * 64 + y).isValidChar := .inl (by omega)
  have h1 : (x * 64 + y) / 64 % 32 = x := by omega
  have h2 : (x * 64 + y) % 64 = y := by omega
  simp only [String.utf8EncodeChar, toNat_ofNat hvalid, h1, h2]
  rw [if_neg (by omega), if_pos (by omega)]

theorem encode_of_three (hx : x < 0x10) (hy : y < 0x40) (hz : z < 0x40)
    (hlow : 0x20 ≤ x * 64 + y) (hscalar : x * 64 + y < 0x360 ∨ 0x37F < x * 64 + y) :
    String.utf8EncodeChar (Char.ofNat ((x * 64 + y) * 64 + z))
      = [UInt8.ofNat (x + 0xE0), UInt8.ofNat (y + 0x80), UInt8.ofNat (z + 0x80)] := by
  have hvalid : ((x * 64 + y) * 64 + z).isValidChar := by
    unfold Nat.isValidChar
    omega
  have h1 : ((x * 64 + y) * 64 + z) / 4096 % 16 = x := by omega
  have h2 : ((x * 64 + y) * 64 + z) / 64 % 64 = y := by omega
  have h3 : ((x * 64 + y) * 64 + z) % 64 = z := by omega
  simp only [String.utf8EncodeChar, toNat_ofNat hvalid, h1, h2, h3]
  rw [if_neg (by omega), if_neg (by omega), if_pos (by omega)]

theorem encode_of_four (hy : y < 0x40) (hz : z < 0x40) (hw : w < 0x40)
    (hlow : 0x10 ≤ x * 64 + y) (hhigh : x * 64 + y < 0x110) :
    String.utf8EncodeChar (Char.ofNat (((x * 64 + y) * 64 + z) * 64 + w))
      = [UInt8.ofNat (x + 0xF0), UInt8.ofNat (y + 0x80), UInt8.ofNat (z + 0x80),
        UInt8.ofNat (w + 0x80)] := by
  have hvalid : (((x * 64 + y) * 64 + z) * 64 + w).isValidChar := .inr ⟨by omega, by omega⟩
  have h1 : (((x * 64 + y) * 64 + z) * 64 + w) / 262144 % 8 = x := by omega
  have h2 : (((x * 64 + y) * 64 + z) * 64 + w) / 4096 % 64 = y := by omega
  have h3 : (((x * 64 + y) * 64 + z) * 64 + w) / 64 % 64 = z := by omega
  have h4 : (((x * 64 + y) * 64 + z) * 64 + w) % 64 = w := by omega
  simp only [String.utf8EncodeChar, toNat_ofNat hvalid, h1, h2, h3, h4]
  rw [if_neg (by omega), if_neg (by omega), if_neg (by omega)]

end

/-- The bytes and the text begin with the same character, and what follows it is read as what follows
it in the text. -/
def BeginsAlike (xs : List UInt8) (cs : List Char) : Prop :=
  ∃ c rest others, cs = c :: others ∧ xs = String.utf8EncodeChar c ++ rest ∧
    Reads none rest others none

section
variable {n : Nat} {xs : List UInt8} {cs : List Char}

theorem beginsAlike_two (hn : 0xC2 ≤ n) (hn' : n < 0xE0)
    (h : Reads (some ⟨[UInt8.ofNat n], 1, 0x80, 0xBF, n - 0xC0⟩) xs cs none) :
    BeginsAlike (UInt8.ofNat n :: xs) cs := by
  obtain ⟨m, rest, others, rfl, hm, hm', rfl, hrest⟩ := h.last
  refine ⟨_, rest, others, rfl, ?_, hrest⟩
  rw [encode_of_two (by omega) (by omega) (by omega), Nat.sub_add_cancel (by omega),
    Nat.sub_add_cancel hm]
  rfl

theorem beginsAlike_three (hn : 0xE0 ≤ n) (hn' : n < 0xF0)
    (h : Reads (some ⟨[UInt8.ofNat n], 2, if n = 0xE0 then 0xA0 else 0x80,
      if n = 0xED then 0x9F else 0xBF, n - 0xE0⟩) xs cs none) :
    BeginsAlike (UInt8.ofNat n :: xs) cs := by
  obtain ⟨m, rest, rfl, hm, hm', hlast⟩ := h.further
  obtain ⟨k, rest, others, rfl, hk, hk', rfl, hrest⟩ := hlast.last
  have hm₀ : 0x80 ≤ m ∧ m ≤ 0xBF := by split at hm <;> split at hm' <;> omega
  have hlow : 0x20 ≤ (n - 0xE0) * 64 + (m - 0x80) := by split at hm <;> omega
  have hscalar : (n - 0xE0) * 64 + (m - 0x80) < 0x360 ∨ 0x37F < (n - 0xE0) * 64 + (m - 0x80) := by
    split at hm' <;> omega
  refine ⟨_, rest, others, rfl, ?_, hrest⟩
  rw [encode_of_three (by omega) (by omega) (by omega) hlow hscalar, Nat.sub_add_cancel hn,
    Nat.sub_add_cancel hm₀.1, Nat.sub_add_cancel hk]
  rfl

theorem beginsAlike_four (hn : 0xF0 ≤ n) (hn' : n < 0xF5)
    (h : Reads (some ⟨[UInt8.ofNat n], 3, if n = 0xF0 then 0x90 else 0x80,
      if n = 0xF4 then 0x8F else 0xBF, n - 0xF0⟩) xs cs none) :
    BeginsAlike (UInt8.ofNat n :: xs) cs := by
  obtain ⟨m, rest, rfl, hm, hm', hfurther⟩ := h.further
  obtain ⟨k, rest, rfl, hk, hk', hlast⟩ := hfurther.further
  obtain ⟨j, rest, others, rfl, hj, hj', rfl, hrest⟩ := hlast.last
  have hm₀ : 0x80 ≤ m ∧ m ≤ 0xBF := by split at hm <;> split at hm' <;> omega
  have hlow : 0x10 ≤ (n - 0xF0) * 64 + (m - 0x80) := by split at hm <;> omega
  have hhigh : (n - 0xF0) * 64 + (m - 0x80) < 0x110 := by split at hm' <;> omega
  refine ⟨_, rest, others, rfl, ?_, hrest⟩
  rw [encode_of_four (by omega) (by omega) (by omega) hlow hhigh, Nat.sub_add_cancel hn,
    Nat.sub_add_cancel hm₀.1, Nat.sub_add_cancel hk, Nat.sub_add_cancel hj]
  rfl

/-- Bytes that are read without rest begin with those of a character. -/
theorem Reads.beginsAlike {b : UInt8} (h : Reads none (b :: xs) cs none) :
    BeginsAlike (b :: xs) cs := by
  have hb : b = UInt8.ofNat b.toNat := by simp
  cases h with
  | char hstart hrest =>
    rename_i c others
    simp only [step, start] at hstart
    split at hstart
    · rename_i hn
      obtain rfl := Step.char.inj hstart
      refine ⟨_, xs, others, rfl, ?_, hrest⟩
      rw [encode_of_one hn, ← hb]
      rfl
    · repeat' split at hstart
      all_goals cases hstart
  | more hstart hrest =>
    simp only [step, start] at hstart
    generalize b.toNat = n at hb hstart
    subst hb
    -- the first byte tells how many there are
    split at hstart
    · cases hstart
    split at hstart
    · cases hstart
    split at hstart
    · obtain rfl := Step.more.inj hstart
      exact beginsAlike_two (by omega) (by omega) hrest
    split at hstart
    · obtain rfl := Step.more.inj hstart
      exact beginsAlike_three (by omega) (by omega) hrest
    split at hstart
    · obtain rfl := Step.more.inj hstart
      exact beginsAlike_four (by omega) (by omega) hrest
    · cases hstart

end

/-- Bytes that are read without rest are those of the text. -/
theorem Reads.eq_utf8 {xs : List UInt8} {cs : List Char} (h : Reads none xs cs none) :
    xs = cs.flatMap String.utf8EncodeChar := by
  induction cs generalizing xs with
  | nil =>
    cases xs with
    | nil => rfl
    | cons b xs =>
      obtain ⟨c, rest, others, hcs, -, -⟩ := h.beginsAlike
      cases hcs
  | cons c cs ih =>
    cases xs with
    | nil => cases h
    | cons b xs =>
      obtain ⟨d, rest, others, hcs, hxs, hrest⟩ := h.beginsAlike
      cases hcs
      rw [List.flatMap_cons, hxs, ih hrest]

/-- The bytes that a text is decoded from are its own. -/
theorem decode_eq_iff {bytes : List UInt8} {text : List Char} :
    decode bytes = ⟨text, none⟩ ↔ bytes = (String.ofList text).toUTF8.data.toList := by
  constructor
  · intro h
    have hreads := reads_of_decodeBlocks h
    rw [flatten_blocks (by decide)] at hreads
    rw [toList_toUTF8, String.toList_ofList]
    exact hreads.eq_utf8
  · rintro rfl
    rw [decode_toUTF8, String.toList_ofList]

end NftStore.Text.Utf8
