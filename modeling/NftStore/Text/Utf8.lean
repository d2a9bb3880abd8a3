/-!
Strict decoding of UTF-8. Bytes come in blocks; a block is decoded as a whole, with a character
that the blocks cut in two carried over. The first byte that cannot continue stops the decoding: no
character of its block is handed out, and its place is counted from the start of the character that
was carried into the block.
-/
namespace NftStore.Text.Utf8

/-- Why bytes are not UTF-8. -/
inductive Reason
  | invalidStart
  | invalidContinuation
  | unexpectedEnd
deriving DecidableEq, Repr

/-- The bytes at fault, where the first of them stands, and why. -/
structure Fault where
  bytes : List UInt8
  position : Nat
  reason : Reason
deriving DecidableEq, Repr

/-- The reason in words. -/
def Reason.text : Reason → String
  | invalidStart => "invalid start byte"
  | invalidContinuation => "invalid continuation byte"
  | unexpectedEnd => "unexpected end of data"

/-- The fault in words. A single byte is named, of several only the place is given. -/
def Fault.message (f : Fault) : String :=
  let place :=
    match f.bytes with
    | [b] =>
      "byte 0x" ++ String.ofList ((Nat.toDigits 16 b.toNat).leftpad 2 '0') ++ " in position "
        ++ toString f.position
    | bs =>
      "bytes in position " ++ toString f.position ++ "-"
        ++ toString (f.position + bs.length - 1)
  "'utf-8' codec can't decode " ++ place ++ ": " ++ f.reason.text

/-- A character begun: its bytes so far, how many are missing, the range of the next one, and the
bits of the code point so far. -/
structure Pending where
  seen : List UInt8
  missing : Nat
  low : Nat
  high : Nat
  bits : Nat
deriving DecidableEq, Repr

/-- What one more byte leads to. -/
inductive Step
  | char (c : Char)
  | more (p : Pending)
  | bad (reason : Reason)
deriving Repr

/-- The first byte of a character. The range of the second is narrowed where a longer form than
needed, a surrogate or a code point beyond the last would begin. -/
def start (b : UInt8) : Step :=
  let n := b.toNat
  if n < 0x80 then .char (Char.ofNat n)
  else if n < 0xC2 then .bad .invalidStart
  else if n < 0xE0 then .more ⟨[b], 1, 0x80, 0xBF, n - 0xC0⟩
  else if n < 0xF0 then
    .more ⟨[b], 2, if n = 0xE0 then 0xA0 else 0x80, if n = 0xED then 0x9F else 0xBF, n - 0xE0⟩
  else if n < 0xF5 then
    .more ⟨[b], 3, if n = 0xF0 then 0x90 else 0x80, if n = 0xF4 then 0x8F else 0xBF, n - 0xF0⟩
  else .bad .invalidStart

/-- A further byte of a character. -/
def Pending.next (p : Pending) (b : UInt8) : Step :=
  if p.low ≤ b.toNat ∧ b.toNat ≤ p.high then
    let bits := p.bits * 64 + (b.toNat - 0x80)
    if p.missing ≤ 1 then .char (Char.ofNat bits)
    else .more ⟨p.seen ++ [b], p.missing - 1, 0x80, 0xBF, bits⟩
  else .bad .invalidContinuation

/-- One byte after a character begun, if there is one. -/
def step (pending : Option Pending) (b : UInt8) : Step :=
  match pending with
  | none => start b
  | some p => p.next b

/-- The bytes of the character begun. -/
def seen (pending : Option Pending) : List UInt8 :=
  (pending.map Pending.seen).getD []

/-- Where and why a byte at a position does not fit. -/
def faultAt (pending : Option Pending) (position : Nat) (b : UInt8) (reason : Reason) : Fault :=
  match pending with
  | none => ⟨[b], position, reason⟩
  | some p => ⟨p.seen, position - p.seen.length, reason⟩

/-- The characters of a block and the character begun at its end, or the fault in it. -/
def decodeBlock (pending : Option Pending) (position : Nat) :
    List UInt8 → Except Fault (List Char × Option Pending)
  | [] => .ok ([], pending)
  | b :: bs =>
    match step pending b with
    | .char c => (decodeBlock none (position + 1) bs).map fun (cs, p) => (c :: cs, p)
    | .more p => decodeBlock (some p) (position + 1) bs
    | .bad reason => .error (faultAt pending position b reason)

/-- Decoded text, and the fault at which it breaks off. -/
structure Decoded where
  text : List Char
  fault : Option Fault
deriving DecidableEq, Repr

/-- The characters of all blocks up to a fault. -/
def decodeBlocks (pending : Option Pending) : List (List UInt8) → Decoded
  | [] =>
    match pending with
    | none => ⟨[], none⟩
    | some p => ⟨[], some ⟨p.seen, 0, .unexpectedEnd⟩⟩
  | block :: blocks =>
    match decodeBlock pending (seen pending).length block with
    | .error fault => ⟨[], some fault⟩
    | .ok (cs, pending) =>
      let rest := decodeBlocks pending blocks
      { rest with text := cs ++ rest.text }

/-- Bytes in blocks of a size, the last of them perhaps shorter. -/
def blocks (size : Nat) (bytes : List UInt8) : List (List UInt8) :=
  if size = 0 ∨ bytes = [] then [] else bytes.take size :: blocks size (bytes.drop size)
termination_by bytes.length
decreasing_by
  rename_i h
  have : bytes.length ≠ 0 := fun e => h (.inr (List.length_eq_zero_iff.1 e))
  simp only [List.length_drop]
  omega

/-- The size of the blocks in which a file is read. -/
def blockSize : Nat := 8192

/-- The text of a file, up to a fault. -/
def decode (bytes : List UInt8) : Decoded :=
  decodeBlocks none (blocks blockSize bytes)

end NftStore.Text.Utf8
