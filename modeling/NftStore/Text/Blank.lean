import NftStore.Text.CharClass

/-!
Blank characters and the trimming of text. Blank are the ASCII controls from tab to carriage
return and from file separator to unit separator, the space, and the spaces and separators of
Unicode.
-/
namespace NftStore.Text

/-- The blank characters. -/
def blanks : CharClass :=
  [⟨0x09, 0x0D⟩, ⟨0x1C, 0x20⟩, ⟨0x85, 0x85⟩, ⟨0xA0, 0xA0⟩, ⟨0x1680, 0x1680⟩,
   ⟨0x2000, 0x200A⟩, ⟨0x2028, 0x2029⟩, ⟨0x202F, 0x202F⟩, ⟨0x205F, 0x205F⟩, ⟨0x3000, 0x3000⟩]

/-- The character is one of the blanks. -/
def isBlank (c : Char) : Bool :=
  blanks.contains c

/-- The text without the blanks at its start. -/
def trimStart (cs : List Char) : List Char :=
  cs.dropWhile isBlank

/-- The text without the blanks at its end. -/
def trimEnd : List Char → List Char
  | [] => []
  | c :: cs =>
    match trimEnd cs with
    | [] => if isBlank c then [] else [c]
    | rest => c :: rest

/-- The text without the blanks at both ends. -/
def trim (cs : List Char) : List Char :=
  trimEnd (trimStart cs)

/-- The number of blanks before the first character that is not blank. -/
def indent (cs : List Char) : Nat :=
  (cs.takeWhile isBlank).length

end NftStore.Text
