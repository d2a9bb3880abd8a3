import NftStore.Text.Printable

/-!
Text written as a literal, the form in which messages and descriptions name things. A literal
stands between apostrophes, or between double quotes if the text holds an apostrophe and no double
quote. What cannot be printed is written by its code point.
-/
namespace NftStore.Text.Literal

/-- The mark around a literal. -/
def mark (cs : List Char) : Char :=
  if cs.contains '\'' && !cs.contains '"' then '"' else '\''

/-- A code point in hexadecimal, with zeros before it up to the given width. -/
def hex (width : Nat) (n : Nat) : List Char :=
  (Nat.toDigits 16 n).leftpad width '0'

/-- A code point in the shortest of the three numeric escapes that holds it. -/
def numericEscape (c : Char) : List Char :=
  if c.toNat < 0x100 then '\\' :: 'x' :: hex 2 c.toNat
  else if c.toNat < 0x10000 then '\\' :: 'u' :: hex 4 c.toNat
  else '\\' :: 'U' :: hex 8 c.toNat

/-- One character inside a literal with the given mark. -/
def writeChar (mark : Char) (c : Char) : List Char :=
  if c = mark || c = '\\' then ['\\', c]
  else if c = '\t' then ['\\', 't']
  else if c = '\n' then ['\\', 'n']
  else if c = '\r' then ['\\', 'r']
  else if isPrintable c then [c]
  else numericEscape c

end NftStore.Text.Literal

namespace NftStore.Text

/-- The text as a literal. -/
def literal (s : String) : String :=
  let cs := s.toList
  let mark := Literal.mark cs
  String.ofList (mark :: cs.flatMap (Literal.writeChar mark) ++ [mark])

end NftStore.Text
