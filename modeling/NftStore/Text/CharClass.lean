/-!
Classes of characters, given as lists of ranges of code points. The tables of blank and of
unprintable characters are such lists, and membership is a plain search through the ranges.
-/
namespace NftStore.Text

/-- The code points from `first` to `last`, both included. -/
structure CharRange where
  first : Nat
  last : Nat
deriving DecidableEq, Repr

/-- A range holds a character whose code point lies between its ends. -/
def CharRange.contains (r : CharRange) (c : Char) : Bool :=
  r.first ≤ c.toNat && c.toNat ≤ r.last

/-- A class of characters is what its ranges cover together. -/
abbrev CharClass := List CharRange

/-- A class holds a character that one of its ranges holds. -/
def CharClass.contains (k : CharClass) (c : Char) : Bool :=
  k.any (·.contains c)

end NftStore.Text
