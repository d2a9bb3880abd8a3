/-!
Quoted text inside an operation line. A double quote in the text is written with a backslash
before it and every other character stands for itself, so a backslash is not protected: the
reader below takes back every text that does not end in one.
-/
namespace NftStore.Text.Quoted

/-- The text with a backslash before every double quote. -/
def escape : List Char → List Char
  | [] => []
  | c :: cs => if c = '"' then '\\' :: '"' :: escape cs else c :: escape cs

/-- Reads up to the first double quote that no backslash precedes; a backslash before a double
quote gives the quote. What follows the closing quote is the second component. -/
def unescape : List Char → Option (List Char × List Char)
  | [] => none
  | '\\' :: '"' :: cs => (unescape cs).map fun r => ('"' :: r.1, r.2)
  | c :: cs => if c = '"' then some ([], cs) else (unescape cs).map fun r => (c :: r.1, r.2)

/-- Reads a quoted text and gives what it holds and what follows it. -/
def read : List Char → Option (List Char × List Char)
  | '"' :: cs => unescape cs
  | _ => none

end NftStore.Text.Quoted

namespace NftStore.Text

/-- The text between double quotes. -/
def quote (s : String) : String :=
  String.ofList ('"' :: Quoted.escape s.toList ++ ['"'])

end NftStore.Text
