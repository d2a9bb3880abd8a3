/-!
Keys of elements. A key of several parts is written with ` . ` between them; a part may itself hold
dots, so only parts without spaces can be told apart again.
-/
namespace NftStore.Key

/-- What stands between two parts of a key. -/
def separator : String := " . "

/-- The parts of a key in one text. -/
def join : List String → String
  | [] => ""
  | [part] => part
  | part :: parts => part ++ separator ++ join parts

/-- The characters up to each separator, cut from the left. -/
def splitChars : List Char → List (List Char)
  | [] => [[]]
  | ' ' :: '.' :: ' ' :: cs => [] :: splitChars cs
  | c :: cs =>
    match splitChars cs with
    | [] => [[c]]
    | part :: parts => (c :: part) :: parts

/-- The parts of a key, cut at every separator from the left. -/
def split (key : String) : List String :=
  (splitChars key.toList).map String.ofList

end NftStore.Key
