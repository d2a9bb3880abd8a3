import NftStore.Text.Blank

/-!
One line of a configuration file, seen on its own: a comment, a blank line, or content that may
open a section or set an option.
-/
namespace NftStore.Ini

/-- A line by its first character that is not blank. -/
inductive Line
  | comment
  | blank
  | content (indent : Nat) (text : List Char)
deriving DecidableEq, Repr

/-- A comment starts with `#` or `;`. -/
def Line.ofChars (cs : List Char) : Line :=
  match Text.trim cs with
  | [] => .blank
  | c :: rest => if c = '#' || c = ';' then .comment else .content (Text.indent cs) (c :: rest)

/-- The content of a line that does not go on with the value before it. -/
inductive Entry
  | header (name : String)
  | option (name : String) (value : List Char)
  | other
deriving DecidableEq, Repr

/-- The text before the last occurrence of a character. -/
def beforeLast (mark : Char) : List Char → Option (List Char)
  | [] => none
  | c :: cs =>
    match beforeLast mark cs with
    | some before => some (c :: before)
    | none => if c = mark then some [] else none

/-- The name in a section header: what stands between the first bracket and the last. What follows
the last bracket does not count. -/
def header? : List Char → Option String
  | '[' :: cs =>
    match beforeLast ']' cs with
    | none | some [] => none
    | some name => some (String.ofList name)
  | _ => none

/-- What separates an option's name from its value. -/
def isSeparator (c : Char) : Bool :=
  c = '=' || c = ':'

/-- The name and value of an option, cut at the first separator. -/
def option? (cs : List Char) : Option (String × List Char) :=
  match cs.dropWhile fun c => !isSeparator c with
  | [] => none
  | _ :: value =>
    some (String.ofList (Text.trimEnd (cs.takeWhile fun c => !isSeparator c)), Text.trim value)

/-- A header before an option, an option before anything else. -/
def Entry.ofChars (cs : List Char) : Entry :=
  match header? cs with
  | some name => .header name
  | none =>
    match option? cs with
    | some (name, value) => .option name value
    | none => .other

end NftStore.Ini
