import NftStore.Ini.Reader
import NftStore.Text.Lines

/-!
The layout of a configuration file: what its lines say, told without reading them into a document.
An entry is a header or an option, the option with all the lines that go on with its value. It is set
in the section whose header stands last before it, so the options of a section are those under its
headers, in the order in which they stand in the file.
-/
namespace NftStore.Ini

namespace Line

/-- The line does not start an entry where an option was set at the indent. -/
def goesOn (indent : Nat) : Line → Bool
  | comment | blank => true
  | content deeper _ => indent < deeper

/-- What the line adds to the value that it goes on with. -/
def addition : Line → List (List Char)
  | comment => []
  | blank => [[]]
  | content _ text => [text]

end Line

/-- An entry of a file, an option with the lines of its value. -/
inductive Item
  | header (name : String)
  | option (name : String) (value : List (List Char))
deriving DecidableEq, Repr

/-- The entries that stand in lines. -/
def items : List Line → List Item
  | [] => []
  | .comment :: rest | .blank :: rest => items rest
  | .content indent text :: rest =>
    match Entry.ofChars text with
    | .header name => .header name :: items rest
    | .option name value =>
      have := (List.dropWhile_sublist (Line.goesOn indent) (l := rest)).length_le
      .option name (value :: (rest.takeWhile (Line.goesOn indent)).flatMap Line.addition)
        :: items (rest.dropWhile (Line.goesOn indent))
    | .other => items rest
termination_by lines => lines.length

/-- The options of a section among entries, where a section may be open before the first of them. -/
def settings (sectionName : String) : Option String → List Item → List (String × List (List Char))
  | _, [] => []
  | _, .header name :: rest => settings sectionName (some name) rest
  | opened, .option name value :: rest =>
    if opened = some sectionName then (name, value) :: settings sectionName opened rest
    else settings sectionName opened rest

/-- Every line is an entry or goes on with one, and every option has a name. -/
def wellFormed : List Line → Bool
  | [] => true
  | .comment :: rest | .blank :: rest => wellFormed rest
  | .content indent text :: rest =>
    match Entry.ofChars text with
    | .header _ => wellFormed rest
    | .option name _ =>
      have := (List.dropWhile_sublist (Line.goesOn indent) (l := rest)).length_le
      name != "" && wellFormed (rest.dropWhile (Line.goesOn indent))
    | .other => false
termination_by lines => lines.length

/-- The names of the sections that are made, one for each header. The default section is not made. -/
def sectionNames : List Item → List String
  | [] => []
  | .header name :: rest =>
    if name = defaultSection then sectionNames rest else name :: sectionNames rest
  | .option _ _ :: rest => sectionNames rest

/-- Nothing is there twice: no section is made and no option set in a section a second time. And no
option stands before the first header. -/
structure Distinct (entries : List Item) : Prop where
  headed : ∀ name value, entries.head? ≠ some (.option name value)
  sections : (sectionNames entries).Nodup
  options : ∀ sectionName, ((settings sectionName none entries).map Prod.fst).Nodup

/-- A text as the entries that stand in its lines. -/
def layout (text : List Char) : List Item :=
  items ((Text.lines text).map Line.ofChars)

/-- The text is that of a document. -/
def Readable (text : List Char) : Prop :=
  wellFormed ((Text.lines text).map Line.ofChars) = true ∧ Distinct (layout text)

/-- The options under the headers of a name, with their values as they are written. -/
def optionsUnder (sectionName : String) (entries : List Item) : List (String × String) :=
  (settings sectionName none entries).map fun option => (option.1, joinValue option.2)

/-- The options that hold in a section, with their values as they are written: first those under the
headers of the default section, with the value that the section itself has for one if it has any,
and then the others of the section. -/
def optionsIn (sectionName : String) (entries : List Item) : List (String × String) :=
  let defaults := optionsUnder defaultSection entries
  let own := optionsUnder sectionName entries
  defaults.map (fun option => (option.1, (own.lookup option.1).getD option.2))
    ++ own.filter fun option => !(defaults.map Prod.fst).contains option.1

end NftStore.Ini
