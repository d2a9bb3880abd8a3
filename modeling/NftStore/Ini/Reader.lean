import NftStore.Ini.Document
import NftStore.Ini.Line
import NftStore.Text.Literal

/-!
Reading the lines of a configuration file into a document. A line that is indented deeper than the
entry before it goes on with the value of the current option. Repeated sections and options stop the
reading, as does an entry before the first section; lines that are no entry at all are collected and
reported together at the end.
-/
namespace NftStore.Ini

/-- Why lines are not a configuration file. Lines are counted from one. -/
inductive Fault
  | noHeader (number : Nat) (line : String)
  | sectionRepeated (number : Nat) (name : String)
  | optionRepeated (number : Nat) (sectionName option : String)
  | flawed (lines : List (Nat × String))
deriving DecidableEq, Repr

/-- A line number in brackets, two places wide. -/
def lineMark (number : Nat) : String :=
  "[line " ++ String.ofList ((toString number).toList.leftpad 2 ' ') ++ "]"

/-- The message of a fault in the file of a name. -/
def Fault.message (file : String) : Fault → String
  | noHeader number line =>
    "File contains no section headers.\nfile: " ++ Text.literal file ++ ", line: "
      ++ toString number ++ "\n" ++ Text.literal line
  | sectionRepeated number name =>
    "While reading from " ++ Text.literal file ++ " " ++ lineMark number ++ ": section "
      ++ Text.literal name ++ " already exists"
  | optionRepeated number sectionName option =>
    "While reading from " ++ Text.literal file ++ " " ++ lineMark number ++ ": option "
      ++ Text.literal option ++ " in section " ++ Text.literal sectionName ++ " already exists"
  | flawed lines =>
    "Source contains parsing errors: " ++ Text.literal file
      ++ String.join (lines.map fun l => "\n\t" ++ lineMark l.1 ++ ": " ++ Text.literal l.2)

/-- Options while they are read, each with the lines of its value so far. -/
abbrev OptionLines := Catalog (List (List Char))

/-- Where options go: to the defaults or to a section. -/
inductive Place
  | defaults
  | named (name : String)
deriving DecidableEq, Repr

/-- The section that a place is, as messages name it. -/
def Place.name : Place → String
  | defaults => defaultSection
  | named name => name

/-- A document while it is read: what was read so far, the open section, the option that a deeper
line would go on with, the indent of the last entry, and the lines that are no entry. -/
structure Draft where
  defaults : OptionLines
  sections : Catalog OptionLines
  place : Option Place
  current : Option String
  indent : Nat
  flaws : List (Nat × String)

namespace Draft

/-- Nothing read. -/
def empty : Draft := ⟨.empty, .empty, none, none, 0, []⟩

/-- The options of a place. -/
def options (d : Draft) : Place → OptionLines
  | .defaults => d.defaults
  | .named name => (d.sections.find? name).getD .empty

/-- The draft with the options of a place changed. -/
def changeOptions (d : Draft) (place : Place) (f : OptionLines → OptionLines) : Draft :=
  match place with
  | .defaults => { d with defaults := f d.defaults }
  | .named name => { d with sections := d.sections.modify name f }

/-- One more line in the value of an option. -/
def extend (d : Draft) (place : Place) (option : String) (line : List Char) : Draft :=
  d.changeOptions place fun options => options.modify option (· ++ [line])

/-- Notes a line that is no entry. -/
def note (d : Draft) (number : Nat) (line : List Char) : Draft :=
  { d with flaws := d.flaws ++ [(number, String.ofList line)] }

/-- Opens a section. The defaults may be opened again, any other section not. -/
def openSection (d : Draft) (number : Nat) (name : String) : Except Fault Draft :=
  if d.sections.contains name then .error (.sectionRepeated number name)
  else if name = defaultSection then .ok { d with place := some .defaults, current := none }
  else
    .ok { d with
      sections := d.sections.add name .empty
      place := some (.named name)
      current := none }

/-- Sets an option of the open section. One without a name is noted as a flaw and kept, so that a
second one is a repetition; it is not gone on with. -/
def setOption (d : Draft) (place : Place) (number : Nat) (line : List Char) (name : String)
    (value : List Char) : Except Fault Draft :=
  if (d.options place).contains name then .error (.optionRepeated number place.name name)
  else
    let d := d.changeOptions place (·.add name [value])
    .ok (if name = "" then { d.note number line with current := none }
      else { d with current := some name })

/-- Reads content that starts an entry. -/
def entry (d : Draft) (number : Nat) (line text : List Char) : Except Fault Draft :=
  match Entry.ofChars text, d.place with
  | .header name, _ => d.openSection number name
  | _, none => .error (.noHeader number (String.ofList line))
  | .option name value, some place => d.setOption place number line name value
  | .other, some _ => .ok (d.note number line)

/-- Reads one line. -/
def line (d : Draft) (number : Nat) (cs : List Char) : Except Fault Draft :=
  match Line.ofChars cs with
  | .comment => .ok d
  | .blank =>
    match d.place, d.current with
    | some place, some option => .ok (d.extend place option [])
    | _, _ => .ok d
  | .content indent text =>
    match d.place, d.current with
    | some place, some option =>
      if d.indent < indent then .ok (d.extend place option text)
      else { d with indent := indent }.entry number cs text
    | _, _ => { d with indent := indent }.entry number cs text

/-- Reads lines from a number on. -/
def lines (d : Draft) (number : Nat) : List (List Char) → Except Fault Draft
  | [] => .ok d
  | cs :: rest =>
    match d.line number cs with
    | .error fault => .error fault
    | .ok d => d.lines (number + 1) rest

end Draft

/-- A value from its lines, without the blanks at its end. -/
def joinValue (lines : List (List Char)) : String :=
  String.ofList (Text.trimEnd (['\n'].intercalate lines))

/-- The options with their values put together. -/
def OptionLines.join (options : OptionLines) : Catalog String :=
  options.mapEntries fun _ lines => joinValue lines

/-- The document of a draft, unless lines were no entry. -/
def Draft.finish (d : Draft) : Except Fault Document :=
  if d.flaws.isEmpty then
    .ok ⟨OptionLines.join d.defaults, d.sections.mapEntries fun _ options => OptionLines.join options⟩
  else .error (.flawed d.flaws)

end NftStore.Ini
