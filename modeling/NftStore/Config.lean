import NftStore.Family
import NftStore.Ini.Reader
import NftStore.Ini.Reference
import NftStore.Text.Lines
import NftStore.Text.Utf8

/-!
The configuration of a store: which backend keeps it, the family and name of its table, and the
defines to register. It is read from a file with a section `nftsim` for the first three and a
section `defines`.
-/
namespace NftStore

/-- A configuration as it was read. -/
structure Config where
  backend : String
  family : Family
  table : String
  defines : List (String × String)
deriving DecidableEq, Repr

/-- Why there is no configuration. -/
inductive ConfigFault
  | unreadable
  | undecodable (cause : Text.Utf8.Fault)
  | malformed (cause : Ini.Fault)
  | noSection (name : String)
  | badValue (cause : Ini.BadValue)
  | unknownFamily (word : String)
  | noTable
deriving DecidableEq, Repr

/-- The message of a fault in the file of a name. -/
def ConfigFault.message (file : String) : ConfigFault → String
  | unreadable => "Unable to read configuration file " ++ file
  | undecodable cause => cause.message
  | malformed cause => cause.message file
  | noSection name => "Section [" ++ name ++ "] missing in " ++ file
  | badValue cause => cause.message
  | unknownFamily word => "Family '" ++ word ++ "' is not understood! (" ++ file ++ ")"
  | noTable => "No table configured (" ++ file ++ ")"

namespace Config

/-- The section of backend, family and table. -/
def mainSection : String := "nftsim"

/-- The section of defines. -/
def definesSection : String := "defines"

/-- The backend where none is named. -/
def defaultBackend : String := "fake"

/-- The family where none is named. -/
def defaultFamily : Family := .inet

/-- The document in a file. Where the text breaks off, faults in its complete lines come first. -/
def document (bytes : List UInt8) : Except ConfigFault Ini.Document :=
  let decoded := Text.Utf8.decode bytes
  let lines :=
    match decoded.fault with
    | none => Text.lines decoded.text
    | some _ => Text.completeLines decoded.text
  match Ini.Draft.empty.lines 1 lines, decoded.fault with
  | .error fault, _ => .error (.malformed fault)
  | .ok _, some fault => .error (.undecodable fault)
  | .ok draft, none =>
    match draft.finish with
    | .error fault => .error (.malformed fault)
    | .ok document => .ok document

/-- The value of an option in the main section. -/
def option (d : Ini.Document) (name : String) : Except ConfigFault (Option String) :=
  (d.value? mainSection name).mapError .badValue

/-- The defines of a document, none if it has no section of them. -/
def definesOf (d : Ini.Document) : Except ConfigFault (List (String × String)) :=
  if d.hasSection definesSection then (d.items definesSection).mapError .badValue else .ok []

/-- The configuration in a document. -/
def ofDocument (d : Ini.Document) : Except ConfigFault Config := do
  if !d.hasSection mainSection then
    throw (.noSection mainSection)
  let backend ← option d "backend"
  let word := (← option d "family").getD defaultFamily.text
  let some family := Family.ofText? word | throw (.unknownFamily word)
  let some table := (← option d "table").filter (· ≠ "") | throw .noTable
  let defines ← definesOf d
  return ⟨backend.getD defaultBackend, family, table, defines⟩

/-- The configuration in a file, given by its bytes if it is there. -/
def read (file : Option (List UInt8)) : Except ConfigFault Config :=
  match file with
  | none => .error .unreadable
  | some bytes =>
    match document bytes with
    | .error fault => .error fault
    | .ok d => ofDocument d

/-- The description of a configuration leaves out its defines. -/
def description (c : Config) : String :=
  "<Config(backend=" ++ c.backend ++ ", family=" ++ c.family.text ++ ", table=" ++ c.table ++ ")>"

end Config

end NftStore
