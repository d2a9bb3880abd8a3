import NftStore.Config

/-!
The written form of a configuration: a file from which it can be read back. Percent signs are
doubled, since a single one would start a reference.
-/
namespace NftStore.Config

/-- The text with every percent sign doubled. -/
def escapePercent (text : String) : String :=
  String.ofList (text.toList.flatMap fun c => if c = '%' then ['%', '%'] else [c])

/-- A line that sets an option. -/
def optionLine (name value : String) : String :=
  name ++ " = " ++ escapePercent value ++ "\n"

/-- A line that opens a section. -/
def headerLine (name : String) : String :=
  "[" ++ name ++ "]\n"

/-- The text of the file. -/
def written (c : Config) : String :=
  headerLine mainSection ++ optionLine "backend" c.backend ++ optionLine "family" c.family.text
    ++ optionLine "table" c.table ++ headerLine definesSection
    ++ String.join (c.defines.map fun d => optionLine d.1 d.2)

/-- The bytes of the file. -/
def writtenBytes (c : Config) : List UInt8 :=
  c.written.toUTF8.data.toList

end NftStore.Config
