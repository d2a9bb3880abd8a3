import NftStore.Catalog

/-!
A configuration file as sections of options. Options of the section `DEFAULT` hold in every section
that does not set them itself; it is not a section of its own.
-/
namespace NftStore.Ini

/-- The name of the section whose options hold everywhere. -/
def defaultSection : String := "DEFAULT"

/-- The default options and the sections, in order. -/
structure Document where
  defaults : Catalog String
  sections : Catalog (Catalog String)
deriving DecidableEq

namespace Document

/-- There is a section of the name. -/
def hasSection (d : Document) (name : String) : Bool :=
  d.sections.contains name

/-- The options set in a section. -/
def ownOptions (d : Document) (name : String) : Catalog String :=
  (d.sections.find? name).getD .empty

/-- The value of an option in a section, as it is written. -/
def raw? (d : Document) (sectionName option : String) : Option String :=
  ((d.ownOptions sectionName).find? option).or (d.defaults.find? option)

/-- The options that hold in a section, the default ones first. -/
def optionNames (d : Document) (sectionName : String) : List String :=
  d.defaults.names
    ++ (d.ownOptions sectionName).names.filter fun name => !d.defaults.contains name

end Document

end NftStore.Ini
