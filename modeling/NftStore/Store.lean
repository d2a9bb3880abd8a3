import NftStore.Catalog
import NftStore.Define
import NftStore.Object

/-!
The store: one table of packet rules kept in memory, with its chains and their rules, its sets and
maps and their elements, the defines in force, and the count of handles. A handle is the number
that an object was added under; the count only ever grows, also when the table is deleted.
-/
namespace NftStore

/-- A chain as it is stored, with its rules in order. -/
structure ChainEntry where
  record : Chain
  rules : List Rule
deriving DecidableEq, Repr

/-- A set or map as it is stored, with its elements in order. -/
structure SetEntry where
  record : SetSpec
  elements : List Element
deriving DecidableEq, Repr

/-- The table and all that is in it. -/
structure Contents where
  table : Table
  chains : Catalog ChainEntry
  sets : Catalog SetEntry
  maps : Catalog SetEntry
deriving DecidableEq

/-- The catalogs of a table. -/
inductive Shelf
  | chains
  | containers (kind : SetKind)
deriving DecidableEq, Repr

/-- What the entries of a catalog are. -/
@[reducible] def Shelf.Entry : Shelf → Type
  | chains => ChainEntry
  | containers _ => SetEntry

/-- The word for a catalog. -/
def Shelf.text : Shelf → String
  | chains => "chains"
  | containers .set => "sets"
  | containers .map => "maps"

/-- The store of one table. There are no contents until the table is added. -/
structure Store where
  family : Family
  table : String
  defines : Defines
  lastHandle : Nat
  contents : Option Contents
deriving DecidableEq

namespace Contents

/-- The catalog of one kind of element container. -/
def containers (c : Contents) : SetKind → Catalog SetEntry
  | .set => c.sets
  | .map => c.maps

/-- The contents with another catalog of one kind of element container. -/
def withContainers (c : Contents) (kind : SetKind) (entries : Catalog SetEntry) : Contents :=
  match kind with
  | .set => { c with sets := entries }
  | .map => { c with maps := entries }

@[simp] theorem containers_withContainers (c : Contents) (k : SetKind) (e : Catalog SetEntry) :
    (c.withContainers k e).containers k = e := by
  cases k <;> rfl

theorem containers_withContainers_of_ne (c : Contents) {k l : SetKind} (h : l ≠ k)
    (e : Catalog SetEntry) : (c.withContainers k e).containers l = c.containers l := by
  cases k <;> cases l <;> first | rfl | exact absurd rfl h

/-- One of the catalogs. -/
def catalog (c : Contents) : (k : Shelf) → Catalog k.Entry
  | .chains => c.chains
  | .containers kind => c.containers kind

/-- The contents with another catalog in the place of one. -/
def withCatalog (c : Contents) : (k : Shelf) → Catalog k.Entry → Contents
  | .chains, entries => { c with chains := entries }
  | .containers kind, entries => c.withContainers kind entries

end Contents

/-- A family that there is none of. -/
structure UnknownFamily where
  word : String
deriving DecidableEq, Repr

/-- The refusal of a family. -/
def UnknownFamily.message (e : UnknownFamily) : String :=
  "Family '" ++ e.word ++ "' is not understood!"

namespace Store

/-- A store without contents, with the defines of its family and no handle used. -/
def new (family : Family) (table : String) : Store :=
  ⟨family, table, Defines.forFamily family, 0, none⟩

/-- A store for a family given as a word. -/
def new? (family table : String) : Except UnknownFamily Store :=
  match Family.ofText? family with
  | some f => .ok (new f table)
  | none => .error ⟨family⟩

/-- Registers a define, in force for all that is added from now on. -/
def define (s : Store) (name value : String) : Store :=
  { s with defines := s.defines.define name value }

/-- Registers pairs of name and value one after another. -/
def defineAll (s : Store) (pairs : List (String × String)) : Store :=
  pairs.foldl (fun s pair => s.define pair.1 pair.2) s

/-- Registering pairs adds them to the defines and does nothing else. -/
theorem defineAll_eq (s : Store) (pairs : List (String × String)) :
    s.defineAll pairs = { s with defines := s.defines.defineAll pairs } := by
  induction pairs generalizing s with
  | nil => rfl
  | cons pair pairs ih => exact ih (s.define pair.1 pair.2)

/-- Uses up a handle if the verb makes an object. -/
def tick (s : Store) (verb : Verb) : Store :=
  if verb.makes then { s with lastHandle := s.lastHandle + 1 } else s

end Store

end NftStore
