import NftStore.Object.Line
import NftStore.Store

/-!
The dump of a store: lines that would add the table and all that is in it. Chains, sets and maps
come in the order of their names and rules and elements in stored order, and no handle is written,
so that the dump does not depend on the order in which things were added.
-/
namespace NftStore

/-- The rule without what names its place. -/
def Rule.unplaced (r : Rule) : Rule :=
  { r with index := none, handle := none }

/-- The lines of a chain and its rules. -/
def ChainEntry.lines (entry : ChainEntry) (target : Target) : List String :=
  entry.record.line .add target :: entry.rules.map fun r => r.unplaced.line .add target

/-- The lines of a set or map and its elements. -/
def SetEntry.lines (entry : SetEntry) (kind : SetKind) (target : Target) : List String :=
  entry.record.line kind .add target :: entry.elements.map fun e => e.line .add target

/-- All lines of a dump: the table, then chains, sets and maps. -/
def Contents.lines (c : Contents) (target : Target) : List String :=
  c.table.line .add target
    :: (c.chains.sorted.flatMap fun e => e.2.lines target)
    ++ (c.sets.sorted.flatMap fun e => e.2.lines .set target)
    ++ (c.maps.sorted.flatMap fun e => e.2.lines .map target)

namespace Store

/-- The table that a store's lines are about. -/
def target (s : Store) : Target :=
  ⟨s.family.text, s.table⟩

/-- The dump, empty if there is no table. -/
def dump (s : Store) : String :=
  match s.contents with
  | none => ""
  | some c => String.join (c.lines s.target)

end Store

end NftStore
