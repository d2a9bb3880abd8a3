import NftStore.Store.Dump
import NftStore.Store.Run

/-!
Snapshots: the operations that add a table and all that is in it once more, in the order of the
dump. Rules are added without what names their place, since new handles are given to them.
-/
namespace NftStore

/-- The operations that add a chain and its rules. -/
def ChainEntry.snapshot (entry : ChainEntry) : List Operation :=
  ⟨.add, .chain entry.record⟩ :: entry.rules.map fun r => ⟨.add, .rule r.unplaced⟩

/-- The operations that add a set or map and its elements. -/
def SetEntry.snapshot (entry : SetEntry) (kind : SetKind) : List Operation :=
  ⟨.add, .set kind entry.record⟩ :: entry.elements.map fun e => ⟨.add, .element e⟩

/-- The operations that add the table and all that is in it. -/
def Contents.snapshot (c : Contents) : List Operation :=
  ⟨.add, .table c.table⟩
    :: (c.chains.sorted.flatMap fun e => e.2.snapshot)
    ++ (c.sets.sorted.flatMap fun e => e.2.snapshot .set)
    ++ (c.maps.sorted.flatMap fun e => e.2.snapshot .map)

end NftStore
