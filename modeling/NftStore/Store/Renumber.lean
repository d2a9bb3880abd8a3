import NftStore.Store.Run

/-!
Renumbering: a store with a number added to every handle and to the count of handles, and
operations with it added to the handles by which they delete rules.
-/
namespace NftStore

/-- A handle moved up by a number. -/
def shiftHandle (k : Nat) (handle : Option Int) : Option Int :=
  handle.map (· + k)

/-- The table under a handle moved up. -/
def Table.shift (k : Nat) (t : Table) : Table :=
  { t with handle := shiftHandle k t.handle }

/-- The rule under a handle moved up. -/
def Rule.shift (k : Nat) (r : Rule) : Rule :=
  { r with handle := shiftHandle k r.handle }

/-- The chain and its rules under handles moved up. -/
def ChainEntry.shift (k : Nat) (entry : ChainEntry) : ChainEntry :=
  { record := { entry.record with handle := shiftHandle k entry.record.handle }
    rules := entry.rules.map (Rule.shift k) }

/-- The set or map under a handle moved up; elements have none. -/
def SetEntry.shift (k : Nat) (entry : SetEntry) : SetEntry :=
  { entry with record := { entry.record with handle := shiftHandle k entry.record.handle } }

/-- All contents under handles moved up. -/
def Contents.shift (k : Nat) (c : Contents) : Contents :=
  { table := c.table.shift k
    chains := c.chains.mapEntries fun _ => ChainEntry.shift k
    sets := c.sets.mapEntries fun _ => SetEntry.shift k
    maps := c.maps.mapEntries fun _ => SetEntry.shift k }

/-- The store with all handles, used and still to come, moved up by a number. -/
def Store.shift (k : Nat) (s : Store) : Store :=
  { s with lastHandle := s.lastHandle + k, contents := s.contents.map (Contents.shift k) }

/-- The operation that does to a renumbered store what the given one does: only the handle by which
a rule is deleted matters. -/
def Operation.shift (k : Nat) (op : Operation) : Operation :=
  match op.verb, op.object with
  | .delete, .rule r => { op with object := .rule (r.shift k) }
  | _, _ => op

end NftStore
