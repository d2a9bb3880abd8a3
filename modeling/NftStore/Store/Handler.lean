import NftStore.Store.Work

/-!
Handlers: what is done to a store for each kind of object. A handler is called with a verb that the
kind has; it looks for what it needs, in the order given here, and then changes the store in place.
-/
namespace NftStore

/-- The rule as it is stored: placeholders replaced, and the handle it was added under. -/
def Rule.stored (r : Rule) (defines : Defines) (handle : Nat) : Rule :=
  { r with rule := r.rule.map defines.substitute, handle := some handle }

/-- The chain as it is stored, with the handle it was added under. -/
def Chain.stored (c : Chain) (handle : Nat) : Chain :=
  { c with handle := some handle }

/-- The set or map as it is stored: placeholders replaced in its type, and the handle it was added
under. -/
def SetSpec.stored (s : SetSpec) (defines : Defines) (handle : Nat) : SetSpec :=
  { s with
    type := s.type.map defines.substitute
    typeof := s.typeof.map defines.substitute
    handle := some handle }

/-- The element as it is stored: placeholders replaced in the key and, in a map, in the value. -/
def Element.stored (e : Element) (defines : Defines) : Element :=
  { e with
    key := defines.substitute e.key
    value := if e.container = .map then e.value.map defines.substitute else e.value }

namespace ChainEntry

/-- The chain without rules. -/
def emptied (entry : ChainEntry) : ChainEntry :=
  { entry with rules := [] }

/-- A rule of the chain has the handle. -/
def hasRule (entry : ChainEntry) (handle : Int) : Bool :=
  entry.rules.any fun r => r.handle == some handle

/-- The chain with a rule after all others. -/
def addRule (entry : ChainEntry) (r : Rule) : ChainEntry :=
  { entry with rules := entry.rules ++ [r] }

/-- The chain without the first rule of the handle. -/
def eraseRule (entry : ChainEntry) (handle : Int) : ChainEntry :=
  { entry with rules := entry.rules.eraseP fun r => r.handle == some handle }

end ChainEntry

/-- Puts an element in the place of the first one with its key, or at the end. -/
def putElement (e : Element) : List Element → List Element
  | [] => [e]
  | other :: rest => if other.key = e.key then e :: rest else other :: putElement e rest

namespace SetEntry

/-- The set or map without elements. -/
def emptied (entry : SetEntry) : SetEntry :=
  { entry with elements := [] }

/-- The element of a key. -/
def find? (entry : SetEntry) (key : String) : Option Element :=
  entry.elements.find? fun e => e.key == key

/-- An element has the key. -/
def hasKey (entry : SetEntry) (key : String) : Bool :=
  entry.elements.any fun e => e.key == key

/-- The set or map with an element in the place of the one with its key, or at the end. -/
def put (entry : SetEntry) (e : Element) : SetEntry :=
  { entry with elements := putElement e entry.elements }

/-- The set or map without the element of a key. -/
def erase (entry : SetEntry) (key : String) : SetEntry :=
  { entry with elements := entry.elements.eraseP fun e => e.key == key }

end SetEntry

namespace Store

/-- The contents right after the table is added: a record with the store's own names and the last
handle used, and nothing in the table. -/
def freshContents (s : Store) (t : Table) : Contents :=
  { table :=
      { family := some s.family.text
        name := some s.table
        comment := t.comment
        handle := some s.lastHandle }
    chains := .empty
    sets := .empty
    maps := .empty }

end Store

namespace Work

/-- Deletes the table and all that is in it. -/
def dropTable : Work Unit :=
  change fun s => { s with contents := none }

/-- Makes the table where there is none. -/
def makeTable (t : Table) : Work Unit := do
  let s ← store
  if s.contents.isNone then
    change fun s => { s with contents := some (s.freshContents t) }

/-- Adds or deletes the table. Flushing is deleting and making anew. -/
def handleTable (verb : Verb) (t : Table) : Work Unit :=
  match verb with
  | .delete => dropTable
  | .flush => do
    dropTable
    makeTable t
  | _ => makeTable t

/-- Adds, flushes or deletes an entry of a catalog under a name. Adding under a taken name does
nothing, and a handle given for a delete is warned about and plays no part. -/
def handleEntry (k : Shelf) (kind : Kind) (verb : Verb) (name : String) (handle : Option Int)
    (fresh : Store → k.Entry) (emptied : k.Entry → k.Entry) : Work Unit := do
  let entries ← catalog k
  if verb = .add then
    let s ← store
    if !entries.contains name then
      setCatalog k (entries.add name (fresh s))
  else
    check (entries.contains name) (.notFound (.named kind.text name))
    match verb with
    | .flush => setCatalog k (entries.modify name emptied)
    | .delete =>
      (handle.map fun h => ⟨kind, name, h⟩).toList.forM warn
      setCatalog k (entries.erase name)
    | _ => pure ()

/-- Adds a rule to its chain or deletes the rule of its handle from it. -/
def handleRule (verb : Verb) (r : Rule) : Work Unit := do
  let chains ← catalog .chains
  let entry ← demand (chains.find? r.chain) (.notFound (.named Kind.chain.text r.chain))
  match verb with
  | .add =>
    let s ← store
    setCatalog .chains (chains.modify r.chain (·.addRule (r.stored s.defines s.lastHandle)))
  | .delete =>
    let handle ← demand r.handle .ruleHandleUnset
    check (entry.hasRule handle) (.notFound (.rule handle r.chain))
    setCatalog .chains (chains.modify r.chain (·.eraseRule handle))
  | _ => pure ()

/-- Puts an element into its container or deletes the element of its key from it. -/
def handleElement (verb : Verb) (e : Element) : Work Unit := do
  let k : Shelf := .containers e.container
  let entries ← catalog k
  let entry ← demand (entries.find? e.name) (.notFound (.named e.container.kind.text e.name))
  let s ← store
  let stored := e.stored s.defines
  match verb with
  | .add => setCatalog k (entries.modify e.name (·.put stored))
  | .delete =>
    check (entry.hasKey stored.key) (.notFound (.element stored.key e.container e.name))
    setCatalog k (entries.modify e.name (·.erase stored.key))
  | _ => pure ()

end Work

/-- The handler for an object. There is none for the kinds that no store holds. -/
def Object.handler? : Object → Option (Verb → Work Unit)
  | .table t => some fun verb => Work.handleTable verb t
  | .chain r => some fun verb =>
    Work.handleEntry .chains .chain verb r.name r.handle (fun s => ⟨r.stored s.lastHandle, []⟩)
      ChainEntry.emptied
  | .rule r => some fun verb => Work.handleRule verb r
  | .set kind r => some fun verb =>
    Work.handleEntry (.containers kind) kind.kind verb r.name r.handle
      (fun s => ⟨r.stored s.defines s.lastHandle, []⟩) SetEntry.emptied
  | .element e => some fun verb => Work.handleElement verb e
  | .counter _ | .bare => none

end NftStore
