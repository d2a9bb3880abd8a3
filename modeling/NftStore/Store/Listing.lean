import NftStore.Key
import NftStore.Store.Run

/-!
Reading a store: the names of chains, sets and maps in order, the rules of a chain, the elements of
a set or map, one element by its key, and one field of a stored record.
-/
namespace NftStore

/-- What names can be listed of. -/
inductive Listing
  | chains
  | sets
  | maps
deriving DecidableEq, Repr

/-- The listing that a word asks for, in the singular or plural. -/
def Listing.ofText? (word : String) : Option Listing :=
  if word = "chain" ∨ word = "chains" then some chains
  else if word = "set" ∨ word = "sets" then some sets
  else if word = "map" ∨ word = "maps" then some maps
  else none

/-- The element container that a word names, in the singular only. -/
def SetKind.ofText? (word : String) : Option SetKind :=
  if word = "set" then some set else if word = "map" then some map else none

/-- The names in a listing, sorted by code points. -/
def Contents.names (c : Contents) : Listing → List String
  | .chains => c.chains.sorted.map Prod.fst
  | .sets => c.sets.sorted.map Prod.fst
  | .maps => c.maps.sorted.map Prod.fst

namespace Store

/-- A stored chain. -/
def chain? (s : Store) (name : String) : Option ChainEntry :=
  s.contents.bind fun c => c.chains.find? name

/-- A stored set or map. -/
def container? (s : Store) (kind : SetKind) (name : String) : Option SetEntry :=
  s.contents.bind fun c => (c.containers kind).find? name

/-- The names of the chains, sets or maps. -/
def list (s : Store) (word : String) : Except NotFound (List String) :=
  match s.contents with
  | none => .error s.noTable
  | some c =>
    match Listing.ofText? word with
    | none => .error (.listing word)
    | some listing => .ok (c.names listing)

/-- The rules of a chain. -/
def listRules (s : Store) (chain : String) : Except NotFound (List Rule) :=
  match s.chain? chain with
  | none => .error (.named Kind.chain.text chain)
  | some entry => .ok entry.rules

/-- The elements of a set or map. -/
def listElements (s : Store) (word name : String) : Except NotFound (List Element) :=
  match (SetKind.ofText? word).bind fun kind => s.container? kind name with
  | none => .error (.named word name)
  | some entry => .ok entry.elements

end Store

/-- The element of a key given in parts. The parts are taken as they are stored. -/
def SetEntry.findElement (entry : SetEntry) (parts : List String) : Option Element :=
  entry.find? (Key.join parts)

end NftStore
