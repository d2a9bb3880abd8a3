import NftStore.Family
import NftStore.Object

/-!
Which objects an operation may be about. Every object is judged for its verb before it is queued,
and the first thing wrong with it is named.
-/
namespace NftStore

/-- What makes an object invalid for a verb. -/
inductive Invalid
  | familyUnknown (family : String)
  | chainUnnamed
  | hookWithoutType (chain : String)
  | typeWithoutHook (chain : String)
  | deviceWithoutHook (chain : String)
  | ruleWithoutChain
  | ruleWithoutText (chain : String)
  | ruleIndexAndHandle (chain : String)
  | ruleWithoutHandle (chain : String)
  | setUnnamed (kind : SetKind)
  | setTypeNotUnique (kind : SetKind) (name : String)
  | elementUnnamed
  | elementWithoutKey (kind : SetKind) (name : String)
deriving DecidableEq, Repr

/-- What is wrong, in words. -/
def Invalid.message : Invalid → String
  | familyUnknown family => "Family '" ++ family ++ "' is not understood! (table)"
  | chainUnnamed => "Chain needs a name, handles alone do not identify it"
  | hookWithoutType chain => "Chain '" ++ chain ++ "' has a hook but no type"
  | typeWithoutHook chain => "Chain '" ++ chain ++ "' has a type but no hook"
  | deviceWithoutHook chain => "Chain '" ++ chain ++ "' has a device but no hook"
  | ruleWithoutChain => "Rule needs a chain"
  | ruleWithoutText chain => "Rule in chain '" ++ chain ++ "' has no rule text"
  | ruleIndexAndHandle chain => "Rule in chain '" ++ chain ++ "' cannot have both index and handle"
  | ruleWithoutHandle chain => "Rule delete in chain '" ++ chain ++ "' needs a handle"
  | setUnnamed kind => kind.kind.label ++ " needs a name, handles alone do not identify it"
  | setTypeNotUnique kind name =>
    kind.kind.label ++ " '" ++ name ++ "' needs exactly one of type and typeof"
  | elementUnnamed => "Element needs a set or map name"
  | elementWithoutKey kind name => "Element of " ++ kind.kind.text ++ " '" ++ name ++ "' needs a key"

/-- A request for something that the thing asked does not do. -/
structure Unimplemented where
  function : String
deriving DecidableEq, Repr

/-- The refusal in words. -/
def Unimplemented.message (u : Unimplemented) : String :=
  "Function '" ++ u.function ++ "' not implemented!"

/-- A table may leave its family open, but not name an unknown one. -/
def Table.invalid? (t : Table) : Option Invalid :=
  match t.family with
  | none => none
  | some family => if (Family.ofText? family).isSome then none else some (.familyUnknown family)

/-- A chain has a name, a type and a hook only together, and a device only with a hook. -/
def Chain.invalid? (c : Chain) : Option Invalid :=
  if c.name = "" then some .chainUnnamed
  else if (filled c.hook).isSome && (filled c.type).isNone then some (.hookWithoutType c.name)
  else if (filled c.type).isSome && (filled c.hook).isNone then some (.typeWithoutHook c.name)
  else if (filled c.device).isSome && (filled c.hook).isNone then some (.deviceWithoutHook c.name)
  else none

/-- A rule that is made has a text and at most one of index and handle; one that is deleted has a
handle. -/
def Rule.invalid? (r : Rule) (verb : Verb) : Option Invalid :=
  if r.chain = "" then some .ruleWithoutChain
  else if verb.makes then
    if (filled r.rule).isNone then some (.ruleWithoutText r.chain)
    else if r.index.isSome && r.handle.isSome then some (.ruleIndexAndHandle r.chain)
    else none
  else if verb = .delete && r.handle.isNone then some (.ruleWithoutHandle r.chain)
  else none

/-- A set or map has a name, and exactly one of type and typeof when it is made. -/
def SetSpec.invalid? (s : SetSpec) (kind : SetKind) (verb : Verb) : Option Invalid :=
  if s.name = "" then some (.setUnnamed kind)
  else if verb.makes && (filled s.type).isSome == (filled s.typeof).isSome then
    some (.setTypeNotUnique kind s.name)
  else none

/-- An element has a container and a key. -/
def Element.invalid? (e : Element) : Option Invalid :=
  if e.name = "" then some .elementUnnamed
  else if e.key = "" then some (.elementWithoutKey e.container e.name)
  else none

/-- What is wrong with an object for a verb, if anything. Counters are always in order, and a bare
object cannot be judged. -/
def Object.invalid? (o : Object) (verb : Verb) : Except Unimplemented (Option Invalid) :=
  match o with
  | .table t => .ok t.invalid?
  | .chain c => .ok c.invalid?
  | .rule r => .ok (r.invalid? verb)
  | .set kind s => .ok (s.invalid? kind verb)
  | .element e => .ok e.invalid?
  | .counter _ => .ok none
  | .bare => .error ⟨"validate"⟩

end NftStore
