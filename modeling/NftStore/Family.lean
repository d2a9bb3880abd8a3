/-!
Address families of a table.
-/
namespace NftStore

/-- The address family whose packets a table sees. -/
inductive Family
  | ip
  | ip6
  | inet
  | arp
  | bridge
  | netdev
deriving DecidableEq, Repr

namespace Family

/-- Every family. -/
def all : List Family :=
  [ip, ip6, inet, arp, bridge, netdev]

/-- The word for a family in an operation line. -/
def text : Family → String
  | ip => "ip"
  | ip6 => "ip6"
  | inet => "inet"
  | arp => "arp"
  | bridge => "bridge"
  | netdev => "netdev"

/-- The family that a word stands for. -/
def ofText? (s : String) : Option Family :=
  all.find? fun f => f.text == s

theorem mem_all (f : Family) : f ∈ all := by
  cases f <;> decide

theorem ofText?_eq_some_iff {s : String} {f : Family} : ofText? s = some f ↔ f.text = s := by
  constructor
  · intro h
    simpa using List.find?_some h
  · rintro rfl
    cases f <;> decide

@[simp] theorem ofText?_text (f : Family) : ofText? f.text = some f :=
  ofText?_eq_some_iff.2 rfl

end Family

end NftStore
