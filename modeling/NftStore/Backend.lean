import NftStore.Config
import NftStore.Object.Validity
import NftStore.Store

/-!
Backends, the things that keep a table, and the store that a configuration asks for. There is one
backend, the store in memory. What every backend is asked for is a request, and one that answers a
request with nothing of its own refuses it by name.
-/
namespace NftStore

/-- The backends that there are. -/
inductive Backend
  | memory
deriving DecidableEq, Repr

/-- Why a name gives no backend: there is no module of the name, or the module has none. -/
inductive UnknownBackend
  | noModule (name : String)
  | noneInModule (name : String)
deriving DecidableEq, Repr

/-- The refusal of a backend. -/
def UnknownBackend.message : UnknownBackend → String
  | noModule name => "Backend " ++ name ++ " is not implemented"
  | noneInModule name => "module 'nftsim.backends." ++ name ++ "' has no attribute 'Backend'"

namespace Backend

/-- The module that all backends have in common, under the name that every package has for it. It
is found among them but is no backend. -/
def commonModule : String := "__init__"

/-- The backend of a name. -/
def ofName? (name : String) : Except UnknownBackend Backend :=
  if name = "fake" then .ok memory
  else if name = commonModule then .error (.noneInModule name)
  else .error (.noModule name)

/-- The name of a backend in descriptions. -/
def label : Backend → String
  | memory => "Fake"

end Backend

/-- What a backend is asked for. -/
inductive Request
  | present
  | define
  | run
  | list
  | listRules
  | listElements
deriving DecidableEq, Repr

namespace Request

/-- The name of a request. -/
def name : Request → String
  | present => "present"
  | define => "define"
  | run => "run"
  | list => "list"
  | listRules => "list_rules"
  | listElements => "list_elements"

/-- The request of a name. -/
def ofName? (name : String) : Option Request :=
  [present, define, run, list, listRules, listElements].find? fun r => r.name == name

/-- The answer of a backend that has nothing of its own for a request. -/
def refusal (r : Request) : Unimplemented :=
  ⟨r.name⟩

end Request

/-- Why a configuration gives no store. -/
inductive SetupFault
  | config (cause : ConfigFault)
  | backend (cause : UnknownBackend)
deriving DecidableEq, Repr

/-- The fault in words, for the file of a name. -/
def SetupFault.message (file : String) : SetupFault → String
  | config cause => cause.message file
  | backend cause => cause.message

/-- The store of a configuration, with its defines registered after those of the family. -/
def Store.ofConfig (c : Config) : Except UnknownBackend Store :=
  match Backend.ofName? c.backend with
  | .error e => .error e
  | .ok .memory => .ok ((Store.new c.family c.table).defineAll c.defines)

/-- The store that a configuration file asks for. -/
def Store.ofFile (file : Option (List UInt8)) : Except SetupFault Store :=
  match Config.read file with
  | .error e => .error (.config e)
  | .ok c =>
    match Store.ofConfig c with
    | .error e => .error (.backend e)
    | .ok s => .ok s

end NftStore
