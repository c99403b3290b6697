import DecisionService.Decision.Model
import DecisionService.Decision.Result
/-!
# Executable models

A decision is a function of the context that says by name what it requires. A model is a list of
decisions; its descriptor is read off them.
-/
namespace DecisionService

/-- A decision that can be run. Its logic fails with a text. -/
structure Decision where
  id : String
  name : String
  requires : List String
  logic : Context → Except String Value

structure Model where
  modelNamespace : String
  name : String
  id : String
  decisions : List Decision

namespace Decision

def info (d : Decision) : DecisionInfo :=
  ⟨d.id, d.name⟩

end Decision

namespace Model

/-- A model without decisions; its id is its name behind an underscore. -/
def new (modelNamespace name : String) : Model :=
  ⟨modelNamespace, name, "_" ++ name, []⟩

def withId (id : String) (m : Model) : Model :=
  { m with id := id }

def withDecision (d : Decision) (m : Model) : Model :=
  { m with decisions := m.decisions ++ [d] }

def info (m : Model) : ModelInfo :=
  ⟨m.modelNamespace, m.name, m.id, m.decisions.map Decision.info⟩

def find? (l : Lookup) (m : Model) : Option Decision :=
  m.decisions.find? fun d => l.fits d.info

def isDescribedBy (info : ModelInfo) (m : Model) : Bool :=
  m.modelNamespace == info.modelNamespace && m.name == info.name

end Model

end DecisionService
