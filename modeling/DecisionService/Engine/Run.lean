import DecisionService.Decision.Request
import DecisionService.Engine.Model
/-!
# Runs

The evaluation of decisions one after the other. Each decision sees the values of those before it.
One that is skipped or fails leaves nothing but `null`, and for the rest of the run it counts as
missing where it is required.
-/
namespace DecisionService

/-- A run as far as it has come: the evaluation so far, and the names of the decisions that gave no
value in it. -/
structure Run where
  evaluation : Evaluation
  unavailable : List String

namespace Run

def start (c : Context) : Run :=
  ⟨⟨c, [], []⟩, []⟩

def missing (r : Run) (d : Decision) : List String :=
  d.requires.filter fun name =>
    !r.evaluation.context.contains name || r.unavailable.contains name

def missingMessage (d : Decision) (name : String) : Message :=
  ⟨.error, s!"Required dependency '{name}' not found on node '{d.name}'", .requirementNotFound,
    some d.id⟩

def failureMessage (d : Decision) (text : String) : Message :=
  ⟨.error, s!"Error evaluating node '{d.name}': {text}", .evaluationFailed, some d.id⟩

def notFoundMessage (modelName : String) : Lookup → Message
  | .byName name =>
    ⟨.error, s!"Decision '{name}' not found in model '{modelName}'", .decisionNotFound, none⟩
  | .byId id =>
    ⟨.error, s!"Decision with id '{id}' not found in model '{modelName}'", .decisionNotFound,
      none⟩

structure Outcome where
  status : Status
  value : Value
  messages : List Message

def outcome (r : Run) (d : Decision) : Outcome :=
  match r.missing d with
  | [] =>
    match d.logic r.evaluation.context with
    | .ok v => ⟨.succeeded, v, []⟩
    | .error text => ⟨.failed, .null, [failureMessage d text]⟩
  | names => ⟨.skipped, .null, names.map (missingMessage d)⟩

def evaluate (r : Run) (d : Decision) : Run :=
  let o := r.outcome d
  let e := r.evaluation
  ⟨⟨e.context.set d.name o.value, e.decisions ++ [⟨d.id, d.name, o.value, o.status⟩],
      e.messages ++ o.messages⟩,
    if o.status = .succeeded then r.unavailable else d.name :: r.unavailable⟩

def step (m : Model) (modelName : String) (r : Run) (l : Lookup) : Run :=
  match m.find? l with
  | some d => r.evaluate d
  | none =>
    { r with evaluation :=
        { r.evaluation with messages := r.evaluation.messages ++ [notFoundMessage modelName l] } }

end Run

namespace Model

/-- The evaluation of look-ups in order. Messages call the model by the name given. -/
def evaluate (m : Model) (modelName : String) (c : Context) (lookups : List Lookup) : Evaluation :=
  (lookups.foldl (Run.step m modelName) (Run.start c)).evaluation

def allLookups (m : Model) : List Lookup :=
  m.decisions.map fun d => .byId d.id

def lookups (m : Model) : Selector → List Lookup
  | .all => m.allLookups
  | .byName names => names.map .byName
  | .byId ids => ids.map .byId

end Model

end DecisionService
