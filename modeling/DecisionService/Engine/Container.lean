import DecisionService.Engine.Run
/-!
# Containers and sessions

A container hands out sessions, unless it is broken. A session knows the models of its container
and evaluates their decisions.
-/
namespace DecisionService

inductive EvaluationError
  | containerNotFound (id : String)
  | deserialization (e : FormatError)
  | ambiguousModel (count : Nat)
  | noModels
  | modelNotFound (modelNamespace? : Option String) (name : String)
  | unsupportedSelector
  | modelNotDeployed (model : ModelInfo) (containerId : String)
  | engine (text : String)

namespace EvaluationError

def message : EvaluationError → String
  | containerNotFound id => s!"Container '{id}' is not deployed"
  | deserialization e => s!"Unable to deserialize payload: {e.message}"
  | ambiguousModel count =>
    s!"More than one (default) model: {count} models deployed, a model name is required"
  | noModels => "Unable to locate DMN Model to evaluate: no models deployed"
  | modelNotFound modelNamespace? name =>
    let modelNamespace := modelNamespace?.getD ""
    s!"Unable to locate DMN Model to evaluate: namespace '{modelNamespace}', name '{name}'"
  | unsupportedSelector =>
    "Unable to locate DMN Decision to evaluate: decision names and decision ids cannot be combined"
  | modelNotDeployed model containerId =>
    s!"Engine error: model '{model.name}' in namespace '{model.modelNamespace}' " ++
      s!"is not deployed in container '{containerId}'"
  | engine text => s!"Engine error: {text}"

end EvaluationError

structure Session where
  containerId : String
  models : List Model

namespace Session

def infos (s : Session) : List ModelInfo :=
  s.models.map Model.info

def find? (modelNamespace? : Option String) (name : String) (s : Session) : Option ModelInfo :=
  s.infos.find? (ModelInfo.isNamed modelNamespace? name)

def deployed (model : ModelInfo) (s : Session) : Except EvaluationError Model :=
  match s.models.find? (Model.isDescribedBy model) with
  | some m => .ok m
  | none => .error (.modelNotDeployed model s.containerId)

def evaluate (s : Session) (model : ModelInfo) (c : Context) (selector : Selector) :
    Except EvaluationError Evaluation := do
  let m ← s.deployed model
  return m.evaluate model.name c (m.lookups selector)

end Session

inductive Container
  | deployed (id : String) (models : List Model)
  /-- A container that opens no session and says why. -/
  | broken (id : String) (text : String)

namespace Container

def id : Container → String
  | deployed id _ => id
  | broken id _ => id

def newSession : Container → Except EvaluationError Session
  | deployed id models => .ok ⟨id, models⟩
  | broken _ text => .error (.engine text)

end Container

end DecisionService
