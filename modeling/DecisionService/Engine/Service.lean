import DecisionService.Decision.Response
import DecisionService.Engine.Container
/-!
# The evaluation service

A registry holds the containers by their ids. A call opens a session, reads the request, finds the
model, runs the decisions and packs the result. Whatever fails on the way is told in the response.
-/
namespace DecisionService

abbrev Registry := Entries Container

namespace Registry

def empty : Registry := []

/-- The registry with a container; one of the same id is replaced. -/
def register (c : Container) (r : Registry) : Registry :=
  r.put c.id c

def unregister (id : String) (r : Registry) : Registry :=
  r.erase id

def find (id : String) (r : Registry) : Except EvaluationError Container :=
  match r.get? id with
  | some c => .ok c
  | none => .error (.containerNotFound id)

def sorted (texts : List String) : List String :=
  texts.mergeSort fun a b => a ≤ b

def ids (r : Registry) : List String :=
  sorted r.names

def newSession (id : String) (r : Registry) : Except EvaluationError Session := do
  (← r.find id).newSession

end Registry

namespace Service

/-- The model of a request. Without a name there must be exactly one. -/
def resolve (s : Session) (request : Request) : Except EvaluationError ModelInfo :=
  match request.modelName? with
  | none =>
    match s.infos with
    | [] => .error .noModels
    | [model] => .ok model
    | models => .error (.ambiguousModel models.length)
  | some name =>
    match s.find? request.modelNamespace? name with
    | some model => .ok model
    | none => .error (.modelNotFound request.modelNamespace? name)

def selector (request : Request) : Except EvaluationError Selector :=
  match Selector.ofRequest? request with
  | some selector => .ok selector
  | none => .error .unsupportedSelector

def answer (s : Session) (request : Request) : Except EvaluationError Report := do
  let model ← resolve s request
  let selector ← selector request
  let evaluation ← s.evaluate model request.context selector
  return .ofEvaluation model.modelNamespace model.name request.names? evaluation

def answerPayload (s : Session) (format : Format) (payload : Bytes) :
    Except EvaluationError Report := do
  match format.unmarshal payload with
  | .ok request => answer s request
  | .error e => throw (.deserialization e)

def modelsResponse (id : String) (session : Except EvaluationError Session) :
    Response ModelList :=
  match session with
  | .ok s => .success s!"OK models successfully retrieved from container '{id}'" ⟨s.infos⟩
  | .error e => .failure s!"Error retrieving models from container '{id}': {e.message}"

def evaluationResponse (id : String) (session : Except EvaluationError Session) (format : Format)
    (payload : Bytes) : Response Report :=
  match session.bind fun s => answerPayload s format payload with
  | .ok report => .success s!"OK from container '{id}'" report
  | .error e => .failure s!"Error from container '{id}': {e.message}"

def models (r : Registry) (id : String) : Response ModelList :=
  modelsResponse id (r.newSession id)

def evaluate (r : Registry) (id : String) (format : Format) (payload : Bytes) : Response Report :=
  evaluationResponse id (r.newSession id) format payload

end Service

end DecisionService
