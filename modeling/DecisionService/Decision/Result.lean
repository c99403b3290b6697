import DecisionService.Decision.Context
/-!
# Evaluation results

What an evaluation leaves behind: the context with the values of the decisions in it, one result per
decision, and messages. The packaged form adds the names of the model and of what was asked for.
-/
namespace DecisionService

open Wire

inductive Severity
  | error
  | warn
  | info
deriving DecidableEq, Repr

namespace Severity

abbrev schema : Schema := .choice "ERROR" ["WARN", "INFO"]

def toIndex : Severity → Fin 3
  | error => 0
  | warn => 1
  | info => 2

def ofIndex : Fin 3 → Severity
  | 0 => error
  | 1 => warn
  | 2 => info

@[simp] theorem ofIndex_toIndex (s : Severity) : ofIndex s.toIndex = s := by
  cases s <;> rfl

instance : Payload Severity := ⟨schema, toIndex, ofIndex, ofIndex_toIndex⟩

end Severity

inductive MessageType
  /-- Something that a decision requires is not there. -/
  | requirementNotFound
  | decisionNotFound
  /-- The logic of a decision failed. -/
  | evaluationFailed
deriving DecidableEq, Repr

namespace MessageType

abbrev schema : Schema := .choice "REQ_NOT_FOUND" ["DECISION_NOT_FOUND", "ERROR_EVAL_NODE"]

def toIndex : MessageType → Fin 3
  | requirementNotFound => 0
  | decisionNotFound => 1
  | evaluationFailed => 2

def ofIndex : Fin 3 → MessageType
  | 0 => requirementNotFound
  | 1 => decisionNotFound
  | 2 => evaluationFailed

@[simp] theorem ofIndex_toIndex (t : MessageType) : ofIndex t.toIndex = t := by
  cases t <;> rfl

instance : Payload MessageType := ⟨schema, toIndex, ofIndex, ofIndex_toIndex⟩

end MessageType

inductive Status
  | notEvaluated
  | succeeded
  /-- Something that it requires was not there. -/
  | skipped
  | failed
deriving DecidableEq, Repr

namespace Status

abbrev schema : Schema := .choice "NOT_EVALUATED" ["SUCCEEDED", "SKIPPED", "FAILED"]

def toIndex : Status → Fin 4
  | notEvaluated => 0
  | succeeded => 1
  | skipped => 2
  | failed => 3

def ofIndex : Fin 4 → Status
  | 0 => notEvaluated
  | 1 => succeeded
  | 2 => skipped
  | 3 => failed

@[simp] theorem ofIndex_toIndex (s : Status) : ofIndex s.toIndex = s := by
  cases s <;> rfl

instance : Payload Status := ⟨schema, toIndex, ofIndex, ofIndex_toIndex⟩

end Status

structure Message where
  severity : Severity
  text : String
  type : MessageType
  /-- The decision that the message is about. -/
  sourceId? : Option String
deriving DecidableEq, Repr

namespace Message

abbrev schema : Schema :=
  .record "DmnMessage"
    (.field "dmn-message-severity" Severity.schema .required
      (.field "message" (.text "") .required
        (.field "message-type" MessageType.schema .required
          (.field "source-id" (.optional (.text "")) .omittable .done))))

def content (m : Message) : schema.Content :=
  (m.severity.toIndex, m.text, m.type.toIndex, m.sourceId?, ())

def ofContent : schema.Content → Message
  | (severity, text, type, sourceId?, ()) =>
    ⟨Severity.ofIndex severity, text, MessageType.ofIndex type, sourceId?⟩

@[simp] theorem ofContent_content (m : Message) : ofContent m.content = m := by
  simp [ofContent, content]

instance : Payload Message := ⟨schema, content, ofContent, ofContent_content⟩

end Message

structure DecisionResult where
  id : String
  name : String
  result : Value
  status : Status

namespace DecisionResult

abbrev schema : Schema :=
  .record "DmnDecisionResult"
    (.field "decision-id" (.text "") .required
      (.field "decision-name" (.text "") .required
        (.field "result" .value .defaulted
          (.field "status" Status.schema .required .done))))

def content (d : DecisionResult) : schema.Content :=
  (d.id, d.name, d.result, d.status.toIndex, ())

def ofContent : schema.Content → DecisionResult
  | (id, name, result, status, ()) => ⟨id, name, result, Status.ofIndex status⟩

@[simp] theorem ofContent_content (d : DecisionResult) : ofContent d.content = d := by
  simp [ofContent, content]

instance : Payload DecisionResult := ⟨schema, content, ofContent, ofContent_content⟩

def same (a b : DecisionResult) : Bool :=
  a.id == b.id && a.name == b.name && a.result.same b.result && a.status == b.status

end DecisionResult

def sameDecisions : List DecisionResult → List DecisionResult → Bool
  | [], [] => true
  | a :: as, b :: bs => a.same b && sameDecisions as bs
  | _, _ => false

structure Evaluation where
  context : Context
  decisions : List DecisionResult
  messages : List Message

namespace Evaluation

abbrev schema : Schema :=
  .record "DmnResult"
    (.field "dmn-context" .entries .defaulted
      (.field "decision-results" (.list DecisionResult.schema) .defaulted
        (.field "messages" (.list Message.schema) .defaulted .done)))

def content (e : Evaluation) : schema.Content :=
  (e.context.entries, e.decisions.map DecisionResult.content, e.messages.map Message.content, ())

def ofContent : schema.Content → Evaluation
  | (entries, decisions, messages, ()) =>
    ⟨⟨entries⟩, List.map DecisionResult.ofContent decisions, List.map Message.ofContent messages⟩

@[simp] theorem ofContent_content (e : Evaluation) : ofContent e.content = e := by
  simp [ofContent, content, List.map_map, Function.comp_def]

instance : Payload Evaluation := ⟨schema, content, ofContent, ofContent_content⟩

def byName? (name : String) (e : Evaluation) : Option DecisionResult :=
  e.decisions.find? (·.name == name)

def byId? (id : String) (e : Evaluation) : Option DecisionResult :=
  e.decisions.find? (·.id == id)

def hasErrors (e : Evaluation) : Bool :=
  e.messages.any (·.severity == .error)

def same (a b : Evaluation) : Bool :=
  a.context.same b.context && sameDecisions a.decisions b.decisions && a.messages == b.messages

end Evaluation

/-- What a service hands back: an evaluation with the names of its model and the names that were
asked for. -/
structure Report where
  modelNamespace : String
  modelName : String
  names? : Option (List String)
  context : Context
  messages : List Message
  decisions : List DecisionResult

namespace Report

abbrev schema : Schema :=
  .record "DmnResultKs"
    (.field "model-namespace" (.text "") .required
      (.field "model-name" (.text "") .required
        (.field "decision-name" (.optional (.list (.text ""))) .omittable
          (.field "dmn-context" .entries .defaulted
            (.field "messages" (.list Message.schema) .defaulted
              (.field "decision-results" (.list DecisionResult.schema) .defaulted .done))))))

def content (r : Report) : schema.Content :=
  (r.modelNamespace, r.modelName, r.names?, r.context.entries, r.messages.map Message.content,
    r.decisions.map DecisionResult.content, ())

def ofContent : schema.Content → Report
  | (modelNamespace, modelName, names?, entries, messages, decisions, ()) =>
    ⟨modelNamespace, modelName, names?, ⟨entries⟩, List.map Message.ofContent messages,
      List.map DecisionResult.ofContent decisions⟩

@[simp] theorem ofContent_content (r : Report) : ofContent r.content = r := by
  simp [ofContent, content, List.map_map, Function.comp_def]

instance : Payload Report := ⟨schema, content, ofContent, ofContent_content⟩

def ofEvaluation (modelNamespace modelName : String) (names? : Option (List String))
    (e : Evaluation) : Report :=
  ⟨modelNamespace, modelName, names?, e.context, e.messages, e.decisions⟩

def byName? (name : String) (r : Report) : Option DecisionResult :=
  r.decisions.find? (·.name == name)

def byId? (id : String) (r : Report) : Option DecisionResult :=
  r.decisions.find? (·.id == id)

def hasErrors (r : Report) : Bool :=
  r.messages.any (·.severity == .error)

def messagesOf (type : MessageType) (r : Report) : List Message :=
  r.messages.filter (·.type == type)

def same (a b : Report) : Bool :=
  a.modelNamespace == b.modelNamespace && a.modelName == b.modelName && a.names? == b.names?
    && a.context.same b.context && a.messages == b.messages
    && sameDecisions a.decisions b.decisions

end Report

end DecisionService
