import DecisionService.Decision.Context
/-!
# Evaluation requests

A request names a model, or leaves it open, selects decisions by name or by id, or takes all of
them, and brings the context.
-/
namespace DecisionService

open Wire

structure Request where
  modelNamespace? : Option String
  modelName? : Option String
  names? : Option (List String)
  ids? : Option (List String)
  context : Context

namespace Request

abbrev schema : Schema :=
  .record "DmnContextKs"
    (.field "model-namespace" (.optional (.text "")) .omittable
      (.field "model-name" (.optional (.text "")) .omittable
        (.field "decision-name" (.optional (.list (.text ""))) .omittable
          (.field "decision-id" (.optional (.list (.text ""))) .omittable
            (.field "dmn-context" .entries .defaulted .done)))))

def content (r : Request) : schema.Content :=
  (r.modelNamespace?, r.modelName?, r.names?, r.ids?, r.context.entries, ())

def ofContent : schema.Content → Request
  | (modelNamespace?, modelName?, names?, ids?, entries, ()) =>
    ⟨modelNamespace?, modelName?, names?, ids?, ⟨entries⟩⟩

@[simp] theorem ofContent_content (r : Request) : ofContent r.content = r := rfl

instance : Payload Request := ⟨schema, content, ofContent, ofContent_content⟩

def names (r : Request) : List String :=
  r.names?.getD []

def ids (r : Request) : List String :=
  r.ids?.getD []

end Request

inductive Selector
  | all
  | byName (names : List String)
  | byId (ids : List String)
deriving DecidableEq, Repr

/-- The selection of a request, unless it asks by name and by id at once. -/
def Selector.ofRequest? (r : Request) : Option Selector :=
  match r.names, r.ids with
  | [], [] => some .all
  | names, [] => some (.byName names)
  | [], ids => some (.byId ids)
  | _, _ => none

end DecisionService
