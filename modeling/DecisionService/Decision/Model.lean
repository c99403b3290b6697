import DecisionService.Wire.Format
/-!
# Model descriptors

What a container tells about a deployed model: its names and its decisions.
-/
namespace DecisionService

open Wire

structure DecisionInfo where
  id : String
  name : String
deriving DecidableEq, Repr

inductive Lookup
  | byName (name : String)
  | byId (id : String)
deriving DecidableEq, Repr

def Lookup.fits (d : DecisionInfo) : Lookup → Bool
  | byName name => d.name == name
  | byId id => d.id == id

structure ModelInfo where
  modelNamespace : String
  name : String
  id : String
  decisions : List DecisionInfo
deriving DecidableEq, Repr

structure ModelList where
  models : List ModelInfo
deriving DecidableEq, Repr

namespace DecisionInfo

abbrev schema : Schema :=
  .record "DmnDecisionInfo"
    (.field "decision-id" (.text "") .required
      (.field "decision-name" (.text "") .required .done))

def content (d : DecisionInfo) : schema.Content :=
  (d.id, d.name, ())

def ofContent : schema.Content → DecisionInfo
  | (id, name, ()) => ⟨id, name⟩

@[simp] theorem ofContent_content (d : DecisionInfo) : ofContent d.content = d := rfl

instance : Payload DecisionInfo := ⟨schema, content, ofContent, ofContent_content⟩

end DecisionInfo

namespace ModelInfo

abbrev schema : Schema :=
  .record "DmnModelInfo"
    (.field "model-namespace" (.text "") .required
      (.field "model-name" (.text "") .required
        (.field "model-id" (.text "") .required
          (.field "decisions" (.list DecisionInfo.schema) .defaulted .done))))

def content (m : ModelInfo) : schema.Content :=
  (m.modelNamespace, m.name, m.id, m.decisions.map DecisionInfo.content, ())

def ofContent : schema.Content → ModelInfo
  | (modelNamespace, name, id, decisions, ()) =>
    ⟨modelNamespace, name, id, List.map DecisionInfo.ofContent decisions⟩

@[simp] theorem ofContent_content (m : ModelInfo) : ofContent m.content = m := by
  simp [ofContent, content, List.map_map, Function.comp_def]

instance : Payload ModelInfo := ⟨schema, content, ofContent, ofContent_content⟩

def isNamed (modelNamespace? : Option String) (name : String) (m : ModelInfo) : Bool :=
  m.name == name && modelNamespace?.all (m.modelNamespace == ·)

def find? (l : Lookup) (m : ModelInfo) : Option DecisionInfo :=
  m.decisions.find? fun d => l.fits d

end ModelInfo

namespace ModelList

abbrev schema : Schema :=
  .record "DmnModelInfoList" (.field "model" (.list ModelInfo.schema) .defaulted .done)

def content (l : ModelList) : schema.Content :=
  (l.models.map ModelInfo.content, ())

def ofContent : schema.Content → ModelList
  | (models, ()) => ⟨List.map ModelInfo.ofContent models⟩

@[simp] theorem ofContent_content (l : ModelList) : ofContent l.content = l := by
  simp [ofContent, content, List.map_map, Function.comp_def]

instance : Payload ModelList := ⟨schema, content, ofContent, ofContent_content⟩

def find? (modelNamespace name : String) (l : ModelList) : Option ModelInfo :=
  l.models.find? (ModelInfo.isNamed (some modelNamespace) name)

end ModelList

end DecisionService
