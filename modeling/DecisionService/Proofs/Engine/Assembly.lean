import Mathlib
import DecisionService.Engine.Logic
import DecisionService.Proofs.Engine.Stages
/-!
# Models as they are put together

A model is put together one decision after the other, and what is told of it is kept beside what can
be run. Every step writes to both: a descriptor goes on naming the decisions of its own model, and
the model that a request is resolved to is the one that runs.
-/
namespace DecisionService

structure Assembly where
  descriptor : ModelInfo
  decisions : List Decision

namespace Assembly

def new (modelNamespace name : String) : Assembly :=
  ⟨⟨modelNamespace, name, "_" ++ name, []⟩, []⟩

def withId (id : String) (a : Assembly) : Assembly :=
  { a with descriptor := { a.descriptor with id := id } }

def withDecision (d : Decision) (a : Assembly) : Assembly :=
  ⟨{ a.descriptor with decisions := a.descriptor.decisions ++ [d.info] }, a.decisions ++ [d]⟩

/-- Put together by these steps and no others. -/
inductive Built : Assembly → Prop
  | new (modelNamespace name : String) : Built (new modelNamespace name)
  | withId (id : String) {a : Assembly} (h : a.Built) : Built (a.withId id)
  | withDecision (d : Decision) {a : Assembly} (h : a.Built) : Built (a.withDecision d)

def model (a : Assembly) : Model :=
  ⟨a.descriptor.modelNamespace, a.descriptor.name, a.descriptor.id, a.decisions⟩

@[simp] theorem model_new (modelNamespace name : String) :
    (new modelNamespace name).model = Model.new modelNamespace name := rfl

@[simp] theorem model_withId (a : Assembly) (id : String) :
    (a.withId id).model = a.model.withId id := rfl

@[simp] theorem model_withDecision (a : Assembly) (d : Decision) :
    (a.withDecision d).model = a.model.withDecision d := rfl

namespace Built

variable {a : Assembly}

theorem decisions_eq (h : a.Built) : a.descriptor.decisions = a.decisions.map Decision.info := by
  induction h with
  | new modelNamespace name => rfl
  | withId id h ih => exact ih
  | withDecision d h ih =>
    simp only [Assembly.withDecision, ih, List.map_append, List.map_cons, List.map_nil]

theorem info_model (h : a.Built) : a.model.info = a.descriptor := by
  rw [Model.info, model, ← h.decisions_eq]

end Built

/-- There is no model that is not put together so. -/
theorem exists_built (m : Model) : ∃ a : Assembly, a.Built ∧ a.model = m := by
  obtain ⟨modelNamespace, name, id, decisions⟩ := m
  -- from the end, where a decision is added
  induction decisions using List.reverseRecOn with
  | nil => exact ⟨_, .withId id (.new modelNamespace name), rfl⟩
  | append_singleton decisions d ih =>
    obtain ⟨a, ha, hm⟩ := ih
    refine ⟨_, .withDecision d ha, ?_⟩
    rw [model_withDecision, hm]
    rfl

end Assembly

namespace Service

/-- The model that runs is the one that the request is resolved to, at its place among those
deployed: it is the one listed there, it has the decisions that its descriptor names, and the report
bears its names. -/
theorem evaluate_assembled {assemblies : List Assembly} (ha : ∀ a ∈ assemblies, a.Built)
    {r : Registry} {id containerId : String}
    (hd : r.get? id = some (.deployed containerId (assemblies.map Assembly.model)))
    {format : Format} {payload : Bytes} {request : Request}
    (hu : format.unmarshal payload = .ok request) {info : ModelInfo}
    (hr : resolve ⟨containerId, assemblies.map Assembly.model⟩ request = .ok info) :
    let s : Session := ⟨containerId, assemblies.map Assembly.model⟩
    ∃ (i : Nat) (a : Assembly), assemblies[i]? = some a ∧ info = a.descriptor
      ∧ s.position? request = some i
      ∧ s.models.findIdx? (Model.isDescribedBy info) = some i ∧ s.deployed info = .ok a.model
      ∧ info.decisions.length = a.decisions.length
      ∧ (∀ j : Nat, info.decisions[j]? = a.decisions[j]?.map Decision.info)
      ∧ (∃ listing, (models r id).result? = some listing ∧ listing.models[i]? = some info)
      ∧ ∀ selection, selector request = .ok selection → evaluate r id format payload
        = .success s!"OK from container '{id}'"
          (.ofEvaluation a.descriptor.modelNamespace a.descriptor.name request.names?
            (a.model.evaluate a.descriptor.name request.context (a.model.lookups selection))) := by
  intro s
  obtain ⟨i, m, hi, hm, hinfo, hfind, hdeployed⟩ := resolve_deployed hr
  have hsession : r.newSession id = .ok s := Registry.newSession_of_some hd
  obtain ⟨a, hget, rfl⟩ : ∃ a, assemblies[i]? = some a ∧ a.model = m := by
    rwa [List.getElem?_map, Option.map_eq_some_iff] at hm
  have hbuilt : a.Built := ha a (List.mem_of_getElem? hget)
  rw [hbuilt.info_model] at hinfo
  refine ⟨i, a, hget, hinfo, hi, hfind, hdeployed, ?_, ?_, ?_, ?_⟩
  · rw [hinfo, hbuilt.decisions_eq, List.length_map]
  · intro j
    rw [hinfo, hbuilt.decisions_eq, List.getElem?_map]
  · refine ⟨⟨s.infos⟩, by rw [models, hsession]; rfl, ?_⟩
    change s.infos[i]? = some info
    rw [Session.infos, List.getElem?_map, hm, hinfo, Option.map_some, hbuilt.info_model]
  · intro selection hs
    rw [evaluate_read hsession hu, answer_resolved hr hdeployed hs, hinfo]

def teller (modelNamespace : String) : Assembly :=
  (Assembly.new modelNamespace "m").withDecision
    (Logic.decision "d" "where" [] (.const (.string modelNamespace)))

def tellers : List Assembly :=
  [teller "urn:1", teller "urn:2", teller "urn:2"]

def tellerRegistry : Registry :=
  Registry.empty.register (.deployed "c" (tellers.map Assembly.model))

def tellerCall : Bytes :=
  Bytes.ofAscii "\x7b\"model-namespace\":\"urn:2\",\"model-name\":\"m\"\x7d".toList

theorem evaluate_assembled_tellers :
    ∃ (i : Nat) (a : Assembly), tellers[i]? = some a
      ∧ a.descriptor = (teller "urn:2").descriptor
      ∧ ∃ (request : Request) (selection : Selector), Format.json.unmarshal tellerCall = .ok request
        ∧ evaluate tellerRegistry "c" .json tellerCall
          = .success "OK from container 'c'"
            (.ofEvaluation a.descriptor.modelNamespace a.descriptor.name request.names?
              (a.model.evaluate a.descriptor.name request.context
                (a.model.lookups selection))) := by
  have hbuilt : ∀ a ∈ tellers, a.Built := by
    intro a ha
    simp only [tellers, List.mem_cons, List.not_mem_nil, or_false] at ha
    rcases ha with rfl | rfl | rfl <;> exact .withDecision _ (.new _ _)
  obtain ⟨request, hu, hread⟩ := Outcome.exists_ok (x := Format.json.unmarshal tellerCall)
    (p := fun request : Request => request.modelNamespace? == some "urn:2"
      && request.modelName? == some "m" && request.ids == []) (by decide +kernel)
  simp only [Bool.and_eq_true, beq_iff_eq] at hread
  have hr : resolve ⟨"c", tellers.map Assembly.model⟩ request = .ok (teller "urn:2").descriptor := by
    rw [resolve, hread.1.1, hread.1.2]
    rfl
  have hd : tellerRegistry.get? "c" = some (.deployed "c" (tellers.map Assembly.model)) := rfl
  obtain ⟨i, a, ha, hinfo, -, -, -, -, -, -, hevaluate⟩ := evaluate_assembled hbuilt hd hu hr
  rcases selector_cases request with ⟨-, selection, hs⟩ | ⟨-, hids, -⟩
  · exact ⟨i, a, ha, hinfo.symm, request, selection, hu, hevaluate selection hs⟩
  · exact absurd hread.2 hids

end Service

end DecisionService
