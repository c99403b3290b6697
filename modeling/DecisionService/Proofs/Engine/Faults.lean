import Mathlib
import DecisionService.Engine.Logic
import DecisionService.Proofs.Engine.Stages
/-!
# What a call fails with

A call is accepted when each of its stages passes, and then it is answered with a result. Where one
does not pass, the answer is a failure and tells what the first such stage says.
-/
namespace DecisionService

namespace Service

section Call

variable (r : Registry) (id : String) (format : Format) (payload : Bytes)

structure Reads (containerId : String) (models : List Model) (request : Request) : Prop where
  registered : r.get? id = some (.deployed containerId models)
  read : format.unmarshal payload = .ok request

def Accepts : Prop :=
  ∃ containerId models request, Reads r id format payload containerId models request
    ∧ request.Resolves models ∧ (request.names = [] ∨ request.ids = [])

/-- A stage does not pass and says so, and every stage before it passes. -/
inductive Fault : String → Prop
  | notRegistered (h : r.get? id = none) : Fault s!"Container '{id}' is not deployed"
  | noSession {containerId text : String} (h : r.get? id = some (.broken containerId text)) :
    Fault s!"Engine error: {text}"
  | unreadable {containerId : String} {models : List Model} {e : FormatError}
    (h : r.get? id = some (.deployed containerId models))
    (hu : format.unmarshal payload = (.error e : Except FormatError Request)) :
    Fault s!"Unable to deserialize payload: {e.message}"
  | noModels {containerId : String} {request : Request}
    (h : Reads r id format payload containerId [] request) (hn : request.modelName? = none) :
    Fault "Unable to locate DMN Model to evaluate: no models deployed"
  | ambiguous {containerId : String} {models : List Model} {request : Request}
    (h : Reads r id format payload containerId models request) (hn : request.modelName? = none)
    (hm : 2 ≤ models.length) :
    Fault s!"More than one (default) model: {models.length} models deployed, a model name is required"
  | unknownModel {containerId : String} {models : List Model} {request : Request}
    {modelNamespace name : String} (h : Reads r id format payload containerId models request)
    (hn : request.modelName? = some name) (hs : request.modelNamespace?.getD "" = modelNamespace)
    (hm : ¬ request.Resolves models) :
    Fault s!"Unable to locate DMN Model to evaluate: namespace '{modelNamespace}', name '{name}'"
  | twoSelectors {containerId : String} {models : List Model} {request : Request}
    (h : Reads r id format payload containerId models request) (hm : request.Resolves models)
    (hnames : request.names ≠ []) (hids : request.ids ≠ []) :
    Fault ("Unable to locate DMN Decision to evaluate: " ++
      "decision names and decision ids cannot be combined")

end Call

variable {r : Registry} {id : String} {format : Format} {payload : Bytes}

section Reads

variable {containerId : String} {models : List Model} {request : Request}
  (h : Reads r id format payload containerId models request)
include h

theorem Reads.evaluate_ok {report : Report}
    (ha : answer ⟨containerId, models⟩ request = .ok report) :
    evaluate r id format payload = .success s!"OK from container '{id}'" report := by
  rw [evaluate_read (Registry.newSession_of_some h.registered) h.read, ha]

theorem Reads.evaluate_error {e : EvaluationError}
    (ha : answer ⟨containerId, models⟩ request = .error e) :
    evaluate r id format payload = .failure s!"Error from container '{id}': {e.message}" := by
  rw [evaluate_read (Registry.newSession_of_some h.registered) h.read, ha]

theorem Reads.evaluate_refused (hm : ¬ request.Resolves models) :
    evaluate r id format payload = .failure
      s!"Error from container '{id}': {(Session.refusal ⟨containerId, models⟩ request).message}" := by
  rcases answer_cases ⟨containerId, models⟩ request with ⟨hyes, -⟩ | ⟨hyes, -⟩ | ⟨-, ha⟩
  · exact absurd hyes hm
  · exact absurd hyes hm
  · exact h.evaluate_error ha

end Reads

theorem Accepts.evaluate (h : Accepts r id format payload) : ∃ report,
    Service.evaluate r id format payload = .success s!"OK from container '{id}'" report := by
  obtain ⟨containerId, models, request, hreads, hm, hone⟩ := h
  rcases answer_cases ⟨containerId, models⟩ request with
    ⟨-, -, report, ha⟩ | ⟨-, hnames, hids, -⟩ | ⟨hnot, -⟩
  · exact ⟨report, hreads.evaluate_ok ha⟩
  · exact absurd hone (not_or.mpr ⟨hnames, hids⟩)
  · exact absurd hm hnot

theorem Fault.evaluate {text : String} (h : Fault r id format payload text) :
    Service.evaluate r id format payload = .failure s!"Error from container '{id}': {text}" := by
  cases h with
  | notRegistered h => exact evaluate_closed format payload (Registry.newSession_of_none h)
  | noSession h => exact evaluate_closed format payload (Registry.newSession_of_some h)
  | unreadable h hu => exact evaluate_unread (Registry.newSession_of_some h) hu
  | @noModels _ request h hn =>
    have hm : ¬ request.Resolves [] := by simp [Request.Resolves, hn]
    rw [h.evaluate_refused hm, Session.refusal, hn]
    rfl
  | @ambiguous _ models request h hn hlength =>
    have hm : ¬ request.Resolves models := by
      rw [Request.Resolves, hn]
      change ¬ models.length = 1
      omega
    obtain ⟨m, m', rest, rfl⟩ : ∃ m m' rest, models = m :: m' :: rest := by
      rcases models with _ | ⟨m, _ | ⟨m', rest⟩⟩
      · cases hlength
      · simp at hlength
      · exact ⟨m, m', rest, rfl⟩
    rw [h.evaluate_refused hm, Session.refusal, hn]
    rfl
  | unknownModel h hn hs hm =>
    rw [h.evaluate_refused hm, Session.refusal, hn, ← hs]
    rfl
  | @twoSelectors containerId models request h hm hnames hids =>
    rcases answer_cases ⟨containerId, models⟩ request with
      ⟨-, hone, -⟩ | ⟨-, -, -, ha⟩ | ⟨hnot, -⟩
    · exact absurd hone (not_or.mpr ⟨hnames, hids⟩)
    · exact h.evaluate_error ha
    · exact absurd hm hnot

/-- Every stage passes, or there is a first one that does not. -/
theorem accepts_or_fault (r : Registry) (id : String) (format : Format) (payload : Bytes) :
    Accepts r id format payload ∨ ∃ text, Fault r id format payload text := by
  cases hd : r.get? id with
  | none => exact Or.inr ⟨_, .notRegistered hd⟩
  | some c =>
    cases c with
    | broken containerId text => exact Or.inr ⟨_, .noSession hd⟩
    | deployed containerId models =>
      cases hu : (format.unmarshal payload : Except FormatError Request) with
      | error e => exact Or.inr ⟨_, .unreadable hd hu⟩
      | ok request =>
        have hreads : Reads r id format payload containerId models request := ⟨hd, hu⟩
        by_cases hm : request.Resolves models
        · by_cases hselect : request.names = [] ∨ request.ids = []
          · exact Or.inl ⟨containerId, models, request, hreads, hm, hselect⟩
          · rw [not_or] at hselect
            exact Or.inr ⟨_, .twoSelectors hreads hm hselect.1 hselect.2⟩
        · cases hn : request.modelName? with
          | some name => exact Or.inr ⟨_, .unknownModel hreads hn rfl hm⟩
          | none =>
            rw [Request.Resolves, hn] at hm
            rcases models with _ | ⟨m, _ | ⟨m', rest⟩⟩
            · exact Or.inr ⟨_, .noModels hreads hn⟩
            · exact absurd rfl hm
            · exact Or.inr ⟨_, .ambiguous hreads hn (by simp)⟩

/-- A session has every model that it resolves a request to. -/
theorem answer_ne_notDeployed (s : Session) (request : Request) (model : ModelInfo)
    (containerId : String) : answer s request ≠ .error (.modelNotDeployed model containerId) := by
  rcases answer_cases s request with ⟨-, -, report, ha⟩ | ⟨-, -, -, ha⟩ | ⟨-, ha⟩
  · simp [ha]
  · simp [ha]
  · rw [ha, Session.refusal]
    split <;> simp

theorem evaluate_twoSelectors (r : Registry) (id : String) {request : Request}
    (hnames : request.names ≠ []) (hids : request.ids ≠ []) :
    ∃ text, ∀ c format payload, format.unmarshal payload = .ok { request with context := c } →
      Service.evaluate r id format payload = .failure text := by
  cases hs : r.newSession id with
  | error e => exact ⟨_, fun c format payload _ => evaluate_closed format payload hs⟩
  | ok s =>
    -- neither the models nor the selection depend on the context, so one error serves all
    obtain ⟨e, he⟩ : ∃ e, ∀ c, answer s { request with context := c } = .error e := by
      by_cases hm : request.Resolves s.models
      · refine ⟨.unsupportedSelector, fun c => ?_⟩
        rcases answer_cases s { request with context := c } with
          ⟨-, hone, -⟩ | ⟨-, -, -, ha⟩ | ⟨hnot, -⟩
        · exact absurd hone (not_or.mpr ⟨hnames, hids⟩)
        · exact ha
        · exact absurd hm hnot
      · refine ⟨s.refusal request, fun c => ?_⟩
        rcases answer_cases s { request with context := c } with ⟨hyes, -⟩ | ⟨hyes, -⟩ | ⟨-, ha⟩
        · exact absurd hyes hm
        · exact absurd hyes hm
        · exact ha
    refine ⟨s!"Error from container '{id}': {e.message}", fun c format payload hu => ?_⟩
    rw [evaluate_read hs hu, he]

/-- A call is answered with a result exactly when every stage passes, and otherwise with what the
first stage says that does not. Which decisions are selected is settled whatever the context holds,
and a model that was found is there to be run. -/
theorem evaluate_exact (r : Registry) (id : String) (format : Format) (payload : Bytes) :
    ((Service.evaluate r id format payload).isSuccess = true ↔ Accepts r id format payload)
      ∧ (Accepts r id format payload → ∃ report,
        Service.evaluate r id format payload = .success s!"OK from container '{id}'" report)
      ∧ (¬ Accepts r id format payload → ∃ text, Fault r id format payload text)
      ∧ (∀ text, Fault r id format payload text ↔ Service.evaluate r id format payload
        = .failure s!"Error from container '{id}': {text}")
      ∧ (∀ s request model containerId,
        answer s request ≠ .error (.modelNotDeployed model containerId))
      ∧ ∀ request : Request, request.names ≠ [] → request.ids ≠ [] →
        ∃ text, ∀ c format payload, format.unmarshal payload = .ok { request with context := c } →
          Service.evaluate r id format payload = .failure text := by
  have hfault : ∀ text, Fault r id format payload text →
      (Service.evaluate r id format payload).isSuccess = false := by
    intro text h
    rw [h.evaluate]
    rfl
  have haccepts : Accepts r id format payload →
      (Service.evaluate r id format payload).isSuccess = true := by
    intro h
    obtain ⟨report, hreport⟩ := h.evaluate
    rw [hreport]
    rfl
  refine ⟨⟨fun h => ?_, haccepts⟩, Accepts.evaluate, fun h => ?_, fun text => ⟨Fault.evaluate,
    fun h => ?_⟩, answer_ne_notDeployed, fun request => evaluate_twoSelectors r id⟩
  · rcases accepts_or_fault r id format payload with ha | ⟨text, hf⟩
    · exact ha
    · rw [hfault text hf] at h
      cases h
  · exact (accepts_or_fault r id format payload).resolve_left h
  · rcases accepts_or_fault r id format payload with ha | ⟨text', hf⟩
    · obtain ⟨report, hreport⟩ := ha.evaluate
      rw [hreport] at h
      cases congrArg Response.type h
    -- the call has a fault, and its text is what stands behind the prefix
    · have hsame := congrArg Response.text (hf.evaluate.symm.trans h)
      have htext : text' = text := (String.append_right_inj _).mp hsame
      rw [← htext]
      exact hf

theorem evaluate_exact_sample :
    Accepts (.register sampleContainer .empty) "function-definition" .msgpack [0x80]
      ∧ ¬ Accepts (.register sampleContainer .empty) "function-definition" .json (Bytes.ofAscii
        "\x7b\"decision-name\":[\"Math\"],\"decision-id\":[\"Math\"]\x7d".toList) := by
  refine ⟨(evaluate_exact _ _ _ _).1.mp (by decide +kernel), fun h => ?_⟩
  have hsuccess := (evaluate_exact _ _ _ _).1.mpr h
  exact absurd hsuccess (by decide +kernel)

end Service

end DecisionService
