import Mathlib
import DecisionService.Engine.Service
import DecisionService.Proofs.Outcome
/-!
# The stages of a call

A call opens a session, reads the request, finds the model, takes the selection and runs the model.
The model is looked for twice, by what the request says of it and by the descriptor found: both
searches end at the same deployed model.
-/
namespace DecisionService

namespace Registry

variable {r : Registry} {id : String}

theorem newSession_of_none (h : r.get? id = none) :
    r.newSession id = .error (.containerNotFound id) := by
  rw [newSession, find, h]
  rfl

theorem newSession_of_some {c : Container} (h : r.get? id = some c) :
    r.newSession id = c.newSession := by
  rw [newSession, find, h]
  rfl

end Registry

namespace Service

section Payload

variable {r : Registry} {id : String} {format : Format} {payload : Bytes}

theorem evaluate_closed (format : Format) (payload : Bytes) {e : EvaluationError}
    (hs : r.newSession id = .error e) : evaluate r id format payload
      = .failure s!"Error from container '{id}': {e.message}" := by
  rw [evaluate, hs]
  rfl

theorem evaluate_unread {s : Session} (hs : r.newSession id = .ok s) {e : FormatError}
    (hu : format.unmarshal payload = (.error e : Except FormatError Request)) :
    evaluate r id format payload = .failure
      s!"Error from container '{id}': {(EvaluationError.deserialization e).message}" := by
  have hanswer : (Except.ok s).bind (fun s => answerPayload s format payload)
      = .error (.deserialization e) := by
    change answerPayload s format payload = _
    rw [answerPayload, hu]
    rfl
  rw [evaluate, evaluationResponse, hs, hanswer]

theorem evaluate_read {s : Session} (hs : r.newSession id = .ok s) {request : Request}
    (hu : format.unmarshal payload = .ok request) :
    evaluate r id format payload = match answer s request with
      | .ok report => .success s!"OK from container '{id}'" report
      | .error e => .failure s!"Error from container '{id}': {e.message}" := by
  have hanswer : answerPayload s format payload = answer s request := by
    rw [answerPayload, hu]
  rw [evaluate, hs, ← hanswer]
  rfl

def respond (r : Registry) (id : String) (request : Request) : Response Report :=
  match (r.newSession id).bind fun s => answer s request with
  | .ok report => .success s!"OK from container '{id}'" report
  | .error e => .failure s!"Error from container '{id}': {e.message}"

theorem evaluate_eq_respond {request : Request} (hu : format.unmarshal payload = .ok request) :
    evaluate r id format payload = respond r id request := by
  cases hs : r.newSession id with
  | error e =>
    rw [evaluate_closed format payload hs, respond, hs]
    rfl
  | ok s =>
    rw [evaluate_read hs hu, respond, hs]
    rfl

theorem respond_closed (request : Request) {e : EvaluationError} (hs : r.newSession id = .error e) :
    respond r id request = .failure s!"Error from container '{id}': {e.message}" := by
  rw [respond, hs]
  rfl

end Payload

end Service

def Request.Resolves (request : Request) (models : List Model) : Prop :=
  match request.modelName? with
  | none => models.length = 1
  | some name => ∃ m ∈ models, m.name = name
    ∧ ∀ modelNamespace ∈ request.modelNamespace?, m.modelNamespace = modelNamespace

namespace Session

/-- The position of the model that a request is about among those deployed: the first one of the
name and, if it is given, of the namespace. Without a name it is the only one there is. -/
def position? (s : Session) (request : Request) : Option Nat :=
  match request.modelName? with
  | none => if s.models.length = 1 then some 0 else none
  | some name => s.models.findIdx? fun m => m.info.isNamed request.modelNamespace? name

def refusal (s : Session) (request : Request) : EvaluationError :=
  match request.modelName?, s.models with
  | none, [] => .noModels
  | none, models => .ambiguousModel models.length
  | some name, _ => .modelNotFound request.modelNamespace? name

end Session

private theorem findIdx?_of_imp {α : Type} {xs : List α} {p q : α → Bool} {i : Nat} {x : α}
    (hp : xs.findIdx? p = some i) (hx : xs[i]? = some x) (hq : q x = true)
    (himp : ∀ y, q y = true → p y = true) : xs.findIdx? q = some i := by
  rw [List.findIdx?_eq_some_iff_getElem] at hp ⊢
  obtain ⟨hi, -, hbefore⟩ := hp
  have hget : xs[i] = x := (List.getElem?_eq_some_iff.mp hx).2
  exact ⟨hi, hget ▸ hq, fun j hj hqj => hbefore j hj (himp _ hqj)⟩

theorem Model.isDescribedBy_iff (info : ModelInfo) (m : Model) : m.isDescribedBy info = true
    ↔ m.modelNamespace = info.modelNamespace ∧ m.name = info.name := by
  rw [isDescribedBy, Bool.and_eq_true, beq_iff_eq, beq_iff_eq]

theorem ModelInfo.isNamed_iff (modelNamespace? : Option String) (name : String) (m : ModelInfo) :
    m.isNamed modelNamespace? name = true
      ↔ m.name = name ∧ ∀ modelNamespace ∈ modelNamespace?, m.modelNamespace = modelNamespace := by
  rw [isNamed, Bool.and_eq_true, beq_iff_eq]
  cases modelNamespace? <;> simp

namespace Session

variable {s : Session} {request : Request}

theorem findIdx?_position {i : Nat} (h : s.position? request = some i) :
    ∃ m, s.models[i]? = some m ∧ s.models.findIdx? (Model.isDescribedBy m.info) = some i := by
  have hself : ∀ m : Model, m.isDescribedBy m.info = true := by
    intro m
    rw [Model.isDescribedBy_iff]
    exact ⟨rfl, rfl⟩
  unfold position? at h
  split at h
  · split at h
    · next hone =>
      cases h
      obtain ⟨m, hm⟩ := List.length_eq_one_iff.mp hone
      refine ⟨m, by rw [hm]; rfl, ?_⟩
      rw [hm, List.findIdx?_singleton, hself]
      rfl
    · cases h
  · next name _ =>
    obtain ⟨hi, hnamed, -⟩ := List.findIdx?_eq_some_iff_getElem.mp h
    refine ⟨s.models[i], List.getElem?_eq_getElem hi, ?_⟩
    -- the descriptor says more than the request, so nothing in front of the model fits it
    refine findIdx?_of_imp h (List.getElem?_eq_getElem hi) (hself _) fun m hm => ?_
    rw [Model.isDescribedBy_iff] at hm
    rw [ModelInfo.isNamed_iff] at hnamed ⊢
    exact ⟨hm.2.trans hnamed.1, fun ns hns => hm.1.trans (hnamed.2 ns hns)⟩

theorem deployed_of_findIdx? {info : ModelInfo} {i : Nat} {m : Model}
    (hi : s.models.findIdx? (Model.isDescribedBy info) = some i) (hm : s.models[i]? = some m) :
    s.deployed info = .ok m := by
  rw [deployed, List.find?_eq_bind_findIdx?_getElem?, hi, Option.bind_some, hm]

end Session

namespace Service

variable {s : Session} {request : Request}

/-- A request is resolved to the model at its position, or it is told that there is none. -/
theorem resolve_cases (s : Session) (request : Request) :
    (request.Resolves s.models ∧ ∃ i m, s.position? request = some i ∧ s.models[i]? = some m
        ∧ resolve s request = .ok m.info)
      ∨ ¬ request.Resolves s.models ∧ resolve s request = .error (s.refusal request) := by
  rw [resolve, Session.position?, Session.refusal, Request.Resolves]
  cases request.modelName? with
  | none =>
    rw [Session.infos]
    match s.models with
    | [] => exact Or.inr ⟨by simp, rfl⟩
    | [m] => exact Or.inl ⟨rfl, 0, m, rfl, rfl, rfl⟩
    | m :: m' :: rest => exact Or.inr ⟨by simp, by simp⟩
  | some name =>
    have hfind : s.find? request.modelNamespace? name
        = ((s.models.findIdx? fun m => m.info.isNamed request.modelNamespace? name).bind
          (s.models[·]?)).map Model.info := by
      rw [Session.find?, Session.infos, List.find?_map, List.find?_eq_bind_findIdx?_getElem?]
      rfl
    simp only [hfind]
    cases hi : s.models.findIdx? fun m => m.info.isNamed request.modelNamespace? name with
    | none =>
      refine Or.inr ⟨?_, rfl⟩
      rintro ⟨m, hm, hnamed⟩
      have hfalse := List.findIdx?_eq_none_iff.mp hi m hm
      rw [(ModelInfo.isNamed_iff _ _ _).mpr hnamed] at hfalse
      cases hfalse
    | some i =>
      obtain ⟨hlt, hnamed, -⟩ := List.findIdx?_eq_some_iff_getElem.mp hi
      have hget := List.getElem?_eq_getElem hlt
      rw [ModelInfo.isNamed_iff] at hnamed
      refine Or.inl ⟨⟨_, List.getElem_mem hlt, hnamed⟩, i, _, rfl, hget, ?_⟩
      simp only [Option.bind_some, hget, Option.map_some]

theorem resolve_deployed {info : ModelInfo} (h : resolve s request = .ok info) :
    ∃ i m, s.position? request = some i ∧ s.models[i]? = some m ∧ info = m.info
      ∧ s.models.findIdx? (Model.isDescribedBy info) = some i ∧ s.deployed info = .ok m := by
  rcases resolve_cases s request with ⟨-, i, m, hi, hm, hr⟩ | ⟨-, hr⟩
  · rw [hr] at h
    cases h
    obtain ⟨m', hm', hfind⟩ := Session.findIdx?_position hi
    have hsame : m' = m := Option.some.inj (hm'.symm.trans hm)
    rw [hsame] at hfind
    exact ⟨i, m, hi, hm, rfl, hfind, Session.deployed_of_findIdx? hfind hm⟩
  · rw [hr] at h
    cases h

theorem selector_cases (request : Request) :
    ((request.names = [] ∨ request.ids = []) ∧ ∃ selection, selector request = .ok selection)
      ∨ request.names ≠ [] ∧ request.ids ≠ [] ∧ selector request = .error .unsupportedSelector := by
  rw [selector, Selector.ofRequest?]
  cases request.names with
  | nil =>
    cases request.ids with
    | nil => exact Or.inl ⟨Or.inl rfl, _, rfl⟩
    | cons id ids => exact Or.inl ⟨Or.inl rfl, _, rfl⟩
  | cons name names =>
    cases request.ids with
    | nil => exact Or.inl ⟨Or.inr rfl, _, rfl⟩
    | cons id ids => exact Or.inr ⟨List.cons_ne_nil _ _, List.cons_ne_nil _ _, rfl⟩

theorem answer_resolved {info : ModelInfo} {m : Model} {selection : Selector}
    (hr : resolve s request = .ok info) (hm : s.deployed info = .ok m)
    (h : selector request = .ok selection) :
    answer s request = .ok (.ofEvaluation info.modelNamespace info.name request.names?
      (m.evaluate info.name request.context (m.lookups selection))) := by
  rw [answer, hr, Outcome.ok_bind, h, Outcome.ok_bind, Session.evaluate, hm]
  rfl

/-- A report is the evaluation of the look-ups that the request selects, by the model that it is
resolved to. -/
theorem answer_eq_ok {report : Report} (h : answer s request = .ok report) :
    ∃ info m selection, resolve s request = .ok info ∧ s.deployed info = .ok m
      ∧ selector request = .ok selection
      ∧ report = .ofEvaluation info.modelNamespace info.name request.names?
        (m.evaluate info.name request.context (m.lookups selection)) := by
  obtain ⟨info, hr, hrest⟩ := Outcome.bind_eq_ok.mp h
  obtain ⟨selection, hs, -⟩ := Outcome.bind_eq_ok.mp hrest
  obtain ⟨-, m, -, -, -, -, hm⟩ := resolve_deployed hr
  exact ⟨info, m, selection, hr, hm, hs, Except.ok.inj (h.symm.trans (answer_resolved hr hm hs))⟩

theorem answer_of_evaluate {r : Registry} {id : String} {format : Format} {payload : Bytes}
    {report : Report} (h : (evaluate r id format payload).result? = some report) :
    ∃ s request, r.newSession id = .ok s ∧ format.unmarshal payload = .ok request
      ∧ answer s request = .ok report := by
  cases hs : r.newSession id with
  | error e =>
    rw [evaluate_closed format payload hs] at h
    cases h
  | ok s =>
    cases hu : (format.unmarshal payload : Except FormatError Request) with
    | error e =>
      rw [evaluate_unread hs hu] at h
      cases h
    | ok request =>
      rw [evaluate_read hs hu] at h
      refine ⟨s, request, rfl, rfl, ?_⟩
      cases ha : answer s request with
      | error e =>
        rw [ha] at h
        cases h
      | ok report' =>
        rw [ha] at h
        cases h
        rfl

theorem answer_cases (s : Session) (request : Request) :
    (request.Resolves s.models ∧ (request.names = [] ∨ request.ids = [])
        ∧ ∃ report, answer s request = .ok report)
      ∨ (request.Resolves s.models ∧ request.names ≠ [] ∧ request.ids ≠ []
        ∧ answer s request = .error .unsupportedSelector)
      ∨ ¬ request.Resolves s.models ∧ answer s request = .error (s.refusal request) := by
  rcases resolve_cases s request with ⟨hm, -, m, -, -, hr⟩ | ⟨hm, hr⟩
  · rcases selector_cases request with ⟨hone, selection, hs⟩ | ⟨hnames, hids, hs⟩
    · obtain ⟨-, m', -, -, -, -, hdeployed⟩ := resolve_deployed hr
      exact Or.inl ⟨hm, hone, _, answer_resolved hr hdeployed hs⟩
    · refine Or.inr (Or.inl ⟨hm, hnames, hids, ?_⟩)
      rw [answer, hr, Outcome.ok_bind, hs]
      rfl
  · refine Or.inr (Or.inr ⟨hm, ?_⟩)
    rw [answer, hr]
    rfl

end Service

end DecisionService
