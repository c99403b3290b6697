import Mathlib
import DecisionService.Engine.Service
import DecisionService.Proofs.Engine.Stages
import DecisionService.Proofs.Entries
/-!
# Runs side by side

A comparison relates values and contexts so that related values, put under one name, keep contexts
related. Decisions that take related contexts to related outcomes keep two runs related step by
step, and with the runs the answers to requests that differ in related contexts only.
-/
namespace DecisionService

def Container.Each (p : Decision → Prop) : Container → Prop
  | deployed _ models => ∀ m ∈ models, ∀ d ∈ m.decisions, p d
  | broken _ _ => True

namespace Registry

def Each (p : Decision → Prop) (r : Registry) : Prop :=
  ∀ e ∈ r, e.2.Each p

variable {p q : Decision → Prop} {r : Registry}

theorem Each.imp (h : ∀ d, p d → q d) (hr : r.Each p) : r.Each q := by
  intro e he
  have hcontainer := hr e he
  cases hc : e.2 with
  | broken => trivial
  | deployed id models =>
    rw [hc] at hcontainer
    exact fun m hm d hd => h d (hcontainer m hm d hd)

theorem Each.and (hp : r.Each p) (hq : r.Each q) : r.Each fun d => p d ∧ q d := by
  intro e he
  have hcontainer := hp e he
  have hcontainer' := hq e he
  cases hc : e.2 with
  | broken => trivial
  | deployed id models =>
    rw [hc] at hcontainer hcontainer'
    exact fun m hm d hd => ⟨hcontainer m hm d hd, hcontainer' m hm d hd⟩

theorem Each.session (hr : r.Each p) {id : String} {s : Session} (hs : r.newSession id = .ok s) :
    ∀ m ∈ s.models, ∀ d ∈ m.decisions, p d := by
  obtain ⟨c, hfind, hs⟩ := Outcome.bind_eq_ok.mp hs
  unfold Registry.find at hfind
  split at hfind
  · next hget =>
    cases hfind
    have hcontainer := hr _ (Entries.mem_of_get? hget)
    cases c with
    | broken => cases hs
    | deployed id models =>
      cases hs
      exact hcontainer
  · cases hfind

end Registry

structure Comparison where
  value : Value → Value → Prop
  context : Context → Context → Prop
  null : value .null .null
  contains : ∀ {a b : Context}, context a b → ∀ name, a.contains name = b.contains name
  set : ∀ {a b : Context} {v w : Value}, context a b → value v w → ∀ name,
    context (a.set name v) (b.set name w)

namespace Comparison

variable (k : Comparison)

/-- Related contexts have the same failure or related values. -/
def KeptBy (d : Decision) : Prop :=
  ∀ a b : Context, k.context a b → Outcome.Rel k.value (d.logic a) (d.logic b)

structure Results (x y : DecisionResult) : Prop where
  id : x.id = y.id
  name : x.name = y.name
  status : x.status = y.status
  value : k.value x.result y.result

structure Runs (a b : Run) : Prop where
  unavailable : a.unavailable = b.unavailable
  messages : a.evaluation.messages = b.evaluation.messages
  context : k.context a.evaluation.context b.evaluation.context
  decisions : List.Forall₂ k.Results a.evaluation.decisions b.evaluation.decisions

structure Reports (x y : Report) : Prop where
  modelNamespace : x.modelNamespace = y.modelNamespace
  modelName : x.modelName = y.modelName
  names : x.names? = y.names?
  messages : x.messages = y.messages
  context : k.context x.context y.context
  decisions : List.Forall₂ k.Results x.decisions y.decisions

inductive Responses : Response Report → Response Report → Prop
  | failure (text : String) : Responses (.failure text) (.failure text)
  | success (text : String) {x y : Report} (h : k.Reports x y) :
    Responses (.success text x) (.success text y)

variable {k} {a b : Run}

theorem forall_results {p : Value → Prop} (hp : ∀ {v w}, k.value v w → p v ∧ p w)
    {xs ys : List DecisionResult} (h : List.Forall₂ k.Results xs ys) :
    (∀ x ∈ xs, p x.result) ∧ ∀ y ∈ ys, p y.result := by
  induction h with
  | nil => exact ⟨List.forall_mem_nil _, List.forall_mem_nil _⟩
  | cons hxy _ ih =>
    obtain ⟨hx, hy⟩ := hp hxy.value
    exact ⟨List.forall_mem_cons.mpr ⟨hx, ih.1⟩, List.forall_mem_cons.mpr ⟨hy, ih.2⟩⟩

theorem Runs.missing (h : k.Runs a b) (d : Decision) : a.missing d = b.missing d := by
  have hcontains := k.contains h.context
  simp only [Run.missing, hcontains, h.unavailable]

/-- A decision comes to the same status and messages in both runs, and to related values. -/
theorem Runs.outcome (h : k.Runs a b) {d : Decision} (hd : k.KeptBy d) :
    (a.outcome d).status = (b.outcome d).status
      ∧ (a.outcome d).messages = (b.outcome d).messages
      ∧ k.value (a.outcome d).value (b.outcome d).value := by
  unfold Run.outcome
  rw [h.missing d]
  cases b.missing d with
  | cons name rest => exact ⟨rfl, rfl, k.null⟩
  | nil =>
    have hlogic := hd _ _ h.context
    generalize d.logic a.evaluation.context = x, d.logic b.evaluation.context = y at hlogic
    cases hlogic with
    | error text => exact ⟨rfl, rfl, k.null⟩
    | ok hvw => exact ⟨rfl, rfl, hvw⟩

theorem Runs.evaluate (h : k.Runs a b) {d : Decision} (hd : k.KeptBy d) :
    k.Runs (a.evaluate d) (b.evaluate d) := by
  obtain ⟨hstatus, hmessages, hvalue⟩ := h.outcome hd
  refine ⟨?_, ?_, ?_, ?_⟩
  · simp only [Run.evaluate, hstatus, h.unavailable]
  · simp only [Run.evaluate, hmessages, h.messages]
  · exact k.set h.context hvalue d.name
  · exact List.rel_append h.decisions (.cons ⟨rfl, rfl, hstatus, hvalue⟩ .nil)

theorem Runs.step (h : k.Runs a b) {m : Model} (hm : ∀ d ∈ m.decisions, k.KeptBy d)
    (modelName : String) (l : Lookup) :
    k.Runs (Run.step m modelName a l) (Run.step m modelName b l) := by
  unfold Run.step
  cases hl : m.find? l with
  | some d => exact h.evaluate (hm d (List.mem_of_find?_eq_some hl))
  | none => exact ⟨h.unavailable, congrArg (· ++ _) h.messages, h.context, h.decisions⟩

theorem Runs.steps (h : k.Runs a b) {m : Model} (hm : ∀ d ∈ m.decisions, k.KeptBy d)
    (modelName : String) (lookups : List Lookup) :
    k.Runs (lookups.foldl (Run.step m modelName) a) (lookups.foldl (Run.step m modelName) b) := by
  induction lookups generalizing a b with
  | nil => exact h
  | cons l rest ih => exact ih (h.step hm modelName l)

theorem answer_compared {s : Session} (hs : ∀ m ∈ s.models, ∀ d ∈ m.decisions, k.KeptBy d)
    (request : Request) {c c' : Context} (h : k.context c c') :
    Outcome.Rel k.Reports (Service.answer s { request with context := c })
      (Service.answer s { request with context := c' }) := by
  have hresolve : Service.resolve s { request with context := c }
      = Service.resolve s { request with context := c' } := rfl
  have hselector : Service.selector { request with context := c }
      = Service.selector { request with context := c' } := rfl
  cases hr : Service.resolve s { request with context := c' } with
  | error e =>
    rw [Service.answer, Service.answer, hresolve, hr]
    exact .error e
  | ok info =>
    cases hsel : Service.selector { request with context := c' } with
    | error e =>
      rw [Service.answer, Service.answer, hresolve, hr, hselector, hsel]
      exact .error e
    | ok selection =>
      obtain ⟨i, m, -, hm, -, -, hdeployed⟩ := Service.resolve_deployed hr
      rw [Service.answer_resolved hr hdeployed hsel,
        Service.answer_resolved (hresolve.trans hr) hdeployed (hselector.trans hsel)]
      have hstart : k.Runs (Run.start c) (Run.start c') := ⟨rfl, rfl, h, .nil⟩
      have hruns := hstart.steps (hs m (List.mem_of_getElem? hm)) info.name (m.lookups selection)
      exact .ok ⟨rfl, rfl, rfl, hruns.messages, hruns.context, hruns.decisions⟩

/-- A service responds to such requests with the same failure or with related reports. -/
theorem respond_compared {r : Registry} (hr : r.Each k.KeptBy) (id : String)
    (request : Request) {c c' : Context} (h : k.context c c') :
    k.Responses (Service.respond r id { request with context := c })
      (Service.respond r id { request with context := c' }) := by
  cases hs : r.newSession id with
  | error e =>
    rw [Service.respond_closed _ hs, Service.respond_closed _ hs]
    exact .failure _
  | ok s =>
    have hanswer := answer_compared (hr.session hs) request h
    simp only [Service.respond, hs, Except.bind]
    generalize Service.answer s { request with context := c } = x,
      Service.answer s { request with context := c' } = y at hanswer ⊢
    cases hanswer with
    | error e => exact .failure _
    | ok hreports => exact .success _ hreports

end Comparison

end DecisionService
