import Mathlib
import DecisionService.Engine.Service
import DecisionService.Proofs.Decision.Equivalent
import DecisionService.Proofs.Engine.Compared
/-!
# Runs on equivalent contexts

A decision is respectful when its logic cannot tell equivalent plain contexts apart. Equivalence of
plain values and contexts is a comparison, which respectful decisions keep, so the reports of a
service on requests that differ in such contexts only are equivalent.
-/
namespace DecisionService

inductive EquivalentOutcome : Except String Value → Except String Value → Prop
  | failed (text : String) : EquivalentOutcome (.error text) (.error text)
  | succeeded {v w : Value} (h : v.Equivalent w) : EquivalentOutcome (.ok v) (.ok w)

/-- Equivalent plain contexts have equivalent outcomes, and plain contexts plain values. -/
structure Decision.Respectful (d : Decision) : Prop where
  equivalent : ∀ a b : Context, a.Plain → b.Plain → a.Equivalent b →
    EquivalentOutcome (d.logic a) (d.logic b)
  plain : ∀ c v, Context.Plain c → d.logic c = .ok v → v.Plain

def Container.Respectful : Container → Prop
  | deployed _ models => ∀ m ∈ models, ∀ d ∈ m.decisions, d.Respectful
  | broken _ _ => True

def Registry.Respectful (r : Registry) : Prop :=
  ∀ e ∈ r, e.2.Respectful

def Comparison.equivalence : Comparison where
  value v w := v.Equivalent w ∧ v.Plain ∧ w.Plain
  context a b := a.Equivalent b ∧ a.Plain ∧ b.Plain
  null := ⟨rfl, trivial, trivial⟩
  contains h := h.1.contains h.2.1 h.2.2
  set h hv name := ⟨h.1.set h.2.1 h.2.2 name hv.1 hv.2.1 hv.2.2, h.2.1.set name hv.2.1,
    h.2.2.set name hv.2.2⟩

theorem Decision.Respectful.kept {d : Decision} (hd : d.Respectful) :
    Comparison.equivalence.KeptBy d := by
  intro a b h
  have hlogic := hd.equivalent a b h.2.1 h.2.2 h.1
  generalize hx : d.logic a = x, hy : d.logic b = y at hlogic ⊢
  cases hlogic with
  | failed text => exact .error text
  | succeeded hvw => exact .ok ⟨hvw, hd.plain _ _ h.2.1 hx, hd.plain _ _ h.2.2 hy⟩

theorem Registry.Respectful.each {r : Registry} (hr : r.Respectful) :
    r.Each Decision.Respectful := by
  intro e he
  have hcontainer := hr e he
  cases hc : e.2 with
  | broken => trivial
  | deployed id models =>
    rw [hc] at hcontainer
    exact hcontainer

inductive EquivalentResponse : Response Report → Response Report → Prop
  | failure (text : String) : EquivalentResponse (.failure text) (.failure text)
  | success (text : String) {x y : Report} (h : x.Equivalent y) (hx : x.Plain) (hy : y.Plain) :
    EquivalentResponse (.success text x) (.success text y)

theorem Comparison.Reports.equivalent {x y : Report} (h : Comparison.equivalence.Reports x y) :
    x.Equivalent y ∧ x.Plain ∧ y.Plain := by
  obtain ⟨hcontext, hx, hy⟩ := h.context
  have hplain : ∀ {v w}, Comparison.equivalence.value v w → v.Plain ∧ w.Plain := And.right
  have hresults := Comparison.forall_results hplain h.decisions
  refine ⟨⟨h.modelNamespace, h.modelName, h.names, h.messages, hcontext, ?_⟩, ⟨hx, hresults.1⟩,
    ⟨hy, hresults.2⟩⟩
  exact h.decisions.imp fun _ _ hd => ⟨hd.id, hd.name, hd.status, hd.value.1⟩

/-- Payloads of requests that differ in equivalent plain contexts are answered alike, whatever
formats they are in. -/
theorem Service.evaluate_equivalent {r : Registry} (hr : r.Respectful) {id : String}
    {format other : Format} {payload payload' : Bytes} {request : Request} {c c' : Context}
    (h : c.Equivalent c') (hc : c.Plain) (hc' : c'.Plain)
    (hu : format.unmarshal payload = .ok { request with context := c })
    (hu' : other.unmarshal payload' = .ok { request with context := c' }) :
    EquivalentResponse (evaluate r id format payload) (evaluate r id other payload') := by
  have hresponse := Comparison.respond_compared (hr.each.imp fun _ => Decision.Respectful.kept) id request ⟨h, hc, hc'⟩
  rw [evaluate_eq_respond hu, evaluate_eq_respond hu']
  generalize respond r id { request with context := c } = x,
    respond r id { request with context := c' } = y at hresponse ⊢
  cases hresponse with
  | failure text => exact .failure text
  | success text hreports =>
    obtain ⟨hequivalent, hx, hy⟩ := hreports.equivalent
    exact .success text hequivalent hx hy

end DecisionService
