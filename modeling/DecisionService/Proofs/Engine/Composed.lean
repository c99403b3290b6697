import Mathlib
import DecisionService.Proofs.Engine.Recovery
/-!
# Evaluations in two parts

A run knows the context and the names without a value. As long as every decision gives a value there
are no such names, so the context is all that a run goes on from: what is left to evaluate may as well
be evaluated on its own, on the context that is handed back.
-/
namespace DecisionService

/-- An evaluation and one that goes on from its context, taken together. -/
def Evaluation.andThen (first next : Evaluation) : Evaluation :=
  ⟨next.context, first.decisions ++ next.decisions, first.messages ++ next.messages⟩

namespace Run

def behind (first : Evaluation) (r : Run) : Run :=
  ⟨first.andThen r.evaluation, r.unavailable⟩

/-- Neither the earlier results nor the earlier messages have a part in what a decision comes to. -/
theorem evaluate_behind (first : Evaluation) (r : Run) (d : Decision) :
    (r.behind first).evaluate d = (r.evaluate d).behind first := by
  have houtcome : (r.behind first).outcome d = r.outcome d := rfl
  simp only [evaluate, houtcome]
  simp only [behind, Evaluation.andThen, List.append_assoc]

section Steps

variable (m : Model) (modelName : String)

theorem step_behind (first : Evaluation) (r : Run) (l : Lookup) :
    step m modelName (r.behind first) l = (step m modelName r l).behind first := by
  cases hl : m.find? l with
  | none => simp only [step, hl, behind, Evaluation.andThen, List.append_assoc]
  | some d => simp only [step, hl, evaluate_behind]

theorem steps_behind (first : Evaluation) (lookups : List Lookup) (r : Run) :
    lookups.foldl (step m modelName) (r.behind first)
      = (lookups.foldl (step m modelName) r).behind first := by
  induction lookups generalizing r with
  | nil => rfl
  | cons l rest ih => rw [List.foldl_cons, step_behind, ih, List.foldl_cons]

end Steps

/-- After nothing but successes a run is a new one on its context, behind what it has so far. -/
theorem Invariant.eq_behind_start {c : Context} {ds : List Decision} {r : Run}
    (h : Invariant c ds r) (hs : ∀ x ∈ r.evaluation.decisions, x.status = .succeeded) :
    r = (start r.evaluation.context).behind r.evaluation := by
  -- only what did not succeed makes a name unavailable
  have hnone : r.unavailable = [] := by
    rw [List.eq_nil_iff_forall_not_mem]
    intro name hname
    obtain ⟨x, hx, -, hne⟩ := (h.unavailable name).mp hname
    exact hne (hs x hx)
  obtain ⟨⟨context, decisions, messages⟩, unavailable⟩ := r
  simp only at hnone
  simp only [behind, start, Evaluation.andThen, List.append_nil, hnone]

/-- Look-ups behind others that all gave a value may be evaluated on their own, on the context of the
others. -/
theorem evaluate_composed (m : Model) (modelName : String) (c : Context) (xs ys : List Lookup)
    (hs : ∀ r ∈ (m.evaluate modelName c xs).decisions, r.status = .succeeded) :
    m.evaluate modelName c (xs ++ ys)
      = (m.evaluate modelName c xs).andThen
        (m.evaluate modelName (m.evaluate modelName c xs).context ys) := by
  set first := m.evaluate modelName c xs
  have hstart : xs.foldl (step m modelName) (start c) = (start first.context).behind first :=
    (invariant_steps m modelName xs (invariant_start c)).eq_behind_start hs
  calc m.evaluate modelName c (xs ++ ys)
      = (ys.foldl (step m modelName) (xs.foldl (step m modelName) (start c))).evaluation := by
        rw [Model.evaluate, List.foldl_append]
    _ = ((ys.foldl (step m modelName) (start first.context)).behind first).evaluation := by
        rw [hstart, steps_behind]
    _ = first.andThen (m.evaluate modelName first.context ys) := rfl

theorem evaluate_composed_offer :
    let price := offerModel.evaluate "m" .empty [.byName "rate", .byName "none", .byName "price"]
    offerModel.evaluate "m" .empty
        ([.byName "rate", .byName "none", .byName "price"] ++ [.byName "offer", .byName "rate"])
      = price.andThen (offerModel.evaluate "m" price.context [.byName "offer", .byName "rate"]) :=
  evaluate_composed offerModel "m" .empty _ _ (by decide)

end Run

end DecisionService
