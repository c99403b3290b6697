import Mathlib
import DecisionService.Engine.Logic
import DecisionService.Proofs.Engine.Run
/-!
# Runs of a whole model

With nothing selected a model looks its decisions up by their ids, and a look-up finds the first
decision of an id. There are as many results as decisions, and each is that of its own decision
unless one before it bears the same id: then that one is run again in its place.
-/
namespace DecisionService

namespace Model

/-- The first decision that bears the id of a decision. -/
def first (m : Model) (d : Decision) : Decision :=
  (m.find? (.byId d.id)).getD d

private theorem exists_first {m : Model} {d : Decision} (hd : d ∈ m.decisions) :
    m.find? (.byId d.id) = some (m.first d) := by
  have hsome : (m.find? (.byId d.id)).isSome = true := by
    rw [find?, List.find?_isSome]
    exact ⟨d, hd, beq_self_eq_true d.id⟩
  obtain ⟨e, he⟩ := Option.isSome_iff_exists.mp hsome
  rw [first, he]
  rfl

theorem id_first (m : Model) {d : Decision} (hd : d ∈ m.decisions) : (m.first d).id = d.id := by
  have hfits := List.find?_some (exists_first hd)
  exact eq_of_beq hfits

theorem first_eq_self {m : Model} {before after : List Decision} {d : Decision}
    (hm : m.decisions = before ++ d :: after) (hb : ∀ e ∈ before, e.id ≠ d.id) :
    m.first d = d := by
  have hfind : m.find? (.byId d.id) = some d := by
    rw [find?, List.find?_eq_some_iff_append]
    refine ⟨beq_self_eq_true d.id, before, after, hm, fun e he => ?_⟩
    have hne : (e.id == d.id) = false := beq_eq_false_iff_ne.mpr (hb e he)
    change (!(e.id == d.id)) = true
    rw [hne]
    rfl
  rw [first, hfind]
  rfl

theorem find?_allLookups (m : Model) :
    m.allLookups.filterMap m.find? = m.decisions.map m.first := by
  rw [allLookups, List.filterMap_map, ← List.filterMap_eq_map]
  apply List.filterMap_congr
  intro d hd
  exact exists_first hd

end Model

namespace Run

theorem id_resultAfter (c : Context) (earlier : List DecisionResult) (d : Decision) :
    (resultAfter c earlier d).id = d.id := by
  unfold resultAfter
  split
  · split <;> rfl
  · rfl

theorem name_resultAfter (c : Context) (earlier : List DecisionResult) (d : Decision) :
    (resultAfter c earlier d).name = d.name := by
  unfold resultAfter
  split
  · split <;> rfl
  · rfl

end Run

namespace Session

/-- With nothing selected there is one result for each decision, in order: that of the first
decision that bears its id, which is the decision itself unless one before it bears the id. -/
theorem evaluate_whole {s : Session} {info : ModelInfo} {m : Model} (hm : s.deployed info = .ok m)
    (c : Context) :
    ∃ e, s.evaluate info c .all = .ok e ∧ e.decisions.length = m.decisions.length
      ∧ ∀ before d after, m.decisions = before ++ d :: after →
        ∃ r, e.decisions[before.length]? = some r
          ∧ r = Run.resultAfter c (e.decisions.take before.length) (m.first d)
          ∧ r.id = d.id ∧ r.name = (m.first d).name
          ∧ ((∀ x ∈ before, x.id ≠ d.id) →
            r = Run.resultAfter c (e.decisions.take before.length) d) := by
  set e := m.evaluate info.name c (m.lookups .all)
  have hevaluate : s.evaluate info c .all = .ok e := by
    rw [evaluate, hm]
    rfl
  have hdecisions : e.decisions = Run.results c (m.decisions.map m.first) := by
    rw [← Model.find?_allLookups]
    exact Run.evaluate_decisions m info.name c m.allLookups
  have hlength : e.decisions.length = m.decisions.length := by
    rw [hdecisions, Run.length_results, List.length_map]
  refine ⟨e, hevaluate, hlength, fun before d after hsplit => ?_⟩
  have hd : m.decisions[before.length]? = some d := by
    rw [hsplit, List.getElem?_append_right le_rfl, Nat.sub_self]
    rfl
  have hr : e.decisions[before.length]?
      = some (Run.resultAfter c (e.decisions.take before.length) (m.first d)) := by
    rw [hdecisions, Run.getElem?_results, List.getElem?_map, hd]
    rfl
  have hid : (m.first d).id = d.id := m.id_first (List.mem_of_getElem? hd)
  refine ⟨_, hr, rfl, ?_, ?_, fun hb => ?_⟩
  · rw [Run.id_resultAfter, hid]
  · exact Run.name_resultAfter c _ _
  · rw [Model.first_eq_self hsplit hb]

def pair (id other : String) : Model :=
  ((Model.new "urn:1" "m").withDecision (Logic.decision id "first" [] (.const (.bool true))))
    |>.withDecision (Logic.decision other "second" ["first"] (.const (.bool false)))

theorem evaluate_whole_pair :
    let m := pair "1" "2"
    ∃ e, (⟨"c", [m]⟩ : Session).evaluate m.info .empty .all = .ok e ∧ e.decisions.length = 2
      ∧ ∃ r, e.decisions[1]? = some r ∧ r = Run.resultAfter .empty (e.decisions.take 1)
        (Logic.decision "2" "second" ["first"] (.const (.bool false))) := by
  intro m
  have hm : (⟨"c", [m]⟩ : Session).deployed m.info = .ok m := rfl
  obtain ⟨e, he, hlength, hall⟩ := evaluate_whole hm .empty
  obtain ⟨r, hr, -, -, -, hown⟩ := hall [Logic.decision "1" "first" [] (.const (.bool true))] _ [] rfl
  exact ⟨e, he, hlength, r, hr, hown (by simp [Logic.decision])⟩

/-- Of two decisions of one id the first is run twice, and the second not at all. -/
theorem evaluate_whole_twins :
    let m := pair "d" "d"
    m.decisions.map Decision.info = [⟨"d", "first"⟩, ⟨"d", "second"⟩]
      ∧ ∃ e, (⟨"c", [m]⟩ : Session).evaluate m.info .empty .all = .ok e
        ∧ e.decisions = [⟨"d", "first", .bool true, .succeeded⟩,
          ⟨"d", "first", .bool true, .succeeded⟩] :=
  ⟨rfl, _, rfl, rfl⟩

end Session

end DecisionService
