import Mathlib
import DecisionService.Engine.Logic
import DecisionService.Proofs.Engine.Run
/-!
# What each look-up leaves

A run leaves one entry for each look-up, in order: the result of the decision that the look-up finds,
if it finds one, and the messages that tell what went wrong. Nothing else is among the results and the
messages of an evaluation, so it has errors exactly when something went wrong with a look-up.
-/
namespace DecisionService

def Message.Reports (type : MessageType) (sourceId? : Option String) (msg : Message) : Prop :=
  msg.severity = .error ∧ msg.type = type ∧ msg.sourceId? = sourceId?

def Model.FirstFit (m : Model) (l : Lookup) (d : Decision) : Prop :=
  ∃ before after, m.decisions = before ++ d :: after ∧ l.fits d.info = true
    ∧ ∀ other ∈ before, l.fits other.info = false

theorem Model.find?_eq_none {m : Model} {l : Lookup} :
    m.find? l = none ↔ ∀ d ∈ m.decisions, l.fits d.info = false := by
  simp only [find?, List.find?_eq_none, Bool.not_eq_true]

theorem Model.find?_eq_some {m : Model} {l : Lookup} {d : Decision} :
    m.find? l = some d ↔ m.FirstFit l d := by
  rw [find?, List.find?_eq_some_iff_append, FirstFit]
  constructor
  · rintro ⟨hfits, before, after, hm, hb⟩
    exact ⟨before, after, hm, hfits, by simpa using hb⟩
  · rintro ⟨before, after, hm, hfits, hb⟩
    exact ⟨hfits, before, after, hm, by simpa using hb⟩

namespace Run

/-- What a look-up leaves in an evaluation: the result of the decision that it finds, if any, and
its messages. -/
inductive Leaves (m : Model) (l : Lookup) : Option DecisionResult × List Message → Prop
  | unmatched {msg : Message} (h : ∀ d ∈ m.decisions, l.fits d.info = false)
      (hmsg : msg.Reports .decisionNotFound none) : Leaves m l (none, [msg])
  | succeeded {d : Decision} (h : m.FirstFit l d) (v : Value) :
    Leaves m l (some ⟨d.id, d.name, v, .succeeded⟩, [])
  | skipped {d : Decision} {said : List Message} (h : m.FirstFit l d) (hsome : said ≠ [])
      (hsaid : ∀ msg ∈ said, msg.Reports .requirementNotFound (some d.id)) :
    Leaves m l (some ⟨d.id, d.name, .null, .skipped⟩, said)
  | failed {d : Decision} {msg : Message} (h : m.FirstFit l d)
      (hmsg : msg.Reports .evaluationFailed (some d.id)) :
    Leaves m l (some ⟨d.id, d.name, .null, .failed⟩, [msg])

def Grows (before after : Evaluation) (left : List (Option DecisionResult × List Message)) : Prop :=
  after.decisions = before.decisions ++ left.filterMap Prod.fst
    ∧ after.messages = before.messages ++ left.flatMap Prod.snd

theorem reports_missingMessage (d : Decision) (name : String) :
    (missingMessage d name).Reports .requirementNotFound (some d.id) :=
  ⟨rfl, rfl, rfl⟩

theorem reports_failureMessage (d : Decision) (text : String) :
    (failureMessage d text).Reports .evaluationFailed (some d.id) :=
  ⟨rfl, rfl, rfl⟩

theorem reports_notFoundMessage (modelName : String) (l : Lookup) :
    (notFoundMessage modelName l).Reports .decisionNotFound none := by
  cases l <;> exact ⟨rfl, rfl, rfl⟩

theorem leaves_outcome {m : Model} {l : Lookup} {d : Decision} (hd : m.FirstFit l d) (r : Run) :
    Leaves m l (some (r.resultOf d), (r.outcome d).messages) := by
  rw [resultOf]
  rcases outcome_cases r d with ⟨hm, ho⟩ | ⟨-, ⟨v, -, ho⟩ | ⟨text, -, ho⟩⟩
  · rw [ho]
    refine .skipped hd (by simpa using hm) fun msg hmsg => ?_
    obtain ⟨name, -, rfl⟩ := List.mem_map.mp hmsg
    exact reports_missingMessage d name
  · rw [ho]
    exact .succeeded hd v
  · rw [ho]
    exact .failed hd (reports_failureMessage d text)

/-- One step leaves what belongs to its look-up. -/
theorem exists_leaves_step (m : Model) (modelName : String) (r : Run) (l : Lookup) :
    ∃ left, Leaves m l left ∧ Grows r.evaluation (step m modelName r l).evaluation [left] := by
  cases hl : m.find? l with
  | none =>
    refine ⟨(none, [notFoundMessage modelName l]), ?_, ?_⟩
    · exact .unmatched (Model.find?_eq_none.mp hl) (reports_notFoundMessage modelName l)
    · simp [Grows, step, hl]
  | some d =>
    refine ⟨(some (r.resultOf d), (r.outcome d).messages), ?_, ?_⟩
    · exact leaves_outcome (Model.find?_eq_some.mp hl) r
    · simp [Grows, step, hl, evaluate, resultOf]

theorem exists_leaves_steps (m : Model) (modelName : String) (lookups : List Lookup) (r : Run) :
    ∃ left, List.Forall₂ (Leaves m) lookups left
      ∧ Grows r.evaluation (lookups.foldl (step m modelName) r).evaluation left := by
  induction lookups generalizing r with
  | nil => exact ⟨[], .nil, by simp [Grows]⟩
  | cons l rest ih =>
    obtain ⟨first, hfirst, hds, hms⟩ := exists_leaves_step m modelName r l
    obtain ⟨left, hleft, hds', hms'⟩ := ih (step m modelName r l)
    refine ⟨first :: left, .cons hfirst hleft, ?_, ?_⟩
    · rw [List.foldl_cons, hds', hds, List.append_assoc, ← List.filterMap_append,
        List.singleton_append]
    · rw [List.foldl_cons, hms', hms, List.append_assoc, ← List.flatMap_append,
        List.singleton_append]

/-- A look-up leaves an error exactly when it finds no decision or its decision did not succeed. -/
theorem Leaves.error_iff {m : Model} {l : Lookup} {left : Option DecisionResult × List Message}
    (h : Leaves m l left) : (∃ msg ∈ left.2, msg.severity = .error)
      ↔ (∀ d ∈ m.decisions, l.fits d.info = false) ∨ ∃ r ∈ left.1, r.status ≠ .succeeded := by
  have hfound : ∀ {d}, m.FirstFit l d → ¬ ∀ d ∈ m.decisions, l.fits d.info = false := by
    rintro d ⟨before, after, hm, hfits, -⟩ hnone
    have hd : d ∈ m.decisions := by
      rw [hm]
      exact List.mem_append_right _ List.mem_cons_self
    exact Bool.false_ne_true ((hnone d hd).symm.trans hfits)
  cases h with
  | unmatched h hmsg => exact iff_of_true ⟨_, List.mem_singleton_self _, hmsg.1⟩ (Or.inl h)
  | succeeded h v => simp [hfound h]
  | skipped h hsome hsaid =>
    obtain ⟨msg, hmsg⟩ := List.exists_mem_of_ne_nil _ hsome
    exact iff_of_true ⟨msg, hmsg, (hsaid msg hmsg).1⟩ (Or.inr ⟨_, rfl, nofun⟩)
  | failed h hmsg =>
    exact iff_of_true ⟨_, List.mem_singleton_self _, hmsg.1⟩ (Or.inr ⟨_, rfl, nofun⟩)

theorem error_iff_of_leaves {m : Model} {lookups : List Lookup}
    {left : List (Option DecisionResult × List Message)} (h : List.Forall₂ (Leaves m) lookups left) :
    (∃ x ∈ left, ∃ msg ∈ x.2, msg.severity = .error)
      ↔ (∃ l ∈ lookups, ∀ d ∈ m.decisions, l.fits d.info = false)
        ∨ ∃ x ∈ left, ∃ r ∈ x.1, r.status ≠ .succeeded := by
  induction h with
  | nil => simp
  | cons hfirst _ ih =>
    simp only [List.mem_cons, exists_eq_or_imp, hfirst.error_iff, ih]
    exact or_or_or_comm

/-- The account of an evaluation. For each look-up in order it holds what that look-up leaves, and
nothing else, and it has errors exactly when a look-up found no decision or one did not succeed. -/
theorem evaluate_accounts (m : Model) (modelName : String) (c : Context) (lookups : List Lookup) :
    let e := m.evaluate modelName c lookups
    (∃ left, List.Forall₂ (Leaves m) lookups left
      ∧ e.decisions = left.filterMap Prod.fst ∧ e.messages = left.flatMap Prod.snd)
    ∧ (e.hasErrors = true ↔ (∃ l ∈ lookups, ∀ d ∈ m.decisions, l.fits d.info = false)
      ∨ ∃ r ∈ e.decisions, r.status ≠ .succeeded) := by
  intro e
  obtain ⟨left, hleft, hds, hms⟩ := exists_leaves_steps m modelName lookups (start c)
  have hdecisions : e.decisions = left.filterMap Prod.fst := hds
  have hmessages : e.messages = left.flatMap Prod.snd := hms
  have herrors : e.hasErrors = true ↔ ∃ x ∈ left, ∃ msg ∈ x.2, msg.severity = .error := by
    rw [Evaluation.hasErrors, hmessages, List.any_flatMap]
    simp only [List.any_eq_true, beq_iff_eq]
  have hstatus : (∃ r ∈ e.decisions, r.status ≠ .succeeded)
      ↔ ∃ x ∈ left, ∃ r ∈ x.1, r.status ≠ .succeeded := by
    rw [hdecisions]
    simp only [List.mem_filterMap]
    constructor
    · rintro ⟨r, ⟨x, hx, hr⟩, hs⟩
      exact ⟨x, hx, r, hr, hs⟩
    · rintro ⟨x, hx, r, hr, hs⟩
      exact ⟨r, ⟨x, hx, hr⟩, hs⟩
  rw [hstatus, herrors]
  exact ⟨⟨left, hleft, hdecisions, hmessages⟩, error_iff_of_leaves hleft⟩

end Run

end DecisionService
