import Mathlib
import DecisionService.Engine.Run
import DecisionService.Proofs.Entries
/-!
# What the results of a run decide

A run keeps the context, the names without a value and the results. The results decide the other
two, and so they decide the next result: the results of a run are those of the decisions that its
look-ups find, one after the other, each after the results before it.
-/
namespace DecisionService.Run

def overlay (c : Context) (earlier : List DecisionResult) : Context :=
  earlier.foldl (fun c r => c.set r.name r.result) c

def latest? (name : String) (earlier : List DecisionResult) : Option DecisionResult :=
  earlier.reverse.find? (·.name == name)

/-- The input or a decision has an entry of the name, and no decision of the name went without a
value. -/
def Provided (c : Context) (earlier : List DecisionResult) (name : String) : Prop :=
  (c.contains name = true ∨ ∃ r ∈ earlier, r.name = name)
    ∧ ∀ r ∈ earlier, r.name = name → r.status = .succeeded

instance (c : Context) (earlier : List DecisionResult) (name : String) :
    Decidable (Provided c earlier name) :=
  inferInstanceAs (Decidable (_ ∧ _))

def resultAfter (c : Context) (earlier : List DecisionResult) (d : Decision) : DecisionResult :=
  if ∀ name ∈ d.requires, Provided c earlier name then
    match d.logic (overlay c earlier) with
    | .ok v => ⟨d.id, d.name, v, .succeeded⟩
    | .error _ => ⟨d.id, d.name, .null, .failed⟩
  else ⟨d.id, d.name, .null, .skipped⟩

def results (c : Context) (ds : List Decision) : List DecisionResult :=
  ds.foldl (fun earlier d => earlier ++ [resultAfter c earlier d]) []

/-- The results decide what else a run keeps. -/
structure Invariant (c : Context) (ds : List Decision) (r : Run) : Prop where
  decisions : r.evaluation.decisions.map (fun x => (x.id, x.name)) = ds.map fun d => (d.id, d.name)
  context : r.evaluation.context = overlay c r.evaluation.decisions
  unavailable : ∀ name, name ∈ r.unavailable
    ↔ ∃ x ∈ r.evaluation.decisions, x.name = name ∧ x.status ≠ .succeeded

def resultOf (r : Run) (d : Decision) : DecisionResult :=
  ⟨d.id, d.name, (r.outcome d).value, (r.outcome d).status⟩

section Results

variable (c : Context)

theorem results_concat (ds : List Decision) (d : Decision) :
    results c (ds ++ [d]) = results c ds ++ [resultAfter c (results c ds) d] := by
  simp only [results, List.foldl_append, List.foldl_cons, List.foldl_nil]

@[simp] theorem length_results (ds : List Decision) : (results c ds).length = ds.length := by
  induction ds using List.reverseRecOn with
  | nil => rfl
  | append_singleton ds d ih => simp [results_concat, ih]

theorem getElem?_results (ds : List Decision) (i : Nat) :
    (results c ds)[i]? = ds[i]?.map (resultAfter c ((results c ds).take i)) := by
  induction ds using List.reverseRecOn with
  | nil => rfl
  | append_singleton ds d ih =>
    have hlength := length_results c ds
    rw [results_concat]
    rcases Nat.lt_trichotomy i ds.length with hi | rfl | hi
    · have htake : (results c ds ++ [resultAfter c (results c ds) d]).take i
          = (results c ds).take i := List.take_append_of_le_length (by omega)
      rw [List.getElem?_append_left (by omega), List.getElem?_append_left hi, htake]
      exact ih
    · have htake : (results c ds ++ [resultAfter c (results c ds) d]).take ds.length
          = results c ds := List.take_left' hlength
      rw [htake, List.getElem?_append_right hlength.le, List.getElem?_append_right le_rfl, hlength,
        Nat.sub_self]
      rfl
    · have hout : (results c ds ++ [resultAfter c (results c ds) d]).length ≤ i := by
        simp only [List.length_append, List.length_singleton]
        omega
      have hout' : (ds ++ [d]).length ≤ i := by
        simp only [List.length_append, List.length_singleton]
        omega
      rw [List.getElem?_eq_none hout, List.getElem?_eq_none hout']
      rfl

end Results

theorem outcome_cases (r : Run) (d : Decision) :
    (r.missing d ≠ [] ∧ r.outcome d = ⟨.skipped, .null, (r.missing d).map (missingMessage d)⟩)
      ∨ r.missing d = []
        ∧ ((∃ v, d.logic r.evaluation.context = .ok v ∧ r.outcome d = ⟨.succeeded, v, []⟩)
          ∨ ∃ text, d.logic r.evaluation.context = .error text
            ∧ r.outcome d = ⟨.failed, .null, [failureMessage d text]⟩) := by
  cases hm : r.missing d with
  | cons name names =>
    have ho : r.outcome d = ⟨.skipped, .null, (r.missing d).map (missingMessage d)⟩ := by
      rw [outcome, hm]
    exact Or.inl ⟨List.cons_ne_nil _ _, hm ▸ ho⟩
  | nil =>
    refine Or.inr ⟨rfl, ?_⟩
    cases hl : d.logic r.evaluation.context with
    | ok v => exact Or.inl ⟨v, rfl, by rw [outcome, hm, hl]⟩
    | error text => exact Or.inr ⟨text, rfl, by rw [outcome, hm, hl]⟩

theorem contains_set (c : Context) (name : String) (v : Value) (other : String) :
    (c.set name v).contains other = true ↔ name = other ∨ c.contains other = true := by
  simp only [Context.contains, Entries.contains, Context.set, Entries.get?_isSome_iff,
    Entries.mem_names_put]

theorem overlay_concat (c : Context) (earlier : List DecisionResult) (r : DecisionResult) :
    overlay c (earlier ++ [r]) = (overlay c earlier).set r.name r.result := by
  simp only [overlay, List.foldl_append, List.foldl_cons, List.foldl_nil]

theorem contains_overlay (c : Context) (earlier : List DecisionResult) (name : String) :
    (overlay c earlier).contains name = true
      ↔ (∃ r ∈ earlier, r.name = name) ∨ c.contains name = true := by
  induction earlier generalizing c with
  | nil => simp [overlay]
  | cons r rest ih =>
    rw [overlay, List.foldl_cons, ← overlay, ih, contains_set]
    simp only [List.mem_cons, exists_eq_or_imp]
    exact or_left_comm.trans or_assoc.symm

theorem latest?_eq_some {name : String} {first between : List DecisionResult} {r : DecisionResult}
    (hr : r.name = name) (hb : ∀ x ∈ between, x.name ≠ name) :
    latest? name (first ++ r :: between) = some r := by
  have hnone : between.reverse.find? (·.name == name) = none := by
    rw [List.find?_eq_none]
    intro x hx
    simpa using hb x (List.mem_reverse.mp hx)
  simp [latest?, List.find?_append, hnone, hr]

/-- The last decision of a name decides its entry. -/
theorem get?_overlay (c : Context) (earlier : List DecisionResult) (name : String) :
    (overlay c earlier).get? name
      = ((latest? name earlier).map DecisionResult.result).or (c.get? name) := by
  induction earlier using List.reverseRecOn with
  | nil => rfl
  | append_singleton earlier r ih =>
    rw [overlay_concat, latest?, List.reverse_append, List.reverse_singleton, List.singleton_append,
      List.find?_cons]
    by_cases hn : r.name = name
    · simp only [hn, beq_self_eq_true, Option.map_some, Option.some_or]
      exact Context.get?_set_self name r.result _
    · rw [beq_eq_false_iff_ne.mpr hn, Context.get?_set_of_ne (Ne.symm hn), ih, latest?]

theorem invariant_start (c : Context) : Invariant c [] (start c) where
  decisions := rfl
  context := rfl
  unavailable name := by simp [start]

theorem invariant_evaluate {c : Context} {ds : List Decision} {r : Run}
    (h : Invariant c ds r) (d : Decision) : Invariant c (ds ++ [d]) (r.evaluate d) where
  decisions := by
    simp only [evaluate, List.map_append, h.decisions, List.map_cons, List.map_nil]
  context := by
    simp only [evaluate, h.context, overlay_concat]
  unavailable name := by
    simp only [evaluate, List.mem_append, List.mem_singleton]
    by_cases hs : (r.outcome d).status = .succeeded
    · simp only [hs, if_true, h.unavailable]
      constructor
      · rintro ⟨x, hx, hn⟩
        exact ⟨x, Or.inl hx, hn⟩
      · rintro ⟨x, hx | rfl, hn, hne⟩
        · exact ⟨x, hx, hn, hne⟩
        · exact absurd rfl hne
    · simp only [hs, if_false, List.mem_cons, h.unavailable]
      constructor
      · rintro (rfl | ⟨x, hx, hn⟩)
        · exact ⟨_, Or.inr rfl, rfl, hs⟩
        · exact ⟨x, Or.inl hx, hn⟩
      · rintro ⟨x, hx | rfl, hn, hne⟩
        · exact Or.inr ⟨x, hx, hn, hne⟩
        · exact Or.inl hn.symm

namespace Invariant

variable {c : Context} {ds : List Decision} {r : Run}

theorem names (h : Invariant c ds r) :
    r.evaluation.decisions.map DecisionResult.name = ds.map Decision.name := by
  have hnames := congrArg (List.map Prod.snd) h.decisions
  simpa only [List.map_map, Function.comp_def] using hnames

/-- What a run counts as missing is what is not provided. -/
theorem missing_eq (h : Invariant c ds r) (d : Decision) :
    r.missing d = d.requires.filter fun name => ¬ Provided c r.evaluation.decisions name := by
  apply List.filter_congr
  intro name _
  rw [Bool.eq_iff_iff, decide_eq_true_iff]
  simp only [Bool.or_eq_true, Bool.not_eq_true', List.contains_eq_mem, decide_eq_true_eq,
    h.context, h.unavailable, ← Bool.not_eq_true, contains_overlay, Provided]
  constructor
  · rintro (habsent | ⟨x, hx, hn, hne⟩) ⟨hin, hall⟩
    · exact habsent hin.symm
    · exact hne (hall x hx hn)
  · intro hnot
    by_contra hmissing
    rw [not_or, not_not] at hmissing
    refine hnot ⟨hmissing.1.symm, fun x hx hn => ?_⟩
    by_contra hne
    exact hmissing.2 ⟨x, hx, hn, hne⟩

theorem mem_missing_iff (h : Invariant c ds r) (d : Decision) (name : String) :
    name ∈ r.missing d ↔ name ∈ d.requires ∧ ¬ Provided c r.evaluation.decisions name := by
  rw [h.missing_eq, List.mem_filter, decide_eq_true_iff]

theorem missing_eq_nil_iff (h : Invariant c ds r) (d : Decision) :
    r.missing d = [] ↔ ∀ name ∈ d.requires, Provided c r.evaluation.decisions name := by
  simp only [List.eq_nil_iff_forall_not_mem, h.mem_missing_iff, not_and, not_not]

theorem resultOf_eq (h : Invariant c ds r) (d : Decision) :
    r.resultOf d = resultAfter c r.evaluation.decisions d := by
  rcases outcome_cases r d with ⟨hm, ho⟩ | ⟨hm, ⟨v, hl, ho⟩ | ⟨text, hl, ho⟩⟩
  · rw [ne_eq, h.missing_eq_nil_iff] at hm
    rw [resultOf, ho, resultAfter, if_neg hm]
  all_goals
    rw [h.missing_eq_nil_iff] at hm
    rw [h.context] at hl
    rw [resultOf, ho, resultAfter, if_pos hm, hl]

end Invariant

section Steps

variable (m : Model) (modelName : String)

theorem invariant_steps {c : Context} (lookups : List Lookup) {ds : List Decision} {r : Run}
    (h : Invariant c ds r) :
    Invariant c (ds ++ lookups.filterMap m.find?) (lookups.foldl (step m modelName) r) := by
  induction lookups generalizing ds r with
  | nil => rwa [List.filterMap_nil, List.append_nil]
  | cons l rest ih =>
    rw [List.foldl_cons]
    cases hl : m.find? l with
    | none =>
      have hstep : Invariant c ds (step m modelName r l) := by
        simp only [step, hl]
        exact ⟨h.decisions, h.context, h.unavailable⟩
      simp only [List.filterMap_cons, hl]
      exact ih hstep
    | some d =>
      have hstep : Invariant c (ds ++ [d]) (step m modelName r l) := by
        simp only [step, hl]
        exact invariant_evaluate h d
      simp only [List.filterMap_cons, hl]
      rw [List.append_cons]
      exact ih hstep

theorem steps_extend (lookups : List Lookup) (r : Run) : ∃ later rest,
    (lookups.foldl (step m modelName) r).evaluation.decisions = r.evaluation.decisions ++ later
    ∧ (lookups.foldl (step m modelName) r).evaluation.messages
      = r.evaluation.messages ++ rest := by
  induction lookups generalizing r with
  | nil => exact ⟨[], [], by simp, by simp⟩
  | cons l lookups ih =>
    obtain ⟨later, rest, hd, hm⟩ := ih (step m modelName r l)
    rw [List.foldl_cons, hd, hm]
    cases hl : m.find? l with
    | none =>
      simp only [step, hl]
      exact ⟨later, _, rfl, List.append_assoc _ _ _⟩
    | some d =>
      simp only [step, hl, evaluate]
      exact ⟨_, _, List.append_assoc _ _ _, List.append_assoc _ _ _⟩

theorem evaluate_decisions (c : Context) (lookups : List Lookup) :
    (m.evaluate modelName c lookups).decisions = results c (lookups.filterMap m.find?) := by
  induction lookups using List.reverseRecOn with
  | nil => rfl
  | append_singleton lookups l ih =>
    have hinv := invariant_steps m modelName lookups (invariant_start c)
    rw [Model.evaluate] at ih
    rw [Model.evaluate, List.foldl_append, List.foldl_cons, List.foldl_nil, List.filterMap_append]
    cases hl : m.find? l with
    | none => simpa [step, hl] using ih
    | some d =>
      have hresult := hinv.resultOf_eq d
      rw [ih] at hresult
      simp only [step, hl, evaluate, ih, List.filterMap_cons, List.filterMap_nil, results_concat,
        ← hresult]
      rfl

theorem evaluate_context (c : Context) (lookups : List Lookup) :
    (m.evaluate modelName c lookups).context
      = overlay c (m.evaluate modelName c lookups).decisions :=
  (invariant_steps m modelName lookups (invariant_start c)).context

theorem evaluate_names (c : Context) (lookups : List Lookup) :
    (m.evaluate modelName c lookups).decisions.map DecisionResult.name
      = (lookups.filterMap m.find?).map Decision.name :=
  (invariant_steps m modelName lookups (invariant_start c)).names

end Steps

end DecisionService.Run
