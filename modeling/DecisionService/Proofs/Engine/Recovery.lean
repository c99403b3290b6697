import Mathlib
import DecisionService.Engine.Logic
import DecisionService.Proofs.Engine.Run
/-!
# Decisions that are evaluated again

A decision that gave no value may be evaluated again and give one. The context then holds the value,
but the name stays among those without a value: the decisions that require it go on missing it. Only
a name whose every evaluation gave a value is not missed.
-/
namespace DecisionService.Run

private theorem missingMessage_injective (d : Decision) :
    Function.Injective (missingMessage d) := by
  intro a b h
  simp only [missingMessage, Message.mk.injEq, String.append_left_inj, String.append_right_inj] at h
  exact h.2.1

theorem missingMessage_mem_iff (r : Run) (d : Decision) (name : String) :
    missingMessage d name ∈ (r.outcome d).messages ↔ name ∈ r.missing d := by
  rcases outcome_cases r d with ⟨-, ho⟩ | ⟨hm, ⟨v, -, ho⟩ | ⟨text, -, ho⟩⟩
  · rw [ho]
    exact List.mem_map_of_injective (missingMessage_injective d)
  · rw [ho, hm]
    simp
  · have htype : missingMessage d name ≠ failureMessage d text := by
      intro h
      have := congrArg Message.type h
      cases this
    rw [ho, hm]
    simp [htype]

theorem messages_step (m : Model) (modelName : String) (c : Context) (before : List Lookup)
    {l : Lookup} {d : Decision} (hd : m.find? l = some d) :
    let said := ((before.foldl (step m modelName) (start c)).outcome d).messages
    (m.evaluate modelName c (before ++ [l])).messages
        = (m.evaluate modelName c before).messages ++ said
      ∧ ∀ after, (m.evaluate modelName c before).messages ++ said
        <+: (m.evaluate modelName c (before ++ l :: after)).messages := by
  intro said
  have hstep : step m modelName (before.foldl (step m modelName) (start c)) l
      = (before.foldl (step m modelName) (start c)).evaluate d := by
    rw [step, hd]
  refine ⟨?_, fun after => ?_⟩
  · rw [Model.evaluate, List.foldl_append, List.foldl_cons, List.foldl_nil, hstep]
    rfl
  · obtain ⟨-, rest, -, hrest⟩ := steps_extend m modelName after
      ((before.foldl (step m modelName) (start c)).evaluate d)
    rw [Model.evaluate, Model.evaluate, List.foldl_append, List.foldl_cons, hstep, hrest]
    exact List.prefix_append _ _

/-- Where the last evaluation of a name gave a value, the context holds it, and yet the next decision
that requires the name misses it unless every evaluation before that one gave a value as well. -/
theorem evaluate_recovered (m : Model) (modelName : String) (c : Context) (before : List Lookup)
    (l : Lookup) (d : Decision) (hd : m.find? l = some d) (first between : List DecisionResult)
    (r : DecisionResult)
    (hr : (m.evaluate modelName c before).decisions = first ++ r :: between)
    (hb : ∀ x ∈ between, x.name ≠ r.name) (hs : r.status = .succeeded) :
    let earlier := m.evaluate modelName c before
    earlier.context.get? r.name = some r.result
      ∧ ∃ said, (m.evaluate modelName c (before ++ [l])).messages = earlier.messages ++ said
        ∧ (∀ after, earlier.messages ++ said
          <+: (m.evaluate modelName c (before ++ l :: after)).messages)
        ∧ (missingMessage d r.name ∉ said ↔ r.name ∉ d.requires
          ∨ ∀ x ∈ first, x.name = r.name → x.status = .succeeded) := by
  intro earlier
  have hinv := invariant_steps m modelName before (invariant_start c)
  obtain ⟨hsaid, hafter⟩ := messages_step m modelName c before hd
  refine ⟨?_, _, hsaid, hafter, ?_⟩
  · have hcontext : earlier.context = overlay c earlier.decisions := hinv.context
    rw [hcontext, get?_overlay, hr, latest?_eq_some rfl hb]
    rfl
  -- behind a success only the evaluations before it can keep the name from being provided
  · have hprovided : Provided c earlier.decisions r.name
        ↔ ∀ x ∈ first, x.name = r.name → x.status = .succeeded := by
      rw [hr]
      constructor
      · intro h x hx hn
        exact h.2 x (List.mem_append_left _ hx) hn
      · intro h
        refine ⟨Or.inr ⟨r, List.mem_append_right _ List.mem_cons_self, rfl⟩, fun x hx hn => ?_⟩
        rcases List.mem_append.mp hx with hx | hx
        · exact h x hx hn
        · rcases List.mem_cons.mp hx with rfl | hx
          · exact hs
          · exact absurd hn (hb x hx)
    have hmissing := (missingMessage_mem_iff _ d r.name).trans (hinv.mem_missing_iff d r.name)
    rw [hmissing, ← hprovided, not_and, not_not]
    exact imp_iff_not_or

def offerModel : Model :=
  ((((Model.new "urn:1" "m").withDecision (Logic.decision "1" "rate" [] (.const (.bool true))))
    |>.withDecision (Logic.decision "2" "price" ["rate"] (.copy "rate")))
    |>.withDecision (Logic.decision "3" "offer" ["price"] (.copy "price")))

theorem evaluate_recovered_offer :
    let c : Context := ⟨[("rate", .bool false)]⟩
    let before : List Lookup := [.byName "price", .byName "rate", .byName "price"]
    let d := Logic.decision "3" "offer" ["price"] (.copy "price")
    let earlier := offerModel.evaluate "m" c before
    earlier.context.get? "price" = some (.bool true)
      ∧ ∃ said, (offerModel.evaluate "m" c (before ++ [.byName "offer"])).messages
          = earlier.messages ++ said
        ∧ (∀ after, earlier.messages ++ said
          <+: (offerModel.evaluate "m" c (before ++ .byName "offer" :: after)).messages)
        ∧ (missingMessage d "price" ∉ said ↔ "price" ∉ d.requires
          ∨ ∀ x ∈ [⟨"2", "price", .bool false, .succeeded⟩, ⟨"1", "rate", .bool true, .succeeded⟩],
            DecisionResult.name x = "price" → x.status = .succeeded) :=
  evaluate_recovered offerModel "m" _ _ (.byName "offer") _ rfl _ []
    ⟨"2", "price", .bool true, .succeeded⟩ rfl (by simp) rfl

/-- The price is skipped, the rate is found, the price is found, and still the offer misses it. -/
theorem recovered_still_missing :
    let before : List Lookup := [.byName "price", .byName "rate", .byName "price"]
    let d := Logic.decision "3" "offer" ["price"] (.copy "price")
    let earlier := offerModel.evaluate "m" .empty before
    offerModel.find? (.byName "offer") = some d
      ∧ earlier.decisions = [⟨"2", "price", .null, .skipped⟩, ⟨"1", "rate", .bool true, .succeeded⟩,
        ⟨"2", "price", .bool true, .succeeded⟩]
      ∧ earlier.context.get? "price" = some (.bool true)
      ∧ (offerModel.evaluate "m" .empty (before ++ [.byName "offer"])).messages
        = earlier.messages ++ [missingMessage d "price"] :=
  ⟨rfl, rfl, rfl, rfl⟩

end DecisionService.Run
