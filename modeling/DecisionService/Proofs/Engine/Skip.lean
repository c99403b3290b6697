import Mathlib
import DecisionService.Engine.Logic
import DecisionService.Proofs.Engine.Run
/-!
# Which decisions a run skips

A run keeps the context, the names without a value and the results. The results decide the other
two, and with them what is available to the next decision. A decision is skipped exactly when
something that it requires is not available, and that is the case exactly when it depends, directly
or through other decisions, on a name that is not there or on a decision that failed.
-/
namespace DecisionService.Run

/-- A decision of the name has given a value, or none of that name was evaluated and the input has
an entry for it. -/
def Available (c : Context) (earlier : List DecisionResult) (name : String) : Prop :=
  (∃ r ∈ earlier, r.name = name ∧ r.status = .succeeded)
    ∨ ((∀ r ∈ earlier, r.name ≠ name) ∧ c.contains name = true)

instance (c : Context) (earlier : List DecisionResult) (name : String) :
    Decidable (Available c earlier name) :=
  inferInstanceAs (Decidable (_ ∨ _))

/-- The result of a decision, and what is said about it, as they follow from the input and the
results before it. -/
structure Follows (c : Context) (earlier : List DecisionResult) (d : Decision) (r : DecisionResult)
    (said : List Message) : Prop where
  id : r.id = d.id
  name : r.name = d.name
  skipped_iff : r.status = .skipped ↔ ∃ name ∈ d.requires, ¬ Available c earlier name
  skipped : r.status = .skipped → r.result = .null
    ∧ said = (d.requires.filter fun name => ¬ Available c earlier name).map (missingMessage d)
  evaluated : r.status ≠ .skipped →
    (∃ v, d.logic (overlay c earlier) = .ok v ∧ r.status = .succeeded ∧ r.result = v ∧ said = [])
    ∨ ∃ text, d.logic (overlay c earlier) = .error text ∧ r.status = .failed ∧ r.result = .null
      ∧ said = [failureMessage d text]

/-- A decision depends on a name that is not there, on a decision that failed, or on one that is
affected itself. Before it stand the decisions evaluated so far with their results. -/
inductive Affected (c : Context) : List (Decision × DecisionResult) → Decision → Prop
  | absent {before d name} (h : name ∈ d.requires) (hb : ∀ p ∈ before, p.1.name ≠ name)
      (hc : c.contains name = false) : Affected c before d
  | failed {before d p} (h : p.1.name ∈ d.requires) (hp : p ∈ before)
      (hf : p.2.status = .failed) : Affected c before d
  | dependent {before p between d} (h : p.1.name ∈ d.requires) (ha : Affected c before p.1) :
      Affected c (before ++ p :: between) d

def history (m : Model) (modelName : String) (c : Context) (lookups : List Lookup) :
    List (Decision × DecisionResult) :=
  (lookups.filterMap m.find?).zip (m.evaluate modelName c lookups).decisions

/-- Where no name is evaluated twice, a name is available exactly when it is provided. -/
private theorem available_iff {c : Context} {earlier : List DecisionResult}
    (hn : (earlier.map DecisionResult.name).Nodup) (name : String) :
    Available c earlier name ↔ Provided c earlier name := by
  constructor
  · rintro (⟨r, hr, hname, hs⟩ | ⟨hnone, hc⟩)
    · refine ⟨Or.inr ⟨r, hr, hname⟩, fun x hx hxn => ?_⟩
      have heq : x = r := List.inj_on_of_nodup_map hn hx hr (hxn.trans hname.symm)
      exact heq ▸ hs
    · exact ⟨Or.inl hc, fun x hx hxn => absurd hxn (hnone x hx)⟩
  · rintro ⟨hin, hall⟩
    by_cases hx : ∃ r ∈ earlier, r.name = name
    · obtain ⟨r, hr, hname⟩ := hx
      exact Or.inl ⟨r, hr, hname, hall r hr hname⟩
    · exact Or.inr ⟨fun r hr hname => hx ⟨r, hr, hname⟩, hin.resolve_right hx⟩

private theorem follows_evaluate {c : Context} {ds : List Decision} {r : Run}
    (h : Invariant c ds r) (hn : (ds.map Decision.name).Nodup) (d : Decision) :
    Follows c r.evaluation.decisions d (r.resultOf d) (r.outcome d).messages := by
  rw [← h.names] at hn
  have hmissing : r.missing d
      = d.requires.filter fun name => ¬ Available c r.evaluation.decisions name := by
    simp only [h.missing_eq, available_iff hn]
  have hexists : (∃ name ∈ d.requires, ¬ Available c r.evaluation.decisions name)
      ↔ r.missing d ≠ [] := by
    rw [hmissing, ne_eq, List.filter_eq_nil_iff]
    simp
  rcases outcome_cases r d with ⟨hm, ho⟩ | ⟨hm, ⟨v, hl, ho⟩ | ⟨text, hl, ho⟩⟩
  · refine ⟨rfl, rfl, ?_, fun _ => ⟨?_, ?_⟩, fun hs => absurd ?_ hs⟩
    · simp [resultOf, ho, hexists, hm]
    · rw [resultOf, ho]
    · rw [ho, hmissing]
    · rw [resultOf, ho]
  · refine ⟨rfl, rfl, ?_, ?_, fun _ => Or.inl ⟨v, h.context ▸ hl, ?_, ?_, ?_⟩⟩
    · simp [resultOf, ho, hexists, hm]
    · simp [resultOf, ho]
    · rw [resultOf, ho]
    · rw [resultOf, ho]
    · rw [ho]
  · refine ⟨rfl, rfl, ?_, ?_, fun _ => Or.inr ⟨text, h.context ▸ hl, ?_, ?_, ?_⟩⟩
    · simp [resultOf, ho, hexists, hm]
    · simp [resultOf, ho]
    · rw [resultOf, ho]
    · rw [resultOf, ho]
    · rw [ho]

section History

variable {c : Context}

private def Lawful (c : Context) (h : List (Decision × DecisionResult)) : Prop :=
  ∀ before p after, h = before ++ p :: after →
    ∃ said, Follows c (before.map Prod.snd) p.1 p.2 said

private theorem lawful_concat {h : List (Decision × DecisionResult)} (hl : Lawful c h)
    {p : Decision × DecisionResult} {said : List Message}
    (hp : Follows c (h.map Prod.snd) p.1 p.2 said) : Lawful c (h ++ [p]) := by
  intro before q after heq
  rcases after.eq_nil_or_concat with rfl | ⟨middle, last, rfl⟩
  · obtain ⟨rfl, hq⟩ := List.append_inj' heq rfl
    cases hq
    exact ⟨said, hp⟩
  · rw [List.concat_eq_append, ← List.cons_append, ← List.append_assoc] at heq
    exact hl before q middle (List.append_inj' heq rfl).1

private theorem lawful_history (m : Model) (modelName : String) (lookups : List Lookup)
    (hn : ((lookups.filterMap m.find?).map Decision.name).Nodup) :
    Lawful c (history m modelName c lookups)
      ∧ (history m modelName c lookups).map Prod.snd
        = (m.evaluate modelName c lookups).decisions
      ∧ (history m modelName c lookups).map Prod.fst = lookups.filterMap m.find? := by
  induction lookups using List.reverseRecOn with
  | nil =>
    refine ⟨fun before p after heq => ?_, rfl, rfl⟩
    cases before <;> cases heq
  | append_singleton lookups l ih =>
    rw [List.filterMap_append, List.map_append] at hn
    obtain ⟨hlawful, hresults, hdecisions⟩ := ih (List.nodup_append.mp hn).1
    have hinv := invariant_steps m modelName lookups (invariant_start c)
    cases hl : m.find? l with
    | none =>
      have hsame : history m modelName c (lookups ++ [l]) = history m modelName c lookups := by
        simp [history, Model.evaluate, step, hl]
      have heval : (m.evaluate modelName c (lookups ++ [l])).decisions
          = (m.evaluate modelName c lookups).decisions := by
        simp [Model.evaluate, step, hl]
      rw [hsame, heval, hdecisions]
      exact ⟨hlawful, hresults, by simp [hl]⟩
    | some d =>
      have hlength : (lookups.filterMap m.find?).length
          = (m.evaluate modelName c lookups).decisions.length := by
        have hlen := congrArg List.length hinv.decisions
        rw [List.length_map, List.length_map] at hlen
        exact hlen.symm
      have heval : (m.evaluate modelName c (lookups ++ [l])).decisions
          = (m.evaluate modelName c lookups).decisions
            ++ [(lookups.foldl (step m modelName) (start c)).resultOf d] := by
        simp [Model.evaluate, step, hl, evaluate, resultOf]
      have hmore : history m modelName c (lookups ++ [l]) = history m modelName c lookups
          ++ [(d, (lookups.foldl (step m modelName) (start c)).resultOf d)] := by
        rw [history, heval, List.filterMap_append, List.zip_append hlength]
        simp [history, hl]
      have hfollows := follows_evaluate hinv (List.nodup_append.mp hn).1 d
      rw [hmore, heval, List.map_append, List.map_append, hresults, hdecisions]
      exact ⟨lawful_concat hlawful (hresults ▸ hfollows), rfl, by simp [hl]⟩

private theorem name_of_lawful {h : List (Decision × DecisionResult)} (hl : Lawful c h)
    {p : Decision × DecisionResult} (hp : p ∈ h) : p.2.name = p.1.name := by
  obtain ⟨before, after, rfl⟩ := List.append_of_mem hp
  obtain ⟨said, hf⟩ := hl before p after rfl
  exact hf.name

private theorem not_available {h : List (Decision × DecisionResult)} (hl : Lawful c h)
    (hn : (h.map fun p => p.1.name).Nodup) {p : Decision × DecisionResult} (hp : p ∈ h)
    (hs : p.2.status ≠ .succeeded) : ¬ Available c (h.map Prod.snd) p.1.name := by
  rintro (⟨r, hr, hname, hsucceeded⟩ | ⟨hnone, -⟩)
  · obtain ⟨q, hq, rfl⟩ := List.mem_map.mp hr
    rw [name_of_lawful hl hq] at hname
    exact hs (List.inj_on_of_nodup_map hn hq hp hname ▸ hsucceeded)
  · exact hnone p.2 (List.mem_map_of_mem hp) (name_of_lawful hl hp)

private theorem affected_of_missing {before : List (Decision × DecisionResult)}
    (hl : Lawful c before) (hpart : ∀ first q between, before = first ++ q :: between →
      q.2.status = .skipped → Affected c first q.1) {d : Decision} {name : String}
    (hname : name ∈ d.requires) (hnot : ¬ Available c (before.map Prod.snd) name) :
    Affected c before d := by
  by_cases hq : ∃ q ∈ before, q.1.name = name
  · obtain ⟨q, hq, rfl⟩ := hq
    obtain ⟨first, between, heq⟩ := List.append_of_mem hq
    obtain ⟨said, hfq⟩ := hl first q between heq
    by_cases hs : q.2.status = .skipped
    · have haffected := hpart first q between heq hs
      rw [heq]
      exact .dependent hname haffected
    · rcases hfq.evaluated hs with ⟨v, -, hok, -⟩ | ⟨text, -, hfailed, -⟩
      · exact absurd (Or.inl ⟨q.2, List.mem_map_of_mem hq, name_of_lawful hl hq, hok⟩) hnot
      · exact .failed hname hq hfailed
  · apply Affected.absent hname
    · intro q hq' hn'
      exact hq ⟨q, hq', hn'⟩
    · rw [← Bool.not_eq_true]
      intro hc
      apply hnot
      refine Or.inr ⟨fun r hr hrn => ?_, hc⟩
      obtain ⟨q, hq', rfl⟩ := List.mem_map.mp hr
      exact hq ⟨q, hq', (name_of_lawful hl hq').symm.trans hrn⟩

private theorem missing_of_affected {before : List (Decision × DecisionResult)}
    (hl : Lawful c before) (hn : (before.map fun q => q.1.name).Nodup)
    (hpart : ∀ first q between, before = first ++ q :: between → Affected c first q.1 →
      q.2.status = .skipped) {d : Decision} (ha : Affected c before d) :
    ∃ name ∈ d.requires, ¬ Available c (before.map Prod.snd) name := by
  cases ha with
  | absent hname hb hc =>
    refine ⟨_, hname, ?_⟩
    rintro (⟨r, hr, hrn, -⟩ | ⟨-, hin⟩)
    · obtain ⟨q, hq, rfl⟩ := List.mem_map.mp hr
      exact hb q hq ((name_of_lawful hl hq).symm.trans hrn)
    · rw [hc] at hin
      cases hin
  | failed hname hq hfailed =>
    exact ⟨_, hname, not_available hl hn hq (by rw [hfailed]; decide)⟩
  | dependent hname ha =>
    have hskipped := hpart _ _ _ rfl ha
    exact ⟨_, hname, not_available hl hn (by simp) (by rw [hskipped]; decide)⟩

private theorem skipped_iff_affected {before : List (Decision × DecisionResult)}
    {p : Decision × DecisionResult} {said : List Message} (hl : Lawful c before)
    (hn : (before.map fun q => q.1.name).Nodup)
    (hf : Follows c (before.map Prod.snd) p.1 p.2 said) :
    p.2.status = .skipped ↔ Affected c before p.1 := by
  -- a decision is affected through one that stands before it, so the induction is on what does
  induction hlen : before.length using Nat.strong_induction_on generalizing before p said with
  | h n ih =>
    have hpart : ∀ first q between, before = first ++ q :: between →
        (q.2.status = .skipped ↔ Affected c first q.1) := by
      rintro first q between rfl
      obtain ⟨said, hq⟩ := hl first q between rfl
      have hsub : (first.map fun q => q.1.name).Nodup := by
        rw [List.map_append] at hn
        exact (List.nodup_append.mp hn).1
      have hfirst : Lawful c first := by
        intro a x b heq
        exact hl a x (b ++ q :: between) (by rw [heq, List.append_assoc, List.cons_append])
      refine ih first.length ?_ hfirst hsub hq rfl
      rw [← hlen, List.length_append, List.length_cons]
      omega
    rw [hf.skipped_iff]
    constructor
    · rintro ⟨name, hname, hnot⟩
      exact affected_of_missing hl (fun first q between heq => (hpart first q between heq).mp)
        hname hnot
    · intro ha
      exact missing_of_affected hl hn (fun first q between heq => (hpart first q between heq).mpr)
        ha

end History

/-- The step law of a run. Behind any look-ups before it, the result of a decision follows from the
results before it, it stands next to them to the end of the run, and the decision is skipped exactly
when what was not there or failed before it affects it. -/
theorem evaluate_skips (m : Model) (modelName : String) (c : Context) (before after : List Lookup)
    (l : Lookup) (d : Decision) (hd : m.find? l = some d)
    (hn : (((before ++ l :: after).filterMap m.find?).map Decision.name).Nodup) :
    let earlier := m.evaluate modelName c before
    let whole := m.evaluate modelName c (before ++ l :: after)
    earlier.decisions.map (fun r => (r.id, r.name))
        = (before.filterMap m.find?).map (fun d => (d.id, d.name))
      ∧ ∃ r said later rest, whole.decisions = earlier.decisions ++ r :: later
        ∧ whole.messages = earlier.messages ++ said ++ rest
        ∧ Follows c earlier.decisions d r said
        ∧ (r.status = .skipped ↔ Affected c (history m modelName c before) d) := by
  intro earlier whole
  rw [List.filterMap_append, List.map_append] at hn
  have hbefore := (List.nodup_append.mp hn).1
  obtain ⟨hlawful, hresults, hdecisions⟩ := lawful_history (c := c) m modelName before hbefore
  have hinv := invariant_steps m modelName before (invariant_start c)
  have hfollows := follows_evaluate hinv hbefore d
  obtain ⟨later, rest, hds, hms⟩ := steps_extend m modelName after
    ((before.foldl (step m modelName) (start c)).evaluate d)
  have hwhole : whole = (after.foldl (step m modelName)
      ((before.foldl (step m modelName) (start c)).evaluate d)).evaluation := by
    simp only [whole, Model.evaluate, List.foldl_append, List.foldl_cons, step, hd]
  refine ⟨hinv.decisions, (before.foldl (step m modelName) (start c)).resultOf d, _, later, rest,
    ?_, ?_, hfollows, ?_⟩
  · rw [hwhole, hds]
    exact List.append_assoc _ _ _
  · rw [hwhole, hms]
    rfl
  · have hnames : ((history m modelName c before).map fun q => q.1.name).Nodup := by
      have hmap := congrArg (List.map Decision.name) hdecisions
      rw [List.map_map] at hmap
      exact hmap ▸ hbefore
    exact skipped_iff_affected (p := (d, _)) hlawful hnames (hresults ▸ hfollows)

def failureChain : Model :=
  ⟨"ns", "chain", "_chain",
    [Logic.decision "1" "rate" ["income"] (.fail "no rate"),
      Logic.decision "2" "price" ["rate", "amount"] (.copy "rate"),
      Logic.decision "3" "offer" ["amount", "price"] (.copy "price"),
      Logic.decision "4" "limit" ["amount"] (.copy "amount")]⟩

theorem evaluate_skips_chain :
    let c : Context := ⟨[("income", .null), ("amount", .bool true)]⟩
    let before : List Lookup := [.byName "rate", .byId "2"]
    let d := Logic.decision "3" "offer" ["amount", "price"] (.copy "price")
    let earlier := failureChain.evaluate "chain" c before
    let whole := failureChain.evaluate "chain" c (before ++ .byName "offer" :: [.byName "limit"])
    earlier.decisions.map (fun r => (r.id, r.name)) = [("1", "rate"), ("2", "price")]
      ∧ ∃ r said later rest, whole.decisions = earlier.decisions ++ r :: later
        ∧ whole.messages = earlier.messages ++ said ++ rest
        ∧ Follows c earlier.decisions d r said
        ∧ (r.status = .skipped ↔ Affected c (history failureChain "chain" c before) d) :=
  evaluate_skips failureChain "chain" _ _ [.byName "limit"] (.byName "offer") _ rfl (by decide)

/-- The failure reaches what needs it, and nothing else. -/
example : ((failureChain.evaluate "chain" ⟨[("income", .null), ("amount", .bool true)]⟩
    failureChain.allLookups).decisions.map DecisionResult.status)
      = [.failed, .skipped, .skipped, .succeeded] := by
  decide

end DecisionService.Run
