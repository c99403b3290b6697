import Mathlib
import DecisionService.Proofs.Engine.Recovery
import DecisionService.Proofs.Engine.Stages
/-!
# What a run writes

A run writes the value of each decision that it evaluates under the name of the decision, and nothing
else. So the context that it leaves is the input with the last result of each name in it. A look-up
among the results ends at the first one of a name: context and results tell the same of a name
unless it was evaluated again and came to another value.
-/
namespace DecisionService

namespace Run

/-- The result is of the name, and none behind it is. -/
def LastOf (name : String) (results : List DecisionResult) (r : DecisionResult) : Prop :=
  r.name = name ∧ ∃ before after, results = before ++ r :: after ∧ ∀ x ∈ after, x.name ≠ name

theorem latest?_eq_some_iff {name : String} {results : List DecisionResult} {r : DecisionResult} :
    latest? name results = some r ↔ LastOf name results r := by
  constructor
  · intro h
    obtain ⟨hname, after, before, hreverse, hafter⟩ := List.find?_eq_some_iff_append.mp h
    refine ⟨by simpa using hname, before.reverse, after.reverse, ?_, fun x hx => ?_⟩
    · rw [← List.reverse_reverse results, hreverse, List.reverse_append, List.reverse_cons,
        List.append_assoc, List.singleton_append]
    · simpa using hafter x (List.mem_reverse.mp hx)
  · rintro ⟨hname, before, after, rfl, hafter⟩
    exact latest?_eq_some hname hafter

theorem get?_overlay_of_mem (c : Context) {name : String} {results : List DecisionResult}
    (h : name ∈ results.map DecisionResult.name) :
    ∃ last, LastOf name results last ∧ (overlay c results).get? name = some last.result := by
  cases hlatest : latest? name results with
  | none =>
    obtain ⟨r, hr, hname⟩ := List.mem_map.mp h
    have hother := List.find?_eq_none.mp hlatest r (List.mem_reverse.mpr hr)
    simp [hname] at hother
  | some last =>
    refine ⟨last, latest?_eq_some_iff.mp hlatest, ?_⟩
    rw [get?_overlay, hlatest]
    rfl

theorem get?_overlay_of_notMem (c : Context) {name : String} {results : List DecisionResult}
    (h : name ∉ results.map DecisionResult.name) : (overlay c results).get? name = c.get? name := by
  have hnone : latest? name results = none := by
    rw [latest?, List.find?_eq_none]
    intro r hr hname
    exact h (List.mem_map.mpr ⟨r, List.mem_reverse.mp hr, eq_of_beq hname⟩)
  rw [get?_overlay, hnone]
  rfl

theorem LastOf.eq_of_mem {name : String} {results : List DecisionResult} {r x : DecisionResult}
    (h : LastOf name results r) (hnodup : (results.map DecisionResult.name).Nodup)
    (hx : x ∈ results) (hname : x.name = name) : x = r := by
  obtain ⟨hr, before, after, rfl, -⟩ := h
  exact List.inj_on_of_nodup_map hnodup hx (by simp) (hname.trans hr.symm)

theorem names_overlay (c : Context) (results : List DecisionResult) :
    ∃ added, (overlay c results).names = c.names ++ added ∧ added.Nodup
      ∧ ∀ name, name ∈ added ↔ name ∉ c.names ∧ name ∈ results.map DecisionResult.name := by
  induction results using List.reverseRecOn with
  | nil => exact ⟨[], by simp [overlay]⟩
  | append_singleton results r ih =>
    obtain ⟨added, hnames, hnodup, hadded⟩ := ih
    have hput : (overlay c (results ++ [r])).names
        = if r.name ∈ c.names ++ added then c.names ++ added else c.names ++ added ++ [r.name] := by
      rw [overlay_concat, ← hnames]
      exact Entries.names_put r.name r.result _
    rw [hput]
    split
    -- the name may be there from the input or from an earlier result
    · next hin =>
      refine ⟨added, rfl, hnodup, fun name => ?_⟩
      rw [hadded, List.map_append, List.mem_append, List.map_singleton, List.mem_singleton]
      refine ⟨fun h => ⟨h.1, Or.inl h.2⟩, ?_⟩
      rintro ⟨hc, hr | rfl⟩
      · exact ⟨hc, hr⟩
      · exact (hadded _).mp ((List.mem_append.mp hin).resolve_left hc)
    · next hout =>
      rw [List.mem_append, not_or] at hout
      refine ⟨added ++ [r.name], List.append_assoc _ _ _, ?_, fun name => ?_⟩
      · exact hnodup.append (List.nodup_singleton _) (by simpa using hout.2)
      · rw [List.mem_append, hadded, List.map_append, List.mem_append, List.map_singleton,
          List.mem_singleton]
        constructor
        · rintro (⟨hc, hr⟩ | rfl)
          · exact ⟨hc, Or.inl hr⟩
          · exact ⟨hout.1, Or.inr rfl⟩
        · rintro ⟨hc, hr | rfl⟩
          · exact Or.inl ⟨hc, hr⟩
          · exact Or.inr rfl

/-- The context holds the last result of a name among those of which a look-up finds the first. -/
theorem evaluate_byName? (m : Model) (modelName : String) (c : Context) (lookups : List Lookup)
    {name : String} {first : DecisionResult}
    (h : (m.evaluate modelName c lookups).byName? name = some first) :
    ∃ last, LastOf name (m.evaluate modelName c lookups).decisions last
      ∧ (m.evaluate modelName c lookups).context.get? name = some last.result := by
  rw [evaluate_context]
  refine get?_overlay_of_mem c (List.mem_map.mpr ⟨first, List.mem_of_find?_eq_some h, ?_⟩)
  simpa using List.find?_some h

/-- The frame of an evaluation. There is one result for each decision that a look-up finds. The
context has the names of the input and behind them those of these decisions, what is of no such name
is as it was, and what is of one holds the last result of the name. -/
theorem evaluate_frame (m : Model) (modelName : String) (c : Context) (lookups : List Lookup) :
    let e := m.evaluate modelName c lookups
    let evaluated := lookups.filterMap m.find?
    e.decisions.map (fun r => (r.id, r.name)) = evaluated.map (fun d => (d.id, d.name))
      ∧ (∃ added, e.context.names = c.names ++ added ∧ added.Nodup
        ∧ ∀ name, name ∈ added ↔ name ∉ c.names ∧ ∃ d ∈ evaluated, d.name = name)
      ∧ (∀ name, (∀ d ∈ evaluated, d.name ≠ name) → e.context.get? name = c.get? name)
      ∧ ∀ d ∈ evaluated, ∃ r, LastOf d.name e.decisions r
        ∧ e.context.get? d.name = some r.result := by
  intro e evaluated
  have hcontext : e.context = overlay c e.decisions := evaluate_context m modelName c lookups
  have hnames : e.decisions.map DecisionResult.name = evaluated.map Decision.name :=
    evaluate_names m modelName c lookups
  refine ⟨(invariant_steps m modelName lookups (invariant_start c)).decisions, ?_, ?_, ?_⟩
  · obtain ⟨added, hadded, hnodup, hmem⟩ := names_overlay c e.decisions
    refine ⟨added, hcontext ▸ hadded, hnodup, fun name => ?_⟩
    rw [hmem, hnames, List.mem_map]
  · intro name hother
    rw [hcontext]
    apply get?_overlay_of_notMem
    rw [hnames, List.mem_map]
    rintro ⟨d, hd, hname⟩
    exact hother d hd hname
  · intro d hd
    rw [hcontext]
    apply get?_overlay_of_mem
    rw [hnames]
    exact List.mem_map_of_mem hd

end Run

theorem Model.names_byName_sublist (m : Model) (names : List String) :
    (((names.map Lookup.byName).filterMap m.find?).map Decision.name).Sublist names := by
  induction names with
  | nil => exact List.Sublist.slnil
  | cons name rest ih =>
    simp only [List.map_cons, List.filterMap_cons]
    cases hfind : m.find? (.byName name) with
    | none => exact ih.cons name
    | some d =>
      have hfits := List.find?_some hfind
      rw [List.map_cons, show d.name = name from eq_of_beq hfits]
      exact ih.cons_cons name

/-- The context holds what a look-up of the name among the results finds. -/
def Report.AgreesOn (report : Report) (name : String) : Prop :=
  ∀ r, report.byName? name = some r → report.context.get? name = some r.result

namespace Service

theorem eq_byName_of_selector {request : Request} {selection : Selector}
    (h : selector request = .ok selection) (hsome : request.names ≠ []) :
    selection = .byName request.names := by
  rw [selector, Selector.ofRequest?] at h
  cases hnames : request.names with
  | nil => exact absurd hnames hsome
  | cons name names =>
    rw [hnames] at h
    cases hids : request.ids with
    | nil =>
      rw [hids] at h
      exact (Except.ok.inj h).symm
    | cons id ids =>
      rw [hids] at h
      cases h

/-- The context of a report holds the last result of each name. It holds what a look-up among the
results finds exactly when the last result of the name is of the same value as the first, and so for
all names if the request asks for decisions by name and for none twice. -/
theorem evaluate_views {r : Registry} {id : String} {format : Format} {payload : Bytes}
    {report : Report} (h : (evaluate r id format payload).result? = some report) :
    (∀ name first, report.byName? name = some first →
      ∃ last, Run.LastOf name report.decisions last
        ∧ report.context.get? name = some last.result
        ∧ (report.AgreesOn name ↔ last.result = first.result))
    ∧ ∀ request : Request, format.unmarshal payload = .ok request → request.names ≠ [] →
      request.names.Nodup → ∀ name, report.AgreesOn name := by
  obtain ⟨s, request, -, hu, ha⟩ := answer_of_evaluate h
  obtain ⟨info, m, selection, -, -, hs, rfl⟩ := answer_eq_ok ha
  set e := m.evaluate info.name request.context (m.lookups selection) with he
  have hlast : ∀ name first, e.byName? name = some first →
      ∃ last, Run.LastOf name e.decisions last ∧ e.context.get? name = some last.result :=
    fun _ _ => Run.evaluate_byName? m info.name request.context (m.lookups selection)
  constructor
  · intro name first hfirst
    obtain ⟨last, hof, hget⟩ := hlast name first hfirst
    refine ⟨last, hof, hget, ?_⟩
    constructor
    · intro hagrees
      exact Option.some.inj (hget.symm.trans (hagrees first hfirst))
    · intro hsame r hr
      cases Option.some.inj (hfirst.symm.trans hr)
      exact hget.trans (congrArg some hsame)
  · intro request' hu' hsome hnodup name first hfirst
    cases Except.ok.inj (hu'.symm.trans hu)
    obtain ⟨last, hof, hget⟩ := hlast name first hfirst
    have hselection : m.lookups selection = request.names.map .byName := by
      rw [eq_byName_of_selector hs hsome]
      rfl
    have honce : (e.decisions.map DecisionResult.name).Nodup := by
      rw [he, Run.evaluate_names, hselection]
      exact hnodup.sublist (m.names_byName_sublist request.names)
    have hname : first.name = name := by simpa using List.find?_some hfirst
    -- where each name stands once, the first result of a name is the last
    rw [hof.eq_of_mem honce (List.mem_of_find?_eq_some hfirst) hname]
    exact hget

def offers : Registry :=
  Registry.empty.register (.deployed "c" [Run.offerModel])

def priceTwice : Bytes :=
  Bytes.ofAscii "\x7b\"decision-name\":[\"price\",\"rate\",\"price\"]\x7d".toList

def priceReport : Report where
  modelNamespace := "urn:1"
  modelName := "m"
  names? := some ["price", "rate", "price"]
  context := ⟨[("price", .bool true), ("rate", .bool true)]⟩
  messages := [Run.missingMessage (Logic.decision "2" "price" ["rate"] (.copy "rate")) "rate"]
  decisions := [⟨"2", "price", .null, .skipped⟩, ⟨"1", "rate", .bool true, .succeeded⟩,
    ⟨"2", "price", .bool true, .succeeded⟩]

theorem unmarshal_priceTwice : (Format.json.unmarshal priceTwice : Except FormatError Request)
    = .ok ⟨none, none, some ["price", "rate", "price"], none, .empty⟩ := by
  obtain ⟨request, hu, hread⟩ := Outcome.exists_ok (x := Format.json.unmarshal priceTwice)
    (p := fun request : Request => request.modelNamespace? == none && request.modelName? == none
      && request.names? == some ["price", "rate", "price"] && request.ids? == none
      && request.context.isEmpty) (by decide +kernel)
  obtain ⟨modelNamespace?, modelName?, names?, ids?, ⟨entries⟩⟩ := request
  simp only [Bool.and_eq_true, beq_iff_eq, Context.isEmpty, List.isEmpty_iff] at hread
  obtain ⟨⟨⟨⟨rfl, rfl⟩, rfl⟩, rfl⟩, rfl⟩ := hread
  exact hu

theorem evaluate_priceTwice :
    evaluate offers "c" .json priceTwice = .success "OK from container 'c'" priceReport := by
  rw [evaluate_read rfl unmarshal_priceTwice]
  rfl

theorem evaluate_views_priceTwice :
    ∃ last, Run.LastOf "price" priceReport.decisions last
      ∧ priceReport.context.get? "price" = some last.result
      ∧ (priceReport.AgreesOn "price" ↔ last.result = .null) := by
  have h : (evaluate offers "c" .json priceTwice).result? = some priceReport := by
    rw [evaluate_priceTwice]
    rfl
  exact (evaluate_views h).1 "price" _ rfl

/-- The first result of the price is no value, and the context holds the price. -/
theorem evaluate_views_differ :
    ∃ report, (evaluate offers "c" .json priceTwice).result? = some report
      ∧ report.byName? "price" = some ⟨"2", "price", .null, .skipped⟩
      ∧ report.context.get? "price" = some (.bool true) ∧ ¬ report.AgreesOn "price" := by
  refine ⟨priceReport, ?_, rfl, rfl, fun h => ?_⟩
  · rw [evaluate_priceTwice]
    rfl
  · have := h _ rfl
    cases this

end Service

end DecisionService
