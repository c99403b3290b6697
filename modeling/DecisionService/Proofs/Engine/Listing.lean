import Mathlib
import DecisionService.Engine.Logic
import DecisionService.Proofs.Decision.Payload
import DecisionService.Proofs.Engine.Run
import DecisionService.Proofs.Engine.Stages
import DecisionService.Proofs.Json.Payload
/-!
# What is listed and what can be asked for

A container lists all its models with all their decisions. A request that names a listed model and
one of its decisions finds the first model of these names and there the first decision that fits, so
it is answered with the decision that was listed exactly when nothing listed before stands in its
way.
-/
namespace DecisionService

/-- The request names the model, and it asks for what one look-up finds there. -/
def Request.AsksFor (request : Request) (info : ModelInfo) (l : Lookup) : Prop :=
  request.modelNamespace? = some info.modelNamespace ∧ request.modelName? = some info.name
    ∧ match l with
      | .byName name => request.names = [name] ∧ request.ids = []
      | .byId id => request.names = [] ∧ request.ids = [id]

def DecisionResult.info (r : DecisionResult) : DecisionInfo :=
  ⟨r.id, r.name⟩

/-- The report has one result, that of the decision, and no decision was missed. -/
def Report.Answers (report : Report) (d : DecisionInfo) : Prop :=
  report.messagesOf .decisionNotFound = [] ∧ report.decisions.map DecisionResult.info = [d]

theorem Report.Answers.unique {report : Report} {d e : DecisionInfo} (hd : report.Answers d)
    (he : report.Answers e) : d = e := by
  have h := hd.2.symm.trans he.2
  simpa using h

theorem Report.not_answers {report : Report} (h : report.decisions = []) (d : DecisionInfo) :
    ¬ report.Answers d := by
  rintro ⟨-, hd⟩
  rw [h] at hd
  cases hd

namespace Run

/-- What a decision comes to is never told as a decision that was not found. -/
theorem type_message_outcome {r : Run} {d : Decision} {message : Message}
    (h : message ∈ (r.outcome d).messages) : message.type ≠ .decisionNotFound := by
  rcases outcome_cases r d with ⟨-, ho⟩ | ⟨-, ⟨v, -, ho⟩ | ⟨text, -, ho⟩⟩
  · rw [ho] at h
    obtain ⟨name, -, rfl⟩ := List.mem_map.mp h
    simp [missingMessage]
  · rw [ho] at h
    simp at h
  · rw [ho] at h
    simp only [List.mem_singleton] at h
    subst h
    simp [failureMessage]

end Run

namespace Model

theorem find?_info (m : Model) (l : Lookup) : m.info.find? l = (m.find? l).map Decision.info := by
  rw [ModelInfo.find?, info, List.find?_map, find?]
  rfl

section Single

variable (m : Model) (modelName : String) (c : Context) (l : Lookup)

theorem evaluate_single_none (h : m.find? l = none) :
    m.evaluate modelName c [l] = ⟨c, [], [Run.notFoundMessage modelName l]⟩ := by
  simp only [evaluate, List.foldl_cons, List.foldl_nil, Run.step, h, Run.start, List.nil_append]

theorem evaluate_single_some {d : Decision} (h : m.find? l = some d) :
    (m.evaluate modelName c [l]).decisions.map DecisionResult.info = [d.info]
      ∧ ∀ message ∈ (m.evaluate modelName c [l]).messages, message.type ≠ .decisionNotFound := by
  simp only [evaluate, List.foldl_cons, List.foldl_nil, Run.step, h, Run.evaluate, Run.start,
    List.nil_append, List.map_cons, List.map_nil]
  constructor
  · rfl
  · intro message hmessage
    exact Run.type_message_outcome hmessage

end Single

end Model

namespace Service

variable {r : Registry} {id : String}

theorem session_of_models {listing : ModelList} (h : (models r id).result? = some listing) :
    ∃ s, r.newSession id = .ok s ∧ listing = ⟨s.infos⟩ := by
  unfold models modelsResponse at h
  split at h
  · next s hs =>
    cases h
    exact ⟨s, hs, rfl⟩
  · cases h

theorem selector_asksFor {request : Request} {info : ModelInfo} {l : Lookup}
    (h : request.AsksFor info l) :
    ∃ selection, selector request = .ok selection ∧ ∀ m : Model, m.lookups selection = [l] := by
  obtain ⟨-, -, h⟩ := h
  cases l with
  | byName name =>
    refine ⟨.byName [name], ?_, fun m => rfl⟩
    simp only [selector, Selector.ofRequest?, h.1, h.2]
  | byId decision =>
    refine ⟨.byId [decision], ?_, fun m => rfl⟩
    simp only [selector, Selector.ofRequest?, h.1, h.2]

/-- A request that names a listed model is answered by the first model of its names. -/
theorem evaluate_named {listing : ModelList} (hl : (models r id).result? = some listing)
    {info first : ModelInfo} (hf : listing.find? info.modelNamespace info.name = some first)
    {format : Format} {payload : Bytes} {request : Request}
    (hu : format.unmarshal payload = .ok request) {l : Lookup} (ha : request.AsksFor info l) :
    ∃ m : Model, m.info = first ∧ evaluate r id format payload
      = .success s!"OK from container '{id}'" (.ofEvaluation first.modelNamespace first.name
        request.names? (m.evaluate first.name request.context [l])) := by
  obtain ⟨s, hs, rfl⟩ := session_of_models hl
  obtain ⟨selection, hselector, hlookups⟩ := selector_asksFor ha
  have hresolve : resolve s request = .ok first := by
    have hfind : s.find? (some info.modelNamespace) info.name = some first := hf
    simp only [resolve, ha.1, ha.2.1, hfind]
  obtain ⟨-, m, -, -, hinfo, -, hdeployed⟩ := resolve_deployed hresolve
  refine ⟨m, hinfo.symm, ?_⟩
  rw [evaluate_read hs hu, answer_resolved hresolve hdeployed hselector, hlookups]

theorem evaluate_asked {listing : ModelList} (hl : (models r id).result? = some listing)
    {info first : ModelInfo} (hf : listing.find? info.modelNamespace info.name = some first)
    {format : Format} {payload : Bytes} {request : Request}
    (hu : format.unmarshal payload = .ok request) {l : Lookup} (ha : request.AsksFor info l) :
    ∃ report, evaluate r id format payload = .success s!"OK from container '{id}'" report
      ∧ (∀ e, first.find? l = some e → report.Answers e)
      ∧ (first.find? l = none →
        report.decisions = [] ∧ report.messages = [Run.notFoundMessage first.name l]) := by
  obtain ⟨m, hm, hevaluate⟩ := evaluate_named hl hf hu ha
  refine ⟨_, hevaluate, ?_, ?_⟩
  · intro e h
    rw [← hm, Model.find?_info] at h
    obtain ⟨decision, hfind, rfl⟩ := Option.map_eq_some_iff.mp h
    obtain ⟨hdecisions, hmessages⟩ := m.evaluate_single_some first.name request.context l hfind
    refine ⟨?_, hdecisions⟩
    rw [Report.messagesOf, List.filter_eq_nil_iff]
    intro message hmessage
    simpa using hmessages message hmessage
  · intro h
    rw [← hm, Model.find?_info, Option.map_eq_none_iff] at h
    rw [m.evaluate_single_none first.name request.context l h]
    exact ⟨rfl, rfl⟩

/-- Whatever the names are, JSON can bring the request. -/
theorem exists_asksFor (info : ModelInfo) (l : Lookup) :
    ∃ (payload : Bytes) (request : Request),
      Format.json.unmarshal payload = .ok request ∧ request.AsksFor info l := by
  have hsent : ∀ request : Request, request.context = .empty →
      Wire.Payload.height request ≤ Json.levels →
      ∃ payload, Format.json.unmarshal payload = .ok request := by
    intro request hc hlevels
    have hconveys : Json.channel.ConveysPayload request := by
      apply Request.conveys Json.channel
      rw [hc]
      exact List.forall_mem_nil _
    obtain ⟨payload, -, hu⟩ := Json.unmarshal_marshal hconveys
    refine ⟨payload, ?_⟩
    rw [hu, if_pos hlevels, Request.relay_eq, hc, ← hc]
    cases request
    cases hc
    rfl
  cases l with
  | byName name =>
    obtain ⟨payload, hu⟩ := hsent
      ⟨some info.modelNamespace, some info.name, some [name], none, .empty⟩ rfl
      (Nat.le_of_ble_eq_true rfl)
    exact ⟨payload, _, hu, rfl, rfl, rfl, rfl⟩
  | byId decision =>
    obtain ⟨payload, hu⟩ := hsent
      ⟨some info.modelNamespace, some info.name, none, some [decision], .empty⟩ rfl
      (Nat.le_of_ble_eq_true rfl)
    exact ⟨payload, _, hu, rfl, rfl, rfl, rfl⟩

/-- Whatever is listed can be asked for with success. The answer is the listed decision exactly when
it is the first that fits in the first listed model of its names: another decision is answered where
one stands before it, and none where that model has none that fits. Where only one listed model has
these names and only one decision in it fits, nothing stands before it. -/
theorem evaluate_listed {r : Registry} {id : String} {listing : ModelList}
    (hl : (models r id).result? = some listing) {info : ModelInfo} (hi : info ∈ listing.models)
    {d : DecisionInfo} (hd : d ∈ info.decisions) {l : Lookup} (hfits : l.fits d = true) :
    ∃ first, listing.find? info.modelNamespace info.name = some first
      ∧ ((∀ m ∈ listing.models, m.isNamed (some info.modelNamespace) info.name = true → m = info) →
        (∀ e ∈ info.decisions, l.fits e = true → e = d) → first.find? l = some d)
      ∧ (∃ (payload : Bytes) (request : Request),
        Format.json.unmarshal payload = .ok request ∧ request.AsksFor info l)
      ∧ ∀ (format : Format) (payload : Bytes) (request : Request),
        format.unmarshal payload = .ok request → request.AsksFor info l →
        ∃ report, evaluate r id format payload = .success s!"OK from container '{id}'" report
          ∧ (report.Answers d ↔ first.find? l = some d)
          ∧ (∀ e, first.find? l = some e → report.Answers e)
          ∧ (first.find? l = none →
            report.decisions = [] ∧ report.messages = [Run.notFoundMessage first.name l]) := by
  have hnamed : info.isNamed (some info.modelNamespace) info.name = true := by
    simp [ModelInfo.isNamed]
  obtain ⟨first, hfirst⟩ : ∃ first, listing.find? info.modelNamespace info.name = some first := by
    rw [← Option.isSome_iff_exists, ModelList.find?, List.find?_isSome]
    exact ⟨info, hi, hnamed⟩
  refine ⟨first, hfirst, ?_, exists_asksFor info l, ?_⟩
  · intro hmodels hdecisions
    have heq : first = info :=
      hmodels first (List.mem_of_find?_eq_some hfirst) (by simpa using List.find?_some hfirst)
    obtain ⟨e, he⟩ : ∃ e, info.find? l = some e := by
      rw [← Option.isSome_iff_exists, ModelInfo.find?, List.find?_isSome]
      exact ⟨d, hd, hfits⟩
    have hed : e = d :=
      hdecisions e (List.mem_of_find?_eq_some he) (by simpa using List.find?_some he)
    rw [heq, he, hed]
  · intro format payload request hu ha
    obtain ⟨report, hevaluate, hsome, hnone⟩ := evaluate_asked hl hfirst hu ha
    have hanswers : report.Answers d → first.find? l = some d := by
      intro h
      -- a report answers one decision, so what it answers is what the look-up finds
      cases hfind : first.find? l with
      | none => exact absurd h (Report.not_answers (hnone hfind).1 d)
      | some e => rw [h.unique (hsome e hfind)]
    exact ⟨report, hevaluate, ⟨hanswers, hsome d⟩, hsome, hnone⟩

def twins : Registry :=
  Registry.empty.register (.deployed "c"
    [(Model.new "urn:1" "m").withDecision (Logic.decision "1" "first" [] (.const (.bool true))),
      (Model.new "urn:1" "m").withDecision (Logic.decision "2" "second" [] (.const (.bool false)))])

def twinInfos : ModelInfo × ModelInfo :=
  (⟨"urn:1", "m", "_m", [⟨"1", "first"⟩]⟩, ⟨"urn:1", "m", "_m", [⟨"2", "second"⟩]⟩)

theorem models_twins : (models twins "c").result? = some ⟨[twinInfos.1, twinInfos.2]⟩ :=
  rfl

def twinCall (id : String) : Bytes :=
  Bytes.ofAscii ("\x7b\"model-namespace\":\"urn:1\",\"model-name\":\"m\",\"decision-id\":[\"".toList
    ++ id.toList ++ "\"]\x7d".toList)

theorem asksFor_twinCall {id : String} (h : id = "1" ∨ id = "2") {info : ModelInfo}
    (hinfo : info = twinInfos.1 ∨ info = twinInfos.2) :
    ∃ request : Request, Format.json.unmarshal (twinCall id) = .ok request
      ∧ request.AsksFor info (.byId id) := by
  obtain ⟨request, hu, hread⟩ := Outcome.exists_ok (x := Format.json.unmarshal (twinCall id))
    (p := fun request : Request => request.modelNamespace? == some "urn:1"
      && request.modelName? == some "m" && request.names == [] && request.ids == [id])
    (by rcases h with rfl | rfl <;> decide +kernel)
  simp only [Bool.and_eq_true, beq_iff_eq] at hread
  obtain ⟨⟨⟨hnamespace, hname⟩, hnames⟩, hids⟩ := hread
  refine ⟨request, hu, ?_⟩
  rcases hinfo with rfl | rfl
  · exact ⟨hnamespace, hname, hnames, hids⟩
  · exact ⟨hnamespace, hname, hnames, hids⟩

theorem evaluate_listed_twins :
    ∃ report, evaluate twins "c" .json (twinCall "1") = .success "OK from container 'c'" report
      ∧ report.Answers ⟨"1", "first"⟩ := by
  have hinfo : twinInfos.1 ∈ (⟨[twinInfos.1, twinInfos.2]⟩ : ModelList).models :=
    List.mem_cons_self
  have hdecision : (⟨"1", "first"⟩ : DecisionInfo) ∈ twinInfos.1.decisions := List.mem_cons_self
  have hfits : (Lookup.byId "1").fits ⟨"1", "first"⟩ = true := rfl
  obtain ⟨first, hfirst, -, -, hall⟩ := evaluate_listed models_twins hinfo hdecision hfits
  obtain ⟨request, hu, hasks⟩ := asksFor_twinCall (.inl rfl) (.inl rfl)
  obtain ⟨report, hevaluate, hanswers, -⟩ := hall .json (twinCall "1") request hu hasks
  cases hfirst
  exact ⟨report, hevaluate, hanswers.mpr rfl⟩

theorem evaluate_shadowed :
    (∃ listing, (models twins "c").result? = some listing
      ∧ ∃ info ∈ listing.models, info.modelNamespace = "urn:1" ∧ info.name = "m"
        ∧ ⟨"2", "second"⟩ ∈ info.decisions)
    ∧ ∃ (request : Request) (report : Report),
      Format.json.unmarshal (twinCall "2") = .ok request
      ∧ request.AsksFor twinInfos.2 (.byId "2")
      ∧ evaluate twins "c" .json (twinCall "2") = .success "OK from container 'c'" report
      ∧ ¬ report.Answers ⟨"2", "second"⟩
      ∧ report.decisions = [] ∧ report.messages = [Run.notFoundMessage "m" (.byId "2")] := by
  constructor
  · exact ⟨_, models_twins, twinInfos.2, by decide, rfl, rfl, by decide⟩
  · obtain ⟨request, hu, hasks⟩ := asksFor_twinCall (.inr rfl) (.inr rfl)
    have hfirst : (⟨[twinInfos.1, twinInfos.2]⟩ : ModelList).find? twinInfos.2.modelNamespace
        twinInfos.2.name = some twinInfos.1 := rfl
    obtain ⟨report, hevaluate, -, hnone⟩ := evaluate_asked models_twins hfirst hu hasks
    obtain ⟨hdecisions, hmessages⟩ := hnone rfl
    exact ⟨request, report, hu, hasks, hevaluate, Report.not_answers hdecisions _, hdecisions,
      hmessages⟩

end Service

end DecisionService
