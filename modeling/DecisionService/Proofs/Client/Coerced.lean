import Mathlib
import DecisionService.Proofs.Client.Transparent
import DecisionService.Proofs.Value.DecimalForm
import DecisionService.Proofs.Wire.Read
/-!
# Decimals for a client

A client that speaks JSON hands out what it has read with the decimal of every number in its place,
in the context and in the results of the decisions, and nothing else is touched. It does so whatever
the transport brings: the envelope may be one of a failure.
-/
namespace DecisionService

open Wire

structure DecisionResult.DecimalForm (a b : DecisionResult) : Prop where
  id : a.id = b.id
  name : a.name = b.name
  result : a.result.DecimalForm b.result
  status : a.status = b.status

structure Report.DecimalForm (a b : Report) : Prop where
  modelNamespace : a.modelNamespace = b.modelNamespace
  modelName : a.modelName = b.modelName
  names : a.names? = b.names?
  context : Value.DecimalFormEntries a.context.entries b.context.entries
  messages : a.messages = b.messages
  decisions : List.Forall₂ DecisionResult.DecimalForm a.decisions b.decisions

/-- All values that a report holds have the property, the context as an object. -/
def Report.AllValues (p : Value → Prop) (r : Report) : Prop :=
  (Value.object r.context.entries).Each p ∧ ∀ d ∈ r.decisions, d.result.Each p

section Coerce

variable {p : Value → Prop} (hp : ∀ members, ¬ p (.set members))
include hp

theorem DecisionResult.coerce_eq_none_iff {a b : DecisionResult} (ha : a.result.Each p) :
    a.coerce = ⟨b, none⟩ ↔ a.DecimalForm b := by
  rw [coerce, Coerced.map_eq_iff]
  simp only [Value.coerce_eq_none_iff hp ha]
  constructor
  · rintro ⟨v, hv, rfl⟩
    exact ⟨rfl, rfl, hv, rfl⟩
  · rintro ⟨hid, hname, hresult, hstatus⟩
    refine ⟨b.result, hresult, ?_⟩
    rw [hid, hname, hstatus]

theorem Context.coerce_eq_none_iff {a b : Context} (ha : (Value.object a.entries).Each p) :
    a.coerce = ⟨b, none⟩ ↔ Value.DecimalFormEntries a.entries b.entries := by
  obtain ⟨others⟩ := b
  have hobject := Value.coerce_eq_none_iff hp ha (w := .object others)
  rw [Value.coerce, Coerced.map_eq_iff, Value.DecimalForm] at hobject
  rw [coerce, Coerced.map_eq_iff]
  simpa only [Value.object.injEq, Context.mk.injEq] using hobject

theorem Report.coerce_eq_none_iff {a b : Report} (ha : a.AllValues p) :
    a.coerce = ⟨b, none⟩ ↔ a.DecimalForm b := by
  have hdecisions : ∀ {left : List DecisionResult},
      Coerced.list DecisionResult.coerce a.decisions = ⟨left, none⟩
        ↔ List.Forall₂ DecisionResult.DecimalForm a.decisions left := by
    intro left
    rw [Coerced.list_eq_none_iff]
    exact forall₂_iff_of_mem left fun d hd e _ => DecisionResult.coerce_eq_none_iff hp (ha.2 d hd)
  rw [coerce, Coerced.map_eq_iff, Prod.exists]
  simp only [Coerced.pair_eq_none_iff, Context.coerce_eq_none_iff hp ha.1, hdecisions]
  constructor
  · rintro ⟨context, decisions, ⟨hcontext, hdecisions⟩, rfl⟩
    exact ⟨rfl, rfl, rfl, hcontext, rfl, hdecisions⟩
  · rintro ⟨hnamespace, hname, hnames, hcontext, hmessages, hdecisions⟩
    refine ⟨b.context, b.decisions, ⟨hcontext, hdecisions⟩, ?_⟩
    rw [hnamespace, hname, hnames, hmessages]

end Coerce

/-! ## A second pass -/

theorem DecisionResult.DecimalForm.coerce_self {a b : DecisionResult} (h : a.DecimalForm b) :
    b.coerce = ⟨b, none⟩ := by
  rw [coerce, h.result.coerce_self]
  rfl

theorem Context.coerce_self {a b : Context} (h : Value.DecimalFormEntries a.entries b.entries) :
    b.coerce = ⟨b, none⟩ := by
  have hobject : (Value.object a.entries).DecimalForm (.object b.entries) := h
  have hself := hobject.coerce_self
  rw [Value.coerce, Coerced.map_eq_iff] at hself
  obtain ⟨entries, hentries, heq⟩ := hself
  cases heq
  rw [coerce, hentries]
  rfl

theorem Report.DecimalForm.coerce_self {a b : Report} (h : a.DecimalForm b) :
    b.coerce = ⟨b, none⟩ := by
  have hdecisions : Coerced.list DecisionResult.coerce b.decisions = ⟨b.decisions, none⟩ := by
    rw [Coerced.list_eq_none_iff]
    exact forall₂_self_right (fun d _ e hde => hde.coerce_self) h.decisions
  have hpair := Coerced.pair_eq_none_iff.mpr ⟨Context.coerce_self h.context, hdecisions⟩
  rw [coerce, hpair]
  rfl

/-! ## Envelopes -/

theorem Report.allValues_ofContent {p : Value → Prop} {content : Report.schema.Content}
    (h : Report.schema.All (Value.Each p) content) : (ofContent content).AllValues p := by
  obtain ⟨modelNamespace, modelName, names?, entries, messages, decisions, ⟨⟩⟩ := content
  obtain ⟨-, -, -, hentries, -, hdecisions, -⟩ := h
  constructor
  · exact hentries
  · intro d hd
    obtain ⟨c, hc, rfl⟩ := List.mem_map.mp hd
    exact (hdecisions c hc).2.2.1

theorem Response.allValues_of_json {bytes : Bytes} {response : Response Report}
    (h : Format.json.unmarshal bytes = .ok response) {report : Report}
    (hr : response.result? = some report) : report.AllValues Json.IsGiven := by
  obtain ⟨⟨type, text, result?, ⟨⟩⟩, rfl, hall⟩ := Format.all_given h
  cases result? with
  | none => cases hr
  | some content =>
    cases hr
    exact Report.allValues_ofContent hall.2.2.1

namespace Client

theorem coerceResult_eq_ok_iff {p : Value → Prop} (hp : ∀ members, ¬ p (.set members))
    {received response : Response Report}
    (h : ∀ report, received.result? = some report → report.AllValues p) :
    coerceResult received = .ok response ↔ received.Alike Report.DecimalForm response := by
  obtain ⟨type, text, result?⟩ := received
  obtain ⟨type', text', result?'⟩ := response
  cases result? with
  | none =>
    constructor
    · intro heq
      cases heq
      exact ⟨rfl, rfl, .none⟩
    · rintro ⟨rfl, rfl, hresult⟩
      cases hresult
      rfl
  | some report =>
    have hall := h report rfl
    constructor
    · intro heq
      rw [coerceResult] at heq
      split at heq
      · next hnone => cases hnone
      · next found hfound =>
        cases hfound
        split at heq
        · next coerced hcoerced =>
          cases heq
          have hform := (Report.coerce_eq_none_iff hp hall).mp (Coerced.result_eq_ok.mp hcoerced)
          exact ⟨rfl, rfl, .some hform⟩
        · cases heq
    · rintro ⟨rfl, rfl, hresult⟩
      cases hresult with
      | some hform =>
        have hcoerced := (Report.coerce_eq_none_iff hp hall).mpr hform
        simp only [coerceResult, Coerced.result_eq_ok.mpr hcoerced]
        rfl

theorem coerceResult_self {received response : Response Report}
    (h : received.Alike Report.DecimalForm response) : coerceResult response = .ok response := by
  obtain ⟨type, text, result?⟩ := response
  have hresult := h.result
  generalize received.result? = given? at hresult
  cases hresult with
  | none => rfl
  | some hform =>
    simp only [coerceResult, Coerced.result_eq_ok.mpr hform.coerce_self]
    rfl

variable {σ : Type}

theorem evaluate_eq_ok_iff (c : Client σ) (id : String) (request : Request) (s : σ)
    (response : Response Report) :
    (c.evaluate id request s).outcome = .ok response
      ↔ ∃ payload reply, c.format.marshal request = .ok payload
        ∧ (c.transport.send (.evaluation id payload c.format) s).1 = .ok reply
        ∧ readEvaluation c.format reply = .ok response := by
  rw [evaluate]
  cases hpayload : c.format.marshal request with
  | error e => simp [refused]
  | ok payload =>
    have houtcome :
        (c.exchange (.evaluation id payload c.format) (readEvaluation c.format) s).outcome
          = (c.transport.send (.evaluation id payload c.format) s).1
            >>= readEvaluation c.format := rfl
    simp only [houtcome, Outcome.bind_eq_ok]
    simp

theorem readEvaluation_json_eq_ok_iff (reply : Bytes) (response : Response Report) :
    readEvaluation .json reply = .ok response
      ↔ ∃ received : Response Report, Format.json.unmarshal reply = .ok received
        ∧ received.Alike Report.DecimalForm response := by
  have hset : ∀ members, ¬ Json.IsGiven (.set members) := fun _ h => h.1
  rw [readEvaluation]
  cases hreceived : Format.json.unmarshal (α := Response Report) reply with
  | error e => simp
  | ok received =>
    have hiff : coerceResult received = .ok response
        ↔ received.Alike Report.DecimalForm response :=
      coerceResult_eq_ok_iff hset fun report hr => Response.allValues_of_json hreceived hr
    simpa [Format.isAmbiguous] using hiff

theorem accepted_of_ask {c : Client σ} {id : String} {q : Query} {s : σ}
    {response : Response Report} (h : (c.ask id q s).outcome = .ok response) : q.Accepted := by
  cases q with
  | prepared | all | allIn => trivial
  | byName modelNamespace? modelName? name context =>
    rw [ask, evaluateByName] at h
    split at h
    · cases h
    · next hblank => exact Bool.eq_false_iff.mpr hblank
  | byId modelNamespace? modelName? decision context =>
    rw [ask, evaluateById] at h
    split at h
    · cases h
    · next hblank => exact Bool.eq_false_iff.mpr hblank

/-- A client of JSON hands out a response exactly when its transport brings bytes that are read as
one of which every number has a decimal, and then it is that response in its decimal form. Another
pass leaves it as it is. -/
theorem ask_decimal {c : Client σ} (hformat : c.config.format = .json) (id : String) (q : Query)
    (s : σ) (response : Response Report) :
    ((c.ask id q s).outcome = .ok response
      ↔ q.Accepted ∧ ∃ (payload reply : Bytes) (received : Response Report),
        Format.json.marshal q.toRequest = .ok payload
        ∧ (c.transport.send (.evaluation id payload .json) s).1 = .ok reply
        ∧ Format.json.unmarshal reply = .ok received
        ∧ received.Alike Report.DecimalForm response)
    ∧ ((c.ask id q s).outcome = .ok response → coerceResult response = .ok response) := by
  have hiff : q.Accepted → ((c.ask id q s).outcome = .ok response
      ↔ ∃ (payload reply : Bytes) (received : Response Report),
        Format.json.marshal q.toRequest = .ok payload
        ∧ (c.transport.send (.evaluation id payload .json) s).1 = .ok reply
        ∧ Format.json.unmarshal reply = .ok received
        ∧ received.Alike Report.DecimalForm response) := by
    intro haccepted
    have hf : c.format = .json := hformat
    rw [ask_eq c id haccepted, evaluate_eq_ok_iff, hf]
    simp only [readEvaluation_json_eq_ok_iff, exists_and_left]
  constructor
  · constructor
    · intro h
      have haccepted := accepted_of_ask h
      exact ⟨haccepted, (hiff haccepted).mp h⟩
    · rintro ⟨haccepted, h⟩
      exact (hiff haccepted).mpr h
  · intro h
    obtain ⟨-, -, received, -, -, -, hform⟩ := (hiff (accepted_of_ask h)).mp h
    exact coerceResult_self hform

def failureReply : Bytes :=
  Bytes.ofAscii ("\x7b\"type\":\"FAILURE\",\"msg\":\"no\",\"result\":\x7b\"model-namespace\":\"\","
    ++ "\"model-name\":\"m\",\"dmn-context\":\x7b\"x\":[1.5,7]\x7d\x7d\x7d").toList

theorem ask_decimal_failure :
    ∃ received response : Response Report,
      Format.json.unmarshal failureReply = .ok received
      ∧ ((⟨.standard, .prepared⟩ : Client _).ask "c" (.all .empty) [.ok failureReply]).outcome
        = .ok response
      ∧ response.type = .failure ∧ response.result?.isSome = true
      ∧ received.Alike Report.DecimalForm response ∧ coerceResult response = .ok response := by
  obtain ⟨response, houtcome, hresponse⟩ := Outcome.exists_ok
    (x := ((⟨.standard, .prepared⟩ : Client _).ask "c" (.all .empty) [.ok failureReply]).outcome)
    (p := fun response => response.type == .failure && response.result?.isSome)
    (by decide +kernel)
  obtain ⟨htype, hresult⟩ := (Bool.and_eq_true _ _).mp hresponse
  obtain ⟨hiff, hagain⟩ := ask_decimal (c := ⟨.standard, .prepared⟩) rfl "c" (.all .empty)
    [.ok failureReply] response
  obtain ⟨-, payload, reply, received, -, hsend, hreceived, hform⟩ := hiff.mp houtcome
  cases hsend
  exact ⟨received, response, hreceived, houtcome, beq_iff_eq.mp htype, hresult, hform,
    hagain houtcome⟩

end Client

end DecisionService
