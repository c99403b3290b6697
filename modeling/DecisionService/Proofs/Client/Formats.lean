import Mathlib
import DecisionService.Client.Call
import DecisionService.Engine.Logic
import DecisionService.Proofs.Engine.Answer
import DecisionService.Proofs.Engine.Equivalent
/-!
# Clients of both formats

A client connected straight to a service gets the same answer in both formats, as long as the
decisions of the service are respectful and the context of the request is plain.
-/
namespace DecisionService

open Wire

theorem Report.Plain.readable {r : Report} (h : r.Plain) : r.Readable :=
  ⟨fun e he => (h.context.values e he).readable, fun d hd => (h.results d hd).readable⟩

namespace Client

def connected (config : ClientConfig) (format : Format) (r : Registry) : Client Unit :=
  ⟨{ config with format := format }, .direct r⟩

/-- A decoder of the call stopped at its nesting limit: that of the client at the answer, or that of
the service at the request, as the answer then says. -/
inductive StopsAtLimit (id : String) (format : Format) :
    Except ClientError (Response Report) → Prop
  | answer : StopsAtLimit id format (.error (.marshalling format.tooDeep))
  | request : StopsAtLimit id format (.ok (.failure
      s!"Error from container '{id}': {(EvaluationError.deserialization format.tooDeep).message}"))

/-- Both calls have an answer, and that of the first is the same as that of the second with its
numbers coerced. -/
def SameAnswer (x y : Except ClientError (Response Report)) : Prop :=
  ∃ a b c, x = .ok a ∧ y = .ok b ∧ coerceResult b = .ok c ∧ Response.same Report.same a c = true

def Agree (id : String) (json msgpack : Except ClientError (Response Report)) : Prop :=
  StopsAtLimit id .json json ∨ StopsAtLimit id .msgpack msgpack ∨ SameAnswer json msgpack

section Connected

variable {config : ClientConfig} {format : Format} {r : Registry} {id : String} {request : Request}
  {payload : Bytes}

theorem outcome_connected (hp : format.marshal request = .ok payload)
    (h : format.Conveys (Service.evaluate r id format payload)) :
    ((connected config format r).evaluate id request ()).outcome
      = if Payload.height (Service.evaluate r id format payload) ≤ format.levels
        then if format.isAmbiguous
          then coerceResult (Payload.relay format.medium (Service.evaluate r id format payload))
          else .ok (Payload.relay format.medium (Service.evaluate r id format payload))
        else .error (.marshalling format.tooDeep) := by
  obtain ⟨bytes, hm, hu⟩ := h.readsBack
  have hcall : ((connected config format r).evaluate id request ()).outcome
      = readEvaluation format bytes := by
    have hmarshal : (connected config format r).format.marshal request = .ok payload := hp
    rw [evaluate, hmarshal]
    change ((format.marshal (Service.evaluate r id format payload)).mapError _).bind _ = _
    rw [hm]
    rfl
  rw [hcall, readEvaluation, hu]
  by_cases hd : Payload.height (Service.evaluate r id format payload) ≤ format.levels
  · simp only [hd, if_true]
  · simp only [hd, if_false]

theorem outcome_failure (hp : format.marshal request = .ok payload) {text : String}
    (he : Service.evaluate r id format payload = .failure text)
    (h : format.Conveys (Service.evaluate r id format payload)) :
    ((connected config format r).evaluate id request ()).outcome = .ok (.failure text) := by
  rw [outcome_connected hp h, he]
  cases format <;> rfl

end Connected

private theorem coerceResult_plain {text : String} {report : Report} (h : report.Plain) :
    coerceResult (.success text report)
      = .ok (.success text (Payload.relay Value.canonical report)) := by
  have hcoerce : report.coerce.result = .ok (Payload.relay Value.canonical report) := by
    rw [h.coerce]
    rfl
  simp only [coerceResult, Response.success, hcoerce]
  rfl

private theorem sameAnswer_failure {x y : Except ClientError (Response Report)} {text : String}
    (hx : x = .ok (.failure text)) (hy : y = .ok (.failure text)) : SameAnswer x y :=
  ⟨_, _, _, hx, hy, rfl, by simp [Response.same, Response.failure]⟩

private theorem readable_failure {response : Response Report} {text : String}
    (h : response = .failure text) : response.Readable .json := by
  rw [h]
  intro report hr
  cases hr

private theorem same_success {text : String} {a b : Report} (h : a.same b = true) :
    Response.same Report.same (.success text a) (.success text b) = true := by
  simp [Response.same, Response.success, h]

section Formats

variable {config : ClientConfig} {r : Registry} {id : String} {request : Request} {p q : Bytes}
  (hp : Format.json.marshal request = .ok p) (hq : Format.msgpack.marshal request = .ok q)
  (hf : MessagePack.Fits (Service.evaluate r id .msgpack q))
include hp hq hf

private theorem agree_failure {text : String} (hx : Service.evaluate r id .json p = .failure text)
    (hy : Service.evaluate r id .msgpack q = .failure text) :
    Agree id ((connected config .json r).evaluate id request ()).outcome
      ((connected config .msgpack r).evaluate id request ()).outcome :=
  Or.inr (Or.inr (sameAnswer_failure (outcome_failure hp hx (readable_failure hx).conveys)
    (outcome_failure hq hy (Response.Readable.conveys hf))))

private theorem agree_of_equivalent (h : EquivalentResponse (Service.evaluate r id .json p)
      (Service.evaluate r id .msgpack q)) :
    Agree id ((connected config .json r).evaluate id request ()).outcome
      ((connected config .msgpack r).evaluate id request ()).outcome := by
  generalize hx : Service.evaluate r id .json p = x, hy : Service.evaluate r id .msgpack q = y at h
  cases h with
  | failure text => exact agree_failure hp hq hf hx hy
  | @success text a b h ha hb =>
    have hreadable : (Service.evaluate r id .json p).Readable .json := by
      rw [hx]
      rintro report ⟨rfl⟩
      exact ha.readable
    rw [outcome_connected hp hreadable.conveys, outcome_connected hq (Response.Readable.conveys hf),
      hx, hy, Response.relay_eq, Response.relay_eq]
    by_cases hlevels : Payload.height (Response.success text a) ≤ Format.json.levels
    swap
    · rw [if_neg hlevels]
      exact Or.inl .answer
    by_cases hlevels' : Payload.height (Response.success text b) ≤ Format.msgpack.levels
    swap
    · rw [if_neg hlevels']
      exact Or.inr (Or.inl .answer)
    rw [if_pos hlevels, if_pos hlevels']
    have hsame := (h.relay Json.faithful MessagePack.faithful ha hb).same
    exact Or.inr (Or.inr ⟨_, _, _, coerceResult_plain (ha.relay Json.faithful), rfl,
      coerceResult_plain (hb.relay MessagePack.faithful), same_success hsame⟩)

end Formats

/-- Straight from one service, the answers in both formats are the same. -/
theorem formats_agree (config : ClientConfig) {r : Registry} (hr : r.Respectful) (id : String)
    {request : Request} (hc : request.context.Plain) (hq : MessagePack.Fits request)
    (ha : ∀ payload, Format.msgpack.marshal request = .ok payload →
      MessagePack.Fits (Service.evaluate r id .msgpack payload)) :
    Agree id ((connected config .json r).evaluate id request ()).outcome
      ((connected config .msgpack r).evaluate id request ()).outcome := by
  have hjson : Format.json.Conveys request :=
    Request.conveys Json.channel fun e he => (hc.values e he).readable
  have hmsgpack : Format.msgpack.Conveys request :=
    ⟨Request.conveys MessagePack.channel trivial, hq⟩
  obtain ⟨p, hp, hup⟩ := hjson.readsBack
  obtain ⟨q, hq, huq⟩ := hmsgpack.readsBack
  have hf := ha q hq
  cases hs : r.newSession id with
  | error e =>
    exact agree_failure hp hq hf (Service.evaluate_closed .json p hs)
      (Service.evaluate_closed .msgpack q hs)
  | ok s =>
    by_cases hdeep : Payload.height request ≤ Format.json.levels
    swap
    · rw [if_neg hdeep] at hup
      have he := Service.evaluate_unread hs hup
      rw [Agree, outcome_failure hp he (readable_failure he).conveys]
      exact Or.inl .request
    by_cases hdeep' : Payload.height request ≤ Format.msgpack.levels
    swap
    · rw [if_neg hdeep'] at huq
      have he := Service.evaluate_unread hs huq
      rw [Agree, outcome_failure hq he (Response.Readable.conveys hf)]
      exact Or.inr (Or.inl .request)
    rw [if_pos hdeep, Request.relay_eq] at hup
    rw [if_pos hdeep', Request.relay_eq] at huq
    -- the service reads two contexts that are equivalent to the one that was sent
    have hequiv := hc.equivalent_self.relay Json.faithful MessagePack.faithful hc hc
    exact agree_of_equivalent hp hq hf (Service.evaluate_equivalent hr hequiv
      (hc.relay Json.faithful) (hc.relay MessagePack.faithful) hup huq)

private theorem run_copy {c : Context} {entry : String} :
    (Logic.copy entry).run c
      = (c.get? entry).elim (.error s!"'{entry}' is not in the context") .ok := by
  rw [Logic.run]
  cases c.get? entry <;> rfl

theorem respectful_copy (id name : String) (requires : List String) (entry : String) :
    (Logic.decision id name requires (.copy entry)).Respectful where
  equivalent a b ha hb h := by
    have hentry := (Context.equivalent_iff ha hb).mp h entry
    simp only [Logic.decision, run_copy]
    generalize a.get? entry = x, b.get? entry = y at hentry ⊢
    cases hentry with
    | none => exact .failed _
    | some hvw => exact .succeeded hvw
  plain c v hc hv := by
    simp only [Logic.decision, run_copy] at hv
    cases hget : c.get? entry with
    | none =>
      rw [hget] at hv
      cases hv
    | some w =>
      rw [hget] at hv
      cases hv
      exact hc.get? hget

def plainRequest : Request :=
  ⟨none, some "m", none, none, ⟨[("x", .array [.number (.int (-33)), .number (.uint (2 ^ 63)),
    .number (.big (2 ^ 64)), .number (.decimal ⟨1500, 2⟩), .object [("a", .null)]])]⟩⟩

def copied (format : Format) : Except ClientError (Response Report) :=
  ((connected .standard format (Service.single (.copy "x"))).evaluate "c" plainRequest ()).outcome

def succeeds : Except ClientError (Response Report) → Bool
  | .ok response => response.isSuccess
  | .error _ => false

theorem StopsAtLimit.not_succeeds {id : String} {format : Format}
    {outcome : Except ClientError (Response Report)} (h : StopsAtLimit id format outcome) :
    succeeds outcome = false := by
  cases h <;> rfl

theorem formats_agree_copied : SameAnswer (copied .json) (copied .msgpack) := by
  have hr : (Service.single (.copy "x")).Respectful := by
    intro e he
    cases List.mem_singleton.mp he
    intro m hm d hd
    cases List.mem_singleton.mp hm
    cases List.mem_singleton.mp hd
    exact respectful_copy _ _ _ _
  have hfits : (Format.msgpack.marshal plainRequest).toOption.all (fun payload =>
      decide (MessagePack.Fits
        (Service.evaluate (Service.single (.copy "x")) "c" .msgpack payload))) = true := by
    decide +kernel
  have hplain : plainRequest.context.Plain := ⟨List.nodup_singleton _, by decide +kernel⟩
  have hagree := formats_agree .standard hr "c" hplain (by decide +kernel) fun payload hp => by
    rw [hp] at hfits
    exact of_decide_eq_true hfits
  rcases hagree with h | h | h
  · exact absurd h.not_succeeds (by decide +kernel)
  · exact absurd h.not_succeeds (by decide +kernel)
  · exact h

end Client

end DecisionService
