import Mathlib
import DecisionService.Engine.Logic
import DecisionService.Engine.Service
import DecisionService.Proofs.Decision.Payload
import DecisionService.Proofs.Wire.Format
/-!
# Answers that can be read

A service reads requests and writes answers in one format. What it answers is read back unless the
values in it take more levels than the format has, or JSON takes an object in it for a number.
-/
namespace DecisionService

open Wire

def Report.Readable (r : Report) : Prop :=
  (∀ e ∈ r.context.entries, Json.Readable e.2) ∧ ∀ d ∈ r.decisions, Json.Readable d.result

instance (r : Report) : Decidable r.Readable :=
  inferInstanceAs (Decidable (_ ∧ _))

/-- Nothing but its levels keeps the envelope from being read in the format. -/
def Response.Readable (r : Response Report) (format : Format) : Prop :=
  match format with
  | .json => ∀ report ∈ r.result?, report.Readable
  | .msgpack => MessagePack.Fits r

instance (r : Response Report) (format : Format) : Decidable (r.Readable format) :=
  match format with
  | .json => inferInstanceAs (Decidable (∀ report ∈ r.result?, report.Readable))
  | .msgpack => inferInstanceAs (Decidable (MessagePack.Fits r))

theorem Response.Readable.conveys {r : Response Report} {format : Format}
    (h : r.Readable format) : format.Conveys r := by
  cases format with
  | json =>
    refine Response.conveys Json.channel fun report hr => ⟨?_, rfl⟩
    exact Report.conveys Json.channel (h report hr).1 (h report hr).2
  | msgpack =>
    refine ⟨Response.conveys MessagePack.channel fun report _ => ⟨?_, rfl⟩, h⟩
    exact Report.conveys MessagePack.channel trivial fun _ _ => trivial

/-- The values of the report leave room for the containers around them: the envelope, the report
and the context, or the envelope, the report, the list of decisions and the decision. -/
def Report.Shallow (r : Report) (levels : Nat) : Prop :=
  (∀ e ∈ r.context.entries, e.2.height + 3 ≤ levels)
    ∧ ∀ d ∈ r.decisions, d.result.height + 4 ≤ levels

instance (r : Report) (levels : Nat) : Decidable (r.Shallow levels) :=
  inferInstanceAs (Decidable (_ ∧ _))

theorem Response.height_success_le (text : String) (report : Report) {n : Nat} (hn : 4 ≤ n) :
    Payload.height (Response.success text report) ≤ n ↔ report.Shallow n := by
  obtain ⟨n, rfl⟩ := Nat.exists_eq_add_of_le' hn
  have hnames : Schema.height (.optional (.list (.text ""))) report.names? ≤ n + 2 :=
    height_texts?_le _ (Nat.succ_pos _)
  have hmessages : Schema.height (.list Message.schema) (report.messages.map Message.content)
      ≤ n + 2 := by
    refine height_list_le.mpr fun c hc => ?_
    obtain ⟨message, -, rfl⟩ := List.mem_map.mp hc
    obtain ⟨_, _, _, _ | _⟩ := message <;> simp [Schema.height, FieldSchemas.height, Message.content]
  have hdecisions : Schema.height (.list DecisionResult.schema)
      (report.decisions.map DecisionResult.content) ≤ n + 2
        ↔ ∀ d ∈ report.decisions, d.result.height ≤ n := by
    rw [height_list_le, List.forall_mem_map]
    refine forall₂_congr fun d _ => ?_
    simp [Schema.height, FieldSchemas.height, DecisionResult.content]
  have hcontext : Schema.height .entries report.context.entries ≤ n + 2
      ↔ ∀ e ∈ report.context.entries, e.2.height ≤ n + 1 := height_entries_le
  -- texts and choices take no levels, the report and the envelope take one each
  change max 0 (max 0 (max (max 0 (max 0 (max (Schema.height (.optional (.list (.text "")))
      report.names?) (max (Schema.height .entries report.context.entries)
      (max (Schema.height (.list Message.schema) (report.messages.map Message.content))
      (max (Schema.height (.list DecisionResult.schema)
        (report.decisions.map DecisionResult.content)) 0))))) + 1) 0)) + 1 ≤ n + 4 ↔ _
  have hshallow : report.Shallow (n + 4) ↔ (∀ e ∈ report.context.entries, e.2.height ≤ n + 1)
      ∧ ∀ d ∈ report.decisions, d.result.height ≤ n := by
    simp only [Report.Shallow, Nat.add_le_add_iff_right, show n + 4 = n + 1 + 3 from rfl]
  rw [hshallow, ← hcontext, ← hdecisions]
  omega

/-- The envelope is a success, it is marshalled, and it is read back exactly when the values in it
leave room for the containers around them. -/
def Response.ReadsBack (r : Response Report) (format : Format) : Prop :=
  ∃ text report bytes, r = Response.success text report ∧ format.marshal r = .ok bytes
    ∧ format.unmarshal bytes = if report.Shallow format.levels
      then .ok (Response.success text (Payload.relay format.medium report))
      else .error format.tooDeep

namespace Service

/-- Every success that a service answers is marshalled, and it is read back unless it takes too many
levels. -/
theorem evaluate_readable (r : Registry) (id : String) (format : Format) (payload : Bytes)
    (hs : (evaluate r id format payload).isSuccess = true)
    (h : (evaluate r id format payload).Readable format) :
    (evaluate r id format payload).ReadsBack format := by
  obtain ⟨bytes, hm, hu⟩ := h.conveys.readsBack
  obtain ⟨text, report, heq⟩ : ∃ text report,
      evaluate r id format payload = Response.success text report := by
    unfold evaluate evaluationResponse at hs ⊢
    split at hs
    · exact ⟨_, _, rfl⟩
    · cases hs
  rw [heq] at hm hu ⊢
  refine ⟨text, report, bytes, rfl, hm, ?_⟩
  have hlevels : 4 ≤ format.levels := by cases format <;> decide
  simp only [hu, Response.height_success_le text report hlevels]
  rw [Response.relay_eq]
  rfl

theorem evaluate_readable_sample :
    (evaluate (.register sampleContainer .empty) "function-definition" .json
      (Bytes.ofAscii "\x7b\"dmn-context\":\x7b\"a\":10,\"b\":5\x7d\x7d".toList)).ReadsBack .json
    ∧ (evaluate (.register sampleContainer .empty) "function-definition" .msgpack
      [0x80]).ReadsBack .msgpack :=
  ⟨evaluate_readable _ _ _ _ (by decide +kernel) (by decide +kernel),
    evaluate_readable _ _ _ _ (by decide +kernel) (by decide +kernel)⟩

def single (logic : Logic) : Registry :=
  Registry.empty.register (.deployed "c" [(Model.new "urn:1" "m").withDecision
    (Logic.decision "id1" "a" [] logic)])

def announcing : Logic :=
  .const (.object [(Json.literalName, .null)])

def nested (levels : Nat) : Bytes :=
  Bytes.ofAscii "\x7b\"dmn-context\":\x7b\"x\":".toList ++ List.replicate levels 0x5B
    ++ List.replicate levels 0x5D ++ Bytes.ofAscii "\x7d\x7d".toList

def Unreadable (r : Registry) (id : String) (format : Format) (payload : Bytes) : Prop :=
  (evaluate r id format payload).isSuccess = true ∧ ∀ bytes,
    format.marshal (evaluate r id format payload) = .ok bytes →
    ∀ response : Response Report, format.unmarshal bytes ≠ .ok response

private theorem unreadable_of {r : Registry} {id : String} {format : Format} {payload : Bytes}
    (h : ((evaluate r id format payload).isSuccess
      && match format.marshal (evaluate r id format payload) with
        | .ok bytes => !(format.unmarshal bytes : Except FormatError (Response Report)).isOk
        | .error _ => false) = true) : Unreadable r id format payload := by
  rw [Bool.and_eq_true] at h
  refine ⟨h.1, fun bytes hm response hu => ?_⟩
  have hread := h.2
  rw [hm] at hread
  simp only [hu] at hread
  cases hread

theorem evaluate_unreadable :
    Unreadable (single announcing) "c" .json (nested 1)
    ∧ Unreadable (single (.collect ["x"])) "c" .json (nested 123) :=
  ⟨unreadable_of (by decide +kernel), unreadable_of (by decide +kernel)⟩

end Service

end DecisionService
