import Mathlib
import DecisionService.Decision.Request
import DecisionService.Decision.Response
import DecisionService.Decision.Result
import DecisionService.Proofs.Wire.Channel
/-!
# Payloads of an evaluation

What a channel makes of requests, reports and envelopes: the values in them change as the medium
changes values, and everything else arrives as it was.
-/
namespace DecisionService

open Wire

namespace Wire

mutual

def Schema.isValueFree : Schema → Bool
  | .value | .entries => false
  | .optional schema | .list schema => schema.isValueFree
  | .record _ fields => fields.isValueFree
  | .text _ | .natural _ _ _ | .choice _ _ | .number => true

def FieldSchemas.isValueFree : FieldSchemas → Bool
  | .done => true
  | .field _ schema _ rest => schema.isValueFree && rest.isValueFree

end

mutual

/-- A content without values arrives as it was. -/
theorem Schema.relay_of_isValueFree (m : Value.Medium) : (schema : Schema) →
    schema.isValueFree = true → (content : schema.Content) → schema.relay m content = content
  | .optional _, _, none => rfl
  | .optional schema, h, some content => congrArg some (schema.relay_of_isValueFree m h content)
  | .list schema, h, contents => by
    have hid : (fun c => schema.relay m c) = id := funext (schema.relay_of_isValueFree m h)
    rw [Schema.relay, hid]
    exact List.map_id contents
  | .record _ fields, h, contents => fields.relay_of_isValueFree m h contents
  | .text _, _, _ | .natural _ _ _, _, _ | .choice _ _, _, _ | .number, _, _ => rfl

theorem FieldSchemas.relay_of_isValueFree (m : Value.Medium) : (fields : FieldSchemas) →
    fields.isValueFree = true → (contents : fields.Contents) → fields.relay m contents = contents
  | .done, _, _ => rfl
  | .field _ schema _ rest, h, (content, contents) => by
    obtain ⟨hs, hr⟩ := (Bool.and_eq_true _ _).mp h
    rw [FieldSchemas.relay, schema.relay_of_isValueFree m hs content,
      rest.relay_of_isValueFree m hr contents]

end

end Wire

variable (m : Value.Medium)

private theorem relay_text? (s? : Option String) :
    Schema.relay m (.optional (.text "")) s? = s? :=
  Schema.relay_of_isValueFree m (.optional (.text "")) rfl s?

private theorem relay_texts? (texts? : Option (List String)) :
    Schema.relay m (.optional (.list (.text ""))) texts? = texts? :=
  Schema.relay_of_isValueFree m (.optional (.list (.text ""))) rfl texts?

def Context.relay (c : Context) : Context :=
  ⟨Entries.ofPairs (Value.relayEntries m c.entries)⟩

namespace Request

theorem relay_eq (r : Request) : Payload.relay m r = { r with context := r.context.relay m } := by
  change Request.mk (Schema.relay m (.optional (.text "")) r.modelNamespace?)
    (Schema.relay m (.optional (.text "")) r.modelName?)
    (Schema.relay m (.optional (.list (.text ""))) r.names?)
    (Schema.relay m (.optional (.list (.text ""))) r.ids?) (r.context.relay m) = _
  rw [relay_text?, relay_text?, relay_texts?, relay_texts?]

end Request

namespace DecisionResult

def relay (d : DecisionResult) : DecisionResult :=
  { d with result := d.result.relay m }

private theorem ofContent_relay (d : DecisionResult) :
    ofContent (Schema.relay m schema d.content) = d.relay m := by
  change DecisionResult.mk d.id d.name (d.result.relay m) (Status.ofIndex d.status.toIndex) = _
  rw [Status.ofIndex_toIndex]
  rfl

end DecisionResult

private theorem relay_messages (messages : List Message) :
    (Schema.relay m (.list Message.schema) (messages.map Message.content)).map Message.ofContent
      = messages := by
  have hrelay := Schema.relay_of_isValueFree m (.list Message.schema) rfl
    (messages.map Message.content)
  refine (congrArg (List.map Message.ofContent) hrelay).trans ?_
  simp [List.map_map, Function.comp_def]

namespace Report

theorem relay_eq (r : Report) : Payload.relay m r = { r with
    context := r.context.relay m, decisions := r.decisions.map (DecisionResult.relay m) } := by
  have hdecisions : List.map DecisionResult.ofContent (Schema.relay m (.list DecisionResult.schema)
      (r.decisions.map DecisionResult.content)) = r.decisions.map (DecisionResult.relay m) := by
    change List.map DecisionResult.ofContent (List.map (fun c => Schema.relay m _ c)
      (List.map DecisionResult.content r.decisions)) = _
    rw [List.map_map, List.map_map]
    exact List.map_congr_left fun d _ => DecisionResult.ofContent_relay m d
  change Report.mk r.modelNamespace r.modelName
    (Schema.relay m (.optional (.list (.text ""))) r.names?) (r.context.relay m)
    (List.map Message.ofContent (Schema.relay m (.list Message.schema)
      (r.messages.map Message.content))) (List.map DecisionResult.ofContent
        (Schema.relay m (.list DecisionResult.schema) (r.decisions.map DecisionResult.content))) = _
  rw [relay_texts?, relay_messages, hdecisions]

end Report

namespace Response

variable {α : Type} [Payload α]

theorem relay_eq (r : Response α) :
    Payload.relay m r = { r with result? := r.result?.map (Payload.relay m) } := by
  obtain ⟨type, text, result?⟩ := r
  cases result? <;>
  · change Response.mk (ResponseType.ofIndex type.toIndex) text _ = _
    rw [ResponseType.ofIndex_toIndex]
    rfl

end Response

section Conveys

variable {ν : Type} [Target ν] [Source ν] (ch : Channel ν)

private theorem conveys_text? (s? : Option String) :
    ch.Conveys (.optional (.text "")) s? := by
  cases s? with
  | none => trivial
  | some s => exact ⟨trivial, rfl⟩

private theorem conveys_texts? (texts? : Option (List String)) :
    ch.Conveys (.optional (.list (.text ""))) texts? := by
  cases texts? with
  | none => trivial
  | some texts => exact ⟨fun _ _ => trivial, rfl⟩

theorem Request.conveys {r : Request} (h : ch.CarriesEntries r.context.entries) :
    ch.ConveysPayload r :=
  ⟨by decide, conveys_text? ch _, conveys_text? ch _, conveys_texts? ch _, conveys_texts? ch _, h,
    trivial⟩

private theorem Message.conveys (message : Message) :
    ch.Conveys Message.schema message.content := by
  have hseverity : ["ERROR", "WARN", "INFO"].Nodup := by decide
  have htype : ["REQ_NOT_FOUND", "DECISION_NOT_FOUND", "ERROR_EVAL_NODE"].Nodup := by decide
  exact ⟨by decide, hseverity, trivial, htype, conveys_text? ch _, trivial⟩

private theorem DecisionResult.conveys {d : DecisionResult} (h : ch.Carries d.result) :
    ch.Conveys DecisionResult.schema d.content := by
  have hstatus : ["NOT_EVALUATED", "SUCCEEDED", "SKIPPED", "FAILED"].Nodup := by decide
  exact ⟨by decide, trivial, trivial, h, hstatus, trivial⟩

theorem Report.conveys {r : Report} (hc : ch.CarriesEntries r.context.entries)
    (hd : ∀ d ∈ r.decisions, ch.Carries d.result) : ch.ConveysPayload r := by
  have hmessages : ch.Conveys (.list Message.schema) (r.messages.map Message.content) := by
    intro c hmem
    obtain ⟨message, -, rfl⟩ := List.mem_map.mp hmem
    exact Message.conveys ch message
  have hdecisions : ch.Conveys (.list DecisionResult.schema)
      (r.decisions.map DecisionResult.content) := by
    intro c hmem
    obtain ⟨d, hin, rfl⟩ := List.mem_map.mp hmem
    exact DecisionResult.conveys ch (hd d hin)
  exact ⟨by decide, trivial, trivial, conveys_texts? ch _, hc, hmessages, hdecisions, trivial⟩

theorem Response.conveys {α : Type} [Payload α] {r : Response α}
    (h : ∀ a, r.result? = some a → ch.ConveysPayload a
      ∧ ch.writesNothing (Payload.schema α) (Payload.content a) = false) :
    ch.ConveysPayload r := by
  have htype : ["SUCCESS", "FAILURE"].Nodup := by decide
  have hnames : ["type", "msg", "result"].Nodup := by decide
  obtain ⟨type, text, result?⟩ := r
  cases result? with
  | none => exact ⟨hnames, htype, trivial, trivial, trivial⟩
  | some a => exact ⟨hnames, htype, trivial, h a rfl, trivial⟩

end Conveys

end DecisionService
