import Mathlib
import DecisionService.Proofs.Decision.Payload
import DecisionService.Proofs.Wire.Format
/-!
# Payloads of texts

A schema of texts and names, in lists and records, says by itself how many levels its contents take
at most. With so many levels a payload is read back from both formats as it was, whatever its texts
say and however long its lists are.
-/
namespace DecisionService

namespace Wire

def Schema.isOptional : Schema → Bool
  | .optional _ => true
  | _ => false

mutual

/-- Texts and names alone stand in the contents of the schema, and no two things look the same. -/
def Schema.isTextual : Schema → Bool
  | .text _ => true
  | .choice first others => decide (first :: others).Nodup
  | .optional schema => schema.isTextual && !schema.isOptional
  | .list schema => schema.isTextual
  | .record _ fields => decide fields.names.Nodup && fields.isTextual
  | .natural _ _ _ | .value | .number | .entries => false

def FieldSchemas.isTextual : FieldSchemas → Bool
  | .done => true
  | .field _ schema _ rest => schema.isTextual && rest.isTextual

end

mutual

def Schema.depth : Schema → Nat
  | .optional schema => schema.depth
  | .list schema => schema.depth + 1
  | .record _ fields => fields.depth + 1
  | .text _ | .natural _ _ _ | .choice _ _ | .value | .number | .entries => 0

def FieldSchemas.depth : FieldSchemas → Nat
  | .done => 0
  | .field _ schema _ rest => max schema.depth rest.depth

end

mutual

theorem Schema.isValueFree_of_isTextual : (schema : Schema) → schema.isTextual = true →
    schema.isValueFree = true
  | .optional schema, h => schema.isValueFree_of_isTextual ((Bool.and_eq_true _ _).mp h).1
  | .list schema, h => schema.isValueFree_of_isTextual h
  | .record _ fields, h => fields.isValueFree_of_isTextual ((Bool.and_eq_true _ _).mp h).2
  | .text _, _ | .choice _ _, _ => rfl

theorem FieldSchemas.isValueFree_of_isTextual : (fields : FieldSchemas) →
    fields.isTextual = true → fields.isValueFree = true
  | .done, _ => rfl
  | .field _ schema _ rest, h => by
    obtain ⟨hs, hr⟩ := (Bool.and_eq_true _ _).mp h
    exact (Bool.and_eq_true _ _).mpr
      ⟨schema.isValueFree_of_isTextual hs, rest.isValueFree_of_isTextual hr⟩

end

mutual

theorem Schema.height_le_depth : (schema : Schema) → schema.isValueFree = true →
    (content : schema.Content) → schema.height content ≤ schema.depth
  | .optional _, _, none => Nat.zero_le _
  | .optional schema, h, some content => schema.height_le_depth h content
  | .list schema, h, _ => height_list_le.mpr fun c _ => schema.height_le_depth h c
  | .record _ fields, h, contents => Nat.succ_le_succ (fields.height_le_depth h contents)
  | .text _, _, _ | .natural _ _ _, _, _ | .choice _ _, _, _ | .number, _, _ => Nat.le_refl 0

theorem FieldSchemas.height_le_depth : (fields : FieldSchemas) → fields.isValueFree = true →
    (contents : fields.Contents) → fields.height contents ≤ fields.depth
  | .done, _, _ => Nat.le_refl 0
  | .field _ schema _ rest, h, (content, contents) => by
    obtain ⟨hs, hr⟩ := (Bool.and_eq_true _ _).mp h
    exact max_le_max (schema.height_le_depth hs content) (rest.height_le_depth hr contents)

end

section Conveys

variable {ν : Type} [Target ν] [Source ν] (ch : Channel ν)

mutual

theorem Schema.conveys_of_isTextual : (schema : Schema) → schema.isTextual = true →
    (content : schema.Content) → ch.Conveys schema content
  | .text _, _, _ => trivial
  | .choice first others, h, _ => (decide_eq_true_iff (p := (first :: others).Nodup)).mp h
  | .optional _, _, none => trivial
  | .optional schema, h, some content => by
    obtain ⟨hs, ho⟩ := (Bool.and_eq_true _ _).mp h
    refine ⟨schema.conveys_of_isTextual hs content, ?_⟩
    cases schema with
    | optional schema => cases ho
    | value => cases hs
    | _ => rfl
  | .list schema, h, _ => fun c _ => schema.conveys_of_isTextual h c
  | .record _ fields, h, contents => by
    obtain ⟨hn, hf⟩ := (Bool.and_eq_true _ _).mp h
    exact ⟨of_decide_eq_true hn, fields.conveys_of_isTextual hf contents⟩

theorem FieldSchemas.conveys_of_isTextual : (fields : FieldSchemas) → fields.isTextual = true →
    (contents : fields.Contents) → ch.ConveysFields fields contents
  | .done, _, _ => trivial
  | .field _ schema _ rest, h, (content, contents) => by
    obtain ⟨hs, hr⟩ := (Bool.and_eq_true _ _).mp h
    exact ⟨schema.conveys_of_isTextual hs content, rest.conveys_of_isTextual hr contents⟩

end

end Conveys

end Wire

open Wire

/-- A payload of texts is read back as it was. -/
theorem Format.unmarshal_marshal_textual {α : Type} [Payload α] (format : Format)
    (h : (Payload.schema α).isTextual = true) (hd : (Payload.schema α).depth ≤ format.levels)
    (a : α) (hf : format = .msgpack → MessagePack.Fits a) :
    ∃ bytes, format.marshal a = .ok bytes ∧ format.unmarshal bytes = .ok a := by
  have hconveys : format.Conveys a := by
    cases format with
    | json => exact (Payload.schema α).conveys_of_isTextual Json.channel h _
    | msgpack => exact ⟨(Payload.schema α).conveys_of_isTextual MessagePack.channel h _, hf rfl⟩
  have hfree := (Payload.schema α).isValueFree_of_isTextual h
  have hheight : Payload.height a ≤ format.levels :=
    ((Payload.schema α).height_le_depth hfree _).trans hd
  obtain ⟨bytes, hm, hu⟩ := hconveys.readsBack
  refine ⟨bytes, hm, ?_⟩
  rw [hu, if_pos hheight, Payload.relay, (Payload.schema α).relay_of_isValueFree _ hfree,
    Payload.ofContent_content]

end DecisionService
