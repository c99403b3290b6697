import Mathlib
import DecisionService.Proofs.Json.Value
import DecisionService.Proofs.Outcome
import DecisionService.Wire.Format
/-!
# Everything can be written

Both formats have a node for every value, and so for every content of a schema: nothing that is told
in a payload can fail to be marshalled.
-/
namespace DecisionService

namespace Wire

/-- The target has a node for everything that may stand in a payload without a schema. -/
structure Target.Total (τ : Type) [Target τ] : Prop where
  value : ∀ v, ∃ node : τ, Target.value v = .ok node
  number : ∀ n, ∃ node : τ, Target.number n = .ok node
  entries : ∀ entries, ∃ node : τ, Target.entries entries = .ok node

section Write

variable {τ : Type} [Target τ]

mutual

theorem Schema.exists_write (h : Target.Total τ) : (schema : Schema) → (content : schema.Content) →
    ∃ node : τ, schema.write content = .ok node
  | .text _, _ | .natural _ _ _, _ | .choice _ _, _ | .optional _, none => ⟨_, rfl⟩
  | .value, v => h.value v
  | .number, n => h.number n
  | .entries, entries => h.entries entries
  | .optional schema, some content => schema.exists_write h content
  | .list schema, contents => by
    have hall : ∃ nodes : List τ,
        (contents : List schema.Content).mapM (fun c => schema.write c) = .ok nodes :=
      Outcome.exists_mapM fun c _ => schema.exists_write h c
    obtain ⟨nodes, hnodes⟩ := hall
    refine ⟨Target.list nodes, ?_⟩
    rw [Schema.write, hnodes]
    rfl
  | .record _ fields, contents => by
    obtain ⟨members, hmembers⟩ := fields.exists_writeAll h contents
    refine ⟨Target.record members, ?_⟩
    rw [Schema.write, hmembers]
    rfl

theorem FieldSchemas.exists_writeAll (h : Target.Total τ) : (fields : FieldSchemas) →
    (contents : fields.Contents) →
    ∃ members : List (String × τ), fields.writeAll contents = .ok members
  | .done, _ => ⟨[], rfl⟩
  | .field name schema presence rest, (content, contents) => by
    obtain ⟨members, hmembers⟩ := rest.exists_writeAll h contents
    rw [FieldSchemas.writeAll]
    split
    · exact ⟨members, hmembers⟩
    · obtain ⟨node, hnode⟩ := schema.exists_write h content
      refine ⟨(name, node) :: members, ?_⟩
      rw [hnode, hmembers]
      rfl

end

end Write

end Wire

open Wire

/-- A number that has no literal is written as text or as nothing. -/
theorem Json.Doc.total : Target.Total Json.Doc where
  value v := by
    obtain ⟨doc, hdoc, -⟩ := exists_ofValue v
    exact ⟨doc, hdoc⟩
  number n := by
    obtain ⟨doc, hdoc, -⟩ := ofNumber_gives n
    exact ⟨doc, hdoc⟩
  entries entries := by
    obtain ⟨members, hmembers, -⟩ := exists_ofEntries entries
    refine ⟨object members .closed, ?_⟩
    change (do return object (← ofEntries entries) .closed) = _
    rw [hmembers]
    rfl

theorem MessagePack.Item.total : Target.Total MessagePack.Item where
  value v := ⟨ofValue v, rfl⟩
  number n := ⟨ofNumber n, rfl⟩
  entries entries := ⟨ofEntries (ofMemberValues entries), rfl⟩

theorem Format.exists_marshal {α : Type} [Payload α] (format : Format) (a : α) :
    ∃ bytes, format.marshal a = .ok bytes := by
  cases format with
  | json =>
    obtain ⟨doc, hdoc⟩ := Schema.exists_write Json.Doc.total (Payload.schema α) (Payload.content a)
    refine ⟨doc.render, Outcome.mapError_eq_ok.mpr ?_⟩
    rw [Format.write, writePayload, hdoc]
    rfl
  | msgpack =>
    obtain ⟨item, hitem⟩ :=
      Schema.exists_write MessagePack.Item.total (Payload.schema α) (Payload.content a)
    refine ⟨item.render, Outcome.mapError_eq_ok.mpr ?_⟩
    rw [Format.write, writePayload, hitem]
    rfl

end DecisionService
