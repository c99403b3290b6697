import DecisionService.Wire.Format
/-!
# Responses

The envelope of every answer: whether it is a success, a text, and the result if there is one.
-/
namespace DecisionService

open Wire

inductive ResponseType
  | success
  | failure
deriving DecidableEq, Repr

namespace ResponseType

abbrev schema : Schema := .choice "SUCCESS" ["FAILURE"]

def toIndex : ResponseType → Fin 2
  | success => ⟨0, Nat.zero_lt_two⟩
  | failure => ⟨1, Nat.one_lt_two⟩

def ofIndex : Fin 2 → ResponseType
  | 0 => success
  | 1 => failure

@[simp] theorem ofIndex_toIndex (t : ResponseType) : ofIndex t.toIndex = t := by
  cases t <;> rfl

instance : Payload ResponseType := ⟨schema, toIndex, ofIndex, ofIndex_toIndex⟩

end ResponseType

structure Response (α : Type) where
  type : ResponseType
  text : String
  result? : Option α

namespace Response

variable {α : Type}

def success (text : String) (result : α) : Response α :=
  ⟨.success, text, some result⟩

def failure (text : String) : Response α :=
  ⟨.failure, text, none⟩

def isSuccess (r : Response α) : Bool :=
  r.type == .success

def withResult (r : Response α) (result : α) : Response α :=
  { r with result? := some result }

def same (sameResult : α → α → Bool) (a b : Response α) : Bool :=
  a.type == b.type && a.text == b.text
    && (match a.result?, b.result? with
      | none, none => true
      | some x, some y => sameResult x y
      | _, _ => false)

abbrev schema (result : Schema) : Schema :=
  .record "ServiceResponse"
    (.field "type" ResponseType.schema .required
      (.field "msg" (.text "") .required
        (.field "result" (.optional result) .defaulted .done)))

variable [Payload α]

def content (r : Response α) : (schema (Payload.schema α)).Content :=
  (r.type.toIndex, r.text, r.result?.map Payload.content, ())

def ofContent : (schema (Payload.schema α)).Content → Response α
  | (type, text, result?, ()) =>
    ⟨ResponseType.ofIndex type, text, Option.map Payload.ofContent result?⟩

@[simp] theorem ofContent_content (r : Response α) : ofContent r.content = r := by
  obtain ⟨type, text, result?⟩ := r
  cases result? <;> simp [ofContent, content, Payload.ofContent_content]

instance : Payload (Response α) :=
  ⟨schema (Payload.schema α), content, ofContent, ofContent_content⟩

end Response

end DecisionService
