import Mathlib
import DecisionService.Proofs.Json.Payload
import DecisionService.Proofs.MessagePack.Payload
/-!
# Payloads read back

The laws of both formats in one: what is marshalled is read back as the format changes it, unless
its containers take more levels than the format allows.
-/
namespace DecisionService.Format

open Wire

def levels : Format → Nat
  | json => Json.levels
  | msgpack => MessagePack.levels

def tooDeep : Format → FormatError
  | json => .problem Json.tooDeep
  | msgpack => .problem MessagePack.tooDeep

def medium : Format → Value.Medium
  | json => Json.medium
  | msgpack => MessagePack.medium

variable {α : Type} [Payload α]

def Conveys (format : Format) (a : α) : Prop :=
  match format with
  | json => Json.channel.ConveysPayload a
  | msgpack => MessagePack.channel.ConveysPayload a ∧ MessagePack.Fits a

/-- The payload is marshalled, and it is read back exactly when there are levels enough. -/
def ReadsBack (format : Format) (a : α) : Prop :=
  ∃ bytes, format.marshal a = .ok bytes ∧ format.unmarshal bytes
    = if Payload.height a ≤ format.levels then .ok (Payload.relay format.medium a)
      else .error format.tooDeep

theorem Conveys.readsBack {format : Format} {a : α} (h : format.Conveys a) :
    format.ReadsBack a := by
  cases format with
  | json => exact Json.unmarshal_marshal h
  | msgpack => exact MessagePack.unmarshal_marshal h.1 h.2

end DecisionService.Format
