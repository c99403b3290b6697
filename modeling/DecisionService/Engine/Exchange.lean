import DecisionService.Engine.Service
/-!
# Exchanges

The question that a client puts to a container and the bytes that answer it.
-/
namespace DecisionService

inductive Method
  | get
  | post
deriving DecidableEq, Repr

/-- A question to a container: with a payload it asks for an evaluation, without one for the
models. The answer comes in the format of the question. -/
structure Exchange where
  containerId : String
  payload? : Option Bytes
  format : Format
deriving DecidableEq, Repr

namespace Exchange

def models (containerId : String) (format : Format) : Exchange :=
  ⟨containerId, none, format⟩

def evaluation (containerId : String) (payload : Bytes) (format : Format) : Exchange :=
  ⟨containerId, some payload, format⟩

def method (e : Exchange) : Method :=
  match e.payload? with
  | none => .get
  | some _ => .post

end Exchange

def Service.reply (r : Registry) (e : Exchange) : Except FormatError Bytes :=
  match e.payload? with
  | none => e.format.marshal (models r e.containerId)
  | some payload => e.format.marshal (evaluate r e.containerId e.format payload)

end DecisionService
