import DecisionService.Json.Source
import DecisionService.Json.Target
import DecisionService.MessagePack.Source
import DecisionService.MessagePack.Target
import DecisionService.Text.Blank
/-!
# Wire formats

JSON forgets the form of numbers and the difference between sets and lists. MessagePack keeps both.
A payload type says how it is laid out, and each format writes and reads it accordingly.
-/
namespace DecisionService

inductive Format
  | json
  | msgpack
deriving DecidableEq, Repr

inductive FormatError
  | problem (p : Wire.Problem)
  | unknown (name : String)
deriving DecidableEq, Repr

namespace FormatError

def detail : FormatError → String
  | problem p => p.message
  | unknown name => s!"unknown marshalling format '{name}'"

def message (e : FormatError) : String :=
  s!"Marshalling error: {e.detail}"

end FormatError

namespace Wire

/-- A type that travels: its schema, and a content of the schema for every value of it. -/
class Payload (α : Type) where
  schema : Schema
  content : α → schema.Content
  ofContent : schema.Content → α
  ofContent_content : ∀ a, ofContent (content a) = a

instance : Payload Value := ⟨.value, id, id, fun _ => rfl⟩

instance : Payload Number := ⟨.number, id, id, fun _ => rfl⟩

variable {α : Type} [Payload α]

def readPayload {ν : Type} [Source ν] (node : ν) : Except Problem α := do
  return Payload.ofContent (← (Payload.schema α).read (Source.levels ν) node)

def writePayload {τ : Type} [Target τ] (a : α) : Except Problem τ :=
  (Payload.schema α).write (Payload.content a)

end Wire

namespace Format

open Wire

def name : Format → String
  | json => "json"
  | msgpack => "msgpack"

def contentType : Format → String
  | json => "application/json"
  | msgpack => "application/msgpack"

def isAmbiguous : Format → Bool
  | json => true
  | msgpack => false

def lowerCase (text : String) : String :=
  String.ofList (text.toList.map Char.toLower)

/-- The format of a content type; what follows a semicolon is not looked at. -/
def ofContentType (text : String) : Option Format :=
  let essence := Text.trim (String.ofList (text.toList.takeWhile (· ≠ ';')))
  match lowerCase essence with
  | "application/json" => some json
  | "application/msgpack" => some msgpack
  | "application/x-msgpack" => some msgpack
  | _ => none

def ofName (text : String) : Except FormatError Format :=
  match lowerCase (Text.trim text) with
  | "json" => .ok json
  | "msgpack" => .ok msgpack
  | other => .error (.unknown other)

def checkRest (rest : Option Bytes) : Except Problem Unit :=
  match rest with
  | none => .ok ()
  | some bytes =>
    if (Json.Doc.skipBlanks bytes).isEmpty then .ok () else .error (.json .trailingCharacters)

abbrev schema : Schema := .choice "json" ["msgpack"]

def toIndex : Format → Fin 2
  | json => ⟨0, Nat.zero_lt_two⟩
  | msgpack => ⟨1, Nat.one_lt_two⟩

def ofIndex : Fin 2 → Format
  | 0 => json
  | 1 => msgpack

@[simp] theorem ofIndex_toIndex (f : Format) : ofIndex f.toIndex = f := by
  cases f <;> rfl

instance : Payload Format := ⟨schema, toIndex, ofIndex, ofIndex_toIndex⟩

variable {α : Type} [Payload α]

def write (format : Format) (a : α) : Except Problem Bytes :=
  match format with
  | json => do
    let doc : Json.Doc ← writePayload a
    return doc.render
  | msgpack => do
    let item : MessagePack.Item ← writePayload a
    return item.render

/-- The payload of some bytes. Bytes behind a MessagePack item are not looked at. -/
def read (format : Format) (bytes : Bytes) : Except Problem α :=
  match format with
  | json => do
    let (doc, rest) := Json.Doc.ofBytes bytes
    let a ← readPayload doc
    checkRest rest
    return a
  | msgpack => readPayload (MessagePack.Item.ofBytes bytes).1

def marshal (format : Format) (a : α) : Except FormatError Bytes :=
  (format.write a).mapError .problem

def unmarshal (format : Format) (bytes : Bytes) : Except FormatError α :=
  (format.read bytes).mapError .problem

end Format

end DecisionService
