import DecisionService.Http.Message
import DecisionService.Text.Split
import DecisionService.Wire.Format
/-!
# Negotiation

The format of an exchange is that of the content type, which must then be one of the known ones.
Without a content type it is the first known one that the caller accepts, and else the server's own.
-/
namespace DecisionService

open Wire

inductive RequestError
  | unsupportedMediaType (contentType : String)
  | invalidRequest (text : String)
  | internal (e : FormatError)
deriving DecidableEq, Repr

namespace RequestError

def message : RequestError → String
  | unsupportedMediaType contentType => s!"Unsupported media type: {contentType}"
  | invalidRequest text => s!"Invalid request: {text}"
  | internal e => s!"Internal error: {e.message}"

def status : RequestError → Nat
  | unsupportedMediaType _ => 415
  | invalidRequest _ => 400
  | internal _ => 500

end RequestError

namespace Negotiation

def accepted? (list : String) : Option Format :=
  (Text.split (· = ',') list.toList).findSome? fun item => Format.ofContentType (String.ofList item)

def ofContentType (value : Bytes) : Except RequestError Format :=
  match Http.Header.text? value with
  | none => .error (.invalidRequest "Content-Type is not valid text")
  | some contentType =>
    match Format.ofContentType contentType with
    | some format => .ok format
    | none => .error (.unsupportedMediaType contentType)

def format (standard : Format) (headers : List Http.Header) : Except RequestError Format :=
  match Http.Header.find? "content-type" headers with
  | some value => ofContentType value
  | none =>
    let accept? := (Http.Header.find? "accept" headers).bind Http.Header.text?
    .ok ((accept?.bind accepted?).getD standard)

end Negotiation

end DecisionService
