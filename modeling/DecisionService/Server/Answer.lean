import DecisionService.Engine.Exchange
import DecisionService.Server.Negotiation
import DecisionService.Server.Route
/-!
# Answers of the server

Whatever becomes of an evaluation is told in the envelope of an answer with status 200. Error
statuses are for requests that do not get as far: an unknown resource or method, an id that is no
text, a content type that is none, and a body without measure.
-/
namespace DecisionService

open Http Wire

structure Server where
  registry : Registry
  defaultFormat : Format

structure Health where
  status : String
  version : String
  containers : List String
deriving DecidableEq, Repr

namespace Health

abbrev schema : Schema :=
  .record "HealthResponse"
    (.field "status" (.text "") .required
      (.field "version" (.text "") .required
        (.field "containers" (.list (.text "")) .required .done)))

def content (h : Health) : schema.Content :=
  (h.status, h.version, h.containers, ())

def ofContent : schema.Content → Health
  | (status, version, containers, ()) => ⟨status, version, containers⟩

@[simp] theorem ofContent_content (h : Health) : ofContent h.content = h := rfl

instance : Payload Health := ⟨schema, content, ofContent, ofContent_content⟩

end Health

structure ErrorReport where
  error : String
  status : Nat
deriving DecidableEq, Repr

namespace ErrorReport

abbrev schema : Schema :=
  .record "ErrorReport"
    (.field "error" (.text "") .required
      (.field "status" (.natural (2 ^ 16 - 1) "u16" 0) .required .done))

def content (r : ErrorReport) : schema.Content :=
  (r.error, r.status, ())

def ofContent : schema.Content → ErrorReport
  | (error, status, ()) => ⟨error, status⟩

@[simp] theorem ofContent_content (r : ErrorReport) : ofContent r.content = r := rfl

instance : Payload ErrorReport := ⟨schema, content, ofContent, ofContent_content⟩

end ErrorReport

namespace Server

def version : String := "0.1.0"

def bodyLimit : Nat := 2 ^ 21

def emptyReply (status : Nat) : Reply :=
  ⟨status, [], []⟩

def textReply (status : Nat) (text : String) : Reply :=
  ⟨status, [.text "content-type" "text/plain; charset=utf-8"], Utf8.encode text⟩

def payloadReply (status : Nat) (format : Format) (body : Bytes) : Reply :=
  ⟨status, [.text "content-type" format.contentType], body⟩

def jsonReply {α : Type} [Payload α] (status : Nat) (a : α) : Reply :=
  match Format.json.marshal a with
  | .ok body => payloadReply status .json body
  | .error e => textReply 500 e.message

def errorReply (e : RequestError) : Reply :=
  jsonReply e.status (⟨e.message, e.status⟩ : ErrorReport)

def healthReply (s : Server) : Reply :=
  jsonReply 200 (⟨"healthy", version, s.registry.ids⟩ : Health)

def exchangeReply (s : Server) (e : Exchange) : Reply :=
  match Service.reply s.registry e with
  | .ok body => payloadReply 200 e.format body
  | .error error => errorReply (.internal error)

def containerReply (s : Server) (segment : List Char) (r : Http.Request) : Reply :=
  match Route.containerId? segment with
  | none => textReply 400 "Invalid URL: Invalid UTF-8 in \x60container_id\x60"
  | some id =>
    match Negotiation.format s.defaultFormat r.headers with
    | .error e => errorReply e
    | .ok format =>
      if r.method ≠ "POST" then s.exchangeReply (.models id format)
      else if bodyLimit < r.body.length then
        textReply 413 "Failed to buffer the request body: length limit exceeded"
      else s.exchangeReply (.evaluation id r.body format)

/-- The reply to a method that a resource understands. `HEAD` asks for a reply without its body. -/
def resourceReply (s : Server) (route : Route) (r : Http.Request) : Reply :=
  let reply := match route with
    | .health => s.healthReply
    | .container segment => s.containerReply segment r
  if r.method = "HEAD" then { reply with body := [] } else reply

def methodsReply (status : Nat) (route : Route) : Reply :=
  ⟨status, [.text "allow" (",".intercalate route.methods)], []⟩

def reply (s : Server) (r : Http.Request) : Reply :=
  match Route.ofTarget? r.target with
  | none => emptyReply (if r.method = "OPTIONS" then 200 else 404)
  | some route =>
    if r.method = "OPTIONS" then methodsReply 200 route
    else if route.methods.contains r.method then s.resourceReply route r
    else methodsReply 405 route

/-- The reply to a request. Callers from everywhere may have it. The other headers of the layer that
says so are left out: `vary`, `access-control-expose-headers`, and the methods and headers that it
allows where a caller asks beforehand. -/
def answer (s : Server) (r : Http.Request) : Reply :=
  let reply := s.reply r
  { reply with headers := reply.headers ++ [.text "access-control-allow-origin" "*"] }

end Server

end DecisionService
