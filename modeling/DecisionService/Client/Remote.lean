import DecisionService.Client.Config
import DecisionService.Client.Transport
import DecisionService.Http.Message
import DecisionService.Http.Status
import DecisionService.Http.Url
/-!
# The transport over HTTP

Every container is a resource of the server: its id is put into the path as one segment, with its
separators encoded. The format of an exchange is told in the headers.
-/
namespace DecisionService

open Http

inductive NetworkError
  /-- The connection failed for the reason told. -/
  | unreachable (reason : String)
  /-- The scheme of the URL is not one to send requests with. -/
  | badScheme
deriving DecidableEq, Repr

namespace NetworkError

def message (url : Url) : NetworkError → String
  | unreachable reason =>
    s!"error sending request for url ({url.render}): error trying to connect: " ++
      s!"tcp connect error: {reason}"
  | badScheme => s!"builder error for url ({url.render}): URL scheme is not allowed"

end NetworkError

structure Network (σ : Type) where
  call : Url → Http.Request → σ → Except NetworkError Reply × σ

namespace Network

def unreachable (reason : String) : Network Unit where
  call _ _ _ := (.error (.unreachable reason), ())

end Network

structure Endpoint where
  base : Url
deriving DecidableEq, Repr

namespace Endpoint

def ofConfig (config : ClientConfig) : Except ClientError Endpoint :=
  match Url.parse config.trimmedUrl with
  | .error e => .error (.invalidArgument s!"base URL '{config.trimmedUrl}': {e.message}")
  | .ok base =>
    if base.hasSegments then .ok ⟨base⟩
    else .error (.invalidArgument s!"base URL '{base.render}' cannot carry a path")

def url (e : Endpoint) (containerId : String) : Url :=
  e.base.push ["containers", containerId, "dmn"]

def request (e : Endpoint) (exchange : Exchange) : Http.Request :=
  let contentType := exchange.format.contentType
  let target := (e.url exchange.containerId).target
  match exchange.payload? with
  | none => ⟨"GET", target, [.text "accept" contentType], []⟩
  | some payload =>
    ⟨"POST", target, [.text "content-type" contentType, .text "accept" contentType], payload⟩

def readReply (url : Url) (reply : Reply) : Except ClientError Bytes :=
  if reply.isSuccess then .ok reply.body
  else .error (.transport
    s!"Server returned error status {Status.text reply.status} for {url.render}")

def isSupported (scheme : String) : Bool :=
  scheme == "http" || scheme == "https"

def transport {σ : Type} (e : Endpoint) (network : Network σ) : Transport σ where
  send exchange s :=
    let url := e.url exchange.containerId
    let (reply, s) :=
      if isSupported url.scheme then
        network.call url (e.request exchange) s
      else (.error .badScheme, s)
    match reply with
    | .ok reply => (readReply url reply, s)
    | .error error =>
      (.error (.transport
        s!"Failed to reach {url.render}: {error.message url.withoutCredentials}"), s)

end Endpoint

end DecisionService
