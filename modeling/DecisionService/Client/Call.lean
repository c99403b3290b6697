import DecisionService.Client.Config
import DecisionService.Client.Transport
import DecisionService.Text.Blank
/-!
# Calls of a client

A call writes a request, carries it to the server, reads the answer and, in a format that forgets
what numbers were, makes decimals of them. A call that is refused before it is written leaves no
exchange behind; any other leaves exactly one.
-/
namespace DecisionService

structure Client (σ : Type) where
  config : ClientConfig
  transport : Transport σ

/-- What a call comes to: its outcome, the exchanges it took, and what the transport remembers. -/
structure Call (σ α : Type) where
  outcome : Except ClientError α
  sent : List Exchange
  state : σ

namespace Client

variable {σ α : Type}

def format (c : Client σ) : Format :=
  c.config.format

def refused (e : ClientError) (s : σ) : Call σ α :=
  ⟨.error e, [], s⟩

def exchange (c : Client σ) (e : Exchange) (read : Bytes → Except ClientError α) (s : σ) :
    Call σ α :=
  let (reply, s) := c.transport.send e s
  ⟨reply.bind read, [e], s⟩

def coerceResult (r : Response Report) : Except ClientError (Response Report) :=
  match r.result? with
  | none => .ok r
  | some report =>
    match report.coerce.result with
    | .ok report => .ok (r.withResult report)
    | .error e => .error (.coercion e)

def readEvaluation (format : Format) (reply : Bytes) : Except ClientError (Response Report) :=
  match format.unmarshal reply with
  | .ok response => if format.isAmbiguous then coerceResult response else .ok response
  | .error e => .error (.marshalling e)

def readModels (format : Format) (reply : Bytes) : Except ClientError (Response ModelList) :=
  (format.unmarshal reply).mapError .marshalling

def evaluate (c : Client σ) (containerId : String) (request : Request) (s : σ) :
    Call σ (Response Report) :=
  match c.format.marshal request with
  | .error e => refused (.marshalling e) s
  | .ok payload =>
    c.exchange (.evaluation containerId payload c.format) (readEvaluation c.format) s

def evaluateAllIn (c : Client σ) (containerId : String) (modelNamespace? modelName? : Option String)
    (context : Context) : σ → Call σ (Response Report) :=
  c.evaluate containerId ⟨modelNamespace?, modelName?, none, none, context⟩

def evaluateAll (c : Client σ) (containerId : String) (context : Context) :
    σ → Call σ (Response Report) :=
  c.evaluateAllIn containerId none none context

def evaluateByName (c : Client σ) (containerId : String)
    (modelNamespace? modelName? : Option String) (name : String) (context : Context) (s : σ) :
    Call σ (Response Report) :=
  if Text.isBlankText name then refused (.invalidArgument "decision name cannot be empty") s
  else c.evaluate containerId ⟨modelNamespace?, modelName?, some [name], none, context⟩ s

def evaluateById (c : Client σ) (containerId : String)
    (modelNamespace? modelName? : Option String) (id : String) (context : Context) (s : σ) :
    Call σ (Response Report) :=
  if Text.isBlankText id then refused (.invalidArgument "decision id cannot be empty") s
  else c.evaluate containerId ⟨modelNamespace?, modelName?, none, some [id], context⟩ s

def models (c : Client σ) (containerId : String) : σ → Call σ (Response ModelList) :=
  c.exchange (.models containerId c.format) (readModels c.format)

end Client

end DecisionService
