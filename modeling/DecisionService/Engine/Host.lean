import DecisionService.Engine.Service
/-!
# Hosts

A host keeps count of the sessions that are open on each container it was ever given. A container
goes on living, under the position it was created at, when its id is taken away or given to another.
-/
namespace DecisionService

structure Tenant where
  container : Container
  openSessions : Nat

/-- The containers in the order of their creation, the position that each registered id stands for,
and the sessions that callers hold themselves: the position of each one's container, and nothing
once it is dropped. -/
structure Host where
  tenants : List Tenant
  registered : Entries Nat
  held : List (Option Nat)

namespace Host

def empty : Host := ⟨[], [], []⟩

def container? (h : Host) (position : Nat) : Option Container :=
  h.tenants[position]?.map Tenant.container

def openSessions (h : Host) (position : Nat) : Nat :=
  match h.tenants[position]? with
  | some t => t.openSessions
  | none => 0

def create (c : Container) (h : Host) : Nat × Host :=
  (h.tenants.length, { h with tenants := h.tenants ++ [⟨c, 0⟩] })

def deploy (position : Nat) (h : Host) : Host :=
  match h.container? position with
  | some c => { h with registered := h.registered.put c.id position }
  | none => h

def register (c : Container) (h : Host) : Host :=
  let (position, h) := h.create c
  h.deploy position

def unregister (id : String) (h : Host) : Host :=
  { h with registered := h.registered.erase id }

def registry (h : Host) : Registry :=
  h.registered.filterMap fun (id, position) => (h.container? position).map fun c => (id, c)

def adjust (change : Nat → Nat) (position : Nat) (h : Host) : Host :=
  { h with tenants := h.tenants.modify position fun t =>
      { t with openSessions := change t.openSessions } }

def enter (position : Nat) (h : Host) : Host :=
  h.adjust (· + 1) position

def leave (position : Nat) (h : Host) : Host :=
  h.adjust (· - 1) position

def newSession (position : Nat) (h : Host) : Except EvaluationError Session × Host :=
  match h.container? position with
  | none => (.error (.engine "no such container"), h)
  | some c =>
    match c.newSession with
    | .ok s => (.ok s, h.enter position)
    | .error e => (.error e, h)

def withSession {α : Type} (id : String) (use : Except EvaluationError Session → α) (h : Host) :
    α × Host :=
  match h.registered.get? id with
  | none => (use (.error (.containerNotFound id)), h)
  | some position =>
    let (session, opened) := h.newSession position
    match session with
    | .ok s => (use (.ok s), opened.leave position)
    | .error e => (use (.error e), opened)

def models (id : String) (h : Host) : Response ModelList × Host :=
  h.withSession id (Service.modelsResponse id)

def evaluate (id : String) (format : Format) (payload : Bytes) (h : Host) :
    Response Report × Host :=
  h.withSession id fun session => Service.evaluationResponse id session format payload

def openSession (position : Nat) (h : Host) : Except EvaluationError Nat × Host :=
  let (session, opened) := h.newSession position
  match session with
  | .ok _ => (.ok opened.held.length, { opened with held := opened.held ++ [some position] })
  | .error e => (.error e, opened)

/-- A kept session given back. One that was given back before is left alone. -/
def dropSession (number : Nat) (h : Host) : Host :=
  match h.held[number]? with
  | some (some position) => { h.leave position with held := h.held.set number none }
  | _ => h

def session? (number : Nat) (h : Host) : Option Session := do
  let position ← (← h.held[number]?)
  (← h.container? position).newSession.toOption

end Host

end DecisionService
