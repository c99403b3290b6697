import Mathlib
import DecisionService.Engine.Host
import DecisionService.Proofs.Entries
/-!
# Histories of a host

What can happen to a host, one thing after the other. Containers are created once and stay where
they are; only sessions that callers open and drop change a count, and a call of the service opens
its session and drops it again, whatever it comes to.
-/
namespace DecisionService.Host

/-- What can happen to a host. A container is told by its position, a kept session by its number. -/
inductive Step
  | create (c : Container)
  | register (position : Nat)
  | unregister (id : String)
  | models (id : String)
  | evaluate (id : String) (format : Format) (payload : Bytes)
  | openSession (position : Nat)
  | dropSession (number : Nat)

def step (h : Host) : Step → Host
  | .create c => (h.create c).2
  | .register position => h.deploy position
  | .unregister id => h.unregister id
  | .models id => (h.models id).2
  | .evaluate id format payload => (h.evaluate id format payload).2
  | .openSession position => (h.openSession position).2
  | .dropSession number => h.dropSession number

def run (history : List Step) : Host :=
  history.foldl step empty

theorem run_concat (history : List Step) (s : Step) :
    run (history ++ [s]) = (run history).step s := by
  simp only [run, List.foldl_append, List.foldl_cons, List.foldl_nil]

def containers (h : Host) : List Container :=
  h.tenants.map Tenant.container

section Tenants

variable (h : Host)

theorem container?_eq (position : Nat) : h.container? position = h.containers[position]? := by
  simp only [container?, containers, List.getElem?_map]

theorem containers_create (c : Container) : (h.create c).2.containers = h.containers ++ [c] := by
  simp [create, containers]

theorem openSessions_create (c : Container) (position : Nat) :
    (h.create c).2.openSessions position = h.openSessions position := by
  have htenants : (h.create c).2.tenants = h.tenants ++ [⟨c, 0⟩] := rfl
  unfold openSessions
  rw [htenants]
  rcases Nat.lt_trichotomy position h.tenants.length with hlt | rfl | hgt
  · rw [List.getElem?_append_left hlt]
  · simp
  · have hnone : h.tenants[position]? = none := List.getElem?_eq_none (by omega)
    have hnone' : (h.tenants ++ [⟨c, 0⟩])[position]? = none :=
      List.getElem?_eq_none (by simp; omega)
    rw [hnone, hnone']

theorem tenants_deploy (position : Nat) : (h.deploy position).tenants = h.tenants := by
  unfold deploy
  split <;> rfl

theorem containers_deploy (position : Nat) : (h.deploy position).containers = h.containers := by
  rw [containers, tenants_deploy, containers]

theorem held_deploy (position : Nat) : (h.deploy position).held = h.held := by
  unfold deploy
  split <;> rfl

theorem openSessions_deploy (position other : Nat) :
    (h.deploy position).openSessions other = h.openSessions other := by
  simp only [openSessions, tenants_deploy]

theorem openSessions_register (c : Container) (position : Nat) :
    (h.register c).openSessions position = h.openSessions position := by
  have hregister : h.register c = (h.create c).2.deploy h.tenants.length := rfl
  rw [hregister, openSessions_deploy, openSessions_create]

theorem containers_adjust (change : Nat → Nat) (position : Nat) :
    (h.adjust change position).containers = h.containers := by
  apply List.ext_getElem?
  intro i
  simp only [containers, adjust, List.getElem?_map, List.getElem?_modify]
  cases h.tenants[i]? with
  | none => rfl
  | some t => by_cases hp : position = i <;> simp [hp]

theorem openSessions_adjust (change : Nat → Nat) (position other : Nat) :
    (h.adjust change position).openSessions other
      = if other = position ∧ (h.container? position).isSome
        then change (h.openSessions position) else h.openSessions other := by
  simp only [openSessions, container?, adjust, List.getElem?_modify, Option.isSome_map]
  by_cases hp : position = other
  · subst hp
    cases h.tenants[position]? <;> simp
  · have hne : ¬ (other = position ∧ h.tenants[position]?.isSome = true) :=
      fun hand => hp hand.1.symm
    simp only [if_neg hne, if_neg hp, id_map']

theorem leave_enter (position : Nat) : (h.enter position).leave position = h := by
  have htenants : ((h.enter position).leave position).tenants = h.tenants := by
    apply List.ext_getElem?
    intro i
    simp only [enter, leave, adjust, List.getElem?_modify]
    cases h.tenants[i]? with
    | none => rfl
    | some t => by_cases hp : position = i <;> simp [hp]
  calc
    (h.enter position).leave position
      = { h with tenants := ((h.enter position).leave position).tenants } := rfl
    _ = h := by rw [htenants]

theorem newSession_cases (position : Nat) :
    (∃ id models, h.container? position = some (.deployed id models)
        ∧ h.newSession position = (.ok ⟨id, models⟩, h.enter position))
      ∨ (∀ id models, h.container? position ≠ some (.deployed id models))
        ∧ ∃ e, h.newSession position = (.error e, h) := by
  unfold newSession
  cases hc : h.container? position with
  | none => exact Or.inr ⟨by simp, _, rfl⟩
  | some c =>
    cases c with
    | deployed id models => exact Or.inl ⟨id, models, rfl, rfl⟩
    | broken id text => exact Or.inr ⟨by simp, _, rfl⟩

/-- A call leaves the host as it was, whatever it does with its session. -/
theorem withSession_snd {α : Type} (id : String) (use : Except EvaluationError Session → α) :
    (h.withSession id use).2 = h := by
  unfold withSession
  cases h.registered.get? id with
  | none => rfl
  | some position =>
    rcases newSession_cases h position with ⟨_, _, -, hs⟩ | ⟨-, e, hs⟩
    · simp only [hs, leave_enter]
    · simp only [hs]

theorem models_snd (id : String) : (h.models id).2 = h :=
  withSession_snd h id _

theorem evaluate_snd (id : String) (format : Format) (payload : Bytes) :
    (h.evaluate id format payload).2 = h :=
  withSession_snd h id _

end Tenants

end DecisionService.Host
