import Mathlib
import DecisionService.Proofs.Engine.History
/-!
# Open sessions

Beside a host goes a ledger that knows neither ids nor counts: it writes down which containers were
created and which sessions callers hold. After every history the open sessions of a container are
those of the ledger, and a host that refuses to give back what is not open never gets to refuse.
-/
namespace DecisionService.Host

/-- The containers created, and for each session that a caller opened the position of its
container, or nothing once the session is dropped. -/
structure Ledger where
  containers : List Container
  sessions : List (Option Nat)

namespace Ledger

def record (l : Ledger) : Step → Ledger
  | .create c => { l with containers := l.containers ++ [c] }
  | .openSession position =>
    match l.containers[position]? with
    | some (.deployed _ _) => { l with sessions := l.sessions ++ [some position] }
    | _ => l
  | .dropSession number => { l with sessions := l.sessions.set number none }
  | .register _ | .unregister _ | .models _ | .evaluate _ _ _ => l

def ofHistory (history : List Step) : Ledger :=
  history.foldl record ⟨[], []⟩

def live (l : Ledger) (position : Nat) : Nat :=
  l.sessions.count (some position)

theorem ofHistory_concat (history : List Step) (s : Step) :
    ofHistory (history ++ [s]) = (ofHistory history).record s := by
  simp only [ofHistory, List.foldl_append, List.foldl_cons, List.foldl_nil]

end Ledger

def leave? (position : Nat) (h : Host) : Option Host :=
  if h.openSessions position = 0 then none else some (h.leave position)

def afterCall? (id : String) (h : Host) : Option Host :=
  match h.registered.get? id with
  | none => some h
  | some position =>
    match h.newSession position with
    | (.ok _, opened) => opened.leave? position
    | (.error _, opened) => some opened

def dropSession? (number : Nat) (h : Host) : Option Host :=
  match h.held[number]? with
  | some (some position) =>
    (h.leave? position).map fun left => { left with held := h.held.set number none }
  | _ => some h

/-- A step, with a fault where a session is given back and none is open. -/
def step? (h : Host) : Step → Option Host
  | .models id | .evaluate id _ _ => h.afterCall? id
  | .dropSession number => h.dropSession? number
  | s => some (h.step s)

def run? (history : List Step) : Option Host :=
  history.foldlM step? empty

theorem run?_concat (history : List Step) (s : Step) :
    run? (history ++ [s]) = (run? history).bind fun h => h.step? s := by
  simp only [run?, List.foldlM_append, List.foldlM_cons, List.foldlM_nil, bind_pure]
  rfl

theorem afterCall?_eq (id : String) (h : Host) : h.afterCall? id = some h := by
  unfold afterCall?
  cases h.registered.get? id with
  | none => rfl
  | some position =>
    rcases newSession_cases h position with ⟨cid, models, hc, hs⟩ | ⟨-, e, hs⟩
    · have hopen : (h.enter position).openSessions position = h.openSessions position + 1 := by
        rw [enter, openSessions_adjust, hc]
        simp
      have hne : (h.enter position).openSessions position ≠ 0 := by omega
      simp only [hs, leave?, if_neg hne, leave_enter]
    · simp only [hs]

structure Accounted (l : Ledger) (h : Host) : Prop where
  containers : h.containers = l.containers
  sessions : h.held = l.sessions
  counts : ∀ position, h.openSessions position = l.live position

namespace Accounted

variable {l : Ledger} {h : Host}

theorem create (ha : Accounted l h) (c : Container) :
    Accounted (l.record (.create c)) (h.create c).2 where
  containers := by
    rw [containers_create, ha.containers]
    rfl
  sessions := ha.sessions
  counts position := by
    rw [openSessions_create]
    exact ha.counts position

theorem deploy (ha : Accounted l h) (position : Nat) : Accounted l (h.deploy position) where
  containers := by
    rw [containers_deploy]
    exact ha.containers
  sessions := by
    rw [held_deploy]
    exact ha.sessions
  counts other := by
    rw [openSessions_deploy]
    exact ha.counts other

private theorem of_adjust (ha : Accounted l h) {change : Nat → Nat} {position : Nat}
    {sessions : List (Option Nat)}
    (hchange : (h.container? position).isSome →
      change (l.live position) = sessions.count (some position))
    (hnone : h.container? position = none →
      sessions.count (some position) = l.live position)
    (hother : ∀ other, other ≠ position → sessions.count (some other) = l.live other) :
    Accounted { l with sessions := sessions }
      { h.adjust change position with held := sessions } where
  containers := (containers_adjust h change position).trans ha.containers
  sessions := rfl
  counts other := by
    have hcount := openSessions_adjust h change position other
    refine hcount.trans ?_
    unfold Ledger.live
    by_cases hp : other = position
    · subst hp
      cases hc : h.container? other with
      | none => simp [hnone hc, ha.counts]
      | some c =>
        have hsome := hchange (by rw [hc]; rfl)
        simp [← hsome, ha.counts]
    · simp [hp, hother other hp, ha.counts]

theorem openSession (ha : Accounted l h) (position : Nat) :
    Accounted (l.record (.openSession position)) (h.openSession position).2 := by
  have hcontainer : h.container? position = l.containers[position]? := by
    rw [container?_eq, ha.containers]
  rcases newSession_cases h position with ⟨id, models, hc, hs⟩ | ⟨hnot, e, hs⟩
  · rw [hc] at hcontainer
    have hopen : (h.openSession position).2
        = { h.adjust (· + 1) position with held := l.sessions ++ [some position] } := by
      simp only [Host.openSession, hs, enter, ← ha.sessions]
      rfl
    rw [hopen, Ledger.record, ← hcontainer]
    apply ha.of_adjust
    · intro _
      simp [Ledger.live]
    · intro hnone
      rw [hc] at hnone
      cases hnone
    · intro other hother
      simp [Ledger.live, Ne.symm hother]
  · have hopen : (h.openSession position).2 = h := by simp only [Host.openSession, hs]
    have hrecord : l.record (.openSession position) = l := by
      rw [Ledger.record, ← hcontainer]
      split
      · next id models heq => exact absurd heq (hnot id models)
      · rfl
    rw [hopen, hrecord]
    exact ha

/-- A session that is held is open, so there is one to give back. -/
theorem dropSession?_eq (ha : Accounted l h) (number : Nat) :
    h.dropSession? number = some (h.dropSession number) := by
  unfold dropSession? Host.dropSession
  rcases hheld : h.held[number]? with _ | _ | position
  · rfl
  · rfl
  · have hmem : some position ∈ l.sessions := by
      rw [← ha.sessions]
      exact List.mem_of_getElem? hheld
    have hpos : 0 < l.live position := List.count_pos_iff.mpr hmem
    have hne : h.openSessions position ≠ 0 := by
      rw [ha.counts]
      omega
    simp only [leave?, if_neg hne, Option.map_some]

theorem dropSession (ha : Accounted l h) (number : Nat) :
    Accounted (l.record (.dropSession number)) (h.dropSession number) := by
  unfold Host.dropSession
  split
  · next position hheld =>
    rw [ha.sessions] at hheld
    obtain ⟨hlt, hget⟩ := List.getElem?_eq_some_iff.mp hheld
    have hleft : { h.leave position with held := h.held.set number none }
        = { h.adjust (· - 1) position with held := l.sessions.set number none } := by
      rw [leave, ha.sessions]
    have hcount : ∀ other, (l.sessions.set number none).count (some other)
        = l.live other - if other = position then 1 else 0 := by
      intro other
      rw [List.count_set hlt, hget]
      by_cases hp : other = position
      · simp [hp, Ledger.live]
      · simp [hp, Ne.symm hp, Ledger.live]
    rw [hleft]
    apply ha.of_adjust
    · intro _
      rw [hcount, if_pos rfl]
    · intro hnone
      -- no session is open where no container stands
      have hzero : l.live position = 0 := by
        rw [← ha.counts, openSessions]
        have htenant : h.tenants[position]? = none := by simpa [container?] using hnone
        rw [htenant]
      rw [hcount, hzero]
      simp
    · intro other hother
      rw [hcount, if_neg hother, Nat.sub_zero]
  · next hheld =>
    have hsame : l.sessions.set number none = l.sessions := by
      rw [ha.sessions] at hheld
      apply List.ext_getElem?
      intro i
      rw [List.getElem?_set]
      by_cases hi : number = i
      · subst hi
        cases hget : l.sessions[number]? with
        | none => simp [List.getElem?_eq_none_iff.mp hget]
        | some held =>
          cases held with
          | none => simp [(List.getElem?_eq_some_iff.mp hget).1]
          | some position => exact absurd hget (hheld position)
      · simp [hi]
    simp only [Ledger.record, hsame]
    exact ha

theorem step (ha : Accounted l h) (s : Step) : Accounted (l.record s) (h.step s) := by
  cases s with
  | create c => exact ha.create c
  | register position => exact ha.deploy position
  | unregister id => exact ⟨ha.containers, ha.sessions, ha.counts⟩
  | models id =>
    rw [Host.step, models_snd]
    exact ha
  | evaluate id format payload =>
    rw [Host.step, evaluate_snd]
    exact ha
  | openSession position => exact ha.openSession position
  | dropSession number => exact ha.dropSession number

theorem step?_eq (ha : Accounted l h) (s : Step) : h.step? s = some (h.step s) := by
  cases s with
  | models id => rw [step?, afterCall?_eq, Host.step, models_snd]
  | evaluate id format payload => rw [step?, afterCall?_eq, Host.step, evaluate_snd]
  | dropSession number => exact ha.dropSession?_eq number
  | _ => rfl

end Accounted

theorem accounted_run (history : List Step) : Accounted (.ofHistory history) (run history) := by
  induction history using List.reverseRecOn with
  | nil =>
    exact ⟨rfl, rfl, fun _ => rfl⟩
  | append_singleton history s ih =>
    rw [run_concat, Ledger.ofHistory_concat]
    exact ih.step s

theorem run?_eq (history : List Step) : run? history = some (run history) := by
  induction history using List.reverseRecOn with
  | nil => rfl
  | append_singleton history s ih =>
    rw [run?_concat, ih, run_concat]
    exact (accounted_run history).step?_eq s

/-- After every history each container has as many open sessions as callers hold of it, and no
session was given back where none was open. Calls leave the host as it was, and to take an id away
or to give it to another container changes no count. -/
theorem run_openSessions (history : List Step) :
    (∀ position, (run history).container? position = (Ledger.ofHistory history).containers[position]?)
      ∧ (∀ position, (run history).openSessions position = (Ledger.ofHistory history).live position)
      ∧ run? history = some (run history)
      ∧ (∀ id, ((run history).models id).2 = run history)
      ∧ (∀ id format payload, ((run history).evaluate id format payload).2 = run history)
      ∧ ∀ position, (∀ id, ((run history).unregister id).openSessions position
          = (run history).openSessions position)
        ∧ (∀ other, ((run history).deploy other).openSessions position
          = (run history).openSessions position)
        ∧ ∀ c, ((run history).register c).openSessions position
          = (run history).openSessions position := by
  have haccounted := accounted_run history
  refine ⟨fun position => ?_, haccounted.counts, run?_eq history, ?_, ?_, fun position => ?_⟩
  · rw [container?_eq, haccounted.containers]
  · intro id
    exact models_snd _ id
  · intro id format payload
    exact evaluate_snd _ id format payload
  · refine ⟨fun id => rfl, fun other => ?_, fun c => ?_⟩
    · exact openSessions_deploy _ other position
    · exact openSessions_register _ c position

/-- A container keeps its session while another one takes its id. -/
example : (run [.create (.deployed "c" []), .register 0, .openSession 0, .openSession 0,
    .create (.deployed "c" []), .register 1, .unregister "c", .dropSession 0]).openSessions 0 = 1 := by
  decide

end DecisionService.Host
