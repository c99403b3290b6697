import Mathlib
import DecisionService.Proofs.Engine.History
import DecisionService.Proofs.Utf8
/-!
# Registrations

Beside a host goes a chronicle of what was registered under which id and what was taken away again.
The last entry of an id decides what the host answers for it; requests, their failures and the
entries of other ids leave no trace in the answers.
-/
namespace DecisionService

namespace Host

/-- The containers created, and with each id that was changed the position registered for it, or
nothing where it was taken away. -/
structure Chronicle where
  created : List Container
  changes : List (String × Option Nat)

namespace Chronicle

def record (l : Chronicle) : Step → Chronicle
  | .create c => { l with created := l.created ++ [c] }
  | .register position =>
    match l.created[position]? with
    | some c => { l with changes := l.changes ++ [(c.id, some position)] }
    | none => l
  | .unregister id => { l with changes := l.changes ++ [(id, none)] }
  | .models _ | .evaluate _ _ _ | .openSession _ | .dropSession _ => l

def ofHistory (history : List Step) : Chronicle :=
  history.foldl record ⟨[], []⟩

def last? (id : String) (l : Chronicle) : Option (Option Nat) :=
  (l.changes.filter fun change => change.1 = id).getLast?.map Prod.snd

def deployed? (id : String) (l : Chronicle) : Option Container :=
  (l.last? id).join.bind fun position => l.created[position]?

theorem ofHistory_concat (history : List Step) (s : Step) :
    ofHistory (history ++ [s]) = (ofHistory history).record s := by
  simp only [ofHistory, List.foldl_append, List.foldl_cons, List.foldl_nil]

theorem last?_concat (id : String) (created : List Container) (changes : List (String × Option Nat))
    (change : String × Option Nat) :
    last? id ⟨created, changes ++ [change]⟩
      = if change.1 = id then some change.2 else last? id ⟨created, changes⟩ := by
  unfold last?
  by_cases h : change.1 = id <;> simp [h]

end Chronicle

structure Chronicled (l : Chronicle) (h : Host) : Prop where
  created : h.containers = l.created
  names : h.registered.names.Nodup
  last : ∀ id, h.registered.get? id = (l.last? id).join
  owned : ∀ id position, h.registered.get? id = some position →
    ∃ c, h.container? position = some c ∧ c.id = id

namespace Chronicled

variable {l : Chronicle} {h : Host}

/-- What changes no registration and creates no container is not written down. -/
theorem of_same (hc : Chronicled l h) {other : Host} (hcontainers : other.containers = h.containers)
    (hregistered : other.registered = h.registered) : Chronicled l other where
  created := hcontainers.trans hc.created
  names := by
    rw [hregistered]
    exact hc.names
  last id := by
    rw [hregistered]
    exact hc.last id
  owned id position hget := by
    rw [hregistered] at hget
    rw [container?_eq, hcontainers, ← container?_eq]
    exact hc.owned id position hget

theorem create (hc : Chronicled l h) (c : Container) :
    Chronicled (l.record (.create c)) (h.create c).2 where
  created := by
    rw [containers_create, hc.created]
    rfl
  names := hc.names
  last := hc.last
  owned id position hget := by
    obtain ⟨found, hfound, hid⟩ := hc.owned id position hget
    refine ⟨found, ?_, hid⟩
    rw [container?_eq] at hfound ⊢
    rw [containers_create]
    obtain ⟨hlt, -⟩ := List.getElem?_eq_some_iff.mp hfound
    rw [List.getElem?_append_left hlt]
    exact hfound

theorem deploy (hc : Chronicled l h) (position : Nat) :
    Chronicled (l.record (.register position)) (h.deploy position) := by
  have hposition : h.container? position = l.created[position]? := by
    rw [container?_eq, hc.created]
  unfold Host.deploy Chronicle.record
  cases hcontainer : l.created[position]? with
  | none =>
    simp only [hposition, hcontainer]
    exact hc
  | some c =>
    simp only [hposition, hcontainer]
    refine ⟨hc.created, Entries.nodup_put position hc.names, fun id => ?_, fun id other hget => ?_⟩
    · rw [Chronicle.last?_concat]
      by_cases hid : c.id = id
      · rw [if_pos hid, ← hid]
        exact Entries.get?_put_self c.id position h.registered
      · rw [if_neg hid]
        exact (Entries.get?_put_of_ne (Ne.symm hid) position h.registered).trans (hc.last id)
    · by_cases hid : c.id = id
      · subst hid
        rw [Entries.get?_put_self] at hget
        cases hget
        exact ⟨c, hposition.trans hcontainer, rfl⟩
      · rw [Entries.get?_put_of_ne (Ne.symm hid)] at hget
        exact hc.owned id other hget

theorem unregister (hc : Chronicled l h) (id : String) :
    Chronicled (l.record (.unregister id)) (h.unregister id) where
  created := hc.created
  names := Entries.nodup_erase id hc.names
  last other := by
    simp only [Chronicle.record, Chronicle.last?_concat]
    by_cases hid : id = other
    · rw [if_pos hid, ← hid]
      exact Entries.get?_erase_self id h.registered
    · rw [if_neg hid]
      exact (Entries.get?_erase_of_ne (Ne.symm hid) h.registered).trans (hc.last other)
  owned other position hget := by
    have hne : other ≠ id := by
      rintro rfl
      have hnone := Entries.get?_erase_self other h.registered
      rw [Host.unregister, hnone] at hget
      cases hget
    have hkept : h.registered.get? other = some position :=
      (Entries.get?_erase_of_ne hne h.registered).symm.trans hget
    exact hc.owned other position hkept

theorem step (hc : Chronicled l h) (s : Step) : Chronicled (l.record s) (h.step s) := by
  cases s with
  | create c => exact hc.create c
  | register position => exact hc.deploy position
  | unregister id => exact hc.unregister id
  | models id =>
    rw [Host.step, models_snd]
    exact hc
  | evaluate id format payload =>
    rw [Host.step, evaluate_snd]
    exact hc
  | openSession position =>
    rw [Host.step, openSession]
    rcases newSession_cases h position with ⟨id, models, -, hs⟩ | ⟨-, e, hs⟩
    · simp only [hs]
      exact hc.of_same (containers_adjust h _ position) rfl
    · simp only [hs]
      exact hc
  | dropSession number =>
    rw [Host.step, dropSession]
    split
    · next position _ =>
      have hcontainers : (h.leave position).containers = h.containers := containers_adjust h _ position
      exact hc.of_same hcontainers rfl
    · exact hc

theorem kept (hc : Chronicled l h) : ∀ e ∈ h.registered, (h.container? e.2).isSome := by
  intro e he
  obtain ⟨c, hcontainer, -⟩ := hc.owned e.1 e.2 (Entries.get?_of_mem hc.names he)
  rw [hcontainer]
  rfl

theorem names_registry (hc : Chronicled l h) : h.registry.names.Nodup := by
  have hnames : h.registry.names = h.registered.names := Entries.names_filterMap hc.kept
  rw [hnames]
  exact hc.names

theorem get?_registry (hc : Chronicled l h) (id : String) :
    h.registry.get? id = (h.registered.get? id).bind h.container? :=
  Entries.get?_filterMap hc.kept

/-- The look-up of the registry is the look-up of the chronicle. -/
theorem get?_eq (hc : Chronicled l h) (id : String) : h.registry.get? id = l.deployed? id := by
  rw [hc.get?_registry, hc.last, Chronicle.deployed?]
  congr 1
  funext position
  rw [container?_eq, hc.created]

theorem id_deployed (hc : Chronicled l h) {id : String} {c : Container}
    (hdeployed : l.deployed? id = some c) : c.id = id := by
  rw [← hc.get?_eq, hc.get?_registry] at hdeployed
  obtain ⟨position, hget, hcontainer⟩ := Option.bind_eq_some_iff.mp hdeployed
  obtain ⟨found, hfound, hid⟩ := hc.owned id position hget
  rw [hcontainer] at hfound
  cases hfound
  exact hid

theorem deployed_iff (hc : Chronicled l h) (id : String) :
    (∃ c, l.deployed? id = some c) ↔ ∃ position, l.last? id = some (some position) := by
  constructor
  · rintro ⟨c, hdeployed⟩
    obtain ⟨position, hlast, -⟩ := Option.bind_eq_some_iff.mp hdeployed
    exact ⟨position, Option.join_eq_some_iff.mp hlast⟩
  · rintro ⟨position, hlast⟩
    have hget : h.registered.get? id = some position := by
      rw [hc.last, hlast]
      rfl
    obtain ⟨c, hcontainer, -⟩ := hc.owned id position hget
    rw [← hc.get?_eq, hc.get?_registry, hget]
    exact ⟨c, hcontainer⟩

theorem withSession_fst (hc : Chronicled l h) {α : Type} (id : String)
    (use : Except EvaluationError Session → α) :
    (h.withSession id use).1 = use (h.registry.newSession id) := by
  have hfind := hc.get?_registry id
  unfold withSession Registry.newSession Registry.find
  cases hget : h.registered.get? id with
  | none =>
    rw [hget] at hfind
    rw [hfind]
    rfl
  | some position =>
    obtain ⟨c, hcontainer, -⟩ := hc.owned id position hget
    rw [hget, Option.bind_some, hcontainer] at hfind
    rw [hfind]
    simp only [newSession, hcontainer]
    cases c <;> rfl

end Chronicled

theorem chronicled_run (history : List Step) : Chronicled (.ofHistory history) (run history) := by
  induction history using List.reverseRecOn with
  | nil =>
    refine ⟨rfl, List.nodup_nil, fun _ => rfl, ?_⟩
    intro id position hget
    cases hget
  | append_singleton history s ih =>
    rw [run_concat, Chronicle.ofHistory_concat]
    exact ih.step s

end Host

namespace Registry

theorem ids_increasing {r : Registry} (h : r.names.Nodup) :
    r.ids.Pairwise fun a b => Utf8.encode a < Utf8.encode b := by
  have hsorted : r.ids.Pairwise (· ≤ ·) := List.pairwise_mergeSort' (· ≤ ·) r.names
  have hnodup : r.ids.Nodup := (List.mergeSort_perm r.names _).nodup_iff.mpr h
  refine hsorted.imp₂ (fun a b hle hne => ?_) hnodup
  exact Utf8.encode_lt (lt_of_le_of_ne hle hne)

theorem mem_ids (r : Registry) (id : String) : id ∈ r.ids ↔ (r.get? id).isSome = true := by
  rw [ids, sorted, List.mem_mergeSort, Entries.get?_isSome_iff]

theorem newSession_congr {r r' : Registry} {id : String} (h : r.get? id = r'.get? id) :
    r.newSession id = r'.newSession id := by
  simp only [newSession, find, h]

end Registry

namespace Host

def fresh : Option Container → Host
  | some c => empty.register c
  | none => empty

theorem get?_fresh {c? : Option Container} {id : String} (h : ∀ c, c? = some c → c.id = id) :
    (fresh c?).registry.get? id = c? := by
  cases c? with
  | none => rfl
  | some c =>
    have hid : c.id = id := h c rfl
    have hregistry : (empty.register c).registry = [(c.id, c)] := rfl
    rw [fresh, hregistry, hid]
    simp [Entries.get?]

theorem chronicled_fresh (c? : Option Container) : ∃ l, Chronicled l (fresh c?) := by
  cases c? with
  | none => exact ⟨_, chronicled_run []⟩
  | some c => exact ⟨_, chronicled_run [.create c, .register 0]⟩

/-- What a host answers is decided by what is deployed. After every history the look-up of an id
gives the container of the last registration, if the id was not taken away since, and says otherwise
that there is none; the ids are in increasing order; and both calls answer as a fresh host does that
has this one container or nothing. -/
theorem run_answers (history : List Step) (id : String) :
    let deployed? := (Chronicle.ofHistory history).deployed? id
    let h := run history
    h.registered.get? id = ((Chronicle.ofHistory history).last? id).join
      ∧ h.registry.find id = deployed?.elim (.error (.containerNotFound id)) .ok
      ∧ ((∃ c, h.registry.find id = .ok c)
        ↔ ∃ position, (Chronicle.ofHistory history).last? id = some (some position))
      ∧ (∀ c, deployed? = some c → c.id = id)
      ∧ h.registry.ids.Pairwise (fun a b => Utf8.encode a < Utf8.encode b)
      ∧ (id ∈ h.registry.ids ↔ deployed?.isSome = true)
      ∧ (h.models id).1 = ((fresh deployed?).models id).1
      ∧ ∀ format payload,
        (h.evaluate id format payload).1 = ((fresh deployed?).evaluate id format payload).1 := by
  intro deployed? h
  have hc : Chronicled (.ofHistory history) h := chronicled_run history
  have hget : h.registry.get? id = deployed? := hc.get?_eq id
  have hid : ∀ c, deployed? = some c → c.id = id := fun c => hc.id_deployed
  obtain ⟨l, hfresh⟩ := chronicled_fresh deployed?
  have hsession : h.registry.newSession id = (fresh deployed?).registry.newSession id :=
    Registry.newSession_congr (hget.trans (get?_fresh hid).symm)
  have hfind : h.registry.find id = deployed?.elim (.error (.containerNotFound id)) .ok := by
    rw [Registry.find, hget]
    cases deployed? <;> rfl
  refine ⟨hc.last id, hfind, ?_, hid, Registry.ids_increasing hc.names_registry, ?_, ?_, ?_⟩
  · rw [hfind, ← hc.deployed_iff]
    show _ ↔ ∃ c, deployed? = some c
    cases deployed? <;> simp
  · rw [Registry.mem_ids, hget]
  · unfold models
    rw [hc.withSession_fst, hfresh.withSession_fst, hsession]
  · intro format payload
    unfold evaluate
    rw [hc.withSession_fst, hfresh.withSession_fst, hsession]

end Host

end DecisionService
