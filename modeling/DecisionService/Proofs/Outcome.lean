import Mathlib
/-!
# Steps that may fail

A sequence of steps succeeds exactly when each of them does, and fails where one of them fails.
Sequences of related steps end in the same error or in related results. Where a step succeeds with
levels enough and fails in one way without, a sequence needs as many levels as the step that needs
most.
-/
namespace DecisionService.Outcome

variable {ε α β : Type}

@[simp] theorem ok_bind (a : α) (f : α → Except ε β) : (Except.ok a >>= f) = f a := rfl

theorem bind_eq_ok {x : Except ε α} {f : α → Except ε β} {b : β} :
    x >>= f = .ok b ↔ ∃ a, x = .ok a ∧ f a = .ok b := by
  cases x with
  | ok a =>
    constructor
    · intro h
      exact ⟨a, rfl, h⟩
    · rintro ⟨a', ha, hf⟩
      cases ha
      exact hf
  | error e =>
    constructor
    · intro h
      cases h
    · rintro ⟨a, ha, -⟩
      cases ha

theorem mapError_eq_ok {ε' : Type} {x : Except ε α} {f : ε → ε'} {a : α} :
    x.mapError f = .ok a ↔ x = .ok a := by
  cases x with
  | ok b => simp [Except.mapError]
  | error e => simp [Except.mapError]

theorem map_eq_ok {x : Except ε α} {f : α → β} {b : β} :
    x.map f = .ok b ↔ ∃ a, x = .ok a ∧ b = f a := by
  cases x with
  | ok a => simp [Except.map, eq_comm]
  | error e => simp [Except.map]

/-- What is checked of the outcome of a step is found where it succeeds. -/
theorem exists_ok {x : Except ε α} {p : α → Bool} (h : x.toOption.any p = true) :
    ∃ a, x = .ok a ∧ p a = true := by
  cases x with
  | ok a => exact ⟨a, rfl, h⟩
  | error e => cases h

theorem exists_mapM {f : α → Except ε β} {items : List α}
    (h : ∀ item ∈ items, ∃ b, f item = .ok b) : ∃ bs, items.mapM f = .ok bs := by
  induction items with
  | nil => exact ⟨[], rfl⟩
  | cons item rest ih =>
    obtain ⟨b, hb⟩ := h item List.mem_cons_self
    obtain ⟨bs, hbs⟩ := ih fun a ha => h a (List.mem_cons_of_mem item ha)
    refine ⟨b :: bs, ?_⟩
    rw [List.mapM_cons, hb, hbs]
    rfl

theorem mapM_all {f : α → Except ε β} {q : β → Prop} {items : List α} {results : List β}
    (h : ∀ item ∈ items, ∀ b, f item = .ok b → q b) (hm : items.mapM f = .ok results) :
    ∀ b ∈ results, q b := by
  induction items generalizing results with
  | nil =>
    cases hm
    exact List.forall_mem_nil q
  | cons item rest ih =>
    rw [List.mapM_cons] at hm
    obtain ⟨b, hb, hm⟩ := bind_eq_ok.mp hm
    obtain ⟨bs, hbs, hm⟩ := bind_eq_ok.mp hm
    cases hm
    have hrest := ih (fun a ha => h a (List.mem_cons_of_mem item ha)) hbs
    exact List.forall_mem_cons.mpr ⟨h item List.mem_cons_self b hb, hrest⟩

def Fails (x : Except ε α) : Prop :=
  ∃ e, x = .error e

theorem fails_iff {x : Except ε α} : Fails x ↔ ∀ a, x ≠ .ok a := by
  cases x with
  | ok a =>
    constructor
    · rintro ⟨e, he⟩
      cases he
    · intro h
      exact absurd rfl (h a)
  | error e => exact ⟨fun _ => nofun, fun _ => ⟨e, rfl⟩⟩

theorem Fails.ne_ok {x : Except ε α} (h : Fails x) (a : α) : x ≠ .ok a :=
  fails_iff.mp h a

theorem Fails.bind {x : Except ε α} (h : Fails x) (f : α → Except ε β) : Fails (x >>= f) := by
  obtain ⟨e, rfl⟩ := h
  exact ⟨e, rfl⟩

theorem Fails.map {x : Except ε α} (h : Fails x) (f : α → β) : Fails (x.map f) := by
  obtain ⟨e, rfl⟩ := h
  exact ⟨e, rfl⟩

theorem fails_bind {x : Except ε α} {f : α → Except ε β} (h : ∀ a, x = .ok a → Fails (f a)) :
    Fails (x >>= f) := by
  cases x with
  | ok a => exact h a rfl
  | error e => exact ⟨e, rfl⟩

theorem fails_mapM {f : α → Except ε β} {items : List α} {item : α} (hmem : item ∈ items)
    (h : Fails (f item)) : Fails (items.mapM f) := by
  induction items with
  | nil => cases hmem
  | cons first rest ih =>
    rw [List.mapM_cons]
    rcases List.mem_cons.mp hmem with rfl | hmem
    · exact h.bind _
    · exact fails_bind fun _ _ => (ih hmem).bind _

inductive Rel (r : α → β → Prop) : Except ε α → Except ε β → Prop
  | error (e : ε) : Rel r (.error e) (.error e)
  | ok {a : α} {b : β} (h : r a b) : Rel r (.ok a) (.ok b)

section Rel

variable {α' β' : Type} {r : α → β → Prop} {s : α' → β' → Prop}

theorem Rel.bind {x : Except ε α} {y : Except ε β} (h : Rel r x y) {f : α → Except ε α'}
    {g : β → Except ε β'} (hfg : ∀ a b, r a b → Rel s (f a) (g b)) :
    Rel s (x >>= f) (y >>= g) := by
  cases h with
  | error e => exact .error e
  | ok h => exact hfg _ _ h

theorem Rel.mapM {γ : Type} {items : List γ} {f : γ → Except ε α} {g : γ → Except ε β}
    (h : ∀ item ∈ items, Rel r (f item) (g item)) :
    Rel (List.Forall₂ r) (items.mapM f) (items.mapM g) := by
  induction items with
  | nil => exact .ok .nil
  | cons item rest ih =>
    obtain ⟨hitem, hrest⟩ := List.forall_mem_cons.mp h
    rw [List.mapM_cons, List.mapM_cons]
    refine hitem.bind fun a b hab => (ih hrest).bind fun as bs habs => ?_
    exact .ok (.cons hab habs)

end Rel

section Levels

variable {x : Except ε α} {f : α → Except ε β} {a : α} {b : β} {e : ε} {n k depth : Nat}
  (hx : x = if n ≤ depth then .ok a else .error e)
include hx

theorem bind_levels (hf : f a = if k ≤ depth then .ok b else .error e) :
    x >>= f = if max n k ≤ depth then .ok b else .error e := by
  rw [hx]
  by_cases hn : n ≤ depth
  · simp only [hn, if_true, ok_bind, hf, max_le_iff, true_and]
  · rw [if_neg hn, if_neg fun h => hn (max_le_iff.mp h).1]
    rfl

theorem map_levels (hf : f a = .ok b) : x >>= f = if n ≤ depth then .ok b else .error e := by
  rw [hx]
  split
  · exact hf
  · rfl

end Levels

end DecisionService.Outcome
