import Mathlib
/-!
# Lists related member by member

What a relation between the members of two lists tells of the lists, when it is only known for the
members that they have.
-/
namespace DecisionService

variable {α β : Type}

theorem forall₂_imp_of_mem {R S : α → β → Prop} {as : List α} {bs : List β}
    (h : ∀ a ∈ as, ∀ b ∈ bs, R a b → S a b) (hab : List.Forall₂ R as bs) :
    List.Forall₂ S as bs := by
  induction hab with
  | nil => exact .nil
  | cons hfirst _ ih =>
    obtain ⟨ha, has⟩ := List.forall_mem_cons.mp h
    refine .cons (ha _ List.mem_cons_self hfirst) (ih fun a hmem b hb => ?_)
    exact has a hmem b (List.mem_cons_of_mem _ hb)

theorem forall₂_iff_of_mem {R S : α → β → Prop} {as : List α} (bs : List β)
    (h : ∀ a ∈ as, ∀ b ∈ bs, R a b ↔ S a b) : List.Forall₂ R as bs ↔ List.Forall₂ S as bs :=
  ⟨forall₂_imp_of_mem fun a ha b hb => (h a ha b hb).mp,
    forall₂_imp_of_mem fun a ha b hb => (h a ha b hb).mpr⟩

theorem exists_of_forall₂ {R : α → β → Prop} {as : List α} {bs : List β}
    (h : List.Forall₂ R as bs) : ∀ b ∈ bs, ∃ a ∈ as, R a b := by
  induction h with
  | nil => exact fun b hb => absurd hb List.not_mem_nil
  | cons hab _ ih =>
    intro b hb
    rcases List.mem_cons.mp hb with rfl | hb
    · exact ⟨_, List.mem_cons_self, hab⟩
    · obtain ⟨a, ha, hr⟩ := ih b hb
      exact ⟨a, List.mem_cons_of_mem _ ha, hr⟩

theorem exists_forall₂_iff {R : α → β → Prop} {as : List α} :
    (∃ bs, List.Forall₂ R as bs) ↔ ∀ a ∈ as, ∃ b, R a b := by
  induction as with
  | nil => simp
  | cons a rest ih =>
    rw [List.forall_mem_cons, ← ih]
    constructor
    · rintro ⟨_, _ | ⟨hab, hrest⟩⟩
      exact ⟨⟨_, hab⟩, _, hrest⟩
    · rintro ⟨⟨b, hab⟩, bs, hrest⟩
      exact ⟨b :: bs, .cons hab hrest⟩

theorem forall₂_trans {R : α → α → Prop} {as bs cs : List α}
    (hR : ∀ a ∈ as, ∀ {b c}, R a b → R b c → R a c) (h : List.Forall₂ R as bs)
    (h' : List.Forall₂ R bs cs) : List.Forall₂ R as cs := by
  induction h generalizing cs with
  | nil => exact h'
  | cons hab _ ih =>
    obtain ⟨ha, has⟩ := List.forall_mem_cons.mp hR
    cases h' with
    | cons hbc h' => exact .cons (ha hab hbc) (ih has h')

/-- Where two lists are related member by member, so are the lists that either is related to. -/
theorem forall₂_square {R : α → α → Prop} {S : α → β → Prop} {T : β → β → Prop}
    {as as' : List α} {bs bs' : List β}
    (h : ∀ a ∈ as, ∀ {a' b b'}, R a a' → S a b → S a' b' → T b b') (ha : List.Forall₂ R as as')
    (hb : List.Forall₂ S as bs) (hb' : List.Forall₂ S as' bs') : List.Forall₂ T bs bs' := by
  induction ha generalizing bs bs' with
  | nil =>
    cases hb
    cases hb'
    exact .nil
  | cons haa _ ih =>
    obtain ⟨hfirst, hrest⟩ := List.forall_mem_cons.mp h
    cases hb with
    | cons hab hb =>
      cases hb' with
      | cons hab' hb' => exact .cons (hfirst haa hab hab') (ih hrest hb hb')

theorem forall₂_self_right {R S : α → α → Prop} {as bs : List α}
    (h : ∀ a ∈ as, ∀ b, R a b → S b b) (hab : List.Forall₂ R as bs) : List.Forall₂ S bs bs := by
  induction hab with
  | nil => exact .nil
  | cons hfirst _ ih =>
    obtain ⟨ha, has⟩ := List.forall_mem_cons.mp h
    exact .cons (ha _ hfirst) (ih has)

end DecisionService
