import Mathlib
import DecisionService.Proofs.Decimal.Magnitude
import DecisionService.Proofs.Entries
import DecisionService.Proofs.Related
import DecisionService.Proofs.Value.Relay
/-!
# Equality of values

Objects that hold each name once are equal when every look-up finds equals in both. Equality passes
from the first to the third of three values, and back from the second of two to the first.
-/
namespace DecisionService

theorem Binary64.isNaN_of_isZero {x : Binary64} (h : x.isZero = true) : x.isNaN = false := by
  simp only [isZero, Bool.and_eq_true, beq_iff_eq] at h
  simp [isNaN, h.1]

/-- Binary numbers are equal when they are one number and no NaN, or both a zero. -/
theorem Binary64.same_iff (x y : Binary64) : x.same y = true ↔
    (x = y ∧ x.isNaN = false) ∨ (x.isZero = true ∧ y.isZero = true) := by
  simp only [same, Bool.and_eq_true, Bool.or_eq_true, Bool.not_eq_true', beq_iff_eq]
  constructor
  · rintro ⟨⟨hx, -⟩, hbits | hzero⟩
    · exact Or.inl ⟨congrArg Binary64.mk hbits, hx⟩
    · exact Or.inr hzero
  · rintro (⟨rfl, hx⟩ | ⟨hx, hy⟩)
    · exact ⟨⟨hx, hx⟩, Or.inl rfl⟩
    · exact ⟨⟨isNaN_of_isZero hx, isNaN_of_isZero hy⟩, Or.inr ⟨hx, hy⟩⟩

theorem Binary64.same_trans {x y z : Binary64} (h : x.same y = true) (h' : y.same z = true) :
    x.same z = true := by
  rw [same_iff] at *
  rcases h with ⟨rfl, -⟩ | ⟨hx, hy⟩
  · exact h'
  · rcases h' with ⟨rfl, -⟩ | ⟨-, hz⟩
    · exact Or.inr ⟨hx, hy⟩
    · exact Or.inr ⟨hx, hz⟩

theorem Binary64.same_symm {x y : Binary64} (h : x.same y = true) : y.same x = true := by
  rw [same_iff] at *
  rcases h with ⟨rfl, hx⟩ | ⟨hx, hy⟩
  · exact Or.inl ⟨rfl, hx⟩
  · exact Or.inr ⟨hy, hx⟩

theorem Number.same_trans {x y z : Number} (h : x.same y = true) (h' : y.same z = true) :
    x.same z = true := by
  cases x <;> cases y <;> simp only [same, Bool.false_eq_true] at h <;>
    cases z <;> simp only [same, Bool.false_eq_true] at h' ⊢
  case float.float.float => exact Binary64.same_trans h h'
  case decimal.decimal.decimal => exact Decimal.same_trans h h'
  all_goals
    rw [beq_iff_eq] at *
    exact h.trans h'

theorem Number.same_symm {x y : Number} (h : x.same y = true) : y.same x = true := by
  cases x <;> cases y <;> simp only [same, Bool.false_eq_true] at h ⊢
  case float.float => exact Binary64.same_symm h
  case decimal.decimal =>
    rw [Decimal.same_iff] at *
    exact h.symm
  all_goals
    rw [beq_iff_eq] at *
    exact h.symm

namespace Value

theorem sameList_iff (as bs : List Value) :
    sameList as bs = true ↔ List.Forall₂ (fun a b => a.same b = true) as bs := by
  induction as generalizing bs with
  | nil => cases bs <;> simp [sameList]
  | cons a as ih => cases bs <;> simp [sameList, ih]

theorem sameEntries_iff (as bs : Entries Value) : sameEntries as bs = true ↔
    ∀ e ∈ as, ∃ b, bs.get? e.1 = some b ∧ e.2.same b = true := by
  induction as with
  | nil => simp [sameEntries]
  | cons e as ih =>
    obtain ⟨name, a⟩ := e
    cases hb : bs.get? name <;> simp [sameEntries, hb, ih]

theorem same_object_iff_names {as bs : Entries Value} (ha : as.names.Nodup)
    (hb : bs.names.Nodup) : same (object as) (object bs) = true ↔
      as.names.Perm bs.names
        ∧ ∀ name a b, (name, a) ∈ as → (name, b) ∈ bs → a.same b = true := by
  rw [same, Bool.and_eq_true, beq_iff_eq, sameEntries_iff]
  constructor
  · rintro ⟨hlen, h⟩
    have hsubset : as.names ⊆ bs.names := by
      intro name hmem
      obtain ⟨e, he, rfl⟩ := List.mem_map.mp hmem
      obtain ⟨b, hget, -⟩ := h e he
      rw [← Entries.get?_isSome_iff, hget]
      rfl
    -- as many names in both, so there is none that only the second holds
    have hperm : as.names.Perm bs.names :=
      (List.subperm_of_subset ha hsubset).perm_of_length_le (by simp [Entries.names, hlen])
    refine ⟨hperm, fun name a b hmem hmem' => ?_⟩
    obtain ⟨b', hget, hsame⟩ := h _ hmem
    rw [Entries.get?_of_mem hb hmem'] at hget
    cases hget
    exact hsame
  · rintro ⟨hperm, h⟩
    refine ⟨by simpa [Entries.names] using hperm.length_eq, fun e he => ?_⟩
    have hname : e.1 ∈ bs.names := hperm.mem_iff.mp (List.mem_map.mpr ⟨e, he, rfl⟩)
    obtain ⟨b, hget⟩ := Option.isSome_iff_exists.mp ((Entries.get?_isSome_iff _ _).mpr hname)
    exact ⟨b, hget, h _ _ _ he (Entries.mem_of_get? hget)⟩

/-- Objects are equal when every name holds equals in both, or nothing in both. -/
theorem same_object_iff {as bs : Entries Value} (ha : as.names.Nodup) (hb : bs.names.Nodup) :
    same (object as) (object bs) = true ↔
      ∀ name, Option.Rel (fun a b => a.same b = true) (as.get? name) (bs.get? name) :=
  (same_object_iff_names ha hb).trans (Entries.rel_get?_iff ha hb).symm

private theorem sameList_trans {as bs cs : List Value}
    (ih : ∀ a ∈ as, ∀ {b c : Value}, a.same b = true → b.same c = true → a.same c = true)
    (h : sameList as bs = true) (h' : sameList bs cs = true) : sameList as cs = true := by
  rw [sameList_iff] at *
  exact forall₂_trans ih h h'

theorem same_trans {a b c : Value} (h : a.same b = true) (h' : b.same c = true) :
    a.same c = true := by
  induction a using Value.induction generalizing b c with
  | null =>
    cases b <;> first | exact h' | cases h
  | bool x | string x =>
    cases b <;> simp only [same, Bool.false_eq_true] at h
    cases c <;> simp only [same, Bool.false_eq_true] at h' ⊢
    rw [beq_iff_eq] at *
    exact h.trans h'
  | number n =>
    cases b <;> simp only [same, Bool.false_eq_true] at h
    cases c <;> simp only [same, Bool.false_eq_true] at h' ⊢
    exact Number.same_trans h h'
  | array items ih | set items ih =>
    cases b <;> simp only [same, Bool.false_eq_true] at h
    cases c <;> simp only [same, Bool.false_eq_true] at h' ⊢
    exact sameList_trans ih h h'
  | object entries ih =>
    cases b <;> simp only [same, Bool.false_eq_true] at h
    cases c <;> simp only [same, Bool.false_eq_true] at h' ⊢
    rw [Bool.and_eq_true, beq_iff_eq, sameEntries_iff] at *
    refine ⟨h.1.trans h'.1, fun e he => ?_⟩
    obtain ⟨b, hb, hsame⟩ := h.2 e he
    obtain ⟨c, hc, hsame'⟩ := h'.2 _ (Entries.mem_of_get? hb)
    exact ⟨c, hc, ih e he hsame hsame'⟩

private theorem sameList_symm {as bs : List Value}
    (ih : ∀ a ∈ as, ∀ b ∈ bs, a.same b = true → b.same a = true) (h : sameList as bs = true) :
    sameList bs as = true := by
  rw [sameList_iff] at *
  induction h with
  | nil => exact .nil
  | cons hab _ rest =>
    refine .cons (ih _ List.mem_cons_self _ List.mem_cons_self hab) (rest fun a ha b hb => ?_)
    exact ih a (List.mem_cons_of_mem _ ha) b (List.mem_cons_of_mem _ hb)

theorem same_symm {a b : Value} (ha : a.WellFormed) (hb : b.WellFormed) (h : a.same b = true) :
    b.same a = true := by
  induction a using Value.induction generalizing b with
  | null =>
    cases b <;> exact h
  | bool x | string x =>
    cases b <;> simp only [same, Bool.false_eq_true] at h ⊢
    rw [beq_iff_eq] at *
    exact h.symm
  | number n =>
    cases b <;> simp only [same, Bool.false_eq_true] at h ⊢
    exact Number.same_symm h
  | array items ih | set items ih =>
    cases b <;> simp only [same, Bool.false_eq_true] at h ⊢
    have hitems := (eachOfList_iff _ _).mp ha.2
    have hothers := (eachOfList_iff _ _).mp hb.2
    exact sameList_symm (fun v hv w hw => ih v hv (hitems v hv) (hothers w hw)) h
  | object entries ih =>
    cases b with
    | object others =>
      have hentries := (eachOfEntries_iff _ _).mp ha.2
      have hothers := (eachOfEntries_iff _ _).mp hb.2
      rw [same_object_iff_names ha.1 hb.1] at h
      obtain ⟨hperm, hall⟩ := h
      refine (same_object_iff_names hb.1 ha.1).mpr ⟨hperm.symm, fun name w v hw hv => ?_⟩
      exact ih _ hv (hentries _ hv) (hothers _ hw) (hall name v w hv hw)
    | _ => cases h

section Distinct

variable {R : Value → Value → Prop}
  (hR : ∀ {v v' w w' : Value}, R v v' → R w w' → v.same w = v'.same w')
include hR

private theorem any_eq {members members' : List Value} {v v' : Value}
    (h : List.Forall₂ R members members') (hv : R v v') :
    members.any (same · v) = members'.any (same · v') := by
  induction h with
  | nil => rfl
  | cons hab _ ih => rw [List.any_cons, List.any_cons, hR hab hv, ih]

/-- Where comparisons cannot tell items from those they are related to, the distinct ones among both
stand in the same places. -/
theorem forall₂_distinct {items items' : List Value} (h : List.Forall₂ R items items') :
    List.Forall₂ R (distinct items) (distinct items') := by
  refine List.rel_foldl (fun before before' hbefore v v' hv => ?_) List.Forall₂.nil h
  simp only [any_eq hR hbefore hv]
  split
  · exact hbefore
  · exact List.rel_append hbefore (.cons hv .nil)

end Distinct

end Value

end DecisionService
