import Mathlib
import DecisionService.Proofs.Decimal.Grammar
/-!
# Numerals that are literals

A literal is a plain numeral: it has no plus sign and no underscores, and its point has digits on
both sides. It stays one with zeros in front of it.
-/
namespace DecisionService

open Integer

namespace Json.Literal

def unscaled (l : Literal) : Int :=
  if l.negative then -(Integer.ofDigits (l.whole ++ l.fraction) : Int)
  else Integer.ofDigits (l.whole ++ l.fraction)

def shiftBy (l : Literal) : Int :=
  match l.exponent with
  | none => 0
  | some (negative, digits) =>
    if negative then -(Integer.ofDigits digits : Int) else Integer.ofDigits digits

def places (l : Literal) : Int :=
  l.fraction.length - l.shiftBy

end Json.Literal

open Json

namespace Decimal.Numeral

def whole (n : Numeral) : List Char :=
  match n.point with
  | none => n.digits
  | some k => n.digits.take (k - n.sign.text.length)

def fraction (n : Numeral) : List Char :=
  match n.point with
  | none => []
  | some k => n.digits.drop (k - n.sign.text.length)

/-- A numeral that is written without a plus sign and without underscores, and whose point has
digits on both sides. -/
structure Plain (n : Numeral) : Prop where
  sign_ne_plus : n.sign ≠ .plus
  digits : ∀ c ∈ n.digits, c.isDigit = true
  inside : ∀ k ∈ n.point, n.sign.text.length < k ∧ k < n.signed.length

section Plain

variable {n : Numeral}

theorem whole_append_fraction (n : Numeral) : n.whole ++ n.fraction = n.digits := by
  unfold whole fraction
  split
  · exact List.append_nil _
  · exact List.take_append_drop _ _

theorem Plain.base_eq (h : n.Plain) : n.base
    = n.sign.text ++ (n.whole ++ if n.fraction.isEmpty then [] else '.' :: n.fraction) := by
  unfold base whole fraction
  cases hk : n.point with
  | none => simp [signed]
  | some k =>
    obtain ⟨hlow, hhigh⟩ := h.inside k hk
    rw [signed, List.length_append] at hhigh
    have hfraction : (n.digits.drop (k - n.sign.text.length)).isEmpty = false := by
      rw [List.isEmpty_eq_false_iff, ne_eq, List.drop_eq_nil_iff]
      omega
    simp only [signed, hfraction, Bool.false_eq_true, if_false]
    rw [List.take_append, List.drop_append, List.take_of_length_le hlow.le,
      List.drop_eq_nil_of_le hlow.le, List.nil_append, List.append_assoc]

theorem Plain.whole_ne_nil (h : n.Plain) : n.whole ≠ [] := by
  obtain ⟨c, rest, hdigits, -⟩ := n.grouped.exists_cons
  unfold whole
  cases hk : n.point with
  | none => simp [hdigits]
  | some k =>
    have hlow := (h.inside k hk).1
    simp only [hdigits, ne_eq, List.take_eq_nil_iff, not_or]
    exact ⟨by omega, by simp⟩

theorem Plain.places_eq (h : n.Plain) : n.places = n.fraction.length := by
  unfold places fraction
  cases hk : n.point with
  | none => rfl
  | some k =>
    dsimp only
    rw [signed, List.drop_append, List.drop_eq_nil_of_le (h.inside k hk).1.le, List.nil_append,
      filter_digits fun c hc => h.digits c (List.mem_of_mem_drop hc)]

theorem Plain.whole_digits (h : n.Plain) : ∀ c ∈ n.whole, c.isDigit = true :=
  fun c hc => h.digits c (by rw [← whole_append_fraction]; exact List.mem_append_left _ hc)

theorem Plain.fraction_digits (h : n.Plain) : ∀ c ∈ n.fraction, c.isDigit = true :=
  fun c hc => h.digits c (by rw [← whole_append_fraction]; exact List.mem_append_right _ hc)

end Plain

private theorem digits_ofLiteral (zeros : Nat) {l : Literal} (hl : l.Sound) :
    ∀ c ∈ List.replicate zeros '0' ++ (l.whole ++ l.fraction), c.isDigit = true := by
  intro c hc
  simp only [List.mem_append] at hc
  rcases hc with hc | hc | hc
  · rw [List.eq_of_mem_replicate hc]
    rfl
  · exact hl.whole_digits c hc
  · exact hl.fraction_digits c hc

def ofLiteral (zeros : Nat) {l : Literal} (hl : l.Sound) : Numeral where
  sign := if l.negative then .minus else .absent
  digits := List.replicate zeros '0' ++ (l.whole ++ l.fraction)
  point := if l.fraction.isEmpty then none
    else some ((if l.negative then Sign.minus else .absent).text.length
      + (List.replicate zeros '0' ++ l.whole).length)
  exponent := l.exponent
  grouped := grouped_of_digits (by simp [hl.whole_ne_nil]) (digits_ofLiteral zeros hl)
  point_le k hk := by
    split at hk
    · cases hk
    · cases hk
      simp only [List.length_append]
      omega
  exponent_digits := hl.exponent_digits

section Literal

variable {zeros : Nat} {l : Literal} (hl : l.Sound)

theorem plain_ofLiteral : (ofLiteral zeros hl).Plain where
  sign_ne_plus := by cases h : l.negative <;> simp [ofLiteral, h]
  digits := digits_ofLiteral zeros hl
  inside k hk := by
    have hwhole := List.length_pos_of_ne_nil hl.whole_ne_nil
    simp only [ofLiteral, signed] at hk ⊢
    split at hk
    · cases hk
    · next hf =>
      have hfraction := List.length_pos_of_ne_nil (mt List.isEmpty_iff.mpr hf)
      cases hk
      simp only [List.length_append]
      omega

theorem whole_ofLiteral : (ofLiteral zeros hl).whole = List.replicate zeros '0' ++ l.whole := by
  by_cases hf : l.fraction.isEmpty
  · simp [whole, ofLiteral, List.isEmpty_iff.mp hf]
  · simp only [whole, ofLiteral, hf, if_false, Bool.false_eq_true]
    rw [Nat.add_sub_cancel_left, ← List.append_assoc, List.take_left]

theorem fraction_ofLiteral : (ofLiteral zeros hl).fraction = l.fraction := by
  by_cases hf : l.fraction.isEmpty
  · simp [fraction, ofLiteral, List.isEmpty_iff.mp hf]
  · simp only [fraction, ofLiteral, hf, if_false, Bool.false_eq_true]
    rw [Nat.add_sub_cancel_left, ← List.append_assoc, List.drop_left]

theorem unscaled_ofLiteral : (ofLiteral zeros hl).unscaled = l.unscaled := by
  have hdigits : ofGrouped (List.replicate zeros '0' ++ (l.whole ++ l.fraction))
      = ofDigits (l.whole ++ l.fraction) := by
    rw [ofGrouped, filter_digits (digits_ofLiteral zeros hl), ofDigits_append,
      ofDigits_replicate_zero, Nat.mul_zero, Nat.zero_add]
  simp only [unscaled, ofLiteral, hdigits, Literal.unscaled]
  cases l.negative <;> rfl

theorem scale_ofLiteral : (ofLiteral zeros hl).scale = l.places := by
  rw [scale, (plain_ofLiteral hl).places_eq, fraction_ofLiteral]
  rfl

theorem spells_ofLiteral (hzeros : 0 < zeros → l.negative = false) {text : List Char}
    (ht : l.Spells text) : (ofLiteral zeros hl).Spells (List.replicate zeros '0' ++ text) := by
  obtain ⟨e, he, rfl⟩ := ht
  refine ⟨e, he, ?_⟩
  rw [(plain_ofLiteral hl).base_eq, whole_ofLiteral, fraction_ofLiteral]
  cases h : l.negative with
  | false => simp [ofLiteral, h, Sign.text]
  | true =>
    have hnone : zeros = 0 := by
      by_contra hne
      simp [hzeros (Nat.pos_of_ne_zero hne)] at h
    simp [ofLiteral, h, hnone, Sign.text]

end Literal

end Decimal.Numeral

end DecisionService
