import Mathlib
import DecisionService.Binary64.Basic
import DecisionService.Proofs.Decimal.Rounding
/-!
# Binary numbers as decimals

Every finite binary number is a decimal: all its bits behind the point become digits. No such decimal
is so large that it cannot be cut. The topmost bit decides the sign and nothing else.
-/
namespace DecisionService.Binary64

def toRat (x : Binary64) : ℚ :=
  (if x.isNegative then -1 else 1) * x.significand * 2 ^ x.exponent

section Neg

variable (x : Binary64)

theorem toNat_neg : x.neg.bits.toNat = (x.bits.toNat + 2 ^ 63) % 2 ^ 64 := by
  rw [neg, UInt64.toNat_add]
  rfl

@[simp] theorem isNegative_neg : x.neg.isNegative = !x.isNegative := by
  have hword := x.bits.toNat_lt
  rw [isNegative, isNegative, toNat_neg, ← decide_not, decide_eq_decide]
  omega

@[simp] theorem exponentField_neg : x.neg.exponentField = x.exponentField := by
  have hword := x.bits.toNat_lt
  rw [exponentField, exponentField, toNat_neg]
  omega

@[simp] theorem fractionField_neg : x.neg.fractionField = x.fractionField := by
  rw [fractionField, fractionField, toNat_neg]
  omega

@[simp] theorem isFinite_neg : x.neg.isFinite = x.isFinite := by
  rw [isFinite, exponentField_neg, isFinite]

theorem toRat_neg : x.neg.toRat = -x.toRat := by
  have hsignificand : x.neg.significand = x.significand := by
    rw [significand, exponentField_neg, fractionField_neg, significand]
  have hexponent : x.neg.exponent = x.exponent := by
    rw [exponent, exponentField_neg, exponent]
  rw [toRat, hsignificand, hexponent, isNegative_neg, toRat]
  cases x.isNegative <;> simp

end Neg

theorem stripTwos_eq (limit m : Nat) : (stripTwos limit m).1 * 2 ^ (stripTwos limit m).2 = m
    ∧ (stripTwos limit m).2 ≤ limit := by
  induction limit generalizing m with
  | zero => simp [stripTwos]
  | succ limit ih =>
    rw [stripTwos]
    split
    · obtain ⟨hm, hcount⟩ := ih (m / 2)
      refine ⟨?_, by dsimp only; omega⟩
      dsimp only
      rw [pow_succ, ← mul_assoc, hm]
      omega
    · simp

private theorem toRat_places (n : Int) {places : Nat} (h : places < 2 ^ 63) :
    (⟨n * 5 ^ places, Int64.ofNat places⟩ : Decimal).toRat = n * 2 ^ (-(places : Int)) := by
  have hscale : (Int64.ofNat places).toInt = places := Int64.toInt_ofNat_of_lt h
  have hten : (10 : ℚ) ^ (-(places : Int)) = 2 ^ (-(places : Int)) * 5 ^ (-(places : Int)) := by
    rw [← mul_zpow]
    norm_num
  have hfive : (5 : ℚ) ^ places * 5 ^ (-(places : Int)) = 1 := by
    rw [zpow_neg, zpow_natCast, mul_inv_cancel₀ (by positivity)]
  rw [Decimal.toRat, hscale, hten]
  push_cast
  linear_combination (n : ℚ) * 2 ^ (-(places : Int)) * hfive

theorem exponent_bounds {x : Binary64} (h : x.isFinite = true) :
    -1074 ≤ x.exponent ∧ x.exponent ≤ 971 := by
  have hfield : x.exponentField ≠ 2047 := by simpa [isFinite] using h
  have hlt : x.exponentField < 2 ^ 11 := Nat.mod_lt _ (by norm_num)
  rw [exponent]
  split <;> omega

theorem significand_lt (x : Binary64) : x.significand < 2 ^ 53 := by
  have hfraction : x.fractionField < 2 ^ 52 := Nat.mod_lt _ (by norm_num)
  rw [significand]
  split <;> omega

theorem abs_toRat (x : Binary64) : |x.toRat| = x.significand * 2 ^ x.exponent := by
  have hpos : (0 : ℚ) < 2 ^ x.exponent := zpow_pos (by norm_num) _
  rw [toRat, abs_mul, abs_mul, abs_of_pos hpos, Nat.abs_cast]
  cases x.isNegative <;> simp

theorem abs_toRat_lt {x : Binary64} (h : x.isFinite = true) : |x.toRat| < 2 ^ 1024 := by
  have hsignificand : (x.significand : ℚ) < 2 ^ 53 := by exact_mod_cast significand_lt x
  have hpow : (2 : ℚ) ^ x.exponent ≤ 2 ^ (971 : ℤ) :=
    zpow_le_zpow_right₀ (by norm_num) (exponent_bounds h).2
  have hpos : (0 : ℚ) < 2 ^ x.exponent := zpow_pos (by norm_num) _
  calc |x.toRat| = x.significand * 2 ^ x.exponent := abs_toRat x
    _ < 2 ^ 53 * 2 ^ x.exponent := mul_lt_mul_of_pos_right hsignificand hpos
    _ ≤ 2 ^ 53 * 2 ^ (971 : ℤ) := mul_le_mul_of_nonneg_left hpow (by positivity)
    _ = 2 ^ 1024 := by
      rw [show (971 : ℤ) = (971 : Nat) from rfl, zpow_natCast, ← pow_add]

/-- Below the point a significand stands for the same number when zero bits are taken off it. -/
private theorem toRat_stripped {x : Binary64} {m stripped : Nat} (hlow : -1074 ≤ x.exponent)
    (hm : m * 2 ^ stripped = x.significand) (hstripped : stripped ≤ -x.exponent) :
    (⟨if x.isNegative then -((m * 5 ^ ((-x.exponent).toNat - stripped) : Nat) : Int)
        else (m * 5 ^ ((-x.exponent).toNat - stripped) : Nat),
      Int64.ofNat ((-x.exponent).toNat - stripped)⟩ : Decimal).toRat = x.toRat := by
  have hdigits : ∀ k : Nat, (if x.isNegative then -((m * 5 ^ k : Nat) : Int) else (m * 5 ^ k : Nat))
      = (if x.isNegative then -1 else 1) * m * 5 ^ k := by
    intro k
    cases x.isNegative <;> simp
  have hpow : (2 : ℚ) ^ (-(((-x.exponent).toNat - stripped : Nat) : Int))
      = 2 ^ stripped * 2 ^ x.exponent := by
    rw [← zpow_natCast, ← zpow_add₀ (by norm_num)]
    congr 1
    omega
  rw [hdigits, toRat_places _ (by omega), hpow, toRat, ← hm]
  cases x.isNegative <;> push_cast <;> ring

/-- Every finite number has a decimal, and it is the very same number. -/
theorem exists_toDecimal {x : Binary64} (h : x.isFinite = true) :
    ∃ d, x.toDecimal = .ok d ∧ d.toRat = x.toRat := by
  have hfield : x.exponentField ≠ 2047 := by simpa [isFinite] using h
  have hnan : x.isNaN = false := by simp [isNaN, hfield]
  have hinf : x.isInfinite = false := by simp [isInfinite, hfield]
  have hlow := (exponent_bounds h).1
  rw [toDecimal, hnan, hinf]
  simp only [Bool.false_eq_true, if_false]
  by_cases hzero : x.isZero = true
  · rw [if_pos hzero]
    refine ⟨_, rfl, ?_⟩
    obtain ⟨he, hf⟩ : x.exponentField = 0 ∧ x.fractionField = 0 := by simpa [isZero] using hzero
    simp [toRat, Decimal.toRat, significand, he, hf]
  rw [if_neg hzero]
  by_cases hlarge : 0 ≤ x.exponent
  · rw [if_pos hlarge]
    refine ⟨_, rfl, ?_⟩
    have hpow : (2 : ℚ) ^ x.exponent = 2 ^ x.exponent.toNat := by
      rw [← zpow_natCast, Int.toNat_of_nonneg hlarge]
    rw [toRat, hpow, Decimal.toRat]
    cases x.isNegative <;> simp
  rw [if_neg hlarge]
  refine ⟨_, rfl, ?_⟩
  by_cases hsubnormal : x.isSubnormal = true
  · simp only [hsubnormal, if_true]
    exact toRat_stripped hlow (by rw [pow_zero, mul_one]) (by omega)
  · simp only [hsubnormal, Bool.false_eq_true, if_false]
    obtain ⟨hm, hcount⟩ := stripTwos_eq (-x.exponent).toNat x.significand
    exact toRat_stripped hlow hm (by omega)

theorem placeFits {x : Binary64} (h : x.isFinite = true) :
    Decimal.PlaceFits Decimal.decimal128Digits x.toRat := by
  have hlog : Int.log 10 |x.toRat| ≤ 1024 := by
    rcases eq_or_ne x.toRat 0 with h0 | h0
    · simp [h0]
    have hten : (2 : ℚ) ^ 1024 ≤ 10 ^ 1024 := pow_le_pow_left₀ (by norm_num) (by norm_num) 1024
    have hlt : |x.toRat| < (10 : ℚ) ^ ((1024 : Nat) : ℤ) := by
      rw [zpow_natCast]
      exact (abs_toRat_lt h).trans_le hten
    exact ((Int.lt_zpow_iff_log_lt (by norm_num) (abs_pos.mpr h0)).mp hlt).le
  rw [Decimal.PlaceFits, Decimal.lastPlace]
  simp only [Decimal.decimal128Digits]
  omega

theorem isFinite_of_toDecimal {x : Binary64} {d : Decimal} (h : x.toDecimal = .ok d) :
    x.isFinite = true := by
  rw [toDecimal] at h
  split at h
  · cases h
  · next hnan =>
    split at h
    · cases h
    · next hinfinite =>
      simp only [isNaN, isInfinite, Bool.and_eq_true, bne_iff_ne, beq_iff_eq, not_and,
        not_not] at hnan hinfinite
      simp only [isFinite, bne_iff_ne]
      intro hfield
      exact hinfinite hfield (hnan hfield)

theorem exists_toDecimal128 {x : Binary64} (h : x.isFinite = true) :
    ∃ d r, x.toDecimal = .ok d ∧ d.toRat = x.toRat ∧ d.toDecimal128 = some r := by
  obtain ⟨d, hd, hrat⟩ := exists_toDecimal h
  have hfits : d.ScaleFits Decimal.decimal128Digits := by
    rw [Decimal.scaleFits_iff (by decide), hrat]
    exact placeFits h
  obtain ⟨r, hr⟩ := Decimal.exists_roundTo_iff.mpr hfits
  exact ⟨d, r, hd, hrat, hr⟩

end DecisionService.Binary64
