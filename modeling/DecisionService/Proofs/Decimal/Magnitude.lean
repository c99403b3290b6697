import Mathlib
import DecisionService.Proofs.Decimal.Notation
/-!
# Decimals as rational numbers

Two decimals are the same exactly when they stand for the same rational number. Reading a decimal
back and taking a whole decimal for an integer both keep that number.
-/
namespace DecisionService.Decimal

def toRat (d : Decimal) : ℚ :=
  d.digits * (10 : ℚ) ^ (-d.scale.toInt)

theorem Numeral.toRat_decimal {n : Numeral} (h : n.Fits) : n.decimal.toRat = n.worth := by
  rw [toRat, decimal, worth, Int64.toInt_ofInt_of_le h.2.1 h.2.2]

theorem lt_digitCount {n k : Nat} (h : 10 ^ k ≤ n) : k < digitCount n := by
  rcases Nat.eq_zero_or_pos k with rfl | hk
  · exact Nat.length_toDigits_pos
  · rw [digitCount, ← Nat.not_le, Nat.length_toDigits_le_iff (by decide) hk]
    omega

theorem lt_pow_digitCount (n : Nat) : n < 10 ^ digitCount n := by
  by_contra h
  exact absurd (lt_digitCount (Nat.le_of_not_lt h)) (lt_irrefl _)

theorem pow_pred_digitCount_le {n : Nat} (hn : 0 < n) : 10 ^ (digitCount n - 1) ≤ n := by
  rcases Nat.eq_zero_or_pos (digitCount n - 1) with hz | hp
  · rw [hz, pow_zero]
    exact hn
  · have hlength : ¬ (Nat.toDigits 10 n).length ≤ digitCount n - 1 := by
      change ¬ digitCount n ≤ _
      omega
    rw [Nat.length_toDigits_le_iff (by decide) hp] at hlength
    omega

theorem shiftsTo_iff (a : Int) (shift : Nat) (b : Int) :
    shiftsTo a shift b = true ↔ a * 10 ^ shift = b := by
  by_cases ha : a = 0
  · simp only [shiftsTo, ha, if_true, beq_iff_eq, zero_mul]
    exact eq_comm
  · simp only [shiftsTo, ha, if_false, Bool.and_eq_true, decide_eq_true_eq, beq_iff_eq]
    refine ⟨fun h => h.2, fun h => ⟨?_, h⟩⟩
    apply lt_digitCount
    rw [← h, Int.natAbs_mul, Int.natAbs_pow]
    exact Nat.le_mul_of_pos_left _ (Int.natAbs_pos.mpr ha)

private theorem zpow_split {a b : Int} (h : a ≤ b) :
    (10 : ℚ) ^ (-a) = 10 ^ (b - a).toNat * 10 ^ (-b) := by
  rw [← zpow_natCast, ← zpow_add₀ (by norm_num)]
  congr 1
  omega

private theorem shiftsTo_scales {a b s t : Int} (h : s ≤ t) :
    shiftsTo a (t - s).toNat b = true ↔ (a : ℚ) * 10 ^ (-s) = b * 10 ^ (-t) := by
  have hpos : (10 : ℚ) ^ (-t) ≠ 0 := zpow_ne_zero _ (by norm_num)
  rw [shiftsTo_iff, zpow_split h, ← mul_assoc, mul_left_inj' hpos]
  exact_mod_cast Iff.rfl

/-- Sameness of decimals is equality of what they stand for. -/
theorem same_iff (x y : Decimal) : x.same y = true ↔ x.toRat = y.toRat := by
  unfold same toRat
  split
  · next h => exact shiftsTo_scales h
  · next h => rw [shiftsTo_scales (by omega), eq_comm]

@[simp] theorem same_refl (x : Decimal) : x.same x = true :=
  (same_iff x x).mpr rfl

theorem same_trans {x y z : Decimal} (h : x.same y = true) (h' : y.same z = true) :
    x.same z = true := by
  rw [same_iff] at *
  exact h.trans h'

@[simp] theorem toRat_ofInt (n : Int) : (ofInt n).toRat = n := by
  simp [toRat, ofInt]

private theorem toRat_shift {d : Decimal} (h : d.scale.toInt ≤ 0) :
    ((shift d.digits (-d.scale.toInt).toNat : Int) : ℚ) = d.toRat := by
  rw [shift_eq, toRat, zpow_split h]
  simp

private theorem toRat_digitsAt {d : Decimal} {scale : Int64} (h : d.scale.toInt ≤ scale.toInt) :
    (d.digitsAt scale : ℚ) * 10 ^ (-scale.toInt) = d.toRat := by
  rw [digitsAt, shift_eq, toRat, zpow_split h, ← mul_assoc]
  push_cast
  rfl

theorem toRat_add (x y : Decimal) : (x.add y).toRat = x.toRat + y.toRat := by
  have hsum : ∀ scale : Int64, x.scale.toInt ≤ scale.toInt → y.scale.toInt ≤ scale.toInt →
      (⟨x.digitsAt scale + y.digitsAt scale, scale⟩ : Decimal).toRat = x.toRat + y.toRat := by
    intro scale hx hy
    rw [← toRat_digitsAt hx, ← toRat_digitsAt hy, ← add_mul, toRat]
    push_cast
    rfl
  by_cases h : x.scale.toInt ≤ y.scale.toInt
  · simp only [add, h, if_true]
    exact hsum y.scale h le_rfl
  · simp only [add, h, if_false]
    exact hsum x.scale le_rfl (by omega)

theorem toRat_times (d : Decimal) (n : Int) : (d.times n).toRat = d.toRat * n := by
  rw [times]
  split
  · next h => rw [h, toRat_ofInt, toRat_ofInt, Int.cast_one, one_mul]
  split
  · next hone => rw [hone, Int.cast_one, mul_one]
  · rw [toRat, toRat]
    push_cast
    ring

/-- What is read back from the text of a decimal stands for the same number. -/
theorem same_settled (d : Decimal) : d.same d.settled = true := by
  rw [same_iff, settled]
  split
  · next h =>
    have hofInt : (⟨shift d.digits (-d.scale.toInt).toNat, 0⟩ : Decimal)
        = ofInt (shift d.digits (-d.scale.toInt).toNat) := rfl
    rw [hofInt, toRat_ofInt]
    rcases h with h | h
    · simp [toRat, shift, h]
    · exact (toRat_shift h.1).symm
  · rfl

theorem toRat_truncate {d : Decimal} (h : d.isWhole = true) : (d.truncate : ℚ) = d.toRat := by
  unfold truncate
  by_cases hs : d.scale.toInt ≤ 0
  · rw [if_pos hs]
    exact toRat_shift hs
  · simp only [isWhole, hs, decide_false, Bool.false_or, Bool.or_eq_true, beq_iff_eq,
      Bool.and_eq_true, decide_eq_true_eq] at h
    rw [if_neg hs]
    rcases h with h | ⟨hlt, hmod⟩
    · simp [h, toRat]
    · have hexact : d.digits.tdiv (10 ^ d.scale.toInt.toNat) * 10 ^ d.scale.toInt.toNat
          = d.digits := Int.tdiv_mul_cancel_of_tmod_eq_zero hmod
      have hscale : (10 : ℚ) ^ d.scale.toInt.toNat * 10 ^ (-d.scale.toInt) = 1 := by
        rw [← zpow_natCast, ← zpow_add₀ (by norm_num), Int.toNat_of_nonneg (by omega)]
        simp
      rw [if_pos hlt, toRat]
      nth_rewrite 2 [← hexact]
      push_cast
      rw [mul_assoc, hscale, mul_one]

theorem isWhole_iff (d : Decimal) : d.isWhole = true ↔ ∃ n : Int, d.toRat = n := by
  refine ⟨fun h => ⟨_, (toRat_truncate h).symm⟩, ?_⟩
  rintro ⟨n, hn⟩
  by_cases hs : d.scale.toInt ≤ 0
  · simp [isWhole, hs]
  by_cases hz : d.digits = 0
  · simp [isWhole, hz]
  have hdigits : d.digits = n * 10 ^ d.scale.toInt.toNat := by
    have hpow : (10 : ℚ) ^ d.scale.toInt ≠ 0 := zpow_ne_zero _ (by norm_num)
    have hpos : (0 : Int) ≤ d.scale.toInt := by omega
    rw [toRat, zpow_neg, mul_inv_eq_iff_eq_mul₀ hpow, ← Int.toNat_of_nonneg hpos, zpow_natCast] at hn
    exact_mod_cast hn
  have hlt : d.scale.toInt.toNat < digitCount d.digits.natAbs := by
    apply lt_digitCount
    rw [hdigits] at hz ⊢
    rw [Int.natAbs_mul, Int.natAbs_pow]
    exact Nat.le_mul_of_pos_left _ (Int.natAbs_pos.mpr (left_ne_zero_of_mul hz))
  have hmod : d.digits.tmod (10 ^ d.scale.toInt.toNat) = 0 := by
    rw [hdigits]
    exact Int.mul_tmod_left _ _
  have hscale : d.scale.toInt < digitCount d.digits.natAbs := by omega
  simp only [isWhole, hmod, hscale, decide_true, beq_self_eq_true, Bool.true_and, Bool.or_true]

theorem truncate_eq {d : Decimal} {n : Int} (h : d.toRat = n) :
    d.isWhole = true ∧ d.truncate = n := by
  have hwhole : d.isWhole = true := d.isWhole_iff.mpr ⟨n, h⟩
  have hrat := toRat_truncate hwhole
  rw [h] at hrat
  exact ⟨hwhole, by exact_mod_cast hrat⟩

end DecisionService.Decimal
