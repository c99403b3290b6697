import Mathlib
import DecisionService.Proofs.Decimal.Rounding
/-!
# What rounding leaves

Rounding leaves as many digits as it is asked for, or a power of ten with one digit more: it does so
for the numbers that are less than a power of ten by half a unit of their last digit at most.
-/
namespace DecisionService.Decimal

variable {limit : Nat}

section Digits

variable {q : ℚ}

/-- The number is less than a power of ten by half a unit of its last digit at most. -/
def Carries (limit : Nat) (q : ℚ) : Prop :=
  ∃ k : ℤ, q < 10 ^ k ∧ (10 : ℚ) ^ k ≤ q + 10 ^ (k - limit) / 2

theorem Carries.half_le {k : ℤ} (h : (10 : ℚ) ^ k ≤ q + 10 ^ (k - limit) / 2) :
    (10 : ℚ) ^ k ≤ 2 * q := by
  have hunit : (10 : ℚ) ^ (k - limit) ≤ 10 ^ k := zpow_le_zpow_right₀ (by norm_num) (by omega)
  linarith

theorem Carries.pos (h : Carries limit q) : 0 < q := by
  obtain ⟨k, -, hk⟩ := h
  have hpow : (0 : ℚ) < 10 ^ k := zpow_pos (by norm_num) k
  linarith [half_le hk]

theorem carries_iff : Carries limit q ↔ (10 : ℚ) ^ limit - 1 / 2 ≤ q / lastUnit limit q := by
  have hunit := lastUnit_pos limit q
  have hpow := pow_limit_mul_lastUnit limit q
  rw [le_div_iff₀ hunit, sub_mul, hpow]
  constructor
  · intro h
    obtain ⟨k, hlt, hle⟩ := id h
    -- half a unit does not reach down to the power of ten before
    have hlow : (10 : ℚ) ^ (k - 1) ≤ |q| := by
      have hten : (10 : ℚ) ^ k = 10 * 10 ^ (k - 1) := by
        rw [← zpow_one_add₀ (by norm_num)]
        congr 1
        ring
      have hpos : (0 : ℚ) < 10 ^ (k - 1) := zpow_pos (by norm_num) _
      rw [abs_of_pos h.pos]
      linarith [Carries.half_le hle]
    have hlog : Int.log 10 |q| = k - 1 := by
      refine log_eq hlow ?_
      rwa [abs_of_pos h.pos, sub_add_cancel]
    have hplace : lastUnit limit q = 10 ^ (k - limit) := by
      rw [lastUnit, lastPlace, hlog, sub_add_cancel]
    rw [hlog, sub_add_cancel, hplace]
    linarith
  · intro h
    refine ⟨Int.log 10 |q| + 1, ?_, ?_⟩
    · exact (le_abs_self q).trans_lt (Int.lt_zpow_succ_log_self (by norm_num) |q|)
    · change _ ≤ q + lastUnit limit q / 2
      linarith

/-- A number carries exactly when it is rounded to a number with one digit more. -/
theorem carries_iff_cut (hlimit : 0 < limit) (hq : q ≠ 0) :
    Carries limit q ↔ cut (q / lastUnit limit q) = 10 ^ limit := by
  have hlt := (scaled_bounds hlimit hq).2
  rw [carries_iff]
  rcases le_or_gt 0 (q / lastUnit limit q) with h | h
  · rw [abs_of_nonneg h] at hlt
    rw [cut_of_nonneg h, round_eq, Int.floor_eq_iff]
    push_cast
    constructor
    · intro hle
      constructor <;> linarith
    · rintro ⟨hle, -⟩
      linarith
  · have hceil : ⌈q / lastUnit limit q⌉ ≤ 0 := Int.ceil_nonpos.mpr h.le
    have hpow : (0 : ℤ) < 10 ^ limit := by positivity
    have hone : (1 : ℚ) ≤ 10 ^ limit := one_le_pow₀ (by norm_num)
    rw [cut_of_neg h]
    constructor
    · intro hle
      linarith
    · intro heq
      omega

theorem cut_bounds (hlimit : 0 < limit) (hq : q ≠ 0) :
    -(10 ^ limit : ℤ) < cut (q / lastUnit limit q) ∧ cut (q / lastUnit limit q) ≤ 10 ^ limit := by
  have hx := abs_lt.mp (scaled_bounds hlimit hq).2
  have hpow : (0 : ℤ) < 10 ^ limit := by positivity
  refine ⟨?_, cut_le (by exact_mod_cast hx.2.le)⟩
  rcases le_or_gt 0 (q / lastUnit limit q) with h | h
  · have hnonneg : 0 ≤ cut (q / lastUnit limit q) := le_cut (by exact_mod_cast h)
    omega
  · rw [cut_of_neg h, Int.lt_ceil]
    exact_mod_cast hx.1

theorem not_carries_of_short (hlimit : 0 < limit) (h : Short limit q) : ¬ Carries limit q := by
  intro hcarries
  have hq : q ≠ 0 := hcarries.pos.ne'
  have hrounded := rounded_of_short h
  rw [rounded, (carries_iff_cut hlimit hq).mp hcarries] at hrounded
  push_cast at hrounded
  rw [pow_limit_mul_lastUnit] at hrounded
  have hlt := Int.lt_zpow_succ_log_self (b := 10) (by norm_num) |q|
  rw [Nat.cast_ofNat, hrounded, abs_of_pos hcarries.pos] at hlt
  exact lt_irrefl q hlt

end Digits

variable {d : Decimal}

theorem precision_le_iff (hlimit : 0 < limit) :
    d.precision ≤ limit ↔ d.digits.natAbs < 10 ^ limit :=
  Nat.length_toDigits_le_iff (by decide) hlimit

theorem precision_of_digits (h : d.digits = 10 ^ limit) : d.precision = limit + 1 := by
  have hnat : d.digits.natAbs = 10 ^ limit := by
    rw [h, Int.natAbs_pow]
    rfl
  have hlow := lt_digitCount (n := d.digits.natAbs) (k := limit) hnat.ge
  have hhigh : d.precision ≤ limit + 1 := by
    rw [precision_le_iff (Nat.succ_pos limit), hnat]
    exact Nat.pow_lt_pow_right (by norm_num) (Nat.lt_succ_self limit)
  rw [precision] at hhigh ⊢
  omega

section Result

variable {r : Decimal} (h : d.roundTo limit = some r)
include h

theorem precision_roundTo_le_iff (hlimit : 0 < limit) :
    r.precision ≤ limit ↔ ¬ Carries limit d.toRat := by
  by_cases hshort : d.precision ≤ limit
  · cases (roundTo_of_le hshort).symm.trans h
    exact iff_of_true hshort (not_carries_of_short hlimit (short_of_precision_le hshort))
  have hlong : limit < d.precision := Nat.not_le.mp hshort
  have hq : d.toRat ≠ 0 := toRat_ne_zero (digits_ne_zero hlimit hlong)
  obtain ⟨hlow, hhigh⟩ := cut_bounds hlimit hq
  rw [precision_le_iff hlimit, digits_roundTo h hlimit hlong, carries_iff_cut hlimit hq]
  have hpow : ((10 ^ limit : Nat) : ℤ) = 10 ^ limit := by push_cast; rfl
  omega

theorem digits_roundTo_of_carries (hlimit : 0 < limit) (hcarries : Carries limit d.toRat) :
    r.digits = 10 ^ limit := by
  have hlong : limit < d.precision := by
    by_contra hshort
    exact not_carries_of_short hlimit (short_of_precision_le (Nat.not_lt.mp hshort)) hcarries
  rw [digits_roundTo h hlimit hlong]
  exact (carries_iff_cut hlimit hcarries.pos.ne').mp hcarries

/-- What was rounded is not rounded again, except for a power of ten. There the scale may have no room
for one digit less. -/
theorem roundTo_roundTo_eq_none_iff (hlimit : 0 < limit) :
    r.roundTo limit = none ↔ r = ⟨10 ^ limit, Int64.minValue⟩ := by
  have hlow := r.scale.le_toInt
  rw [roundTo_eq_none_iff]
  constructor
  · intro hfits
    have hlong : ¬ r.precision ≤ limit := mt scaleFits_of_le hfits
    have hcarries := not_not.mp (mt (precision_roundTo_le_iff h hlimit).mpr hlong)
    have hdigits := digits_roundTo_of_carries h hlimit hcarries
    have hdropped : r.dropped limit = 1 := by
      rw [dropped, precision_of_digits hdigits, Nat.add_sub_cancel_left]
    have hscale : r.scale = Int64.minValue := by
      rw [ScaleFits, hdropped, Nat.cast_one] at hfits
      refine Int64.toInt_inj.mp (hlow.antisymm' ?_)
      change _ ≤ -(2 ^ 63)
      omega
    obtain ⟨digits, scale⟩ := r
    cases hdigits
    cases hscale
    rfl
  · rintro rfl
    have hdropped : (⟨10 ^ limit, Int64.minValue⟩ : Decimal).dropped limit = 1 := by
      rw [dropped, precision_of_digits rfl, Nat.add_sub_cancel_left]
    rw [ScaleFits, hdropped]
    change ¬ -(2 ^ 63) ≤ Int64.minValue.toInt - 1
    decide

end Result

end DecisionService.Decimal
