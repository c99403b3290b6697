import Mathlib
import DecisionService.Proofs.Decimal.Magnitude
/-!
# Rounding to significant digits

A decimal that is cut to some digits is the multiple of the unit of the last digit that its value
is rounded to: a half goes up above zero, and below zero the fraction is dropped. The unit is
decided by the value and not by the zeros that are written, and rounding so is monotone.
-/
namespace DecisionService.Decimal

def cut (x : ℚ) : ℤ :=
  if 0 ≤ x then round x else ⌈x⌉

theorem cut_of_nonneg {x : ℚ} (h : 0 ≤ x) : cut x = round x :=
  if_pos h

theorem cut_of_neg {x : ℚ} (h : x < 0) : cut x = ⌈x⌉ :=
  if_neg h.not_ge

@[simp] theorem cut_intCast (n : ℤ) : cut n = n := by
  unfold cut
  split
  · exact round_intCast n
  · exact Int.ceil_intCast n

theorem cut_mono : Monotone cut := by
  intro x y h
  rcases le_or_gt 0 x with hx | hx
  · rw [cut_of_nonneg hx, cut_of_nonneg (hx.trans h), round_eq, round_eq]
    exact Int.floor_mono (by linarith)
  rcases le_or_gt 0 y with hy | hy
  · have hzero : (0 : ℤ) ≤ round y := by
      rw [round_eq]
      exact Int.floor_nonneg.mpr (by linarith)
    rw [cut_of_neg hx, cut_of_nonneg hy]
    exact (Int.ceil_nonpos.mpr hx.le).trans hzero
  · rw [cut_of_neg hx, cut_of_neg hy]
    exact Int.ceil_mono h

theorem le_cut {n : ℤ} {x : ℚ} (h : n ≤ x) : n ≤ cut x := by
  rw [← cut_intCast n]
  exact cut_mono h

theorem cut_le {n : ℤ} {x : ℚ} (h : x ≤ n) : cut x ≤ n := by
  rw [← cut_intCast n]
  exact cut_mono h

private theorem round_remainder {r u : ℤ} (hlow : 0 ≤ r) (hhigh : r < u) :
    round ((r : ℚ) / u) = if u ≤ 2 * r then 1 else 0 := by
  have hu : (0 : ℚ) < u := by exact_mod_cast hlow.trans_lt hhigh
  have hnonneg : (0 : ℚ) ≤ r / u := div_nonneg (by exact_mod_cast hlow) hu.le
  have hone : (r : ℚ) / u < 1 := (div_lt_one hu).mpr (by exact_mod_cast hhigh)
  rw [round_eq]
  split
  · next hcarry =>
    have hcarry' : (u : ℚ) ≤ 2 * r := by exact_mod_cast hcarry
    have hhalf : (1 : ℚ) / 2 ≤ r / u := (le_div_iff₀ hu).mpr (by linarith)
    rw [Int.floor_eq_iff]
    constructor <;> push_cast <;> linarith
  · next hcarry =>
    have hcarry' : 2 * (r : ℚ) < u := by exact_mod_cast not_le.mp hcarry
    have hhalf : (r : ℚ) / u < 1 / 2 := (div_lt_iff₀ hu).mpr (by linarith)
    rw [Int.floor_eq_iff]
    constructor <;> push_cast <;> linarith

private theorem ceil_remainder {r u : ℤ} (hlow : -u < r) (hhigh : r ≤ 0) :
    ⌈(r : ℚ) / u⌉ = 0 := by
  have hu : (0 : ℚ) < u := by
    have hpos : 0 < u := by omega
    exact_mod_cast hpos
  have hneg : (-1 : ℚ) < r / u := (lt_div_iff₀ hu).mpr (by rw [neg_one_mul]; exact_mod_cast hlow)
  have hnonpos : (r : ℚ) / u ≤ 0 := div_nonpos_of_nonpos_of_nonneg (by exact_mod_cast hhigh) hu.le
  rw [Int.ceil_eq_iff]
  constructor <;> push_cast <;> linarith

/-- Digits are cut off by division, with the carry that the remainder leaves. -/
theorem cut_div (m : ℤ) {u : ℤ} (hu : 0 < u) :
    cut ((m : ℚ) / u) = m.tdiv u + if u ≤ 2 * m.tmod u then 1 else 0 := by
  have hu' : (0 : ℚ) < u := by exact_mod_cast hu
  have hsplit : (m : ℚ) / u = (m.tdiv u : ℤ) + (m.tmod u : ℤ) / u := by
    rw [div_eq_iff hu'.ne', add_mul, div_mul_cancel₀ _ hu'.ne']
    exact_mod_cast (Int.tdiv_mul_add_tmod m u).symm
  -- the remainder has the sign of the dividend, so only a positive one can carry
  rcases le_or_gt 0 m with hm | hm
  · rw [cut_of_nonneg (by positivity), hsplit, round_intCast_add,
      round_remainder (Int.tmod_nonneg u hm) (Int.tmod_lt_of_pos m hu)]
  · have hnonpos : m.tmod u ≤ 0 := by
      have h := Int.tmod_nonneg u (Int.neg_nonneg_of_nonpos hm.le)
      rw [Int.neg_tmod] at h
      omega
    rw [cut_of_neg (div_neg_of_neg_of_pos (by exact_mod_cast hm) hu'), hsplit,
      Int.ceil_intCast_add, ceil_remainder (Int.lt_tmod_of_pos m hu) hnonpos, if_neg (by omega)]

section Values

variable {limit : Nat} {p q : ℚ}

/-- The place of the last of `limit` digits, as a power of ten. -/
def lastPlace (limit : Nat) (q : ℚ) : ℤ :=
  Int.log 10 |q| + 1 - limit

def lastUnit (limit : Nat) (q : ℚ) : ℚ :=
  10 ^ lastPlace limit q

def PlaceFits (limit : Nat) (q : ℚ) : Prop :=
  lastPlace limit q ≤ 2 ^ 63

/-- The number cut to `limit` digits. -/
def rounded (limit : Nat) (q : ℚ) : ℚ :=
  cut (q / lastUnit limit q) * lastUnit limit q

/-- The number is written with `limit` digits and a power of ten. -/
def Short (limit : Nat) (q : ℚ) : Prop :=
  ∃ m k : ℤ, |m| < 10 ^ limit ∧ q = m * 10 ^ k

theorem lastUnit_pos (limit : Nat) (q : ℚ) : 0 < lastUnit limit q :=
  zpow_pos (by norm_num) _

theorem log_eq {k : ℤ} (hlow : (10 : ℚ) ^ k ≤ |q|) (hhigh : |q| < 10 ^ (k + 1)) :
    Int.log 10 |q| = k := by
  have hpos : 0 < |q| := lt_of_lt_of_le (zpow_pos (by norm_num) k) hlow
  have hle : k ≤ Int.log 10 |q| := (Int.zpow_le_iff_le_log (by norm_num) hpos).mp hlow
  have hlt : Int.log 10 |q| < k + 1 := (Int.lt_zpow_iff_log_lt (by norm_num) hpos).mp hhigh
  omega

theorem pow_mul_lastUnit (limit n : Nat) (q : ℚ) :
    (10 : ℚ) ^ n * lastUnit limit q = 10 ^ (n + Int.log 10 |q| + 1 - limit) := by
  rw [lastUnit, lastPlace, ← zpow_natCast, ← zpow_add₀ (by norm_num)]
  congr 1
  ring

theorem pow_pred_mul_lastUnit (hlimit : 0 < limit) (q : ℚ) :
    (10 : ℚ) ^ (limit - 1) * lastUnit limit q = 10 ^ Int.log 10 |q| := by
  rw [pow_mul_lastUnit]
  congr 1
  omega

theorem pow_limit_mul_lastUnit (limit : Nat) (q : ℚ) :
    (10 : ℚ) ^ limit * lastUnit limit q = 10 ^ (Int.log 10 |q| + 1) := by
  rw [pow_mul_lastUnit]
  congr 1
  omega

theorem scaled_bounds (hlimit : 0 < limit) (hq : q ≠ 0) :
    (10 : ℚ) ^ (limit - 1) ≤ |q / lastUnit limit q| ∧ |q / lastUnit limit q| < 10 ^ limit := by
  have hpos : 0 < |q| := abs_pos.mpr hq
  have hunit := lastUnit_pos limit q
  rw [abs_div, abs_of_pos hunit, le_div_iff₀ hunit, div_lt_iff₀ hunit,
    pow_pred_mul_lastUnit hlimit, pow_limit_mul_lastUnit]
  exact ⟨Int.zpow_log_le_self (by norm_num) hpos, Int.lt_zpow_succ_log_self (by norm_num) |q|⟩

theorem rounded_of_short (h : Short limit q) : rounded limit q = q := by
  obtain ⟨m, k, hm, hq⟩ := h
  have hunit := lastUnit_pos limit q
  rcases eq_or_ne q 0 with h0 | h0
  · rw [rounded, h0, zero_div, ← Int.cast_zero, cut_intCast, Int.cast_zero, zero_mul]
  have hplace : lastPlace limit q ≤ k := by
    have hlt : |q| < (10 : ℚ) ^ ((limit : ℤ) + k) := by
      have hm' : |(m : ℚ)| < 10 ^ limit := by exact_mod_cast hm
      rw [hq, abs_mul, abs_of_pos (zpow_pos (by norm_num : (0 : ℚ) < 10) k),
        zpow_add₀ (by norm_num), zpow_natCast]
      exact mul_lt_mul_of_pos_right hm' (zpow_pos (by norm_num) k)
    have hlog : Int.log 10 |q| < limit + k :=
      (Int.lt_zpow_iff_log_lt (by norm_num) (abs_pos.mpr h0)).mp hlt
    rw [lastPlace]
    omega
  have hinteger : q / lastUnit limit q = (m * 10 ^ (k - lastPlace limit q).toNat : ℤ) := by
    rw [div_eq_iff hunit.ne', lastUnit]
    nth_rewrite 1 [hq]
    push_cast
    rw [mul_assoc, ← zpow_natCast, ← zpow_add₀ (by norm_num)]
    congr 2
    omega
  rw [rounded, hinteger, cut_intCast, ← hinteger, div_mul_cancel₀ _ hunit.ne']

@[simp] theorem rounded_zero (limit : Nat) : rounded limit 0 = 0 :=
  rounded_of_short ⟨0, 0, by simp, by simp⟩

theorem short_rounded (hlimit : 0 < limit) (q : ℚ) : Short limit (rounded limit q) := by
  rcases eq_or_ne q 0 with rfl | h0
  · exact ⟨0, 0, by simp, by simp⟩
  have hx := abs_le.mp (scaled_bounds hlimit h0).2.le
  have hlow : -(10 ^ limit : ℤ) ≤ cut (q / lastUnit limit q) := le_cut (by exact_mod_cast hx.1)
  have hhigh : cut (q / lastUnit limit q) ≤ (10 ^ limit : ℤ) := cut_le (by exact_mod_cast hx.2)
  have hone : (1 : ℤ) < 10 ^ limit := one_lt_pow₀ (by norm_num) (by omega)
  have hpower : ∀ m : ℤ, |m| = 1 → rounded limit q = m * 10 ^ limit * lastUnit limit q →
      Short limit (rounded limit q) := by
    intro m hm h
    refine ⟨m, limit + lastPlace limit q, by rwa [hm], ?_⟩
    rw [h, lastUnit, zpow_add₀ (by norm_num), zpow_natCast, mul_assoc]
  -- the carry may reach the next power of ten, which takes a single digit
  rcases (abs_le.mpr ⟨hlow, hhigh⟩).lt_or_eq with hlt | heq
  · exact ⟨_, lastPlace limit q, hlt, rfl⟩
  · rcases (abs_eq (by positivity)).mp heq with h | h
    · exact hpower 1 rfl (by rw [rounded, h]; push_cast; ring)
    · exact hpower (-1) rfl (by rw [rounded, h]; push_cast; ring)

/-- Cutting does not leave the decade. -/
theorem rounded_bounds_of_pos (hlimit : 0 < limit) (hq : 0 < q) :
    (10 : ℚ) ^ Int.log 10 |q| ≤ rounded limit q
      ∧ rounded limit q ≤ 10 ^ (Int.log 10 |q| + 1) := by
  have hunit := lastUnit_pos limit q
  have hx := scaled_bounds hlimit hq.ne'
  rw [abs_of_pos (div_pos hq hunit)] at hx
  have hlow : (10 ^ (limit - 1) : ℤ) ≤ cut (q / lastUnit limit q) :=
    le_cut (by exact_mod_cast hx.1)
  have hhigh : cut (q / lastUnit limit q) ≤ (10 ^ limit : ℤ) :=
    cut_le (by exact_mod_cast hx.2.le)
  rw [← pow_pred_mul_lastUnit hlimit, ← pow_limit_mul_lastUnit limit, rounded]
  exact ⟨mul_le_mul_of_nonneg_right (by exact_mod_cast hlow) hunit.le,
    mul_le_mul_of_nonneg_right (by exact_mod_cast hhigh) hunit.le⟩

theorem rounded_bounds_of_neg (hlimit : 0 < limit) (hq : q < 0) :
    -(10 : ℚ) ^ (Int.log 10 |q| + 1) ≤ rounded limit q
      ∧ rounded limit q ≤ -10 ^ Int.log 10 |q| := by
  have hunit := lastUnit_pos limit q
  have hx := scaled_bounds hlimit hq.ne
  rw [abs_of_neg (div_neg_of_neg_of_pos hq hunit)] at hx
  have hlow : -(10 ^ limit : ℤ) ≤ cut (q / lastUnit limit q) :=
    le_cut (by push_cast; linarith [hx.2])
  have hhigh : cut (q / lastUnit limit q) ≤ -(10 ^ (limit - 1) : ℤ) :=
    cut_le (by push_cast; linarith [hx.1])
  rw [← pow_pred_mul_lastUnit hlimit, ← pow_limit_mul_lastUnit limit, rounded, ← neg_mul, ← neg_mul]
  exact ⟨mul_le_mul_of_nonneg_right (by exact_mod_cast hlow) hunit.le,
    mul_le_mul_of_nonneg_right (by exact_mod_cast hhigh) hunit.le⟩

private theorem rounded_le_of_log_eq (h : p ≤ q) (hlog : Int.log 10 |p| = Int.log 10 |q|) :
    rounded limit p ≤ rounded limit q := by
  have hunit := lastUnit_pos limit q
  have hsame : lastUnit limit p = lastUnit limit q := by
    rw [lastUnit, lastUnit, lastPlace, lastPlace, hlog]
  rw [rounded, rounded, hsame]
  refine mul_le_mul_of_nonneg_right (Int.cast_le.mpr (cut_mono ?_)) hunit.le
  exact div_le_div_of_nonneg_right h hunit.le

/-- Cutting keeps the order, across decades and across zero. -/
theorem rounded_mono (hlimit : 0 < limit) : Monotone (rounded limit) := by
  intro p q h
  have hten : ∀ {a b : ℤ}, a < b → (10 : ℚ) ^ (a + 1) ≤ 10 ^ b := fun hab =>
    zpow_le_zpow_right₀ (by norm_num) (by omega)
  have hpositive : ∀ x : ℚ, (0 : ℚ) < 10 ^ Int.log 10 |x| := fun x => zpow_pos (by norm_num) _
  -- in another decade the bounds of the decades decide, in the same one the unit is the same
  rcases lt_trichotomy p 0 with hp | rfl | hp
  · have hlow := rounded_bounds_of_neg hlimit hp
    rcases lt_trichotomy q 0 with hq | rfl | hq
    · have habs : |q| ≤ |p| := by
        rw [abs_of_neg hp, abs_of_neg hq]
        linarith
      rcases (Int.log_mono_right (b := 10) (abs_pos.mpr hq.ne) habs).lt_or_eq with hlt | heq
      · have hhigh := rounded_bounds_of_neg hlimit hq
        linarith [hten hlt]
      · exact rounded_le_of_log_eq h heq.symm
    · rw [rounded_zero]
      linarith [hpositive p]
    · linarith [hpositive p, hpositive q, (rounded_bounds_of_pos hlimit hq).1]
  · rcases h.lt_or_eq with hq | rfl
    · rw [rounded_zero]
      linarith [hpositive q, (rounded_bounds_of_pos hlimit hq).1]
    · exact le_rfl
  · have hq := hp.trans_le h
    have habs : |p| ≤ |q| := by rwa [abs_of_pos hp, abs_of_pos hq]
    rcases (Int.log_mono_right (b := 10) (abs_pos.mpr hp.ne') habs).lt_or_eq with hlt | heq
    · linarith [hten hlt, (rounded_bounds_of_pos hlimit hp).2, (rounded_bounds_of_pos hlimit hq).1]
    · exact rounded_le_of_log_eq h heq

theorem abs_rounded_sub_le (h : 0 ≤ q) : |rounded limit q - q| ≤ lastUnit limit q / 2 := by
  have hunit := lastUnit_pos limit q
  have hnearest := abs_sub_round (q / lastUnit limit q)
  rw [abs_sub_comm] at hnearest
  calc |rounded limit q - q|
      = |round (q / lastUnit limit q) - q / lastUnit limit q| * lastUnit limit q := by
        rw [rounded, cut_of_nonneg (by positivity), ← abs_of_pos hunit, ← abs_mul, sub_mul,
          abs_of_pos hunit, div_mul_cancel₀ _ hunit.ne']
    _ ≤ 1 / 2 * lastUnit limit q := mul_le_mul_of_nonneg_right hnearest hunit.le
    _ = lastUnit limit q / 2 := by ring

/-- The part of the last unit that is cut off. -/
def cutOff (limit : Nat) (q : ℚ) : ℚ :=
  Int.fract (|q| / lastUnit limit q)

theorem rounded_of_neg (h : q < 0) :
    rounded limit q = q + cutOff limit q * lastUnit limit q := by
  have hunit := lastUnit_pos limit q
  have hceil : (⌈q / lastUnit limit q⌉ : ℚ) = q / lastUnit limit q + cutOff limit q := by
    rw [cutOff, abs_of_neg h, neg_div, Int.fract, Int.floor_neg]
    push_cast
    ring
  rw [rounded, cut_of_neg (div_neg_of_neg_of_pos h hunit), hceil, add_mul,
    div_mul_cancel₀ _ hunit.ne']

theorem rounded_neg_iff (h : q < 0) :
    rounded limit (-q) = -rounded limit q ↔ cutOff limit q < 1 / 2 := by
  have hunit := lastUnit_pos limit q
  have hsame : lastUnit limit (-q) = lastUnit limit q := by
    rw [lastUnit, lastPlace, abs_neg, lastUnit, lastPlace]
  have hscaled : 0 ≤ -q / lastUnit limit q := div_nonneg (by linarith) hunit.le
  rw [rounded, hsame, cut_of_nonneg hscaled, rounded, cut_of_neg (div_neg_of_neg_of_pos h hunit),
    ← neg_mul, mul_left_inj' hunit.ne', ← Int.cast_neg, Int.cast_inj, ← Int.floor_neg, ← neg_div,
    round_eq, Int.floor_eq_iff, cutOff, abs_of_neg h, Int.fract]
  constructor
  · rintro ⟨-, hlt⟩
    linarith
  · intro hlt
    have hfloor := Int.floor_le (-q / lastUnit limit q)
    constructor <;> linarith

end Values

section RoundTo

variable {limit : Nat} {d : Decimal}

/-- The scale that rounding leaves is one of a 64-bit word. -/
def ScaleFits (limit : Nat) (d : Decimal) : Prop :=
  -(2 ^ 63) ≤ d.scale.toInt - d.dropped limit

instance (limit : Nat) (d : Decimal) : Decidable (d.ScaleFits limit) :=
  inferInstanceAs (Decidable (_ ≤ _))

theorem scaleFits_of_le (h : d.precision ≤ limit) : d.ScaleFits limit := by
  rw [ScaleFits, dropped, Nat.sub_eq_zero_of_le h, Nat.cast_zero, sub_zero]
  exact d.scale.le_toInt

theorem exists_roundTo_iff : (∃ r, d.roundTo limit = some r) ↔ d.ScaleFits limit := by
  by_cases hshort : d.precision ≤ limit
  · exact iff_of_true ⟨d, roundTo_of_le hshort⟩ (scaleFits_of_le hshort)
  rw [ScaleFits, roundTo, if_neg hshort, ← Option.isSome_iff_exists]
  dsimp only
  split
  · next hfits => exact iff_of_true rfl hfits
  · next hfits => exact iff_of_false Bool.false_ne_true hfits

theorem roundTo_eq_none_iff : d.roundTo limit = none ↔ ¬ d.ScaleFits limit := by
  rw [← exists_roundTo_iff, ← Option.ne_none_iff_exists', not_not]

/-- The last place is decided by the digits and the scale, whichever of them a value has. -/
theorem lastPlace_toRat (h : d.digits ≠ 0) :
    lastPlace limit d.toRat = d.precision - d.scale.toInt - limit := by
  have hpos : 0 < d.digits.natAbs := Int.natAbs_pos.mpr h
  have hprecision : 0 < d.precision := Nat.length_toDigits_pos
  have habs : |d.toRat| = (d.digits.natAbs : ℚ) * 10 ^ (-d.scale.toInt) := by
    rw [toRat, abs_mul, abs_of_pos (zpow_pos (by norm_num : (0 : ℚ) < 10) _), Nat.cast_natAbs,
      Int.cast_abs]
  have hten : (0 : ℚ) < 10 ^ (-d.scale.toInt) := zpow_pos (by norm_num) _
  have hlow : (10 : ℚ) ^ (d.precision - 1) ≤ d.digits.natAbs := by
    exact_mod_cast pow_pred_digitCount_le hpos
  have hhigh : (d.digits.natAbs : ℚ) < 10 ^ d.precision := by
    exact_mod_cast lt_pow_digitCount d.digits.natAbs
  have hlog : Int.log 10 |d.toRat| = d.precision - 1 - d.scale.toInt := by
    apply log_eq
    · rw [habs, show (d.precision : ℤ) - 1 - d.scale.toInt
          = (d.precision - 1 : Nat) + -d.scale.toInt by omega, zpow_add₀ (by norm_num),
        zpow_natCast]
      exact mul_le_mul_of_nonneg_right hlow hten.le
    · rw [habs, show (d.precision : ℤ) - 1 - d.scale.toInt + 1
          = (d.precision : Nat) + -d.scale.toInt by omega, zpow_add₀ (by norm_num), zpow_natCast]
      exact mul_lt_mul_of_pos_right hhigh hten
  rw [lastPlace, hlog]
  ring

theorem toRat_ne_zero (h : d.digits ≠ 0) : d.toRat ≠ 0 :=
  mul_ne_zero (Int.cast_ne_zero.mpr h) (zpow_ne_zero _ (by norm_num))

theorem short_of_precision_le (h : d.precision ≤ limit) : Short limit d.toRat := by
  refine ⟨d.digits, -d.scale.toInt, ?_, rfl⟩
  have hlt : d.digits.natAbs < 10 ^ limit :=
    (lt_pow_digitCount _).trans_le (Nat.pow_le_pow_right (by norm_num) h)
  rw [Int.abs_eq_natAbs]
  exact_mod_cast hlt

theorem digits_ne_zero (hlimit : 0 < limit) (h : limit < d.precision) : d.digits ≠ 0 := by
  intro h0
  rw [precision, h0] at h
  exact absurd hlimit (Nat.not_lt.mpr (Nat.lt_succ_iff.mp h))

theorem lastUnit_toRat (hlimit : 0 < limit) (h : limit < d.precision) :
    lastUnit limit d.toRat = 10 ^ d.dropped limit * 10 ^ (-d.scale.toInt) := by
  rw [lastUnit, dropped, lastPlace_toRat (digits_ne_zero hlimit h), ← zpow_natCast,
    ← zpow_add₀ (by norm_num)]
  congr 1
  omega

section Result

variable {r : Decimal} (h : d.roundTo limit = some r)
include h

theorem toInt_scale_roundTo : r.scale.toInt = d.scale.toInt - d.dropped limit := by
  by_cases hshort : d.precision ≤ limit
  · cases (roundTo_of_le hshort).symm.trans h
    rw [dropped, Nat.sub_eq_zero_of_le hshort, Nat.cast_zero, sub_zero]
  · rw [roundTo, if_neg hshort] at h
    dsimp only at h
    split at h
    · next hfits =>
      cases h
      have hlt := d.scale.toInt_lt
      exact Int64.toInt_ofInt_of_le hfits (by omega)
    · cases h

theorem digits_roundTo (hlimit : 0 < limit) (hlong : limit < d.precision) :
    r.digits = cut (d.toRat / lastUnit limit d.toRat) := by
  have hscale : (10 : ℚ) ^ (-d.scale.toInt) ≠ 0 := zpow_ne_zero _ (by norm_num)
  have hquotient : d.toRat / lastUnit limit d.toRat
      = (d.digits : ℚ) / (10 ^ d.dropped limit : ℤ) := by
    rw [lastUnit_toRat hlimit hlong, toRat, mul_div_mul_right _ _ hscale]
    push_cast
    rfl
  rw [roundTo, if_neg (Nat.not_le.mpr hlong)] at h
  dsimp only at h
  split at h
  · cases h
    rw [hquotient, cut_div _ (by positivity)]
  · cases h

/-- A decimal is rounded as the number it stands for. -/
theorem toRat_roundTo (hlimit : 0 < limit) : r.toRat = rounded limit d.toRat := by
  by_cases hshort : d.precision ≤ limit
  · cases (roundTo_of_le hshort).symm.trans h
    rw [rounded_of_short (short_of_precision_le hshort)]
  have hlong : limit < d.precision := Nat.not_le.mp hshort
  rw [toRat, digits_roundTo h hlimit hlong, toInt_scale_roundTo h, rounded]
  nth_rewrite 3 [lastUnit_toRat hlimit hlong]
  rw [← zpow_natCast, ← zpow_add₀ (by norm_num)]
  congr 2
  ring

end Result

/-- Whether the scale fits is decided by the value. -/
theorem scaleFits_iff (hlimit : 0 < limit) :
    d.ScaleFits limit ↔ PlaceFits limit d.toRat := by
  have hlow := d.scale.le_toInt
  by_cases hdigits : d.digits = 0
  · have hzero : PlaceFits limit d.toRat := by
      simp only [PlaceFits, lastPlace, toRat, hdigits, Int.cast_zero, zero_mul, abs_zero,
        Int.log_zero_right]
      omega
    have hprecision : d.precision = 1 := by
      rw [precision, hdigits]
      rfl
    rw [ScaleFits, dropped, hprecision]
    refine ⟨fun _ => hzero, fun _ => ?_⟩
    omega
  · rw [ScaleFits, dropped, PlaceFits, lastPlace_toRat hdigits]
    omega

end RoundTo

end DecisionService.Decimal
