import Mathlib
import DecisionService.Proofs.Binary64.Notation
import DecisionService.Proofs.Decimal.Magnitude
/-!
# Where binary64 ends

A ratio is brought to 53 bits and rounded. It becomes infinite exactly when it reaches the middle
between the greatest finite number and the power of two behind it; a tie there goes to the even
significand, which is the power of two.
-/
namespace DecisionService.Binary64

/-- The least magnitude that is rounded to infinity. -/
def overflow : ℚ :=
  2 ^ 1024 - 2 ^ 970

private theorem overflow_eq : overflow = (2 ^ 54 - 1) * 2 ^ 970 := by
  rw [overflow, sub_mul, one_mul, ← pow_add]

theorem le_overflow : (2 : ℚ) ^ 1023 ≤ overflow := by
  rw [overflow_eq, show 1023 = 53 + 970 from rfl, pow_add]
  exact mul_le_mul_of_nonneg_right (by norm_num) (by positivity)

private theorem overflow_le : overflow ≤ 2 ^ 1024 := by
  rw [overflow_eq, show 1024 = 54 + 970 from rfl, pow_add]
  exact mul_le_mul_of_nonneg_right (by norm_num) (by positivity)

section Fields

variable (negative : Bool) {e f : Nat}

private theorem toNat_ofFields (he : e < 2 ^ 11) (hf : f < 2 ^ 52) :
    (ofFields negative e f).bits.toNat = (if negative then 2 ^ 63 else 0) + e * 2 ^ 52 + f := by
  rw [ofFields, UInt64.toNat_ofNat']
  apply Nat.mod_eq_of_lt
  cases negative <;> simp <;> omega

theorem exponentField_ofFields (he : e < 2 ^ 11) (hf : f < 2 ^ 52) :
    (ofFields negative e f).exponentField = e := by
  rw [exponentField, toNat_ofFields negative he hf]
  cases negative <;> simp <;> omega

theorem isFinite_ofFields (he : e < 2047) (hf : f < 2 ^ 52) :
    (ofFields negative e f).isFinite = true := by
  rw [isFinite, exponentField_ofFields negative (by omega) hf, bne_iff_ne]
  omega

theorem toDecimal_infinity : (infinity negative).toDecimal = .error .infinite := by
  cases negative <;> decide

end Fields

section Rounding

variable {n d k : Nat}

theorem le_roundDiv (h : k * d ≤ n) (hd : 0 < d) : k ≤ roundDiv n d := by
  have hk : k ≤ n / d := (Nat.le_div_iff_mul_le hd).mpr h
  unfold roundDiv
  extract_lets q r
  split_ifs <;> omega

theorem roundDiv_le (h : n < k * d) (hd : 0 < d) : roundDiv n d ≤ k := by
  have hk : n / d < k := (Nat.div_lt_iff_lt_mul hd).mpr h
  unfold roundDiv
  extract_lets q r
  split_ifs <;> omega

theorem le_roundDiv_iff (hd : 0 < d) (heven : k % 2 = 0) :
    k ≤ roundDiv n d ↔ 2 * (k * d) ≤ 2 * n + d := by
  have hn : d * (n / d) + n % d = n := Nat.div_add_mod n d
  have hr : n % d < d := Nat.mod_lt n hd
  unfold roundDiv
  extract_lets q r
  change d * q + r = n at hn
  rw [mul_comm] at hn
  -- rounding adds at most one to the quotient: only next to `k` does the remainder count
  rcases lt_trichotomy k (q + 1) with hlt | heq | hgt
  · have hmul : k * d ≤ q * d := Nat.mul_le_mul_right d (by omega)
    constructor
    · intro _
      omega
    · intro _
      split_ifs <;> omega
  · have hmul : k * d = q * d + d := by rw [heq, Nat.succ_mul]
    split_ifs <;> omega
  · have hmul : (q + 2) * d ≤ k * d := Nat.mul_le_mul_right d (by omega)
    rw [Nat.add_mul] at hmul
    constructor
    · intro h
      split_ifs at h <;> omega
    · intro h
      omega

end Rounding

section Assemble

variable (negative : Bool) {m : Nat} {exponent : Int}

theorem isFinite_assemble (hm : m ≤ 2 ^ 53) (hlow : -1074 ≤ exponent)
    (hhigh : exponent < 971 ∨ exponent = 971 ∧ m < 2 ^ 53) :
    (assemble negative m exponent).isFinite = true := by
  unfold assemble
  by_cases htop : m = 2 ^ 53
  · rw [if_pos htop]
    have hsmall : ¬ (2 ^ 52 : Nat) < 2 ^ 52 := lt_irrefl _
    have hexponent : ¬ 971 < exponent + 1 := by omega
    simp only [hsmall, hexponent, if_false]
    exact isFinite_ofFields negative (by omega) (by omega)
  · rw [if_neg htop]
    dsimp only
    split_ifs with hsmall hexponent
    · exact isFinite_ofFields negative (by omega) hsmall
    · omega
    · exact isFinite_ofFields negative (by omega) (by omega)

theorem assemble_eq_infinity (hm : 2 ^ 52 ≤ m)
    (hhigh : 971 < exponent ∨ exponent = 971 ∧ m = 2 ^ 53) :
    assemble negative m exponent = infinity negative := by
  unfold assemble
  by_cases htop : m = 2 ^ 53
  · rw [if_pos htop]
    have hsmall : ¬ (2 ^ 52 : Nat) < 2 ^ 52 := lt_irrefl _
    have hexponent : 971 < exponent + 1 := by omega
    simp only [hsmall, hexponent, if_false, if_true]
  · rw [if_neg htop]
    have hsmall : ¬ m < 2 ^ 52 := by omega
    have hexponent : 971 < exponent := by omega
    simp only [hsmall, hexponent, if_false, if_true]

end Assemble

section Ratio

variable {num den : Nat}

private theorem scaleDown_pos (hden : 0 < den) (shift : Int) :
    0 < (scaleDown num den shift).2 := by
  unfold scaleDown
  split
  · exact Nat.mul_pos hden (Nat.two_pow_pos _)
  · exact hden

private theorem scaleDown_ratio (hden : 0 < den) (shift : Int) :
    ((scaleDown num den shift).1 : ℚ)
      = num / den * 2 ^ (-shift) * (scaleDown num den shift).2 := by
  have hd : (den : ℚ) ≠ 0 := by exact_mod_cast hden.ne'
  unfold scaleDown
  split
  · next h =>
    obtain ⟨k, rfl⟩ := Int.eq_ofNat_of_zero_le h
    have hpow : (2 : ℚ) ^ k ≠ 0 := by positivity
    simp only [Int.toNat_natCast, zpow_neg, zpow_natCast]
    push_cast
    field_simp
  · next h =>
    obtain ⟨k, hk⟩ := Int.eq_ofNat_of_zero_le (show 0 ≤ -shift by omega)
    rw [hk]
    simp only [Int.toNat_natCast, zpow_natCast]
    push_cast
    field_simp

private theorem scaleDown_lt_iff (hden : 0 < den) (shift : Int) (bits : Nat) :
    (scaleDown num den shift).1 < 2 ^ bits * (scaleDown num den shift).2
      ↔ (num : ℚ) / den < 2 ^ (shift + bits) := by
  have hpos : (0 : ℚ) < (scaleDown num den shift).2 := by exact_mod_cast scaleDown_pos hden shift
  have hpow : (0 : ℚ) < 2 ^ shift := by positivity
  rw [← Nat.cast_lt (α := ℚ), scaleDown_ratio hden]
  push_cast
  rw [mul_lt_mul_iff_left₀ hpos, zpow_neg, mul_inv_lt_iff₀ hpow, zpow_add₀ (by norm_num),
    zpow_natCast, mul_comm]

/-- The ratio is known up to a factor of four from the lengths of both numbers. -/
private theorem ratio_bounds (hnum : 0 < num) (hden : 0 < den) :
    (2 : ℚ) ^ ((Nat.log2 num : Int) - Nat.log2 den - 1) ≤ (num : ℚ) / den
      ∧ (num : ℚ) / den < 2 ^ ((Nat.log2 num : Int) - Nat.log2 den + 1) := by
  have hd : (0 : ℚ) < den := by exact_mod_cast hden
  have hnumLow : (2 : ℚ) ^ (Nat.log2 num : Int) ≤ num := by
    rw [zpow_natCast]
    exact_mod_cast Nat.log2_self_le hnum.ne'
  have hnumHigh : (num : ℚ) < 2 ^ ((Nat.log2 num : Int) + 1) := by
    have h : num < 2 ^ (Nat.log2 num + 1) := Nat.lt_log2_self
    rw [← Nat.cast_succ, zpow_natCast]
    exact_mod_cast h
  have hdenLow : (2 : ℚ) ^ (Nat.log2 den : Int) ≤ den := by
    rw [zpow_natCast]
    exact_mod_cast Nat.log2_self_le hden.ne'
  have hdenHigh : (den : ℚ) < 2 ^ ((Nat.log2 den : Int) + 1) := by
    have h : den < 2 ^ (Nat.log2 den + 1) := Nat.lt_log2_self
    rw [← Nat.cast_succ, zpow_natCast]
    exact_mod_cast h
  constructor
  · rw [le_div_iff₀ hd]
    calc (2 : ℚ) ^ ((Nat.log2 num : Int) - Nat.log2 den - 1) * den
        ≤ 2 ^ ((Nat.log2 num : Int) - Nat.log2 den - 1) * 2 ^ ((Nat.log2 den : Int) + 1) := by
          gcongr
      _ = 2 ^ (Nat.log2 num : Int) := by
          rw [← zpow_add₀ (by norm_num)]
          congr 1
          ring
      _ ≤ num := hnumLow
  · rw [div_lt_iff₀ hd]
    calc (num : ℚ) < 2 ^ ((Nat.log2 num : Int) + 1) := hnumHigh
      _ = 2 ^ ((Nat.log2 num : Int) - Nat.log2 den + 1) * 2 ^ (Nat.log2 den : Int) := by
          rw [← zpow_add₀ (by norm_num)]
          congr 1
          ring
      _ ≤ 2 ^ ((Nat.log2 num : Int) - Nat.log2 den + 1) * den := by gcongr

theorem tightExponent_bounds (hnum : 0 < num) (hden : 0 < den) :
    (2 : ℚ) ^ (tightExponent num den + 52) ≤ (num : ℚ) / den
      ∧ (num : ℚ) / den < 2 ^ (tightExponent num den + 53) := by
  obtain ⟨hlow, hhigh⟩ := ratio_bounds hnum hden
  unfold tightExponent
  generalize (Nat.log2 num : Int) - Nat.log2 den = length at *
  have hmiddle : length - 53 + 1 + (52 : Nat) = length := by omega
  rcases hscaled : scaleDown num den (length - 53 + 1) with ⟨n, d⟩
  have hlt : n < d * 2 ^ 52 ↔ (num : ℚ) / den < 2 ^ length := by
    rw [mul_comm, ← hmiddle, ← scaleDown_lt_iff hden, hscaled]
  simp only [hscaled]
  split_ifs with h
  · have hstart : length - 53 + 52 = length - 1 := by omega
    have hend : length - 53 + 53 = length := by omega
    rw [hstart, hend]
    exact ⟨hlow, hlt.mp h⟩
  · have hstart : length - 53 + 1 + 52 = length := by omega
    have hend : length - 53 + 1 + 53 = length + 1 := by omega
    rw [hstart, hend]
    exact ⟨le_of_not_gt fun hq => h (hlt.mpr hq), hhigh⟩

/-- The middle below the power of two in question, at the exponent where numbers end. -/
private theorem reaches_top_iff (hden : 0 < den) :
    2 ^ 53 ≤ roundDiv (scaleDown num den 971).1 (scaleDown num den 971).2
      ↔ overflow ≤ (num : ℚ) / den := by
  have hd : 0 < (scaleDown num den 971).2 := scaleDown_pos hden 971
  have hratio : ((scaleDown num den 971).1 : ℚ)
      = num / den * 2 ^ (-971 : Int) * (scaleDown num den 971).2 := scaleDown_ratio hden 971
  generalize (scaleDown num den 971).1 = n at hratio ⊢
  generalize (scaleDown num den 971).2 = d at hd hratio ⊢
  have hpos : (0 : ℚ) < d := by exact_mod_cast hd
  rw [le_roundDiv_iff hd (by norm_num), ← Nat.cast_le (α := ℚ)]
  simp only [Nat.cast_mul, Nat.cast_add, Nat.cast_pow, Nat.cast_ofNat]
  have hunit : (2 : ℚ) ^ (-971 : Int) = (2 * 2 ^ 970)⁻¹ := by rw [← pow_succ', zpow_neg]; rfl
  rw [hratio, hunit, overflow_eq]
  generalize hp : (2 : ℚ) ^ 970 = p
  have hp0 : 0 < p := hp ▸ by positivity
  generalize (num : ℚ) / den = q
  have hhalf : 2 * (q * (2 * p)⁻¹) = q * p⁻¹ := by field_simp
  calc 2 * (2 ^ 53 * (d : ℚ)) ≤ 2 * (q * (2 * p)⁻¹ * d) + d
      ↔ (2 ^ 54 - 1) * (d : ℚ) ≤ 2 * (q * (2 * p)⁻¹) * d := by
        constructor <;> intro h <;> linarith
    _ ↔ 2 ^ 54 - 1 ≤ q * p⁻¹ := by rw [mul_le_mul_iff_left₀ hpos, hhalf]
    _ ↔ (2 ^ 54 - 1) * p ≤ q := by rw [le_mul_inv_iff₀ hp0]

private theorem ofRatio_eq (negative : Bool) (hnum : 0 < num) (hden : 0 < den) {exponent : Int}
    (h : max (tightExponent num den) (-1074) = exponent) :
    ofRatio negative num den = assemble negative
      (roundDiv (scaleDown num den exponent).1 (scaleDown num den exponent).2) exponent := by
  have hpos : ¬ (decide (num = 0) || decide (den = 0)) = true := by simp [hnum.ne', hden.ne']
  rw [ofRatio, if_neg hpos, h]

theorem ofRatio_overflow (negative : Bool) (hnum : 0 < num) (hden : 0 < den) :
    ((num : ℚ) / den < overflow → (ofRatio negative num den).isFinite = true)
      ∧ (overflow ≤ (num : ℚ) / den → ofRatio negative num den = infinity negative) := by
  obtain ⟨hlow, hhigh⟩ := tightExponent_bounds hnum hden
  obtain ⟨exponent, hexponent⟩ : ∃ e, max (tightExponent num den) (-1074) = e := ⟨_, rfl⟩
  have hleast : -1074 ≤ exponent := hexponent ▸ le_max_right _ _
  have hd : 0 < (scaleDown num den exponent).2 := scaleDown_pos hden exponent
  have hbelow : (num : ℚ) / den < 2 ^ (exponent + 53) := hhigh.trans_le
    (zpow_le_zpow_right₀ (by norm_num) (by omega))
  have hmost : roundDiv (scaleDown num den exponent).1 (scaleDown num den exponent).2 ≤ 2 ^ 53 :=
    roundDiv_le ((scaleDown_lt_iff hden exponent 53).mpr hbelow) hd
  have hfull : tightExponent num den = exponent →
      2 ^ 52 ≤ roundDiv (scaleDown num den exponent).1 (scaleDown num den exponent).2 := by
    rintro rfl
    apply le_roundDiv _ hd
    exact le_of_not_gt fun hlt => hlow.not_gt ((scaleDown_lt_iff hden _ 52).mp hlt)
  rw [ofRatio_eq negative hnum hden hexponent]
  -- below the last binade every ratio is finite, above it none is; in it the middle decides
  rcases lt_trichotomy exponent 971 with hlt | rfl | hgt
  · have hfinite : (num : ℚ) / den < overflow := by
      calc (num : ℚ) / den < 2 ^ (exponent + 53) := hbelow
        _ ≤ 2 ^ (1023 : Int) := zpow_le_zpow_right₀ (by norm_num) (by omega)
        _ ≤ overflow := le_overflow
    exact ⟨fun _ => isFinite_assemble negative hmost hleast (Or.inl hlt),
      fun h => absurd h hfinite.not_ge⟩
  · have htight : tightExponent num den = 971 := by omega
    constructor
    · intro h
      have hless := lt_of_not_ge fun hge => h.not_ge ((reaches_top_iff hden).mp hge)
      exact isFinite_assemble negative hmost hleast (Or.inr ⟨rfl, hless⟩)
    · intro h
      have hreached := le_antisymm hmost ((reaches_top_iff hden).mpr h)
      exact assemble_eq_infinity negative (hfull htight) (Or.inr ⟨rfl, hreached⟩)
  · have htight : tightExponent num den = exponent := by omega
    have hinfinite : overflow ≤ (num : ℚ) / den := by
      calc overflow ≤ 2 ^ (1024 : Int) := overflow_le
        _ ≤ 2 ^ (tightExponent num den + 52) := zpow_le_zpow_right₀ (by norm_num) (by omega)
        _ ≤ (num : ℚ) / den := hlow
    exact ⟨fun h => absurd hinfinite h.not_ge,
      fun _ => assemble_eq_infinity negative (hfull htight) (Or.inl hgt)⟩

end Ratio

theorem overflow_le_of_leading {digits : Nat} {exponent : Int} (hdigits : 0 < digits)
    (h : 400 < exponent + Decimal.digitCount digits) : overflow ≤ (digits : ℚ) * 10 ^ exponent := by
  have hlength : 0 < Decimal.digitCount digits := Nat.length_toDigits_pos
  have hlow : ((10 : ℚ) ^ ((Decimal.digitCount digits : Int) - 1)) ≤ digits := by
    rw [← Nat.cast_pred hlength, zpow_natCast]
    exact_mod_cast Decimal.pow_pred_digitCount_le hdigits
  calc overflow ≤ 2 ^ 1024 := overflow_le
    _ ≤ (2 ^ 3) ^ 400 := by
      rw [← pow_mul]
      exact pow_le_pow_right₀ (by norm_num) (by norm_num)
    _ ≤ 10 ^ (400 : Int) := pow_le_pow_left₀ (by norm_num) (by norm_num) 400
    _ ≤ 10 ^ ((Decimal.digitCount digits : Int) - 1 + exponent) :=
      zpow_le_zpow_right₀ (by norm_num) (by omega)
    _ ≤ digits * 10 ^ exponent := by
      rw [zpow_add₀ (by norm_num)]
      exact mul_le_mul_of_nonneg_right hlow (by positivity)

private theorem lt_overflow_of_leading {digits : Nat} {exponent : Int}
    (h : exponent + Decimal.digitCount digits < -400) :
    (digits : ℚ) * 10 ^ exponent < overflow := by
  have hhigh : (digits : ℚ) < 10 ^ (Decimal.digitCount digits : Int) := by
    rw [zpow_natCast]
    exact_mod_cast Decimal.lt_pow_digitCount digits
  calc (digits : ℚ) * 10 ^ exponent
      < 10 ^ (Decimal.digitCount digits : Int) * 10 ^ exponent :=
        mul_lt_mul_of_pos_right hhigh (by positivity)
    _ = 10 ^ (exponent + Decimal.digitCount digits) := by
        rw [zpow_add₀ (by norm_num), mul_comm]
    _ ≤ 10 ^ (0 : Int) := zpow_le_zpow_right₀ (by norm_num) (by omega)
    _ ≤ 2 ^ 1023 := one_le_pow₀ (by norm_num)
    _ ≤ overflow := le_overflow

/-- What a text says is rounded to a finite number exactly when it stays below that middle. -/
theorem ofDecimalDigits_overflow (negative : Bool) (digits : Nat) (exponent : Int) :
    ((digits : ℚ) * 10 ^ exponent < overflow →
        (ofDecimalDigits negative digits exponent).isFinite = true)
      ∧ (overflow ≤ (digits : ℚ) * 10 ^ exponent →
        ofDecimalDigits negative digits exponent = infinity negative) := by
  have hzero : (zero negative).isFinite = true := isFinite_ofFields negative (by decide) (by decide)
  have hpos : 0 < overflow := (by positivity : (0 : ℚ) < 2 ^ 1023).trans_le le_overflow
  rw [ofDecimalDigits]
  -- no digits, a leading digit far from the range on either side, or a ratio to be rounded
  split_ifs with hdigits hfar hnear hscale
  · rw [hdigits, Nat.cast_zero, zero_mul]
    exact ⟨fun _ => hzero, fun h => absurd h hpos.not_ge⟩
  · have hover := overflow_le_of_leading (Nat.pos_of_ne_zero hdigits) hfar
    exact ⟨fun h => absurd hover h.not_ge, fun _ => rfl⟩
  · have hunder := lt_overflow_of_leading hnear
    exact ⟨fun _ => hzero, fun h => absurd h hunder.not_ge⟩
  · have hratio : ((digits * 10 ^ exponent.toNat : Nat) : ℚ) / (1 : Nat) = digits * 10 ^ exponent := by
      obtain ⟨k, rfl⟩ := Int.eq_ofNat_of_zero_le hscale
      simp
    have hnum : 0 < digits * 10 ^ exponent.toNat := by positivity
    rw [← hratio]
    exact ofRatio_overflow negative hnum one_pos
  · have hratio : (digits : ℚ) / ((10 ^ (-exponent).toNat : Nat) : ℚ) = digits * 10 ^ exponent := by
      obtain ⟨k, hk⟩ := Int.eq_ofNat_of_zero_le (show 0 ≤ -exponent by omega)
      rw [hk, show exponent = -(k : Int) by omega, zpow_neg]
      simp [div_eq_mul_inv]
    rw [← hratio]
    exact ofRatio_overflow negative (Nat.pos_of_ne_zero hdigits) (by positivity)

end DecisionService.Binary64
