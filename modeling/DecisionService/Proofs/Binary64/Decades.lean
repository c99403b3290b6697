import Mathlib
import DecisionService.Proofs.Binary64.Exact
import DecisionService.Proofs.Decimal.Limits
/-!
# Binary numbers below powers of ten

No finite binary number is so little less than a power of ten that it is rounded up to it at 34
digits. Brought to integers, a binary number is a multiple of a power of two and the power of ten is
not, or the other way round; the remainder tells how near the two can come. It is computed for every
power of ten that the exponents of binary64 reach.
-/
namespace DecisionService.Binary64

open Decimal

/-- Below a number, a number of at least half its size stays away by more than half a unit of the
last digit that decimal128 has. -/
def Apart (a v : Nat) : Prop :=
  a < v → v ≤ 2 * a → v < 2 * 10 ^ decimal128Digits * (v - a)

private theorem remainder_le {u a v : Nat} (hu : u ∣ a) (h : a < v) :
    (v - 1) % u + 1 ≤ v - a := by
  obtain ⟨c, rfl⟩ := hu
  have hmod : (v - 1 - u * c) % u = (v - 1) % u := Nat.sub_mul_mod (by omega)
  have hle := Nat.mod_le (v - 1 - u * c) u
  omega

private theorem apart_of_remainder {u a v : Nat} (hu : u ∣ a)
    (h : v < 2 * 10 ^ decimal128Digits * ((v - 1) % u + 1)) : Apart a v := fun hlt _ =>
  h.trans_le (Nat.mul_le_mul_left _ (remainder_le hu hlt))

private theorem lt_of_pow_lt {k n : Nat} (h : 10 ^ k < 2 ^ n) : 3 * k < n := by
  have hpow : 2 ^ (3 * k) < 2 ^ n := by
    calc 2 ^ (3 * k) = 8 ^ k := pow_mul 2 3 k
      _ ≤ 10 ^ k := Nat.pow_le_pow_left (by norm_num) k
      _ < 2 ^ n := h
  exact (Nat.pow_lt_pow_iff_right (by norm_num)).mp hpow

private def reach (k : Nat) : Nat :=
  3321 * k / 1000

private theorem reach_bounds : ∀ k < 360, 2 ^ reach k ≤ 10 ^ k ∧ 10 ^ k < 2 ^ (reach k + 2) := by
  decide +kernel

private theorem remainder_whole : ∀ k < 360, 10 ^ k
    < 2 * 10 ^ decimal128Digits * ((10 ^ k - 1) % 2 ^ (reach k - 54) + 1) := by
  decide +kernel

private theorem remainder_fraction : ∀ k < 360, 2 ^ (reach k + 55)
    < 2 * 10 ^ decimal128Digits * ((2 ^ (reach k + 55) - 1) % 10 ^ k + 1) := by
  decide +kernel

section Significand

variable {m : Nat} (hm : m < 2 ^ 53)
include hm

/-- A significand times a power of two stays away from a power of ten. The power of two has all but
54 of the binary places that the power of ten reaches, or more. -/
private theorem apart_whole {e : Nat} (he : e ≤ 971) (k : Nat) : Apart (m * 2 ^ e) (10 ^ k) := by
  intro hlt hhalf
  have hten : 10 ^ k < 2 ^ (54 + e) := by
    calc 10 ^ k ≤ 2 * m * 2 ^ e := by rwa [mul_assoc]
      _ < 2 ^ 54 * 2 ^ e := Nat.mul_lt_mul_of_pos_right (by omega) (by positivity)
      _ = 2 ^ (54 + e) := (pow_add 2 54 e).symm
  have hk : k < 360 := by
    have hthree := lt_of_pow_lt hten
    omega
  have hreach : reach k < 54 + e :=
    (Nat.pow_lt_pow_iff_right (by norm_num)).mp ((reach_bounds k hk).1.trans_lt hten)
  have hdvd : 2 ^ (reach k - 54) ∣ m * 2 ^ e :=
    Dvd.dvd.mul_left (pow_dvd_pow 2 (by omega)) m
  exact apart_of_remainder hdvd (remainder_whole k hk) hlt hhalf

private theorem apart_fraction {e : Nat} (he : e ≤ 1074) (k : Nat) :
    Apart (m * 10 ^ k) (2 ^ e) := by
  intro hlt hhalf
  have hpos : 0 < m * 10 ^ k := by
    have htwo : 0 < 2 ^ e := by positivity
    omega
  have hk : k < 360 := by
    have hten := Nat.le_mul_of_pos_left (10 ^ k) (Nat.pos_of_mul_pos_right hpos)
    have hthree := lt_of_pow_lt (hten.trans_lt hlt)
    omega
  have hreach : e < 54 + (reach k + 2) := by
    apply (Nat.pow_lt_pow_iff_right (a := 2) (by norm_num)).mp
    calc 2 ^ e ≤ 2 * m * 10 ^ k := by rwa [mul_assoc]
      _ ≤ 2 ^ 54 * 10 ^ k := Nat.mul_le_mul_right _ (by omega)
      _ < 2 ^ 54 * 2 ^ (reach k + 2) :=
        Nat.mul_lt_mul_of_pos_left (reach_bounds k hk).2 (by positivity)
      _ = 2 ^ (54 + (reach k + 2)) := (pow_add 2 54 _).symm
  -- both sides are brought to the largest power of two, which is the one that was checked
  obtain ⟨g, hg⟩ := Nat.exists_eq_add_of_le (show e ≤ reach k + 55 by omega)
  have hscaled : 2 ^ (reach k + 55) = 2 ^ g * 2 ^ e := by
    rw [hg, pow_add, mul_comm]
  have hapart : Apart (2 ^ g * (m * 10 ^ k)) (2 ^ (reach k + 55)) :=
    apart_of_remainder (Dvd.dvd.mul_left (Nat.dvd_mul_left _ m) _)
      (remainder_fraction k hk)
  rw [hscaled] at hapart
  have hfar := hapart (Nat.mul_lt_mul_of_pos_left hlt (by positivity))
    (by rw [mul_left_comm]; exact Nat.mul_le_mul_left _ hhalf)
  rw [← Nat.mul_sub, mul_left_comm] at hfar
  exact Nat.lt_of_mul_lt_mul_left hfar

private theorem apart_steps (v : Nat) : Apart m v := by
  intro hlt hhalf
  have hlarge : 2 ^ 54 < 2 * 10 ^ decimal128Digits := by decide
  calc v < 2 * 10 ^ decimal128Digits * 1 := by omega
    _ ≤ 2 * 10 ^ decimal128Digits * (v - m) := Nat.mul_le_mul_left _ (by omega)

end Significand

/-- A number and a power of ten whose numerators over one denominator stay apart do not carry. -/
private theorem Apart.false {q : ℚ} {k : ℤ} {a v c : Nat} (h : Apart a v) (hc : 0 < c)
    (ha : q * c = a) (hv : (10 : ℚ) ^ k * c = v) (hlt : q < 10 ^ k)
    (hle : (10 : ℚ) ^ k ≤ q + 10 ^ (k - decimal128Digits) / 2) : False := by
  have hc' : (0 : ℚ) < c := by exact_mod_cast hc
  have hunit : (10 : ℚ) ^ k = 10 ^ decimal128Digits * 10 ^ (k - decimal128Digits) := by
    rw [← zpow_natCast, ← zpow_add₀ (by norm_num)]
    congr 1
    ring
  have hbelow : a < v := by
    have hmul := mul_lt_mul_of_pos_right hlt hc'
    rw [ha, hv] at hmul
    exact_mod_cast hmul
  have hhalf : v ≤ 2 * a := by
    have hmul := mul_le_mul_of_nonneg_right (Carries.half_le hle) hc'.le
    rw [hv, mul_assoc, ha] at hmul
    exact_mod_cast hmul
  have hnear : 2 * 10 ^ decimal128Digits * ((v : ℚ) - a) ≤ v := by
    rw [← ha, ← hv, ← sub_mul]
    have hpos : (0 : ℚ) < 10 ^ decimal128Digits := by positivity
    have hgap : (10 : ℚ) ^ k - q ≤ 10 ^ (k - decimal128Digits) / 2 := by linarith
    calc 2 * 10 ^ decimal128Digits * (((10 : ℚ) ^ k - q) * c)
        ≤ 2 * 10 ^ decimal128Digits * (10 ^ (k - decimal128Digits) / 2 * c) :=
          mul_le_mul_of_nonneg_left (mul_le_mul_of_nonneg_right hgap hc'.le) (by positivity)
      _ = 10 ^ k * c := by
          rw [hunit]
          ring
  have hfar : (v : ℚ) < 2 * 10 ^ decimal128Digits * ((v : ℚ) - a) := by
    rw [← Nat.cast_sub hbelow.le]
    exact_mod_cast h hbelow hhalf
  exact absurd hnear hfar.not_ge

/-- No finite binary number carries at the digits of decimal128. -/
theorem not_carries {x : Binary64} (h : x.isFinite = true) :
    ¬ Carries decimal128Digits x.toRat := by
  intro hcarries
  have hm := significand_lt x
  obtain ⟨hlow, hhigh⟩ := exponent_bounds h
  have hrat : x.toRat = x.significand * 2 ^ x.exponent := by
    rw [← abs_toRat, abs_of_pos hcarries.pos]
  obtain ⟨k, hlt, hle⟩ := hcarries
  -- the signs of both exponents decide the common denominator
  obtain ⟨e, he | he⟩ := x.exponent.eq_nat_or_neg <;> obtain ⟨j, rfl | rfl⟩ := k.eq_nat_or_neg <;>
    rw [he] at hrat
  · have hmost : e ≤ 971 := by omega
    refine (apart_whole hm hmost j).false one_pos ?_ ?_ hlt hle
    · rw [hrat]
      push_cast
      rw [mul_one, zpow_natCast]
    · push_cast
      rw [mul_one, zpow_natCast]
  · have hone : Apart (x.significand * 2 ^ e * 10 ^ j) 1 := fun _ _ => by omega
    refine hone.false (c := 10 ^ j) (by positivity) ?_ ?_ hlt hle
    · rw [hrat]
      push_cast
      rw [zpow_natCast]
    · push_cast
      rw [zpow_neg, zpow_natCast, inv_mul_cancel₀ (by positivity)]
  · refine (apart_steps hm (10 ^ j * 2 ^ e)).false (c := 2 ^ e) (by positivity) ?_ ?_ hlt hle
    · rw [hrat]
      push_cast
      rw [zpow_neg, zpow_natCast, mul_assoc, inv_mul_cancel₀ (by positivity), mul_one]
    · push_cast
      rw [zpow_natCast]
  · have hmost : e ≤ 1074 := by omega
    refine (apart_fraction hm hmost j).false (c := 2 ^ e * 10 ^ j) (by positivity) ?_ ?_ hlt hle
    · rw [hrat]
      push_cast
      rw [zpow_neg, zpow_natCast, mul_assoc, inv_mul_cancel_left₀ (by positivity)]
    · push_cast
      rw [zpow_neg, zpow_natCast, mul_left_comm, inv_mul_cancel₀ (by positivity), mul_one]

end DecisionService.Binary64
