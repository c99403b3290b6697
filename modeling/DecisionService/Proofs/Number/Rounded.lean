import Mathlib
import DecisionService.Proofs.Decimal.Limits
import DecisionService.Proofs.Number.Worth
/-!
# Numbers at the precision of decimal128

Texts and binary numbers are cut to the digits of decimal128 when they become decimals. The result
depends on what the number stands for and on nothing else, and it keeps the order. Above zero it is
the nearest number with that many digits; below zero it is the next one towards zero.
-/
namespace DecisionService

open Decimal

namespace Number

def IsCut : Number → Prop
  | .float _ | .text _ => True
  | _ => False

/-- The decimal of a number that is cut is what the number stands for, cut to 34 digits. -/
theorem toRat_toDecimal {n : Number} (hn : n.IsCut) {q : ℚ} (hq : n.Worth q) {r : Decimal}
    (hr : n.toDecimal = .ok r) : r.toRat = rounded decimal128Digits q := by
  cases hq with
  | float hx =>
    obtain ⟨d, -, hd, hrat, -⟩ := Binary64.exists_toDecimal128 hx
    rw [toDecimal, hd] at hr
    rw [toRat_roundTo (limited_eq_ok_iff.mp hr) (by decide), hrat]
  | text ht =>
    obtain ⟨hfits, hr⟩ := (toDecimal_text_iff ht).mp hr
    rw [toRat_roundTo hr (by decide), Numeral.toRat_decimal hfits]
  | int | uint | big | decimal => exact hn.elim

/-- Every finite binary number has a decimal. The decimal of a binary number or a text is the number
itself when 34 digits are enough for it. Otherwise it is the nearest number with so many digits, but
below zero what lies behind the last digit is dropped: it is the nearest one, and opposite to the
decimal of the opposite number, only if that is less than half of the last unit. -/
theorem toDecimal_cut {n : Number} (hn : n.IsCut) {q : ℚ} (hq : n.Worth q) :
    (∀ x, n = .float x → ∃ r, n.toDecimal = .ok r)
    ∧ ∀ r, n.toDecimal = .ok r →
      (Short decimal128Digits q → r.toRat = q)
      ∧ (0 ≤ q → |r.toRat - q| ≤ lastUnit decimal128Digits q / 2)
      ∧ (q < 0 → r.toRat = q + cutOff decimal128Digits q * lastUnit decimal128Digits q
        ∧ (|r.toRat - q| ≤ lastUnit decimal128Digits q / 2 ↔ cutOff decimal128Digits q ≤ 1 / 2)
        ∧ ∀ (m : Number) (e : Decimal), m.IsCut → m.Worth (-q) → m.toDecimal = .ok e →
          (e.toRat = -r.toRat ↔ cutOff decimal128Digits q < 1 / 2)) := by
  refine ⟨?_, fun r hr => ?_⟩
  · rintro x rfl
    cases hq with
    | float hx =>
      obtain ⟨d, r, hd, -, hr⟩ := Binary64.exists_toDecimal128 hx
      refine ⟨r, ?_⟩
      rw [toDecimal, hd]
      exact limited_eq_ok_iff.mpr hr
  rw [toRat_toDecimal hn hq hr]
  refine ⟨rounded_of_short, abs_rounded_sub_le, fun hneg => ⟨rounded_of_neg hneg, ?_, ?_⟩⟩
  · have hunit := lastUnit_pos decimal128Digits q
    have hcutOff : 0 ≤ cutOff decimal128Digits q := Int.fract_nonneg _
    rw [rounded_of_neg hneg, add_sub_cancel_left, abs_of_nonneg (mul_nonneg hcutOff hunit.le),
      div_eq_mul_one_div, mul_comm (lastUnit decimal128Digits q), mul_le_mul_iff_of_pos_right hunit]
  · intro m e hm hworth he
    rw [toRat_toDecimal hm hworth he]
    exact rounded_neg_iff hneg

def tenth : Binary64 :=
  ⟨0x3FB999999999999A⟩

theorem toRat_tenth : tenth.toRat = 7205759403792794 / 2 ^ 56 := by
  have hsignificand : tenth.significand = 7205759403792794 := by decide
  have hexponent : tenth.exponent = -56 := by decide
  have hsign : tenth.isNegative = false := by decide
  rw [Binary64.toRat, hsignificand, hexponent, hsign]
  norm_num

theorem cutOff_tenth : cutOff decimal128Digits (-tenth.toRat) < 1 / 2 := by
  have hlog : Int.log 10 |-tenth.toRat| = -1 := by
    rw [toRat_tenth]
    apply log_eq <;> norm_num
  have hfloor : ⌊|-tenth.toRat| / 10 ^ (-34 : ℤ)⌋ = 1000000000000000055511151231257827 := by
    rw [toRat_tenth, Int.floor_eq_iff]
    norm_num
  have hplace : lastPlace decimal128Digits (-tenth.toRat) = -34 := by
    rw [lastPlace, hlog]
    rfl
  rw [cutOff, lastUnit, hplace, Int.fract, hfloor, toRat_tenth]
  norm_num

theorem toDecimal_cut_tenth : ∃ r e, (Number.float tenth.neg).toDecimal = .ok r
    ∧ (Number.float tenth).toDecimal = .ok e
    ∧ |r.toRat - -tenth.toRat| ≤ lastUnit decimal128Digits (-tenth.toRat) / 2
    ∧ e.toRat = -r.toRat := by
  have hfinite : tenth.isFinite = true := by decide
  have hneg : (-tenth.toRat) < 0 := by
    rw [toRat_tenth]
    norm_num
  have hworth : (Number.float tenth.neg).Worth (-tenth.toRat) := .neg hfinite
  have hopposite : (Number.float tenth).Worth (- -tenth.toRat) := by
    rw [neg_neg]
    exact .float hfinite
  obtain ⟨hsome, hcut⟩ := toDecimal_cut (n := .float tenth.neg) trivial hworth
  obtain ⟨r, hr⟩ := hsome _ rfl
  obtain ⟨e, he⟩ := (toDecimal_cut (n := .float tenth) trivial hopposite).1 _ rfl
  obtain ⟨-, hnearest, hsame⟩ := (hcut r hr).2.2 hneg
  exact ⟨r, e, hr, he, hnearest.mpr cutOff_tenth.le,
    (hsame (.float tenth) e trivial hopposite he).mpr cutOff_tenth⟩

def longDigits : List Char :=
  (List.replicate 3 ['1', '2', '3', '4', '5', '6', '7', '8', '9', '0']).flatten
    ++ ['1', '2', '3', '4', '5', '6', '7', '8', '9']

theorem longDigits_digits : longDigits ≠ [] ∧ ∀ c ∈ longDigits, c.isDigit = true :=
  ⟨by decide, List.all_eq_true.mp (by decide)⟩

def longSample (s : Integer.Sign) : Numeral where
  sign := s
  digits := longDigits
  point := some (s.text.length + 1)
  exponent := none
  grouped := Integer.grouped_of_digits longDigits_digits.1 longDigits_digits.2
  point_le k hk := by
    cases hk
    cases s <;> decide
  exponent_digits := Numeral.no_exponent_digits

theorem spells_longSample :
    (longSample .minus).Spells "-1.23456789012345678901234567890123456789".toList
    ∧ (longSample .absent).Spells "1.23456789012345678901234567890123456789".toList :=
  ⟨⟨[], .none, rfl⟩, ⟨[], .none, rfl⟩⟩

/-- The last digit of a negative text is not the nearest one, and it is not that of the opposite
text. -/
theorem toDecimal_negative_off : ∃ q r e,
    (Number.text "-1.23456789012345678901234567890123456789").Worth q
    ∧ (Number.text "-1.23456789012345678901234567890123456789").toDecimal = .ok r
    ∧ (Number.text "1.23456789012345678901234567890123456789").toDecimal = .ok e
    ∧ lastUnit decimal128Digits q / 2 < |r.toRat - q| ∧ e.toRat ≠ -r.toRat := by
  have hfits : (longSample .minus).Fits ∧ (longSample .absent).Fits := by decide
  have hdecimal : (longSample .minus).decimal = ⟨-123456789012345678901234567890123456789, 38⟩ := by
    decide
  have hworth : (longSample .minus).worth
      = (⟨-123456789012345678901234567890123456789, 38⟩ : Decimal).toRat := by
    rw [← hdecimal, Numeral.toRat_decimal hfits.1]
  have hunit : lastUnit decimal128Digits
      (⟨-123456789012345678901234567890123456789, 38⟩ : Decimal).toRat = 10 ^ (-33 : ℤ) := by
    rw [lastUnit, lastPlace_toRat (by decide)]
    rfl
  refine ⟨_, ⟨-1234567890123456789012345678901234, 33⟩, ⟨1234567890123456789012345678901235, 33⟩,
    .text spells_longSample.1, ?_, ?_, ?_, ?_⟩
  · rw [toDecimal_text_iff spells_longSample.1]
    exact ⟨hfits.1, by decide⟩
  · rw [toDecimal_text_iff spells_longSample.2]
    exact ⟨hfits.2, by decide⟩
  · have hscale : (33 : Int64).toInt = 33 ∧ (38 : Int64).toInt = 38 := by decide
    rw [hworth, hunit, lt_abs, toRat, toRat, hscale.1, hscale.2]
    left
    norm_num
  · have hscale : (10 : ℚ) ^ (-(33 : Int64).toInt) ≠ 0 := zpow_ne_zero _ (by norm_num)
    rw [toRat, toRat, ← neg_mul, ne_eq, mul_left_inj' hscale]
    norm_num

end Number

/-- Rounding to the digits of decimal128 has a result exactly when the scale fits. It keeps values and
their order, and so the decimals of two texts or binary numbers are in order when these are. What is
rounded already stays the same value; the power of ten with one digit more is the only such decimal
that may have no result, at the very end of the scales. -/
theorem toDecimal128_ordered :
    (∀ x : Decimal, (∃ r, x.toDecimal128 = some r) ↔ x.ScaleFits decimal128Digits)
    ∧ (∀ x y r : Decimal, x.same y = true → x.toDecimal128 = some r →
      ∃ s, y.toDecimal128 = some s ∧ r.same s = true)
    ∧ (∀ x y r s : Decimal, x.toRat ≤ y.toRat → x.toDecimal128 = some r →
      y.toDecimal128 = some s → r.toRat ≤ s.toRat)
    ∧ (∀ x r : Decimal, x.toDecimal128 = some r →
      (∀ s, r.toDecimal128 = some s → s.same r = true)
      ∧ (r.toDecimal128 = none ↔ r = ⟨10 ^ decimal128Digits, Int64.minValue⟩))
    ∧ ∀ n m : Number, n.IsCut → m.IsCut → ∀ p q : ℚ, n.Worth p → m.Worth q →
      ∀ d e : Decimal, n.toDecimal = .ok d → m.toDecimal = .ok e → p ≤ q → d.toRat ≤ e.toRat := by
  have hlimit : 0 < decimal128Digits := by decide
  have hrat : ∀ {x r : Decimal}, x.toDecimal128 = some r →
      r.toRat = rounded decimal128Digits x.toRat := fun hr => toRat_roundTo hr hlimit
  refine ⟨fun x => exists_roundTo_iff, fun x y r h hr => ?_, fun x y r s h hr hs => ?_,
    fun x r hr => ⟨fun s hs => ?_, roundTo_roundTo_eq_none_iff hr hlimit⟩,
    fun n m hn hm p q hp hq d e hd he h => ?_⟩
  · rw [same_iff] at h
    have hfits : y.ScaleFits decimal128Digits := by
      rw [scaleFits_iff hlimit, ← h, ← scaleFits_iff hlimit]
      exact exists_roundTo_iff.mp ⟨r, hr⟩
    obtain ⟨s, hs⟩ := exists_roundTo_iff.mpr hfits
    refine ⟨s, hs, ?_⟩
    rw [same_iff, hrat hr, hrat hs, h]
  · rw [hrat hr, hrat hs]
    exact rounded_mono hlimit h
  · rw [same_iff, hrat hs, hrat hr]
    exact rounded_of_short (short_rounded hlimit _)
  · rw [Number.toRat_toDecimal hn hp hd, Number.toRat_toDecimal hm hq he]
    exact rounded_mono hlimit h

open Number in
theorem toDecimal128_ordered_long :
    ∃ r r' s d e, (longSample .minus).decimal.toDecimal128 = some r
    ∧ (⟨-1234567890123456789012345678901234567890, 39⟩ : Decimal).toDecimal128 = some r'
    ∧ r.same r' = true
    ∧ (longSample .absent).decimal.toDecimal128 = some s ∧ r.toRat ≤ s.toRat
    ∧ (∃ again, r.toDecimal128 = some again ∧ again.same r = true)
    ∧ (Number.text "-1.23456789012345678901234567890123456789").toDecimal = .ok d
    ∧ (Number.text "1.23456789012345678901234567890123456789").toDecimal = .ok e
    ∧ d.toRat ≤ e.toRat := by
  obtain ⟨hsome, hsame, hmono, hagain, hnumbers⟩ := toDecimal128_ordered
  have hfits : (longSample .minus).Fits ∧ (longSample .absent).Fits := by decide
  have hworth : (longSample .minus).worth ≤ (longSample .absent).worth := by
    have hunscaled : (longSample .minus).unscaled ≤ (longSample .absent).unscaled := by decide
    exact mul_le_mul_of_nonneg_right (by exact_mod_cast hunscaled) (by positivity)
  have hrat : (longSample .minus).decimal.toRat ≤ (longSample .absent).decimal.toRat := by
    rwa [Numeral.toRat_decimal hfits.1, Numeral.toRat_decimal hfits.2]
  obtain ⟨r, hr⟩ := (hsome (longSample .minus).decimal).mpr (by decide)
  obtain ⟨s, hs⟩ := (hsome (longSample .absent).decimal).mpr (by decide)
  obtain ⟨r', hr', hsame⟩ :=
    hsame _ ⟨-1234567890123456789012345678901234567890, 39⟩ r (by decide) hr
  obtain ⟨hstill, hnone⟩ := hagain _ r hr
  have hshort : r.toDecimal128 ≠ none := by
    have hdigits : r.digits < 0 := by
      cases hr.symm.trans (show _ = some _ from rfl)
      decide
    rw [ne_eq, hnone]
    rintro rfl
    exact absurd hdigits (by decide)
  obtain ⟨again, hsecond⟩ := Option.ne_none_iff_exists'.mp hshort
  have hd := (toDecimal_text_iff spells_longSample.1).mpr ⟨hfits.1, hr⟩
  have he := (toDecimal_text_iff spells_longSample.2).mpr ⟨hfits.2, hs⟩
  exact ⟨r, r', s, r, s, hr, hr', hsame, hs, hmono _ _ r s hrat hr hs,
    ⟨again, hsecond, hstill again hsecond⟩, hd, he,
    hnumbers (.text _) (.text _) trivial trivial _ _ (.text spells_longSample.1)
      (.text spells_longSample.2) _ _ hd he hworth⟩

end DecisionService
