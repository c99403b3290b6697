import Mathlib
import DecisionService.Proofs.Binary64.Decades
import DecisionService.Proofs.MessagePack.Payload
import DecisionService.Proofs.Number.Rounded
/-!
# The limits of canonical decimals

A binary number becomes a decimal of 34 digits at most, and so does a text, except that a text that
carries becomes a power of ten with 35. The scale of a text that is cut is its own scale less the
digits cut off; where no 64-bit word holds that, there is no decimal.
-/
namespace DecisionService

open Decimal

namespace Number

/-- The decimal of a finite binary number, and of a text that has one, has 34 digits at most, except
where the number carries. Then it is a power of ten with one digit more, and the number is a text:
no binary number carries. -/
theorem toDecimal_digits {n : Number}
    (h : (∃ x, n = .float x ∧ x.isFinite = true) ∨ ∃ t d, n = .text t ∧ n.toDecimal = .ok d) :
    ∃ r q, n.toDecimal = .ok r ∧ n.Worth q
      ∧ (r.precision ≤ decimal128Digits ↔ ¬ Carries decimal128Digits q)
      ∧ (Carries decimal128Digits q → r.digits = 10 ^ decimal128Digits ∧ ∃ t, n = .text t) := by
  have hlimit : 0 < decimal128Digits := by decide
  rcases h with ⟨x, rfl, hx⟩ | ⟨t, r, rfl, hr⟩
  · obtain ⟨d, r, hd, hrat, hr⟩ := Binary64.exists_toDecimal128 hx
    refine ⟨r, x.toRat, ?_, .float hx, ?_, fun hcarries => ?_⟩
    · rw [toDecimal, hd]
      exact limited_eq_ok_iff.mpr hr
    · rw [← hrat]
      exact precision_roundTo_le_iff hr hlimit
    · exact absurd hcarries (Binary64.not_carries hx)
  · obtain ⟨m, hm⟩ := exists_of_toDecimal_text hr
    obtain ⟨hfits, hround⟩ := (toDecimal_text_iff hm).mp hr
    refine ⟨r, m.worth, hr, .text hm, ?_, fun hcarries => ⟨?_, t, rfl⟩⟩
    · rw [← Numeral.toRat_decimal hfits]
      exact precision_roundTo_le_iff hround hlimit
    · rw [← Numeral.toRat_decimal hfits] at hcarries
      exact digits_roundTo_of_carries hround hlimit hcarries

theorem toDecimal_digits_tenth :
    (∃ r, (Number.float tenth.neg).toDecimal = .ok r ∧ r.precision ≤ decimal128Digits)
    ∧ ∃ r q, (Number.text "1.23456789012345678901234567890123456789").toDecimal = .ok r
      ∧ (Number.text "1.23456789012345678901234567890123456789").Worth q
      ∧ r.precision = decimal128Digits ∧ ¬ Carries decimal128Digits q := by
  have hr : (Number.text "1.23456789012345678901234567890123456789").toDecimal
      = .ok ⟨1234567890123456789012345678901235, 33⟩ := by
    rw [toDecimal_text_iff spells_longSample.2]
    exact ⟨by decide, by decide⟩
  constructor
  · obtain ⟨r, q, hd, -, hbound, hcarries⟩ := toDecimal_digits (.inl ⟨tenth.neg, rfl, by decide⟩)
    refine ⟨r, hd, hbound.mpr fun h => ?_⟩
    obtain ⟨-, t, ht⟩ := hcarries h
    cases ht
  · obtain ⟨r, q, hd, hq, hbound, -⟩ := toDecimal_digits (.inr ⟨_, _, rfl, hr⟩)
    obtain rfl := Except.ok.inj (hr.symm.trans hd)
    exact ⟨_, q, hd, hq, by decide, hbound.mp (by decide)⟩

/-- Of 35 nines the last one rounds up the others. -/
theorem toDecimal_nines : ∃ r,
    (Number.text "99999999999999999999999999999999999").toDecimal = .ok r
    ∧ ¬ r.precision ≤ decimal128Digits := by
  have hread : Decimal.read "99999999999999999999999999999999999".toList
      = .ok ⟨99999999999999999999999999999999999, 0⟩ := by decide
  exact ⟨⟨10000000000000000000000000000000000, -1⟩, toDecimal_text.mpr ⟨_, hread, by decide⟩,
    by decide⟩

/-- A text that is read as a decimal has a canonical one exactly when a 64-bit word holds the scale
that was read less the digits cut off. That is then its scale, and the decimal is the rounded one.
Otherwise the conversion ends in an overflow. -/
theorem toDecimal_scale {t : String} {d : Decimal} (h : Decimal.read t.toList = .ok d) :
    ((∃ r, (Number.text t).toDecimal = .ok r)
      ↔ -(2 ^ 63) ≤ d.scale.toInt - d.dropped decimal128Digits)
    ∧ ((Number.text t).toDecimal = .error .overflow
      ↔ d.scale.toInt - d.dropped decimal128Digits < -(2 ^ 63))
    ∧ ∀ r, (Number.text t).toDecimal = .ok r →
      r.scale.toInt = d.scale.toInt - d.dropped decimal128Digits
        ∧ r.toRat = rounded decimal128Digits d.toRat := by
  have hread : ∀ {d'}, Decimal.read t.toList = .ok d' ↔ d' = d := by
    intro d'
    rw [h, Except.ok.injEq, eq_comm]
  refine ⟨?_, ?_, fun r hr => ?_⟩
  · simp only [toDecimal_text, hread, exists_eq_left]
    exact exists_roundTo_iff
  · simp only [toDecimal_text_overflow, hread, exists_eq_left]
    exact roundTo_eq_none_iff.trans not_le
  · obtain ⟨d', hd', hround⟩ := toDecimal_text.mp hr
    obtain rfl := hread.mp hd'
    exact ⟨toInt_scale_roundTo hround, toRat_roundTo hround (by decide)⟩

def vastText : String :=
  "12345678901234567890123456789012345e9223372036854775808"

theorem read_vastText : Decimal.read vastText.toList
    = .ok ⟨12345678901234567890123456789012345, Int64.minValue⟩ := by
  decide

theorem toDecimal_scale_long : ∃ d r,
    Decimal.read "12345678901234567890123456789012345e9223372036854775807".toList = .ok d
    ∧ (Number.text "12345678901234567890123456789012345e9223372036854775807").toDecimal = .ok r
    ∧ r.scale = Int64.minValue ∧ r.toRat = rounded decimal128Digits d.toRat
    ∧ (Number.text vastText).toDecimal = .error .overflow := by
  have hread : Decimal.read "12345678901234567890123456789012345e9223372036854775807".toList
      = .ok ⟨12345678901234567890123456789012345, Int64.minValue + 1⟩ := by decide
  obtain ⟨hsome, -, hresult⟩ := toDecimal_scale hread
  obtain ⟨r, hr⟩ := hsome.mpr (by decide)
  obtain ⟨hscale, hrat⟩ := hresult r hr
  exact ⟨_, r, hread, hr, Int64.toInt_inj.mp (hscale.trans (by decide)), hrat,
    (toDecimal_scale read_vastText).2.1.mpr (by decide)⟩

/-- A text with one digit too many and the largest exponent comes over MessagePack as it is, and
then there is no decimal. -/
theorem toDecimal_overflows :
    (∃ bytes, Format.msgpack.unmarshal bytes = .ok (Value.number (.text vastText)))
    ∧ ∃ d, Decimal.read vastText.toList = .ok d ∧ decimal128Digits < d.precision
      ∧ d.scale.toInt - d.dropped decimal128Digits < -(2 ^ 63)
      ∧ (Number.text vastText).toDecimal = .error .overflow := by
  constructor
  · obtain ⟨bytes, -, hread⟩ := MessagePack.unmarshal_marshal
      (a := Value.number (.text vastText)) trivial (by decide +kernel)
    exact ⟨bytes, hread⟩
  · exact ⟨_, read_vastText, by decide, by decide,
      toDecimal_text_overflow.mpr ⟨_, read_vastText, by decide⟩⟩

end Number

end DecisionService
