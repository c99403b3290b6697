import Mathlib
import DecisionService.Proofs.Binary64.Exact
import DecisionService.Proofs.Binary64.Overflow
import DecisionService.Proofs.Json.Integral
/-!
# Numbers without a type

Every literal of the grammar is a number. An integer is kept at any size; with a point or an
exponent the number is binary, and then it is infinite when the literal lies beyond the binary
numbers. Such a number has no decimal.
-/
namespace DecisionService.Json

namespace Literal

def worth (l : Literal) : ℚ :=
  l.unscaled * 10 ^ (-l.places)

/-- A plain integer, or a number that is rounded to a finite binary one. -/
def InRange (l : Literal) : Prop :=
  l.isPlain = true ∨ |l.worth| < Binary64.overflow

def untyped (l : Literal) : Number :=
  if l.isPlain then .ofInt l.unscaled else .float (Binary64.ofLiteral l)

theorem abs_worth (l : Literal) :
    |l.worth| = (Integer.ofDigits (l.whole ++ l.fraction) : ℚ) * 10 ^ (-l.places) := by
  have hunscaled : |(l.unscaled : ℚ)| = Integer.ofDigits (l.whole ++ l.fraction) := by
    rw [unscaled]
    split <;> simp
  rw [worth, abs_mul, hunscaled, abs_of_pos (by positivity)]

end Literal

/-- The number has a decimal that coercion turns it into, and it is written as a number again. -/
structure Usable (n : Number) : Prop where
  coerced : ∃ d, n.toDecimal = .ok d ∧ (Value.number n).coerce = ⟨.number (.decimal d), none⟩
  written : ∃ l : Literal, l.Sound
    ∧ Format.json.marshal (Value.number n) = .ok (Bytes.ofAscii l.text)

theorem usable_of {n : Number} {d : Decimal} (hd : n.toDecimal = .ok d) {l : Literal}
    (hl : l.Sound) (hdoc : Doc.ofNumber n = .ok (.number l)) : Usable n where
  coerced := ⟨d, hd, by rw [Value.coerce, Number.coerce, hd]; rfl⟩
  written := ⟨l, hl, (unmarshal_value (v := .number n) hdoc).1⟩

theorem usable_ofInt (i : Int) : Usable (.ofInt i) := by
  have h := Number.holds_ofInt i
  obtain ⟨d, hd, -⟩ := h.toDecimal_eq
  exact usable_of hd (Literal.sound_ofInteger i) (ofNumber_of_holds h)

theorem usable_float {x : Binary64} (h : x.isFinite = true) : Usable (.float x) := by
  obtain ⟨d, r, hd, -, hr⟩ := Binary64.exists_toDecimal128 h
  obtain ⟨l, hl, htext⟩ := Binary64.text_interchange h
  have hdecimal : (Number.float x).toDecimal = .ok r := by
    rw [Number.toDecimal, hd]
    exact Number.limited_eq_ok_iff.mpr hr
  have hdoc : Doc.ofNumber (.float x) = .ok (.number l) := by
    rw [Doc.ofNumber, if_pos h, htext, Doc.ofLiteral, Literal.read_spell (Or.inl rfl) hl]
  exact usable_of hdecimal hl hdoc

/-- Every literal is read as a number, in whatever way it is written. The number is usable when it
is in range; otherwise it is infinite, coercion fails on it, and it is written as nothing. -/
theorem unmarshal_literal {l : Literal} (hl : l.Sound) {text : List Char} (ht : l.Spells text) :
    ∃ n : Number, Format.json.unmarshal (Bytes.ofAscii text) = .ok (Value.number n)
      ∧ (l.InRange → Usable n)
      ∧ (¬ l.InRange → n = .float (.infinity l.negative)
        ∧ n.toDecimal = .error (.float (.infinity l.negative) .infinite)
        ∧ (Value.number n).coerce
          = ⟨.number n, some (.float (.infinity l.negative) .infinite)⟩
        ∧ Format.json.marshal (Value.number n) = .ok (Bytes.ofAscii "null".toList)) := by
  refine ⟨l.untyped, ?_, ?_, ?_⟩
  · rw [unmarshal_number hl ht, reread, Number.ofLiteral_text hl]
    rfl
  · intro h
    rw [Literal.untyped]
    cases hplain : l.isPlain with
    | true => exact usable_ofInt l.unscaled
    | false =>
      have hrange : |l.worth| < Binary64.overflow :=
        h.resolve_left (by rw [hplain]; exact Bool.false_ne_true)
      rw [Literal.abs_worth] at hrange
      exact usable_float ((Binary64.ofDecimalDigits_overflow _ _ _).1 hrange)
  · intro h
    rw [Literal.InRange, not_or, Literal.abs_worth] at h
    have hinfinite : Binary64.ofLiteral l = .infinity l.negative :=
      (Binary64.ofDecimalDigits_overflow _ _ _).2 (le_of_not_gt h.2)
    have hnumber : l.untyped = .float (.infinity l.negative) := by
      rw [Literal.untyped, if_neg h.1, hinfinite]
    have hdecimal : (Number.float (.infinity l.negative)).toDecimal
        = .error (.float (.infinity l.negative) .infinite) := by
      rw [Number.toDecimal, Binary64.toDecimal_infinity]
    rw [hnumber]
    refine ⟨rfl, hdecimal, ?_, ?_⟩
    · rw [Value.coerce, Number.coerce, hdecimal]
      rfl
    · cases l.negative <;> rfl

def literalSample (beyond : Bool) : Literal :=
  if beyond then ⟨false, ['1'], [], some (false, ['4', '0', '0'])⟩
  else ⟨true, ['0'], ['5'], some (false, ['2'])⟩

theorem sound_literalSample (beyond : Bool) : (literalSample beyond).Sound := by
  constructor <;> cases beyond <;> simp [literalSample]

theorem spells_literalSample : (literalSample false).Spells "-0.5E2".toList
    ∧ (literalSample true).Spells "1e400".toList :=
  ⟨⟨_, .unsigned (Or.inr rfl) ['2'], rfl⟩, ⟨_, .unsigned (Or.inl rfl) ['4', '0', '0'], rfl⟩⟩

theorem unmarshal_literal_sample :
    (∃ n : Number, Format.json.unmarshal (Bytes.ofAscii "-0.5E2".toList) = .ok (Value.number n)
      ∧ Usable n)
    ∧ Format.json.unmarshal (Bytes.ofAscii "1e400".toList)
      = .ok (Value.number (.float (.infinity false))) := by
  have hrange : (literalSample false).InRange := by
    have hdigits : Integer.ofDigits ((literalSample false).whole ++ (literalSample false).fraction)
        = 5 := rfl
    have hplaces : -(literalSample false).places = 1 := rfl
    right
    rw [Literal.abs_worth, hdigits, hplaces]
    calc (5 : Nat) * (10 : ℚ) ^ (1 : Int) < 2 ^ 6 := by norm_num
      _ ≤ 2 ^ 1023 := pow_le_pow_right₀ (by norm_num) (by norm_num)
      _ ≤ Binary64.overflow := Binary64.le_overflow
  have hbeyond : ¬ (literalSample true).InRange := by
    rw [Literal.InRange, not_or, Literal.abs_worth, not_lt]
    exact ⟨by decide, Binary64.overflow_le_of_leading (by decide) (by decide)⟩
  obtain ⟨n, hn, husable, -⟩ :=
    unmarshal_literal (sound_literalSample false) spells_literalSample.1
  obtain ⟨m, hm, -, hinfinite⟩ :=
    unmarshal_literal (sound_literalSample true) spells_literalSample.2
  refine ⟨⟨n, hn, husable hrange⟩, ?_⟩
  rw [hm, (hinfinite hbeyond).1]
  rfl

/-- A literal that is read as a number without a decimal, which is written as nothing. -/
theorem unmarshal_beyond :
    Format.json.unmarshal (Bytes.ofAscii "1e400".toList)
      = .ok (Value.number (.float (.infinity false)))
    ∧ (∀ d, (Number.float (.infinity false)).toDecimal ≠ .ok d)
    ∧ Format.json.marshal (Value.number (.float (.infinity false)))
      = .ok (Bytes.ofAscii "null".toList) := by
  refine ⟨?_, ?_, rfl⟩
  · rw [unmarshal_number (sound_literalSample true) spells_literalSample.2, reread,
      Number.ofLiteral_text (sound_literalSample true)]
    rfl
  · intro d h
    rw [Number.toDecimal, Binary64.toDecimal_infinity] at h
    cases h

end DecisionService.Json
