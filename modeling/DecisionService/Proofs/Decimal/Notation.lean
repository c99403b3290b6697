import Mathlib
import DecisionService.Proofs.Decimal.Literal
/-!
# Decimals read back

The text of a decimal is the text of a sound literal. A decimal is read from any such text as the
digits of the literal at the scale that its point and its exponent leave, so the text of a decimal
reads back as a decimal of the same value.
-/
namespace DecisionService.Decimal

open Json

/-- A decimal is read from the text of a literal whose exponent and scale fit their words. -/
theorem read_spell {mark : Char} (hm : mark = 'e' ∨ mark = 'E') {l : Literal} (hl : l.Sound)
    (he : ∀ e, l.exponent = some e → Integer.ofDigits e.2 < 2 ^ 127)
    (hs : -(2 ^ 63) ≤ l.places ∧ l.places < 2 ^ 63) :
    read (l.spell mark) = .ok ⟨l.unscaled, Int64.ofInt l.places⟩ := by
  have hspells : (Numeral.ofLiteral 0 hl).Spells (l.spell mark) :=
    Numeral.spells_ofLiteral hl (fun h => absurd h (by decide)) (Literal.spells_spell hm l)
  have hexponent : -(2 ^ 127) ≤ exponentOf l.exponent ∧ exponentOf l.exponent ≤ 2 ^ 127 - 1 := by
    cases hx : l.exponent with
    | none => exact ⟨by decide, by decide⟩
    | some e =>
      obtain ⟨negative, ds⟩ := e
      have hdigits : Integer.ofDigits ds < 2 ^ 127 := he _ hx
      cases negative <;> simp only [exponentOf, if_true, Bool.false_eq_true, if_false] <;> omega
  have hscale : (Numeral.ofLiteral 0 hl).scale = l.places := Numeral.scale_ofLiteral hl
  rw [← hscale] at hs
  refine hspells.read_eq_ok_iff.mpr ⟨⟨hexponent, hs⟩, ?_⟩
  rw [Numeral.decimal, Numeral.unscaled_ofLiteral, hscale]

def writtenScale (d : Decimal) : Int :=
  if d.digits = 0 then 0 else d.scale.toInt

def power (exponent : Int) : Bool × List Char :=
  (decide (exponent < 0), Nat.toDigits 10 exponent.natAbs)

def spelling (d : Decimal) : Char × Literal :=
  let digits := Nat.toDigits 10 d.digits.natAbs
  let scale := d.writtenScale
  let negative : Bool := d.digits < 0
  if leadingZeroLimit < scale - digits.length then
    ('E', ⟨negative, digits.take 1, digits.drop 1, some (power ((digits.length : Int) - 1 - scale))⟩)
  else if trailingZeroLimit < -scale then ('e', ⟨negative, digits, [], some (power (-scale))⟩)
  else if scale ≤ 0 then ('e', ⟨negative, digits ++ zeros (-scale).toNat, [], none⟩)
  else if scale.toNat < digits.length then
    ('e', ⟨negative, digits.take (digits.length - scale.toNat),
      digits.drop (digits.length - scale.toNat), none⟩)
  else ('e', ⟨negative, ['0'], zeros (scale.toNat - digits.length) ++ digits, none⟩)

/-- The decimal that the text of a decimal stands for: zeros that are written out become digits. -/
def settled (d : Decimal) : Decimal :=
  if d.digits = 0 ∨ (d.scale.toInt ≤ 0 ∧ -d.scale.toInt ≤ trailingZeroLimit) then
    ⟨shift d.digits (-d.scale.toInt).toNat, 0⟩
  else d

theorem spelling_mark (d : Decimal) : d.spelling.1 = 'e' ∨ d.spelling.1 = 'E' := by
  unfold spelling
  extract_lets
  split
  · exact Or.inr rfl
  · split_ifs <;> exact Or.inl rfl

theorem exponentText_eq (mark : Char) (exponent : Int) :
    exponentText mark exponent = Literal.spellExponent mark (some (power exponent)) := by
  by_cases h : exponent < 0 <;> simp [exponentText, Literal.spellExponent, power, Integer.text, h]

theorem text_eq_spell (d : Decimal) : d.text = d.spelling.2.spell d.spelling.1 := by
  have hne : Nat.toDigits 10 d.digits.natAbs ≠ [] := Nat.toDigits_ne_nil
  obtain ⟨c, ds, hds⟩ := List.exists_cons_of_ne_nil hne
  have hsign : ∀ body, (if d.digits < 0 then '-' :: body else body)
      = (if decide (d.digits < 0) = true then ['-'] else []) ++ body := by
    intro body
    by_cases h : d.digits < 0 <;> simp [h]
  unfold text spelling writtenScale
  extract_lets digits scale body negative
  rw [hsign]
  simp only [body]
  by_cases h1 : leadingZeroLimit < scale - digits.length
  · have hbody : scientific digits scale = digits.take 1
        ++ ((if (digits.drop 1).isEmpty then [] else '.' :: digits.drop 1)
          ++ exponentText 'E' ((digits.length : Int) - 1 - scale)) := by
      simp only [digits, hds]
      cases ds <;> simp [scientific]
    simp only [h1, if_true]
    rw [Literal.spell, hbody, exponentText_eq]
  by_cases h2 : trailingZeroLimit < -scale
  · simp only [h1, h2, if_true, if_false]
    rw [Literal.spell, exponentText_eq]
    rfl
  by_cases h3 : scale ≤ 0
  · simp only [h1, h2, h3, if_true, if_false, positional]
    simp [Literal.spell, Literal.spellExponent, negative]
  by_cases h4 : scale.toNat < digits.length
  · have hdrop : (digits.drop (digits.length - scale.toNat)).isEmpty = false := by
      rw [List.isEmpty_eq_false_iff, ne_eq, List.drop_eq_nil_iff]
      omega
    simp only [h1, h2, h3, h4, if_true, if_false, positional]
    simp [Literal.spell, Literal.spellExponent, hdrop, negative]
  · have hempty : (zeros (scale.toNat - digits.length) ++ digits).isEmpty = false := by
      rw [List.isEmpty_eq_false_iff]
      exact List.append_ne_nil_of_right_ne_nil _ hne
    simp only [h1, h2, h3, h4, if_false, positional]
    simp [Literal.spell, Literal.spellExponent, hempty, negative]

theorem sound_spelling (d : Decimal) : d.spelling.2.Sound := by
  have hpower := fun exponent => Integer.isDigit_toDigits (n := (exponent : Int).natAbs)
  unfold spelling
  extract_lets digits scale negative
  by_cases h1 : leadingZeroLimit < scale - digits.length
  · simp only [h1, if_true]
    exact Literal.sound_scientific _ _ Nat.toDigits_ne_nil (hpower _)
  by_cases h2 : trailingZeroLimit < -scale
  · simp only [h1, h2, if_true, if_false]
    exact Literal.sound_exponent _ _ Nat.toDigits_ne_nil (hpower _)
  by_cases h3 : scale ≤ 0
  · simp only [h1, h2, h3, if_true, if_false]
    refine Literal.sound_zeros_behind _ _ (fun h => ?_) (by simp)
    have h0 : scale = 0 := if_pos (Int.natAbs_eq_zero.mp h)
    omega
  by_cases h4 : scale.toNat < digits.length
  · simp only [h1, h2, h3, h4, if_true, if_false]
    exact Literal.sound_split _ _ (by omega) h4
  · simp only [h1, h2, h3, h4, if_false]
    exact Literal.sound_zeros_front _ _ _

private theorem signed_natAbs (n : Int) :
    (if decide (n < 0) = true then -(n.natAbs : Int) else (n.natAbs : Int)) = n := by
  by_cases h : n < 0
  · simp only [h, decide_true, if_true]
    omega
  · simp only [h, decide_false, Bool.false_eq_true, if_false]
    omega

private theorem shiftBy_power {l : Literal} {exponent : Int}
    (h : l.exponent = some (power exponent)) : l.shiftBy = exponent := by
  rw [Literal.shiftBy, h]
  simp only [power, Integer.ofDigits_toDigits]
  exact signed_natAbs exponent

private theorem scale_range (d : Decimal) :
    -(2 ^ 63) ≤ d.writtenScale ∧ d.writtenScale < 2 ^ 63 := by
  have h1 := d.scale.le_toInt
  have h2 := d.scale.toInt_lt
  rw [writtenScale]
  split <;> omega

private theorem settled_of_zeros {d : Decimal}
    (h : d.writtenScale ≤ 0 ∧ -d.writtenScale ≤ trailingZeroLimit) :
    d.settled = ⟨shift d.digits (-d.writtenScale).toNat, 0⟩ := by
  by_cases h0 : d.digits = 0
  · simp [settled, h0, shift]
  · have hs : d.writtenScale = d.scale.toInt := if_neg h0
    rw [hs] at h ⊢
    exact if_pos (Or.inr h)

private theorem settled_eq_self {d : Decimal}
    (h : ¬ (d.writtenScale ≤ 0 ∧ -d.writtenScale ≤ trailingZeroLimit)) :
    d.settled = d ∧ d.writtenScale = d.scale.toInt := by
  have h0 : d.digits ≠ 0 := by
    intro h0
    have hs : d.writtenScale = 0 := if_pos h0
    rw [hs] at h
    exact h (by decide)
  have hs : d.writtenScale = d.scale.toInt := if_neg h0
  rw [hs] at h
  exact ⟨if_neg (not_or.mpr ⟨h0, h⟩), hs⟩

theorem value_spelling (d : Decimal) :
    d.spelling.2.unscaled = d.settled.digits ∧ d.spelling.2.places = d.settled.scale.toInt := by
  have hof := Integer.ofDigits_toDigits d.digits.natAbs
  have hsign := signed_natAbs d.digits
  unfold spelling
  extract_lets digits scale negative
  have hlen : 0 < digits.length := List.length_pos_of_ne_nil Nat.toDigits_ne_nil
  have hkept : ∀ l : Literal, l.negative = negative → Integer.ofDigits (l.whole ++ l.fraction)
      = d.digits.natAbs → l.unscaled = d.digits := by
    intro l hn hd
    rw [Literal.unscaled, hd, hn]
    exact hsign
  by_cases h3 : scale ≤ 0 ∧ -scale ≤ trailingZeroLimit
  · have h1 : ¬ leadingZeroLimit < scale - digits.length := by
      simp only [leadingZeroLimit]
      omega
    have h2 : ¬ trailingZeroLimit < -scale := by omega
    have hset : d.settled = ⟨shift d.digits (-scale).toNat, 0⟩ := settled_of_zeros h3
    simp only [h1, h2, h3.1, if_true, if_false, hset]
    refine ⟨?_, by simp [Literal.places, Literal.shiftBy]⟩
    rw [Literal.unscaled, shift_eq, List.append_nil, Integer.ofDigits_append, zeros,
      Integer.ofDigits_replicate_zero, hof, List.length_replicate, Nat.add_zero, Nat.cast_mul]
    rw [← mul_neg, ← mul_ite, hsign, Nat.cast_pow, mul_comm]
    rfl
  · obtain ⟨hset, hs⟩ : d.settled = d ∧ scale = d.scale.toInt := settled_eq_self h3
    rw [hset, ← hs]
    by_cases h1 : leadingZeroLimit < scale - digits.length
    · simp only [h1, if_true]
      refine ⟨hkept _ rfl (by rw [List.take_append_drop, hof]), ?_⟩
      rw [Literal.places, shiftBy_power rfl, List.length_drop]
      omega
    by_cases h2 : trailingZeroLimit < -scale
    · simp only [h1, h2, if_true, if_false]
      refine ⟨hkept _ rfl (by rw [List.append_nil, hof]), ?_⟩
      rw [Literal.places, shiftBy_power rfl, List.length_nil]
      omega
    by_cases h4 : scale.toNat < digits.length
    · simp only [h1, h2, show ¬ scale ≤ 0 by omega, h4, if_true, if_false]
      refine ⟨hkept _ rfl (by rw [List.take_append_drop, hof]), ?_⟩
      simp only [Literal.places, Literal.shiftBy, List.length_drop]
      omega
    · simp only [h1, h2, show ¬ scale ≤ 0 by omega, h4, if_false]
      refine ⟨hkept _ rfl ?_, ?_⟩
      · rw [Integer.ofDigits_append, Integer.ofDigits_append, zeros,
          Integer.ofDigits_replicate_zero, hof]
        have hzero : Integer.ofDigits ['0'] = 0 := rfl
        simp only [hzero, Nat.mul_zero, Nat.zero_add]
      · simp only [Literal.places, Literal.shiftBy, List.length_append, zeros,
          List.length_replicate]
        omega

private theorem exponent_spelling (d : Decimal) {e : Bool × List Char}
    (he : d.spelling.2.exponent = some e) : Integer.ofDigits e.2 < 2 ^ 127 := by
  have hr := scale_range d
  have hb : ∀ exponent : Int, some (power exponent) = some e → exponent.natAbs < 2 ^ 127 →
      Integer.ofDigits e.2 < 2 ^ 127 := by
    intro exponent h hn
    cases h
    simpa [power] using hn
  unfold spelling at he
  extract_lets digits scale negative at he
  by_cases h1 : leadingZeroLimit < scale - digits.length
  · simp only [h1, if_true] at he
    simp only [leadingZeroLimit] at h1
    exact hb _ he (by omega)
  by_cases h2 : trailingZeroLimit < -scale
  · simp only [h1, h2, if_true, if_false] at he
    exact hb _ he (by omega)
  by_cases h3 : scale ≤ 0
  · simp [h1, h2, h3] at he
  by_cases h4 : scale.toNat < digits.length
  · simp [h1, h2, h3, h4] at he
  · simp [h1, h2, h3, h4] at he

/-- The text of a decimal reads back as the same digits at the same scale, except that zeros
written out become digits and that zero loses its scale. -/
theorem read_text (d : Decimal) : read d.text = .ok d.settled := by
  have hv := value_spelling d
  have hr : -(2 ^ 63) ≤ d.spelling.2.places ∧ d.spelling.2.places < 2 ^ 63 := by
    rw [hv.2]
    exact ⟨d.settled.scale.le_toInt, d.settled.scale.toInt_lt⟩
  rw [text_eq_spell, read_spell (spelling_mark d) (sound_spelling d)
    (fun e he => exponent_spelling d he) hr, hv.1, hv.2, Int64.ofInt_toInt]

end DecisionService.Decimal
