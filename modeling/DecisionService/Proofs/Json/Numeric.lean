import Mathlib
import DecisionService.Proofs.Json.Exact
/-!
# Numeric texts

A text is read as a decimal by one grammar and written as a number by another. What both read is a
plain numeral. A sign `+`, an underscore and a point that lacks a digit on one side make a decimal
of a text that is quoted, and a text that is not quoted has no decimal when its exponent is too
large for one, or is so large that digits cannot be cut off.
-/
namespace DecisionService.Json

open Decimal Integer

def WrittenBare (t : String) : Prop :=
  ∃ l : Literal, l.Sound ∧ Format.json.marshal (Number.text t) = .ok (Bytes.ofAscii l.text)

def WrittenQuoted (t : String) : Prop :=
  Format.json.marshal (Number.text t) = .ok (Quoted.encode t)

theorem writtenBare_of_literal {t : String} {l : Literal} (hl : l.Sound)
    (ht : l.Spells (Number.stripZeros t.toList)) : WrittenBare t := by
  have hdoc : Doc.ofNumber (.text t) = .ok (.number l) := by
    rw [Doc.ofNumber, Literal.read_eq_ok_iff.mpr ⟨hl, ht⟩]
  exact ⟨l, hl, (marshal_number hdoc).1⟩

theorem writtenQuoted_of_not_literal {t : String}
    (h : ∀ l : Literal, l.Sound → ¬ l.Spells (Number.stripZeros t.toList)) : WrittenQuoted t := by
  have hdoc : Doc.ofNumber (.text t) = .ok (.string (.ok t)) := by
    rw [Doc.ofNumber]
    split
    · next l hread =>
      obtain ⟨hl, ht⟩ := Literal.read_eq_ok_iff.mp hread
      exact absurd ht (h l hl)
    · rfl
  exact (marshal_number hdoc).1

private theorem encode_ne_text (t : String) {l : Literal} (hl : l.Sound) :
    Quoted.encode t ≠ Bytes.ofAscii l.text := by
  obtain ⟨c, ds, hwhole⟩ := List.exists_cons_of_ne_nil hl.whole_ne_nil
  have hc : c.isDigit = true := hl.whole_digits c (by rw [hwhole]; exact List.mem_cons_self)
  intro h
  have hhead := congrArg List.head? h
  cases hn : l.negative with
  | true =>
    simp [Quoted.encode, Bytes.ofAscii, Literal.text, hn] at hhead
  | false =>
    simp only [Quoted.encode, Bytes.ofAscii, Literal.text, hn, hwhole] at hhead
    have hbyte : UInt8.ofNat c.toNat = 0x22 := (Option.some.inj hhead).symm
    have hdigit := Literal.isDigit_ofNat hc
    rw [hbyte] at hdigit
    cases hdigit

theorem writtenBare_iff (t : String) : WrittenBare t ↔ ¬ WrittenQuoted t := by
  constructor
  · rintro ⟨l, hl, hbare⟩ hquoted
    exact encode_ne_text t hl (Except.ok.inj (hquoted.symm.trans hbare))
  · intro h
    by_contra hbare
    exact h (writtenQuoted_of_not_literal fun l hl ht => hbare (writtenBare_of_literal hl ht))

/-- A text that is no numeral is rejected and quoted. A text that is a numeral is rejected when the
exponent or the scale does not fit its word, and it has a decimal unless the scale that is left when
digits are cut off does not fit either. It is quoted when the numeral is not plain, and it is written
as a literal when it is plain and no zeros stand behind its minus sign. -/
theorem text_numeral (t : String) :
    (WrittenBare t ↔ ¬ WrittenQuoted t)
    ∧ (∀ n : Numeral, n.Spells t.toList →
      ((∃ d, (Number.text t).toDecimal = .ok d) ↔ n.Fits ∧ n.decimal.ScaleFits decimal128Digits)
      ∧ ((∃ e, (Number.text t).toDecimal = .error (.text t e)) ↔ ¬ n.Fits)
      ∧ (n.Plain → ¬ n.Padded → WrittenBare t)
      ∧ (¬ n.Plain → WrittenQuoted t))
    ∧ ((∀ n : Numeral, ¬ n.Spells t.toList) →
      (∃ e, (Number.text t).toDecimal = .error (.text t e)) ∧ WrittenQuoted t) := by
  refine ⟨writtenBare_iff t, fun n hn => ⟨?_, ?_, fun hplain hpadded => ?_, fun hplain => ?_⟩, ?_⟩
  · simp only [Number.toDecimal_text_iff hn, exists_and_left, Decimal.toDecimal128,
      exists_roundTo_iff]
  · rw [Number.toDecimal_text_eq_error]
    constructor
    · exact fun hnone hfits => hnone _ (hn.read_eq_ok_iff.mpr ⟨hfits, rfl⟩)
    · exact fun hfits d hd => hfits (hn.read_eq_ok_iff.mp hd).1
  · exact writtenBare_of_literal hplain.sound_literal (hplain.spells_literal hpadded hn)
  · refine writtenQuoted_of_not_literal fun l hl ht => hplain ?_
    obtain ⟨n', hn', hplain', -⟩ := Numeral.exists_of_literal hl ht
    rwa [hn.unique hn']
  · intro hnone
    refine ⟨Number.toDecimal_text_eq_error.mpr fun d hd => ?_,
      writtenQuoted_of_not_literal fun l hl ht => ?_⟩
    · obtain ⟨n, hn⟩ := Numeral.exists_spells hd
      exact hnone n hn
    · obtain ⟨n, hn, -⟩ := Numeral.exists_of_literal hl ht
      exact hnone n hn

def plainSample : Numeral :=
  ⟨.minus, ['0', '5', '0'], some 2, some (true, ['3']), by simp [Grouped], by decide, by simp⟩

def groupedSample : Numeral :=
  ⟨.absent, ['1', '_', '0', '0', '0'], none, none, by simp [Grouped], nofun,
    Numeral.no_exponent_digits⟩

theorem spells_plainSample : plainSample.Spells "-0.50e-3".toList :=
  ⟨_, .signed (Or.inl rfl) true ['3'], rfl⟩

theorem spells_groupedSample : groupedSample.Spells "1_000".toList :=
  ⟨_, .none, rfl⟩

theorem not_plain_groupedSample : ¬ groupedSample.Plain :=
  fun h => absurd (h.digits '_' (by decide)) (by decide)

theorem text_numeral_sample :
    (∃ d, (Number.text "-0.50e-3").toDecimal = .ok d) ∧ WrittenBare "-0.50e-3"
    ∧ (∃ d, (Number.text "1_000").toDecimal = .ok d) ∧ WrittenQuoted "1_000" := by
  have hplain : plainSample.Plain := ⟨by decide, by simp [plainSample], by decide⟩
  have hpadded : ¬ plainSample.Padded := by
    rintro ⟨-, hzeros⟩
    refine hzeros fun rest hrest hdigit => ?_
    cases hrest
    simp [Number.StartsDigit] at hdigit
  obtain ⟨haccepted, -, hbare, -⟩ := (text_numeral "-0.50e-3").2.1 _ spells_plainSample
  obtain ⟨haccepted', -, -, hquoted⟩ := (text_numeral "1_000").2.1 _ spells_groupedSample
  exact ⟨haccepted.mpr (by decide), hbare hplain hpadded, haccepted'.mpr (by decide),
    hquoted not_plain_groupedSample⟩

def distantExponent : Bool × List Char :=
  (false, List.replicate 20 '9')

theorem distantExponent_digits :
    distantExponent.2 ≠ [] ∧ ∀ c ∈ distantExponent.2, c.isDigit = true := by
  refine ⟨by decide, fun c hc => ?_⟩
  rw [List.eq_of_mem_replicate hc]
  rfl

/-- Digits that are grouped make a decimal and are quoted; a literal with an exponent that is too
large makes none and is not. -/
theorem grammars_differ :
    ((∃ d, (Number.text "1_000").toDecimal = .ok d) ∧ ¬ WrittenBare "1_000")
    ∧ (∃ e, (Number.text "1e99999999999999999999").toDecimal
      = .error (.text "1e99999999999999999999" e))
    ∧ WrittenBare "1e99999999999999999999" := by
  have hdistant : (⟨.absent, ['1'], none, some distantExponent, by simp [Grouped], nofun,
      fun _ he => Option.some.inj he ▸ distantExponent_digits⟩ : Numeral).Spells
      "1e99999999999999999999".toList := ⟨_, .unsigned (Or.inl rfl) _, rfl⟩
  refine ⟨⟨⟨_, (Number.toDecimal_text_iff spells_groupedSample).mpr ⟨by decide, rfl⟩⟩, ?_⟩,
    Number.toDecimal_text_eq_error.mpr fun d hd => ?_, ?_⟩
  · rw [writtenBare_iff, not_not]
    refine writtenQuoted_of_not_literal fun l hl ht => not_plain_groupedSample ?_
    obtain ⟨n, hn, hplain, -⟩ := Numeral.exists_of_literal hl ht
    rwa [spells_groupedSample.unique hn]
  · exact absurd (hdistant.read_eq_ok_iff.mp hd).1 (by decide)
  · have hsound : (⟨false, ['1'], [], some distantExponent⟩ : Literal).Sound :=
      ⟨by simp, by simp, by simp, by simp, fun _ he => Option.some.inj he ▸ distantExponent_digits⟩
    exact writtenBare_of_literal hsound ⟨_, .unsigned (Or.inl rfl) _, rfl⟩

end DecisionService.Json
