import Mathlib
import DecisionService.Proofs.Number.Worth
/-!
# Literals that are exact

An integer, a decimal and a text that is a literal without its zeros are written as a literal. It
stands for the very number that they stand for: nothing is rounded on the way out.
-/
namespace DecisionService.Json

namespace Literal

@[simp] theorem worth_ofInteger (n : Int) : (ofInteger n).worth = n := by
  have hunscaled : (ofInteger n).unscaled = n := by
    rw [unscaled, ofInteger, List.append_nil, Integer.ofDigits_toDigits]
    by_cases h : n < 0
    · rw [decide_eq_true h, if_pos rfl]
      omega
    · rw [decide_eq_false h, if_neg Bool.false_ne_true]
      omega
  rw [worth, hunscaled]
  simp [places, shiftBy, ofInteger]

theorem worth_spelling (d : Decimal) : d.spelling.2.worth = d.toRat := by
  obtain ⟨hunscaled, hplaces⟩ := d.value_spelling
  rw [(Decimal.same_iff d d.settled).mp d.same_settled, worth, hunscaled, hplaces]
  rfl

end Literal

/-- The number is not binary, and it is a literal without its zeros when it is a text. -/
def HasLiteral : Number → Prop
  | .text t => ∃ l : Literal, l.Sound ∧ l.Spells (Number.stripZeros t.toList)
  | .float _ => False
  | _ => True

/-- The document of a number decides what is written, be it alone or in a value. -/
theorem marshal_number {n : Number} {doc : Doc} (h : Doc.ofNumber n = .ok doc) :
    Format.json.marshal n = .ok doc.render
    ∧ Format.json.marshal (Value.number n) = .ok doc.render := by
  constructor
  · change (Doc.ofNumber n >>= fun doc => Except.ok doc.render).mapError _ = _
    rw [h]
    rfl
  · exact (unmarshal_value (v := .number n) h).1

theorem exists_literal {n : Number} (h : HasLiteral n) : ∃ l : Literal, l.Sound
    ∧ Doc.ofNumber n = .ok (.number l) ∧ n.Worth l.worth ∧ ∀ i, n.Holds i → l = .ofInteger i := by
  by_cases hholds : ∃ i, n.Holds i
  · obtain ⟨i, hi⟩ := hholds
    refine ⟨.ofInteger i, Literal.sound_ofInteger i, ofNumber_of_holds hi, ?_, fun j hj => ?_⟩
    · rw [Literal.worth_ofInteger]
      exact hi.worth
    · have hunique := hi.worth.unique hj.worth
      exact congrArg Literal.ofInteger (by exact_mod_cast hunique)
  have hnone : ∀ l : Literal, ∀ i, n.Holds i → l = .ofInteger i := fun _ i hi =>
    absurd ⟨i, hi⟩ hholds
  cases n with
  | int | uint | big => exact absurd ⟨_, rfl⟩ hholds
  | float => exact h.elim
  | text t =>
    obtain ⟨l, hl, ht⟩ := h
    obtain ⟨n, hn, -, hworth⟩ := Decimal.Numeral.exists_of_literal hl ht
    refine ⟨l, hl, ?_, ?_, hnone l⟩
    · rw [Doc.ofNumber, Literal.read_eq_ok_iff.mpr ⟨hl, ht⟩]
    · rw [← hworth]
      exact .text hn
  | decimal d =>
    have hwhole : d.isWhole = false := by
      rw [← Bool.not_eq_true, d.isWhole_iff]
      exact hholds
    refine ⟨d.spelling.2, d.sound_spelling, ?_, ?_, hnone _⟩
    · rw [Doc.ofNumber, hwhole, if_neg Bool.false_ne_true, Doc.ofLiteral, d.text_eq_spell,
        Literal.read_spell d.spelling_mark d.sound_spelling]
    · rw [Literal.worth_spelling]
      exact .decimal d

/-- The literal that is written for an integer, a decimal or a text that is a literal without its
zeros stands for what the number stands for. An integer is written as its digits, whatever scale
it is held at. -/
theorem marshal_exact {n : Number} (h : HasLiteral n) : ∃ l : Literal, l.Sound
    ∧ Format.json.marshal n = .ok (Bytes.ofAscii l.text)
    ∧ Format.json.marshal (Value.number n) = .ok (Bytes.ofAscii l.text)
    ∧ (∀ q, n.Worth q ↔ q = l.worth)
    ∧ ∀ i, n.Holds i → l = .ofInteger i := by
  obtain ⟨l, hl, hdoc, hworth, hinteger⟩ := exists_literal h
  obtain ⟨hnumber, hvalue⟩ := marshal_number hdoc
  refine ⟨l, hl, hnumber, hvalue, fun q => ⟨fun hq => hq.unique hworth, ?_⟩, hinteger⟩
  rintro rfl
  exact hworth

example : Format.json.marshal (Number.decimal ⟨-150, 2⟩) = .ok (Bytes.ofAscii "-1.50".toList) := by
  decide

theorem marshal_exact_padded : HasLiteral (.text "007.50") ∧ ∃ l : Literal, l.Sound
    ∧ Format.json.marshal (Number.text "007.50") = .ok (Bytes.ofAscii l.text)
    ∧ ∀ q, (Number.text "007.50").Worth q ↔ q = l.worth := by
  have hliteral : HasLiteral (.text "007.50") :=
    ⟨⟨false, ['7'], ['5', '0'], none⟩, by constructor <;> simp, [], .none, rfl⟩
  obtain ⟨l, hl, hmarshal, -, hworth, -⟩ := marshal_exact hliteral
  exact ⟨hliteral, l, hl, hmarshal, hworth⟩

end DecisionService.Json
