import Mathlib
import DecisionService.Json.Source
import DecisionService.Json.Target
import DecisionService.Proofs.Binary64.Notation
import DecisionService.Proofs.Json.Doc
import DecisionService.Proofs.Value.Relay
/-!
# Numbers read back from JSON

Every number is written as a literal, as a text or as nothing, and a literal is read back as a
number without a type: an integer in its narrowest form, or a binary number.
-/
namespace DecisionService

open Json

def Json.Literal.isPlain (l : Literal) : Bool :=
  l.fraction.isEmpty && l.exponent.isNone

namespace Number

private def IsMark (c : Char) : Prop :=
  c = '.' ∨ c = 'e' ∨ c = 'E'

private theorem ofLiteral_marked {text : List Char} (h : ∃ c ∈ text, IsMark c) :
    ofLiteral text = (Binary64.read text).map .float := by
  obtain ⟨c, hc, hm⟩ := h
  have hany : text.any (fun c => c == '.' || c == 'e' || c == 'E') = true := by
    rw [List.any_eq_true]
    exact ⟨c, hc, by rcases hm with rfl | rfl | rfl <;> rfl⟩
  rw [ofLiteral, if_pos hany]

private theorem ofLiteral_unmarked {text : List Char} (h : ¬ ∃ c ∈ text, IsMark c) :
    ofLiteral text = match Integer.readBetween (-(2 ^ 63)) (2 ^ 63 - 1) text with
      | .ok n => some (.int (Int64.ofInt n))
      | .error _ =>
        match Integer.readBetween 0 (2 ^ 64 - 1) text with
        | .ok n => some (.uint (UInt64.ofNat n.toNat))
        | .error _ =>
          match Integer.readAny text with
          | .ok n => some (.big n)
          | .error _ => none := by
  have hany : ¬ text.any (fun c => c == '.' || c == 'e' || c == 'E') = true := by
    rw [List.any_eq_true]
    rintro ⟨c, hc, hm⟩
    refine h ⟨c, hc, ?_⟩
    simpa [IsMark, or_assoc] using hm
  rw [ofLiteral]
  exact if_neg hany

private theorem digits_unmarked (negative : Bool) {ds : List Char}
    (hd : ∀ c ∈ ds, c.isDigit = true) :
    ¬ ∃ c ∈ (if negative then ['-'] else []) ++ ds, IsMark c := by
  rintro ⟨c, hc, hm⟩
  rcases List.mem_append.mp hc with hc | hc
  · split at hc
    · rw [List.mem_singleton.mp hc] at hm
      rcases hm with hm | hm | hm <;> cases hm
    · cases hc
  · have hdigit := hd c hc
    rcases hm with rfl | rfl | rfl <;> cases hdigit

theorem ofLiteral_digits (negative : Bool) {ds : List Char} (hne : ds ≠ [])
    (hd : ∀ c ∈ ds, c.isDigit = true) :
    ofLiteral ((if negative then ['-'] else []) ++ ds) = some
      (ofInt (if negative then -(Integer.ofDigits ds : Int) else Integer.ofDigits ds)) := by
  rw [ofLiteral_unmarked (digits_unmarked negative hd)]
  cases negative with
  | true =>
    simp only [if_true, List.singleton_append]
    rw [Integer.readBetween_minus hne hd (by decide) (by decide), ofInt,
      Integer.readBetween_zero_minus (by decide), Integer.readAny_minus hne hd]
    by_cases h : -(Integer.ofDigits ds : Int) < -(2 ^ 63)
    · rw [if_pos h, if_neg (by omega), if_neg (by omega)]
    · rw [if_neg h, if_pos (by omega)]
  | false =>
    have hsigned : Integer.readBetween (-(2 ^ 63)) (2 ^ 63 - 1) ds
        = if (2 ^ 63 - 1 : Int) < Integer.ofDigits ds then .error .tooLarge
          else .ok (Integer.ofDigits ds : Int) := Integer.readBetween_digits hne hd (by omega)
    have hunsigned : Integer.readBetween 0 (2 ^ 64 - 1) ds
        = if (2 ^ 64 - 1 : Int) < Integer.ofDigits ds then .error .tooLarge
          else .ok (Integer.ofDigits ds : Int) := Integer.readBetween_digits hne hd (by omega)
    simp only [Bool.false_eq_true, if_false, List.nil_append]
    rw [hsigned, hunsigned, ofInt, Integer.readAny_digits hne hd]
    by_cases hword : (2 ^ 63 - 1 : Int) < Integer.ofDigits ds
    · by_cases hlong : (2 ^ 64 - 1 : Int) < Integer.ofDigits ds
      · rw [if_pos hword, if_pos hlong, if_neg (by omega), if_neg (by omega)]
      · rw [if_pos hword, if_neg hlong, if_neg (by omega), if_pos (by omega)]
    · rw [if_neg hword, if_neg (by omega), if_pos (by omega)]

theorem ofLiteral_ne_text {text : List Char} {t : String} : ofLiteral text ≠ some (.text t) := by
  intro h
  by_cases hm : ∃ c ∈ text, IsMark c
  · rw [ofLiteral_marked hm] at h
    obtain ⟨x, -, hx⟩ := Option.map_eq_some_iff.mp h
    cases hx
  · rw [ofLiteral_unmarked hm] at h
    repeat' split at h
    all_goals cases h

theorem ofLiteral_integer (n : Int) : ofLiteral (Integer.text n) = some (ofInt n) := by
  have h := ofLiteral_digits (n < 0) Nat.toDigits_ne_nil (Integer.isDigit_toDigits (n := n.natAbs))
  rw [Integer.ofDigits_toDigits] at h
  by_cases hn : n < 0
  · simp only [hn, decide_true, if_true] at h
    rw [Integer.text, if_pos hn]
    exact h.trans (by rw [show -(n.natAbs : Int) = n by omega])
  · simp only [hn, decide_false, Bool.false_eq_true, if_false] at h
    rw [Integer.text, if_neg hn]
    exact h.trans (by rw [show (n.natAbs : Int) = n by omega])

/-- A literal with a point or an exponent is a binary number, any other an integer. -/
theorem ofLiteral_text {l : Literal} (h : l.Sound) : ofLiteral l.text
    = some (if l.isPlain then ofInt l.unscaled else .float (Binary64.ofLiteral l)) := by
  cases hm : l.isPlain with
  | true =>
    rw [Literal.isPlain, Bool.and_eq_true, List.isEmpty_iff, Option.isNone_iff_eq_none] at hm
    have htext : l.text = (if l.negative then ['-'] else []) ++ l.whole := by
      simp [Literal.text, hm]
    rw [htext, ofLiteral_digits l.negative h.whole_ne_nil h.whole_digits, if_pos rfl,
      Literal.unscaled, hm.1, List.append_nil]
  | false =>
    have hmark : ∃ c ∈ l.text, IsMark c := by
      rw [Literal.text_eq_spell, Literal.spell]
      by_cases hf : l.fraction.isEmpty = true
      · cases he : l.exponent with
        | none => simp [Literal.isPlain, hf, he] at hm
        | some e => exact ⟨'e', by simp [Literal.spellExponent], Or.inr (Or.inl rfl)⟩
      · exact ⟨'.', by simp [hf], Or.inl rfl⟩
    rw [ofLiteral_marked hmark, Binary64.read_text h]
    rfl

end Number

namespace Json

def reread (text : List Char) : Value :=
  (Number.ofLiteral text).elim .null .number

def arriving : Number → Value
  | .int n => .number (.ofInt n.toInt)
  | .uint n => .number (.ofInt n.toNat)
  | .big n => .number (.ofInt n)
  | .float x => if x.isFinite then reread (x.text Binary64.interchange) else .null
  | .text t =>
    match Literal.read (Number.stripZeros t.toList) with
    | .ok l => reread l.text
    | .error _ => .string t
  | .decimal d => if d.isWhole then .number (.ofInt d.truncate) else reread d.spelling.2.text

/-- JSON reads numbers back without their form, and sets as lists. -/
def medium : Value.Medium := ⟨arriving, .array⟩

def isNothing : Value → Bool
  | .null => true
  | .number (.float x) => !x.isFinite
  | _ => false

namespace Doc

theorem value_literal {l : Literal} (h : l.Sound) (depth : Nat) :
    value depth (number l) = .ok (reread l.text) := by
  rw [value.eq_def]
  simp only [untyped, Number.ofLiteral_text h, reread]
  rfl

private theorem ofLiteral_spell {mark : Char} (hm : mark = 'e' ∨ mark = 'E') {l : Literal}
    (hl : l.Sound) : ofLiteral (l.spell mark) = .ok (number l) := by
  rw [ofLiteral, Literal.read_spell hm hl]

theorem ofLiteral_integer (n : Int) :
    ofLiteral (Integer.text n) = .ok (number (Literal.ofInteger n)) := by
  rw [ofLiteral, Literal.read_integer]

private theorem reread_integer (n : Int) :
    reread (Literal.ofInteger n).text = .number (.ofInt n) := by
  rw [reread, Literal.text_ofInteger, Number.ofLiteral_integer]
  rfl

structure Gives (doc : Doc) (v : Value) : Prop where
  sound : doc.Sound
  read : ∀ depth, value depth doc = .ok v

private theorem gives_literal {l : Literal} (h : l.Sound) : Gives (number l) (reread l.text) :=
  ⟨h, value_literal h⟩

private theorem gives_integer (n : Int) :
    Gives (number (Literal.ofInteger n)) (.number (.ofInt n)) := by
  rw [← reread_integer]
  exact gives_literal (Literal.sound_ofInteger n)

theorem ofNumber_gives (n : Number) : ∃ doc, ofNumber n = .ok doc ∧ Gives doc (arriving n)
    ∧ (Wire.Source.isNull doc = isNothing (.number n)) := by
  cases n with
  | int n => exact ⟨_, ofLiteral_integer n.toInt, gives_integer n.toInt, rfl⟩
  | uint n => exact ⟨_, ofLiteral_integer n.toNat, gives_integer n.toNat, rfl⟩
  | big n => exact ⟨_, ofLiteral_integer n, gives_integer n, rfl⟩
  | float x =>
    cases hx : x.isFinite with
    | true =>
      obtain ⟨l, hl, ht⟩ := Binary64.text_interchange hx
      have hgives := gives_literal hl
      rw [Literal.text_eq_spell, ← ht] at hgives
      refine ⟨number l, ?_, ?_, by simp [isNothing, hx]; rfl⟩
      · rw [ofNumber, if_pos hx, ht, ofLiteral_spell (Or.inl rfl) hl]
      · rw [arriving, if_pos hx]
        exact hgives
    | false =>
      refine ⟨null, ?_, ⟨trivial, fun depth => ?_⟩, by simp [isNothing, hx]; rfl⟩
      · rw [ofNumber, hx]
        rfl
      · rw [arriving, hx, value.eq_def]
        rfl
  | text t =>
    cases ht : Literal.read (Number.stripZeros t.toList) with
    | ok l =>
      refine ⟨number l, by rw [ofNumber, ht], ?_, rfl⟩
      rw [arriving, ht]
      exact gives_literal (Literal.sound_of_read ht)
    | error e =>
      refine ⟨string (.ok t), by rw [ofNumber, ht], ⟨trivial, fun depth => ?_⟩, rfl⟩
      rw [arriving, ht, value.eq_def]
      rfl
  | decimal d =>
    cases hd : d.isWhole with
    | true =>
      refine ⟨number (Literal.ofInteger d.truncate), ?_, ?_, rfl⟩
      · rw [ofNumber, if_pos hd, ofLiteral_integer]
      · rw [arriving, if_pos hd]
        exact gives_integer d.truncate
    | false =>
      have hsound := d.sound_spelling
      refine ⟨number d.spelling.2, ?_, ?_, rfl⟩
      · rw [ofNumber, hd, if_neg Bool.false_ne_true, d.text_eq_spell,
          ofLiteral_spell d.spelling_mark hsound]
      · rw [arriving, hd, if_neg Bool.false_ne_true]
        exact gives_literal hsound

end Doc

end Json

end DecisionService
