import Mathlib
import DecisionService.Binary64.Notation
import DecisionService.Proofs.Decimal.Notation
/-!
# Binary64 notation is JSON notation

The text of a finite number is the text of a sound literal, and every sound literal is the text of
some binary64 number.
-/
namespace DecisionService.Binary64

open Json

def Digits.Written (d : Digits) : Prop :=
  d.digits = 0 → d.exponent = 0

private theorem written_onGrid {i : Interval} {exponent : Int} {d : Digits}
    (h : i.onGrid exponent = some d) : d.digits ≠ 0 := by
  unfold Interval.onGrid at h
  extract_lets lift drop num den below nearest other at h
  split_ifs at h with h1 h2
  · cases h
    simp only [Bool.and_eq_true, decide_eq_true_eq] at h1
    exact h1.1
  · cases h
    simp only [Bool.and_eq_true, decide_eq_true_eq] at h2
    exact h2.1

private theorem written_coarsest {i : Interval} (count : Nat) {exponent : Int} {d : Digits}
    (h : i.coarsest count exponent = some d) : d.digits ≠ 0 := by
  induction count generalizing exponent with
  | zero => cases h
  | succ count ih =>
    rw [Interval.coarsest] at h
    split at h
    · next heq =>
      cases h
      exact written_onGrid heq
    · exact ih h

private theorem written_trim (limit : Nat) {d : Digits} (h : d.digits ≠ 0) :
    (d.trim limit).digits ≠ 0 := by
  induction limit generalizing d with
  | zero => exact h
  | succ limit ih =>
    rw [Digits.trim]
    split
    · next hz =>
      apply ih
      change d.digits / 10 ≠ 0
      omega
    · exact h

theorem written_shortest (x : Binary64) : x.shortest.Written := by
  intro h
  unfold shortest at h ⊢
  extract_lets at h ⊢
  split
  · next heq =>
    rw [heq] at h
    exact absurd h (written_trim 17 (written_coarsest 17 heq))
  · rfl

private theorem spell_positional (negative : Bool) {d : Digits} (hd : d.Written) : ∃ l : Literal,
    l.Sound ∧ (if negative then ['-'] else [])
      ++ positionalText (Nat.toDigits 10 d.digits) d.exponent true = l.spell 'e' := by
  unfold positionalText
  by_cases h1 : 0 ≤ d.exponent
  · refine ⟨⟨negative, Nat.toDigits 10 d.digits ++ List.replicate d.exponent.toNat '0', ['0'], none⟩,
      Literal.sound_zeros_behind negative d.digits (fun h => ?_) (by simp), ?_⟩
    · rw [hd h]
      rfl
    · simp [Literal.spell, Literal.spellExponent, h1]
  simp only [h1, if_false]
  by_cases h2 : (-d.exponent).toNat < (Nat.toDigits 10 d.digits).length
  · refine ⟨_, Literal.sound_split negative d.digits (by omega) h2, ?_⟩
    have hdrop : ((Nat.toDigits 10 d.digits).drop
        ((Nat.toDigits 10 d.digits).length - (-d.exponent).toNat)).isEmpty = false := by
      rw [List.isEmpty_eq_false_iff, ne_eq, List.drop_eq_nil_iff]
      omega
    simp [Literal.spell, Literal.spellExponent, h2, hdrop]
  · refine ⟨_, Literal.sound_zeros_front negative d.digits
      ((-d.exponent).toNat - (Nat.toDigits 10 d.digits).length), ?_⟩
    simp [Literal.spell, Literal.spellExponent, h2, Nat.toDigits_ne_nil]

private theorem spell_scientific (negative : Bool) (n : Nat) (leading : Int) : ∃ l : Literal,
    l.Sound ∧ (if negative then ['-'] else []) ++ scientificText (Nat.toDigits 10 n) leading
      = l.spell 'e' := by
  refine ⟨_, Literal.sound_scientific negative n (e := Decimal.power leading)
    Nat.toDigits_ne_nil Integer.isDigit_toDigits, ?_⟩
  have hmark := Decimal.exponentText_eq 'e' leading
  rw [Decimal.exponentText] at hmark
  obtain ⟨c, ds, hds⟩ := List.exists_cons_of_ne_nil (Nat.toDigits_ne_nil (n := n) (b := 10))
  cases ds <;> simp [Literal.spell, scientificText, hmark, hds]

theorem text_interchange {x : Binary64} (h : x.isFinite = true) :
    ∃ l : Literal, l.Sound ∧ x.text interchange = l.spell 'e' := by
  have hfield : x.exponentField ≠ 2047 := by simpa [isFinite] using h
  have hnan : x.isNaN = false := by simp [isNaN, hfield]
  have hinf : x.isInfinite = false := by simp [isInfinite, hfield]
  unfold text
  rw [hnan, hinf]
  cases hz : x.isZero with
  | true =>
    have hsound : (⟨x.isNegative, ['0'], ['0'], none⟩ : Literal).Sound :=
      Literal.sound_zeros_behind x.isNegative 0 (fun _ => rfl) (by simp)
    exact ⟨_, hsound, by simp [Literal.spell, Literal.spellExponent, interchange]⟩
  | false =>
    simp only [Bool.false_eq_true, if_false]
    rw [Digits.text.eq_def]
    simp only [interchange]
    by_cases h : (decide (-5 ≤ x.shortest.exponent + (Nat.toDigits 10 x.shortest.digits).length - 1)
        && decide (x.shortest.exponent + (Nat.toDigits 10 x.shortest.digits).length - 1 ≤ 15)) = true
    · rw [if_pos h]
      exact spell_positional x.isNegative x.written_shortest
    · rw [if_neg h]
      exact spell_scientific x.isNegative _ _

private theorem readExponent_spelled {l : Literal} (h : l.Sound) :
    readExponent (Literal.spellExponent 'e' l.exponent) = some l.shiftBy := by
  cases he : l.exponent with
  | none => simp [readExponent, Literal.spellExponent, Literal.shiftBy, he]
  | some e =>
    obtain ⟨negative, ds⟩ := e
    obtain ⟨hne, hd⟩ := h.exponent_digits _ he
    have hempty : ds.isEmpty = false := List.isEmpty_eq_false_iff.mpr hne
    have hall : ds.all Char.isDigit = true := List.all_eq_true.mpr hd
    cases negative <;>
      simp [readExponent, Literal.spellExponent, Literal.shiftBy, he, hempty, hall]

private theorem head_spellExponent (exponent : Option (Bool × List Char)) :
    ∀ c ∈ (Literal.spellExponent 'e' exponent).head?, c.isDigit = false ∧ c ≠ '.' := by
  intro c hc
  cases exponent with
  | none => cases hc
  | some e =>
    cases hc
    decide

def ofLiteral (l : Literal) : Binary64 :=
  ofDecimalDigits l.negative (Integer.ofDigits (l.whole ++ l.fraction)) (-l.places)

private theorem readDigits_spelled {l : Literal} (h : l.Sound) :
    readDigits l.negative (l.whole ++ ((if l.fraction.isEmpty then [] else '.' :: l.fraction)
      ++ Literal.spellExponent 'e' l.exponent)) = some (ofLiteral l) := by
  have hn := readExponent_spelled h
  have hhead := head_spellExponent l.exponent
  have hwhole : l.whole.isEmpty = false := List.isEmpty_eq_false_iff.mpr h.whole_ne_nil
  have hplaces : -l.places = l.shiftBy - l.fraction.length := by
    rw [Literal.places]
    ring
  rw [ofLiteral, hplaces]
  cases hf : l.fraction with
  | nil =>
    rw [readDigits.eq_def, List.isEmpty_nil, if_pos rfl, List.nil_append,
      Decimal.span_append _ h.whole_digits fun c hc => (hhead c hc).1]
    have hrest : ∀ rest, Literal.spellExponent 'e' l.exponent ≠ '.' :: rest := by
      intro rest hr
      exact (hhead '.' (by rw [hr]; rfl)).2 rfl
    simp only [hwhole, Bool.false_and, Bool.false_eq_true, if_false, hn]
    rfl
  | cons d ds =>
    have hfraction : ∀ c ∈ d :: ds, c.isDigit = true := by
      rw [← hf]
      exact h.fraction_digits
    have hspan := Decimal.span_append (Literal.spellExponent 'e' l.exponent) hfraction
      fun c hc => (hhead c hc).1
    rw [readDigits.eq_def, Decimal.span_append _ h.whole_digits (by
      intro c hc
      cases hc
      rfl)]
    simp only [List.isEmpty_cons, Bool.false_eq_true, if_false, List.cons_append]
    rw [← List.cons_append, hspan]
    simp only [hwhole, Bool.false_and, Bool.false_eq_true, if_false, hn]
    rfl

private theorem toLower_digit {c : Char} (hc : c.isDigit = true) : c.toLower = c := by
  have hdigit : 48 ≤ c.toNat ∧ c.toNat ≤ 57 := by
    simpa [Char.isDigit, UInt32.le_iff_toNat_le] using hc
  apply Char.toLower_eq_of_not_isUpper
  intro h
  have hupper : 65 ≤ c.toNat ∧ c.toNat ≤ 90 := by
    simpa [Char.isUpper, UInt32.le_iff_toNat_le] using h
  omega

private theorem ofList_digit_ne {c : Char} (hc : c.isDigit = true) (cs : List Char) {word : String}
    (hword : ∀ d ∈ word.toList.head?, d.isDigit = false) :
    String.ofList ((c :: cs).map Char.toLower) ≠ word := by
  intro h
  rw [← h, List.map_cons, toLower_digit hc, String.toList_ofList] at hword
  exact Bool.noConfusion (hc.symm.trans (hword c rfl))

/-- A sound literal is read as the number that it stands for. -/
theorem read_text {l : Literal} (h : l.Sound) : read l.text = some (ofLiteral l) := by
  have hdigits := readDigits_spelled h
  rw [Literal.text_eq_spell, Literal.spell]
  obtain ⟨c, ds, hw⟩ := List.exists_cons_of_ne_nil h.whole_ne_nil
  have hc := h.whole_digits c (by simp [hw])
  have hword : ∀ (cs : List Char), ¬ (String.ofList ((c :: cs).map Char.toLower) = "inf"
      ∨ String.ofList ((c :: cs).map Char.toLower) = "infinity")
      ∧ ¬ String.ofList ((c :: cs).map Char.toLower) = "nan" := by
    intro cs
    rw [not_or]
    exact ⟨⟨ofList_digit_ne hc cs (by simp), ofList_digit_ne hc cs (by simp)⟩,
      ofList_digit_ne hc cs (by simp)⟩
  rw [hw, List.cons_append] at hdigits ⊢
  cases hnegative : l.negative with
  | true =>
    rw [hnegative] at hdigits
    simp only [if_true, List.cons_append, List.nil_append, read]
    rw [if_neg (hword _).1, if_neg (hword _).2, hdigits]
  | false =>
    rw [hnegative] at hdigits
    simp only [Bool.false_eq_true, if_false, List.nil_append]
    rw [read.eq_def]
    split
    next negative body heq =>
    split at heq
    · next hminus => exact absurd (List.cons.inj hminus).1 (Integer.digit_ne hc rfl)
    · next hplus => exact absurd (List.cons.inj hplus).1 (Integer.digit_ne hc rfl)
    · cases heq
      rw [← hdigits]
      simp only [(hword _).1, (hword _).2, if_false]

end DecisionService.Binary64
