import Mathlib
import DecisionService.Decimal.Notation
/-!
# Reading back integers

The digits of an integer are read back by every reader of integers: the one of unbounded integers
takes any, the one between two bounds takes exactly those within them.
-/
namespace DecisionService.Integer

theorem digit_ne {c d : Char} (hc : c.isDigit = true) (hd : d.isDigit = false) : c ≠ d := by
  intro h
  rw [h, hd] at hc
  exact Bool.noConfusion hc

theorem isDigit_toDigits {n : Nat} : ∀ c ∈ Nat.toDigits 10 n, c.isDigit = true :=
  fun _ hc => Nat.isDigit_of_mem_toDigits (by decide) (by decide) hc

@[simp] theorem ofDigits_toDigits (n : Nat) : ofDigits (Nat.toDigits 10 n) = n :=
  Nat.ofDigitChars_ten_toDigits

theorem ofDigits_append (xs ys : List Char) :
    ofDigits (xs ++ ys) = 10 ^ ys.length * ofDigits xs + ofDigits ys := by
  simp only [ofDigits]
  rw [Nat.ofDigitChars_append, Nat.ofDigitChars_eq_ofDigitChars_zero]

@[simp] theorem ofDigits_replicate_zero (n : Nat) : ofDigits (List.replicate n '0') = 0 := by
  simp only [ofDigits]
  rw [Nat.ofDigitChars_replicate_zero, Nat.mul_zero]

theorem head_toDigits_ne_zero {n : Nat} (hn : 0 < n) : (Nat.toDigits 10 n).head? ≠ some '0' := by
  induction n using Nat.strongRecOn with
  | ind n ih =>
    by_cases h : n < 10
    · rw [Nat.toDigits_of_lt_base h]
      interval_cases n <;> decide
    · have hq : n / 10 < n := by omega
      rw [Nat.toDigits_of_base_le (by decide) (by omega), List.head?_append_of_ne_nil _
        Nat.toDigits_ne_nil]
      exact ih (n / 10) hq (by omega)

theorem readGrouped_digits {ds : List Char} (hne : ds ≠ []) (hd : ∀ c ∈ ds, c.isDigit = true) :
    readGrouped ds = .ok (ofDigits ds) := by
  cases ds with
  | nil => exact absurd rfl hne
  | cons c rest =>
    have hc : c.isDigit = true := hd c List.mem_cons_self
    have hplus : c ≠ '+' := digit_ne hc rfl
    have hbar : c ≠ '_' := digit_ne hc rfl
    have hfilter : (c :: rest).filter (· ≠ '_') = c :: rest := by
      rw [List.filter_eq_self]
      intro x hx
      exact decide_eq_true (digit_ne (hd x hx) rfl)
    have hall : (c :: rest).all Char.isDigit = true := List.all_eq_true.mpr hd
    unfold readGrouped
    extract_lets unsigned digits
    have hsign : unsigned = c :: rest := by
      simp only [unsigned]
      split
      · next h => exact absurd (List.cons.inj h).1 hplus
      · rfl
    have hdigits : digits = c :: rest := by rw [← hfilter, ← hsign]
    rw [hdigits, if_pos hall]
    clear_value unsigned
    subst hsign
    split
    · next h => exact absurd h hne
    · next h => exact absurd (List.cons.inj h).1 hbar
    · rfl

theorem readAny_digits {ds : List Char} (hne : ds ≠ []) (hd : ∀ c ∈ ds, c.isDigit = true) :
    readAny ds = .ok (ofDigits ds : Int) := by
  have hminus : '-' ∉ ds := fun h => digit_ne (hd _ h) rfl rfl
  rw [readAny.eq_def]
  split
  · exact absurd List.mem_cons_self hminus
  · rw [readGrouped_digits hne hd]
    rfl

theorem readAny_minus {ds : List Char} (hne : ds ≠ []) (hd : ∀ c ∈ ds, c.isDigit = true) :
    readAny ('-' :: ds) = .ok (-(ofDigits ds : Int)) := by
  have hhead : ds.head? ≠ some '+' := fun h => digit_ne (hd _ (List.mem_of_mem_head? h)) rfl rfl
  simp only [readAny, hhead, if_false]
  rw [readGrouped_digits hne hd]
  rfl

/-- The text of an integer of any size reads back. -/
@[simp] theorem readAny_text (n : Int) : readAny (text n) = .ok n := by
  by_cases hn : n < 0
  · simp only [text, hn, if_true]
    rw [readAny_minus Nat.toDigits_ne_nil isDigit_toDigits, ofDigits_toDigits]
    exact congrArg Except.ok (by omega)
  · simp only [text, hn, if_false]
    rw [readAny_digits Nat.toDigits_ne_nil isDigit_toDigits, ofDigits_toDigits]
    exact congrArg Except.ok (by omega)

private theorem takeWhile_digits {ds : List Char} (hd : ∀ c ∈ ds, c.isDigit = true) :
    ds.takeWhile Char.isDigit = ds :=
  List.takeWhile_eq_self_iff.mpr hd

theorem readBetween_digits {least most : Int} {ds : List Char} (hne : ds ≠ [])
    (hd : ∀ c ∈ ds, c.isDigit = true) (hl : least ≤ ofDigits ds) :
    readBetween least most ds =
      if most < ofDigits ds then .error .tooLarge else .ok (ofDigits ds : Int) := by
  cases ds with
  | nil => exact absurd rfl hne
  | cons c rest =>
    have hc : c.isDigit = true := hd c List.mem_cons_self
    have hminus : (c == '-') = false := beq_false_of_ne (digit_ne hc rfl)
    have hplus : (c == '+') = false := beq_false_of_ne (digit_ne hc rfl)
    have hlow : ¬ (ofDigits (c :: rest) : Int) < least := by omega
    simp [readBetween, hminus, hplus, takeWhile_digits hd, hlow]

theorem readBetween_minus {least most : Int} {ds : List Char} (hne : ds ≠ [])
    (hd : ∀ c ∈ ds, c.isDigit = true) (hl : least < 0) (hm : 0 ≤ most) :
    readBetween least most ('-' :: ds) =
      if -(ofDigits ds : Int) < least then .error .tooSmall else .ok (-(ofDigits ds : Int)) := by
  have hhigh : ¬ most < -(ofDigits ds : Int) := by omega
  have hempty : ds.isEmpty = false := by simpa using hne
  simp [readBetween, hl, takeWhile_digits hd, hhigh, hempty]

/-- Where no number lies below zero, a minus is no part of one. -/
theorem readBetween_zero_minus {most : Int} (hm : 0 ≤ most) (ds : List Char) :
    readBetween 0 most ('-' :: ds) = .error .badDigit := by
  simp [readBetween, ofDigits, hm]

theorem readBetween_plus {least most : Int} {ds : List Char} (hne : ds ≠ [])
    (hd : ∀ c ∈ ds, c.isDigit = true) (hl : least ≤ 0) :
    readBetween least most ('+' :: ds) =
      if most < ofDigits ds then .error .tooLarge else .ok (ofDigits ds : Int) := by
  have hlow : ¬ (ofDigits ds : Int) < least := by omega
  have hempty : ds.isEmpty = false := by simpa using hne
  simp [readBetween, takeWhile_digits hd, hlow, hempty]

end DecisionService.Integer
