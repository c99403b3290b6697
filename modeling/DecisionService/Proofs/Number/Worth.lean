import Mathlib
import DecisionService.Proofs.Binary64.Exact
import DecisionService.Proofs.Number.Zeros
/-!
# What numbers stand for

A number stands for one rational number at most: a binary number that is not finite and a text that
is no numeral stand for none. The exponent and the scale of a text are not bounded here.
-/
namespace DecisionService.Number

/-- The number stands for a rational number, exactly. -/
inductive Worth : Number → ℚ → Prop
  | int (n : Int64) : Worth (.int n) n.toInt
  | uint (n : UInt64) : Worth (.uint n) n.toNat
  | big (n : Int) : Worth (.big n) n
  | float {x : Binary64} (h : x.isFinite = true) : Worth (.float x) x.toRat
  | text {t : String} {n : Decimal.Numeral} (h : n.Spells t.toList) : Worth (.text t) n.worth
  | decimal (d : Decimal) : Worth (.decimal d) d.toRat

theorem Worth.unique {n : Number} {q q' : ℚ} (h : n.Worth q) (h' : n.Worth q') : q = q' := by
  cases h with
  | text h =>
    cases h' with
    | text h' => rw [h.unique h']
  | int | uint | big | float | decimal =>
    cases h'
    rfl

theorem Worth.neg {x : Binary64} (h : x.isFinite = true) :
    (Number.float x.neg).Worth (-x.toRat) := by
  rw [← Binary64.toRat_neg]
  exact .float (by rwa [Binary64.isFinite_neg])

theorem Holds.worth {n : Number} {i : Int} (h : n.Holds i) : n.Worth i := by
  cases n with
  | int n =>
    rw [← show n.toInt = i from h]
    exact .int n
  | uint n =>
    rw [← show (n.toNat : Int) = i from h]
    exact .uint n
  | big n =>
    rw [← show n = i from h]
    exact .big n
  | decimal d =>
    rw [← show d.toRat = i from h]
    exact .decimal d
  | float | text => cases h

theorem toDecimal_text {t : String} {r : Decimal} : (Number.text t).toDecimal = .ok r
    ↔ ∃ d, Decimal.read t.toList = .ok d ∧ d.toDecimal128 = some r := by
  simp only [← @Decimal.read_stripZeros t.toList, toDecimal]
  cases Decimal.read (stripZeros t.toList) with
  | ok d => simp [limited_eq_ok_iff]
  | error e => simp

theorem toDecimal_text_eq_error {t : String} :
    (∃ e, (Number.text t).toDecimal = .error (.text t e)) ↔ ∀ d, Decimal.read t.toList ≠ .ok d := by
  simp only [ne_eq, ← @Decimal.read_stripZeros t.toList, toDecimal]
  cases Decimal.read (stripZeros t.toList) with
  | error e => simp
  | ok d =>
    refine iff_of_false ?_ fun h => h d rfl
    rintro ⟨e, he⟩
    simp only [limited] at he
    split at he <;> cases he

theorem toDecimal_text_overflow {t : String} : (Number.text t).toDecimal = .error .overflow
    ↔ ∃ d, Decimal.read t.toList = .ok d ∧ d.toDecimal128 = none := by
  simp only [← @Decimal.read_stripZeros t.toList, toDecimal]
  cases Decimal.read (stripZeros t.toList) with
  | error e => simp
  | ok d =>
    simp only [limited]
    cases hd : d.toDecimal128 <;> simp [hd]

/-- A number that is no text has a decimal, unless it is a binary number that is not finite. -/
theorem toDecimal_of_ne_text {n : Number} (h : ∀ t, n ≠ .text t) :
    (∃ d, n.toDecimal = .ok d) ∨ ∃ x e, n.toDecimal = .error (.float x e) := by
  cases n with
  | int | uint | big | decimal => exact Or.inl ⟨_, rfl⟩
  | text t => exact absurd rfl (h t)
  | float x =>
    rw [toDecimal]
    cases hx : x.toDecimal with
    | error e => exact Or.inr ⟨x, e, rfl⟩
    | ok d =>
      obtain ⟨d', r, hd, -, hr⟩ := Binary64.exists_toDecimal128 (Binary64.isFinite_of_toDecimal hx)
      cases hx.symm.trans hd
      exact Or.inl ⟨r, limited_eq_ok_iff.mpr hr⟩

/-- A text is read as the numeral it is written as, at the precision of decimal128. -/
theorem toDecimal_text_iff {t : String} {n : Decimal.Numeral} (h : n.Spells t.toList)
    {r : Decimal} :
    (Number.text t).toDecimal = .ok r ↔ n.Fits ∧ n.decimal.toDecimal128 = some r := by
  rw [toDecimal_text]
  constructor
  · rintro ⟨d, hread, hr⟩
    obtain ⟨hfits, rfl⟩ := h.read_eq_ok_iff.mp hread
    exact ⟨hfits, hr⟩
  · rintro ⟨hfits, hr⟩
    exact ⟨_, h.read_eq_ok_iff.mpr ⟨hfits, rfl⟩, hr⟩

theorem exists_of_toDecimal_text {t : String} {r : Decimal}
    (h : (Number.text t).toDecimal = .ok r) : ∃ n : Decimal.Numeral, n.Spells t.toList := by
  obtain ⟨d, hread, -⟩ := toDecimal_text.mp h
  exact Decimal.Numeral.exists_spells hread

/-- The zeros in front of a digit are dropped, all of them and nothing else. What is left is read as
the same decimal as the text, or like the text as none; and it stands for the same number, or like
the text for none. -/
theorem stripZeros_harmless (t : String) :
    (∃ zeros, t.toList = List.replicate zeros '0' ++ stripZeros t.toList)
    ∧ Stripped (stripZeros t.toList)
    ∧ (∀ d, Decimal.read (stripZeros t.toList) = .ok d ↔ Decimal.read t.toList = .ok d)
    ∧ ∀ q, (Number.text (String.ofList (stripZeros t.toList))).Worth q ↔ (Number.text t).Worth q := by
  have hworth : ∀ (s : String) (q : ℚ), (Number.text s).Worth q
      ↔ ∃ n : Decimal.Numeral, n.Spells s.toList ∧ n.worth = q := by
    refine fun s q => ⟨fun h => ?_, ?_⟩
    · cases h with
      | text h => exact ⟨_, h, rfl⟩
    · rintro ⟨n, hn, rfl⟩
      exact .text hn
  obtain ⟨zeros, htext, -⟩ := exists_zeros t.toList
  refine ⟨⟨zeros, htext⟩, stripped_stripZeros _, fun d => Decimal.read_stripZeros, fun q => ?_⟩
  rw [hworth, hworth, String.toList_ofList]
  exact Decimal.Numeral.exists_spells_stripZeros

example : Decimal.read (stripZeros "00_7".toList) = Decimal.read "00_7".toList := by decide

end DecisionService.Number
