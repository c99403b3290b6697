import Mathlib
import DecisionService.Proofs.Integer
import DecisionService.Proofs.Json.Literal
/-!
# The grammar of decimals

A decimal is written as a sign, digits that underscores may group, a point anywhere among them and
an exponent. A text is read as a decimal exactly when it is written so and its exponent and its
scale fit their words. No text is written so in two ways.
-/
namespace DecisionService

open Integer Json

def exponentOf : Option (Bool × List Char) → Int
  | none => 0
  | some (negative, digits) =>
    if negative then -(ofDigits digits : Int) else ofDigits digits

namespace Decimal

theorem span_append {p : Char → Bool} {xs : List Char} (ys : List Char) (hx : ∀ c ∈ xs, p c = true)
    (hy : ∀ c ∈ ys.head?, p c = false) : (xs ++ ys).span p = (xs, ys) := by
  have hdrop : ys.dropWhile p = ys := by
    cases ys with
    | nil => rfl
    | cons y ys => simp [hy y rfl]
  have htake : ys.takeWhile p = [] := by
    cases ys with
    | nil => rfl
    | cons y ys => simp [hy y rfl]
  rw [List.span_eq_takeWhile_dropWhile, List.takeWhile_append_of_pos hx,
    List.dropWhile_append_of_pos hx, hdrop, htake, List.append_nil]

private theorem span_eq {p : Char → Bool} {xs ys zs : List Char} (h : xs.span p = (ys, zs)) :
    xs = ys ++ zs ∧ ∀ c ∈ zs.head?, p c = false := by
  rw [List.span_eq_takeWhile_dropWhile] at h
  obtain ⟨rfl, rfl⟩ := Prod.mk.inj h
  refine ⟨List.takeWhile_append_dropWhile.symm, fun c hc => ?_⟩
  have hhead := List.head?_dropWhile_not p xs
  rw [Option.mem_def.mp hc] at hhead
  exact hhead

inductive ReadsExponent : List Char → Int → Prop
  | none : ReadsExponent [] 0
  | some {mark : Char} {digits : List Char} {exponent : Int}
    (h : readExponent digits = .ok exponent) : ReadsExponent (mark :: digits) exponent

def ReadsBase (base : List Char) (exponent : Int) (d : Decimal) : Prop :=
  ∃ m, readAny (splitPoint base).1 = .ok m
    ∧ (-(2 ^ 63) ≤ (splitPoint base).2 - exponent ∧ (splitPoint base).2 - exponent < 2 ^ 63)
    ∧ d = ⟨m, Int64.ofInt ((splitPoint base).2 - exponent)⟩

private theorem readBase_eq_ok_iff {base : List Char} {exponent : Int} {text : String}
    {d : Decimal} : (if base.isEmpty then .error .noDigits
      else
        let (digits, places) := splitPoint base
        let scale := (places : Int) - exponent
        if scale < -(2 ^ 63) || 2 ^ 63 ≤ scale then .error (.exponentOverflow text)
        else
          match readAny digits with
          | .ok n => .ok ⟨n, Int64.ofInt scale⟩
          | .error e => .error (.integer e) : Except Error Decimal) = .ok d
      ↔ ReadsBase base exponent d := by
  unfold ReadsBase
  by_cases hempty : base = []
  · subst hempty
    refine ⟨nofun, ?_⟩
    rintro ⟨m, hany, -⟩
    cases hany
  rw [if_neg (by simpa using hempty)]
  dsimp only
  split_ifs with hwide <;> simp only [Bool.or_eq_true, decide_eq_true_eq] at hwide
  · refine ⟨nofun, ?_⟩
    rintro ⟨m, -, hscale, -⟩
    omega
  · cases readAny (splitPoint base).1 with
    | ok m =>
      simp only [Except.ok.injEq, exists_eq_left', eq_comm (a := d), iff_and_self]
      omega
    | error e => simp

theorem read_eq_ok_iff_parts {text : List Char} {d : Decimal} : read text = .ok d
    ↔ ∃ exponent, ReadsExponent (text.span (fun c => c ≠ 'e' ∧ c ≠ 'E')).2 exponent
      ∧ ReadsBase (text.span (fun c => c ≠ 'e' ∧ c ≠ 'E')).1 exponent d := by
  rw [read]
  cases text.span (fun c => c ≠ 'e' ∧ c ≠ 'E') with
  | mk base rest =>
    cases rest with
    | nil =>
      refine readBase_eq_ok_iff.trans ⟨fun h => ⟨0, .none, h⟩, ?_⟩
      rintro ⟨_, hexponent, h⟩
      cases hexponent
      exact h
    | cons mark digits =>
      cases hread : readExponent digits with
      | ok exponent =>
        simp only [hread]
        refine readBase_eq_ok_iff.trans ⟨fun h => ⟨exponent, .some hread, h⟩, ?_⟩
        rintro ⟨_, hexponent, h⟩
        cases hexponent with
        | some hexponent =>
          cases hread.symm.trans hexponent
          exact h
      | error e =>
        simp only [hread]
        constructor
        · intro h
          cases h
        · rintro ⟨_, hexponent, -⟩
          cases hexponent with
          | some hexponent => cases hread.symm.trans hexponent

structure Numeral where
  sign : Sign
  digits : List Char
  /-- Where the point stands among the sign and the digits. -/
  point : Option Nat
  exponent : Option (Bool × List Char)
  grouped : Grouped digits
  point_le : ∀ k ∈ point, k ≤ (sign.text ++ digits).length
  exponent_digits : ∀ e ∈ exponent, e.2 ≠ [] ∧ ∀ c ∈ e.2, c.isDigit = true

namespace Numeral

theorem no_exponent_digits : ∀ e ∈ (none : Option (Bool × List Char)),
    e.2 ≠ [] ∧ ∀ c ∈ e.2, c.isDigit = true :=
  nofun

def signed (n : Numeral) : List Char :=
  n.sign.text ++ n.digits

def base (n : Numeral) : List Char :=
  match n.point with
  | none => n.signed
  | some k => n.signed.take k ++ '.' :: n.signed.drop k

def places (n : Numeral) : Nat :=
  match n.point with
  | none => 0
  | some k => ((n.signed.drop k).filter (· ≠ '_')).length

def unscaled (n : Numeral) : Int :=
  n.sign.apply (ofGrouped n.digits)

def scale (n : Numeral) : Int :=
  n.places - exponentOf n.exponent

def worth (n : Numeral) : ℚ :=
  n.unscaled * 10 ^ (-n.scale)

/-- The exponent is one of a 128-bit word, the scale one of a 64-bit word. -/
def Fits (n : Numeral) : Prop :=
  (-(2 ^ 127) ≤ exponentOf n.exponent ∧ exponentOf n.exponent ≤ 2 ^ 127 - 1)
    ∧ -(2 ^ 63) ≤ n.scale ∧ n.scale < 2 ^ 63

instance (n : Numeral) : Decidable n.Fits :=
  inferInstanceAs (Decidable (_ ∧ _))

def decimal (n : Numeral) : Decimal :=
  ⟨n.unscaled, Int64.ofInt n.scale⟩

/-- The texts of a numeral: the mark of the exponent and a plus behind it are free. -/
def Spells (n : Numeral) (text : List Char) : Prop :=
  ∃ e, Literal.SpellsExponent n.exponent e ∧ text = n.base ++ e

theorem mem_signed {n : Numeral} {c : Char} (hc : c ∈ n.signed) :
    c.isDigit = true ∨ c = '_' ∨ c = '+' ∨ c = '-' := by
  rcases List.mem_append.mp hc with hc | hc
  · cases hs : n.sign <;> simp_all [Sign.text]
  · rcases n.grouped.mem hc with hc | hc
    · exact Or.inl hc
    · exact Or.inr (Or.inl hc)

theorem signed_ne_point {n : Numeral} {c : Char} (hc : c ∈ n.signed) : c ≠ '.' := by
  rcases mem_signed hc with hc | rfl | rfl | rfl
  · exact digit_ne hc rfl
  all_goals decide

theorem base_ne_mark {n : Numeral} {c : Char} (hc : c ∈ n.base) : c ≠ 'e' ∧ c ≠ 'E' := by
  have hsigned : ∀ d ∈ n.signed, d ≠ 'e' ∧ d ≠ 'E' := by
    intro d hd
    rcases mem_signed hd with hd | rfl | rfl | rfl
    · exact ⟨digit_ne hd rfl, digit_ne hd rfl⟩
    all_goals decide
  unfold base at hc
  split at hc
  · exact hsigned c hc
  · rcases List.mem_append.mp hc with hc | hc
    · exact hsigned c (List.mem_of_mem_take hc)
    · rcases List.mem_cons.mp hc with rfl | hc
      · decide
      · exact hsigned c (List.mem_of_mem_drop hc)

theorem span_base (n : Numeral) : n.base.span (· ≠ '.') = match n.point with
    | none => (n.signed, [])
    | some k => (n.signed.take k, '.' :: n.signed.drop k) := by
  have hsigned : ∀ c ∈ n.signed, decide (c ≠ '.') = true :=
    fun c hc => decide_eq_true (signed_ne_point hc)
  unfold base
  split
  · have h := span_append [] hsigned (by simp)
    rwa [List.append_nil] at h
  · exact span_append _ (fun c hc => hsigned c (List.mem_of_mem_take hc)) (by simp)

theorem splitPoint_base (n : Numeral) : splitPoint n.base = (n.signed, n.places) := by
  rw [splitPoint, span_base]
  cases h : n.point <;> simp [base, places, h]

end Numeral

private theorem exists_mark {negative : Bool} {ds e : List Char}
    (h : Literal.SpellsExponent (some (negative, ds)) e) :
    ∃ (mark : Char) (s : Sign), e = mark :: (s.text ++ ds) ∧ negative = decide (s = .minus) := by
  cases h with
  | signed hm =>
    cases negative
    · exact ⟨_, .plus, rfl, rfl⟩
    · exact ⟨_, .minus, rfl, rfl⟩
  | unsigned hm => exact ⟨_, .absent, rfl, rfl⟩

private theorem exponentOf_sign (s : Sign) (ds : List Char) :
    exponentOf (some (decide (s = .minus), ds)) = s.apply (ofDigits ds) := by
  cases s <;> simp [exponentOf, Sign.apply]

private theorem spellsExponent_unique {x x' : Option (Bool × List Char)} {e : List Char}
    (h : Literal.SpellsExponent x e) (h' : Literal.SpellsExponent x' e)
    (hx : ∀ p ∈ x, p.2 ≠ [] ∧ ∀ c ∈ p.2, c.isDigit = true)
    (hx' : ∀ p ∈ x', p.2 ≠ [] ∧ ∀ c ∈ p.2, c.isDigit = true) : x = x' := by
  cases x with
  | none =>
    cases h
    cases h'
    rfl
  | some p =>
    obtain ⟨mark, s, rfl, hs⟩ := exists_mark h
    cases x' with
    | none => cases h'
    | some p' =>
      obtain ⟨mark', s', htext, hs'⟩ := exists_mark h'
      obtain ⟨hsign, hdigits⟩ := Grouped.signed_inj
        (grouped_of_digits (hx _ rfl).1 (hx _ rfl).2)
        (grouped_of_digits (hx' _ rfl).1 (hx' _ rfl).2) (List.cons.inj htext).2
      exact congrArg some (Prod.ext (by rw [hs, hs', hsign]) hdigits)

private theorem readExponent_eq_ok_iff {s : Sign} {ds : List Char} (hne : ds ≠ [])
    (hd : ∀ c ∈ ds, c.isDigit = true) {n : Int} : readExponent (s.text ++ ds) = .ok n
      ↔ n = s.apply (ofDigits ds) ∧ -(2 ^ 127) ≤ n ∧ n ≤ 2 ^ 127 - 1 := by
  rw [readExponent, readBetween_eq_ok_iff (by norm_num) (by norm_num)]
  constructor
  · rintro ⟨s', ds', hne', hd', htext, hn⟩
    obtain ⟨rfl, rfl⟩ := Grouped.signed_inj (grouped_of_digits hne hd) (grouped_of_digits hne' hd')
      htext
    exact hn
  · exact fun hn => ⟨s, ds, hne, hd, rfl, hn⟩

private theorem readsExponent_iff {x : Option (Bool × List Char)} {e : List Char}
    (h : Literal.SpellsExponent x e) (hx : ∀ p ∈ x, p.2 ≠ [] ∧ ∀ c ∈ p.2, c.isDigit = true)
    {m : Int} : ReadsExponent e m
      ↔ m = exponentOf x ∧ -(2 ^ 127) ≤ exponentOf x ∧ exponentOf x ≤ 2 ^ 127 - 1 := by
  cases x with
  | none =>
    cases h
    refine ⟨fun h => ?_, fun h => ?_⟩
    · cases h
      exact ⟨rfl, by norm_num [exponentOf]⟩
    · rw [h.1]
      exact .none
  | some p =>
    obtain ⟨negative, ds⟩ := p
    obtain ⟨mark, s, rfl, rfl⟩ := exists_mark h
    have hword := readExponent_eq_ok_iff (s := s) (hx _ rfl).1 (hx _ rfl).2 (n := m)
    rw [exponentOf_sign]
    refine ⟨fun h => ?_, fun h => ?_⟩
    · cases h with
      | some h =>
        obtain ⟨rfl, hrange⟩ := hword.mp h
        exact ⟨rfl, hrange⟩
    · refine .some (hword.mpr ⟨h.1, ?_⟩)
      rw [h.1]
      exact h.2

namespace Numeral

section Spells

variable {n n' : Numeral} {text : List Char}

theorem Spells.span_mark (h : n.Spells text) : ∃ e, Literal.SpellsExponent n.exponent e
    ∧ text.span (fun c => c ≠ 'e' ∧ c ≠ 'E') = (n.base, e) := by
  obtain ⟨e, he, rfl⟩ := h
  refine ⟨e, he, span_append e (fun c hc => decide_eq_true (base_ne_mark hc)) ?_⟩
  intro c hc
  generalize n.exponent = x at he
  cases he with
  | none => cases hc
  | signed hm | unsigned hm =>
    cases hc
    rcases hm with rfl | rfl <;> rfl

theorem readsBase_iff {exponent : Int} (he : exponent = exponentOf n.exponent) {d : Decimal} :
    ReadsBase n.base exponent d ↔ (-(2 ^ 63) ≤ n.scale ∧ n.scale < 2 ^ 63) ∧ d = n.decimal := by
  subst he
  have hany : readAny n.signed = .ok n.unscaled :=
    readAny_eq_ok_iff.mpr ⟨n.sign, n.digits, n.grouped, rfl, rfl⟩
  simp only [ReadsBase, splitPoint_base, hany, Except.ok.injEq, exists_eq_left']
  exact Iff.rfl

/-- A text that is written as a numeral is read exactly when the numeral fits. -/
theorem Spells.read_eq_ok_iff (h : n.Spells text) {d : Decimal} :
    read text = .ok d ↔ n.Fits ∧ d = n.decimal := by
  obtain ⟨e, he, hspan⟩ := h.span_mark
  have hexponent := fun m => readsExponent_iff he n.exponent_digits (m := m)
  rw [read_eq_ok_iff_parts, hspan]
  constructor
  · rintro ⟨exponent, hrest, hbase⟩
    obtain ⟨hx, hrange⟩ := (hexponent exponent).mp hrest
    obtain ⟨hscale, hd⟩ := (readsBase_iff hx).mp hbase
    exact ⟨⟨hrange, hscale⟩, hd⟩
  · rintro ⟨⟨hrange, hscale⟩, hd⟩
    exact ⟨_, (hexponent _).mpr ⟨rfl, hrange⟩, (readsBase_iff rfl).mpr ⟨hscale, hd⟩⟩

/-- No text is written as two numerals. -/
theorem Spells.unique (h : n.Spells text) (h' : n'.Spells text) : n = n' := by
  obtain ⟨e, he, hspan⟩ := h.span_mark
  obtain ⟨e', he', hspan'⟩ := h'.span_mark
  obtain ⟨hbase, rfl⟩ := Prod.mk.inj (hspan.symm.trans hspan')
  have hexponent : n.exponent = n'.exponent :=
    spellsExponent_unique he he' n.exponent_digits n'.exponent_digits
  have hpoint := n.span_base.symm.trans ((congrArg _ hbase).trans n'.span_base)
  have hboth : n.point = n'.point ∧ n.signed = n'.signed := by
    cases hk : n.point with
    | none =>
      cases hk' : n'.point with
      | none =>
        rw [hk, hk'] at hpoint
        exact ⟨rfl, (Prod.mk.inj hpoint).1⟩
      | some k' =>
        rw [hk, hk'] at hpoint
        cases (Prod.mk.inj hpoint).2
    | some k =>
      cases hk' : n'.point with
      | none =>
        rw [hk, hk'] at hpoint
        cases (Prod.mk.inj hpoint).2
      | some k' =>
        rw [hk, hk'] at hpoint
        obtain ⟨htake, hdrop⟩ := Prod.mk.inj hpoint
        have hk_le : k ≤ n.signed.length := n.point_le k hk
        have hk_le' : k' ≤ n'.signed.length := n'.point_le k' hk'
        have hlength := congrArg List.length htake
        rw [List.length_take_of_le hk_le, List.length_take_of_le hk_le'] at hlength
        refine ⟨congrArg some hlength, ?_⟩
        rw [← List.take_append_drop k n.signed, htake, (List.cons.inj hdrop).2,
          List.take_append_drop]
  obtain ⟨hsign, hdigits⟩ := Grouped.signed_inj n.grouped n'.grouped hboth.2
  cases n
  cases n'
  simp_all

end Spells

private theorem exists_base {base : List Char} {m : Int} (h : readAny (splitPoint base).1 = .ok m)
    {x : Option (Bool × List Char)} (hx : ∀ p ∈ x, p.2 ≠ [] ∧ ∀ c ∈ p.2, c.isDigit = true) :
    ∃ n : Numeral, n.base = base ∧ n.exponent = x := by
  obtain ⟨s, ds, hds, hsigned, -⟩ := readAny_eq_ok_iff.mp h
  rw [splitPoint.eq_def] at hsigned
  split at hsigned
  · next lead trail hspan =>
    have hbase := (span_eq hspan).1
    have hlength : lead.length ≤ (s.text ++ ds).length := by
      rw [← hsigned]
      simp
    refine ⟨⟨s, ds, some lead.length, x, hds, by simpa using hlength, hx⟩, ?_, rfl⟩
    simp only [Numeral.base, Numeral.signed, ← hsigned]
    simp [hbase]
  · exact ⟨⟨s, ds, none, x, hds, nofun, hx⟩, hsigned.symm, rfl⟩

theorem exists_spells {text : List Char} {d : Decimal} (h : read text = .ok d) :
    ∃ n : Numeral, n.Spells text := by
  obtain ⟨exponent, hrest, m, hm, -⟩ := read_eq_ok_iff_parts.mp h
  rcases hspan : text.span (fun c => c ≠ 'e' ∧ c ≠ 'E') with ⟨base, rest⟩
  rw [hspan] at hrest hm
  obtain ⟨rfl, hmark⟩ := span_eq hspan
  cases hrest with
  | none =>
    obtain ⟨n, rfl, hx⟩ := exists_base hm no_exponent_digits
    refine ⟨n, [], ?_, rfl⟩
    rw [hx]
    exact .none
  | @some mark digits _ hread =>
    rw [readExponent, readBetween_eq_ok_iff (by norm_num) (by norm_num)] at hread
    obtain ⟨s, ds, hne, hd, rfl, -⟩ := hread
    have hmarks : mark = 'e' ∨ mark = 'E' := by
      have := hmark mark rfl
      grind
    obtain ⟨n, rfl, hx⟩ := exists_base hm (x := some (decide (s = .minus), ds))
      (fun p hp => by
        cases hp
        exact ⟨hne, hd⟩)
    refine ⟨n, _, ?_, rfl⟩
    rw [hx]
    cases s
    · exact .unsigned hmarks ds
    · exact .signed hmarks false ds
    · exact .signed hmarks true ds

end Numeral

/-- A text is read as a decimal exactly when it is written as a numeral that fits. -/
theorem read_eq_ok_iff {text : List Char} {d : Decimal} :
    read text = .ok d ↔ ∃ n : Numeral, n.Spells text ∧ n.Fits ∧ d = n.decimal := by
  constructor
  · intro h
    obtain ⟨n, hn⟩ := Numeral.exists_spells h
    exact ⟨n, hn, hn.read_eq_ok_iff.mp h⟩
  · rintro ⟨n, hn, hfits⟩
    exact hn.read_eq_ok_iff.mpr hfits

end Decimal

end DecisionService
