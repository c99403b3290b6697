import Mathlib
import DecisionService.Number.Basic
import DecisionService.Proofs.Decimal.Literal
import DecisionService.Proofs.Json.Spelling
import DecisionService.Proofs.Json.Untyped
/-!
# Zeros in front of a number

A zero is dropped when a digit follows it, and only then, so what is read as a decimal does not
change. What is left is a literal of JSON exactly when the numeral is plain, unless zeros stand
behind a minus sign: these are not dropped.
-/
namespace DecisionService

open Json

namespace Number

def StartsDigit (text : List Char) : Prop :=
  ∃ c ∈ text.head?, c.isDigit = true

theorem startsDigit_cons {c : Char} {rest : List Char} :
    StartsDigit (c :: rest) ↔ c.isDigit = true := by
  simp [StartsDigit]

theorem StartsDigit.append {text : List Char} (h : StartsDigit text) (rest : List Char) :
    StartsDigit (text ++ rest) := by
  obtain ⟨c, hc, hd⟩ := h
  obtain ⟨tail, rfl⟩ := List.head?_eq_some_iff.mp hc
  exact startsDigit_cons.mpr hd

theorem StartsDigit.of_append {text rest : List Char} (h : StartsDigit (text ++ rest))
    (hrest : ¬ StartsDigit rest) : StartsDigit text := by
  cases text with
  | nil => exact absurd h hrest
  | cons c tail => exact startsDigit_cons.mpr (startsDigit_cons.mp h)

/-- No zero stands in front of a digit. -/
def Stripped (text : List Char) : Prop :=
  ∀ rest, text = '0' :: rest → ¬ StartsDigit rest

theorem stripZeros_of_stripped {text : List Char} (h : Stripped text) : stripZeros text = text := by
  cases text with
  | nil => rfl
  | cons c rest =>
    by_cases hc : c = '0'
    · subst hc
      cases rest with
      | nil => rfl
      | cons d rest =>
        have hd : ¬ d.isDigit = true := fun hd => h _ rfl (startsDigit_cons.mpr hd)
        have hzero : d ≠ '0' := fun hzero => hd (by rw [hzero]; rfl)
        simp [stripZeros, hzero, hd]
    · simp [stripZeros, hc]

theorem stripZeros_zero_cons {rest : List Char} (h : StartsDigit rest) :
    stripZeros ('0' :: rest) = stripZeros rest := by
  cases rest with
  | nil => simp [StartsDigit] at h
  | cons d rest =>
    rw [startsDigit_cons] at h
    have hshort := (List.dropWhile_sublist (l := rest) (· == '0')).length_le
    by_cases hd : d = '0'
    · subst hd
      have hne : (rest.dropWhile (· == '0')).length ≠ rest.length + 1 := by omega
      have hne' : (rest.dropWhile (· == '0')).length ≠ rest.length + 1 + 1 := by omega
      simp [stripZeros, hne, hne']
    · simp [stripZeros, hd, h]

theorem stripZeros_induction {motive : List Char → Prop}
    (stripped : ∀ text, Stripped text → motive text)
    (zero : ∀ rest, StartsDigit rest → motive rest → motive ('0' :: rest)) (text : List Char) :
    motive text := by
  induction text with
  | nil => exact stripped [] nofun
  | cons c rest ih =>
    by_cases h : c = '0' ∧ StartsDigit rest
    · obtain ⟨rfl, hrest⟩ := h
      exact zero rest hrest ih
    · refine stripped _ fun tail htail hdigit => h ?_
      obtain ⟨rfl, rfl⟩ := List.cons.inj htail
      exact ⟨rfl, hdigit⟩

theorem stripped_stripZeros (text : List Char) : Stripped (stripZeros text) := by
  induction text using stripZeros_induction with
  | stripped text h => rwa [stripZeros_of_stripped h]
  | zero rest h ih => rwa [stripZeros_zero_cons h]

/-- What was dropped are zeros, and then a digit follows. -/
theorem exists_zeros (text : List Char) : ∃ j, text = List.replicate j '0' ++ stripZeros text
    ∧ (0 < j → StartsDigit (stripZeros text)) := by
  induction text using stripZeros_induction with
  | stripped text h => exact ⟨0, by rw [stripZeros_of_stripped h]; rfl, nofun⟩
  | zero rest h ih =>
    obtain ⟨j, htext, hdigit⟩ := ih
    rw [stripZeros_zero_cons h]
    refine ⟨j + 1, by rw [List.replicate_succ, List.cons_append, ← htext], fun _ => ?_⟩
    rcases Nat.eq_zero_or_pos j with rfl | hj
    · rw [htext] at h
      exact h
    · exact hdigit hj

theorem mem_of_mem_stripZeros {text : List Char} {c : Char} (hc : c ∈ stripZeros text) :
    c ∈ text := by
  obtain ⟨j, htext, -⟩ := exists_zeros text
  rw [htext]
  exact List.mem_append_right _ hc

theorem stripZeros_ne_nil {text : List Char} (h : text ≠ []) : stripZeros text ≠ [] := by
  intro hnil
  obtain ⟨j, htext, hdigit⟩ := exists_zeros text
  rw [hnil] at htext hdigit
  rcases Nat.eq_zero_or_pos j with rfl | hj
  · exact h htext
  · simpa [StartsDigit] using hdigit hj

theorem stripZeros_append {ds rest : List Char} (hd : ∀ c ∈ ds, c.isDigit = true) (hne : ds ≠ [])
    (hr : ¬ StartsDigit rest) : stripZeros (ds ++ rest) = stripZeros ds ++ rest := by
  induction ds using stripZeros_induction with
  | stripped ds h =>
    rw [stripZeros_of_stripped h]
    apply stripZeros_of_stripped
    intro tail htail
    obtain ⟨c, ds, rfl⟩ := List.exists_cons_of_ne_nil hne
    obtain ⟨rfl, rfl⟩ := List.cons.inj htail
    cases ds with
    | nil => exact hr
    | cons d ds => exact fun hstart => h _ rfl hstart
  | zero ds h ih =>
    have hne' : ds ≠ [] := by
      rintro rfl
      simp [StartsDigit] at h
    have hstart : StartsDigit (ds ++ rest) := by
      obtain ⟨c, ds, rfl⟩ := List.exists_cons_of_ne_nil hne'
      exact h
    rw [List.cons_append, stripZeros_zero_cons hstart, stripZeros_zero_cons h,
      ih (fun c hc => hd c (List.mem_cons_of_mem _ hc)) hne']

end Number

namespace Decimal

open Integer Number

private theorem not_startsDigit_exponent {x : Option (Bool × List Char)} {e : List Char}
    (h : Literal.SpellsExponent x e) : ¬ StartsDigit e := by
  cases h with
  | none => simp [StartsDigit]
  | signed hm | unsigned hm =>
    rw [startsDigit_cons]
    rcases hm with rfl | rfl <;> decide

namespace Numeral

section Pad

variable {n : Numeral} {text : List Char}

def pad (n : Numeral) : Numeral where
  sign := n.sign
  digits := '0' :: n.digits
  point := n.point.map (· + 1)
  exponent := n.exponent
  grouped := ⟨rfl, fun _ hd => n.grouped.mem hd⟩
  point_le k hk := by
    obtain ⟨j, hj, rfl⟩ := Option.map_eq_some_iff.mp hk
    have hle := n.point_le j hj
    simp only [List.length_append, List.length_cons] at hle ⊢
    omega
  exponent_digits := n.exponent_digits

theorem unscaled_pad (n : Numeral) : n.pad.unscaled = n.unscaled := by
  have hzero : ofDigits ['0'] = 0 := ofDigits_replicate_zero 1
  have hdigits : ofGrouped ('0' :: n.digits) = ofGrouped n.digits := by
    rw [ofGrouped, List.filter_cons_of_pos (by decide), ← List.singleton_append, ofDigits_append,
      hzero, Nat.mul_zero, Nat.zero_add]
    rfl
  rw [unscaled, unscaled, ← hdigits]
  rfl

theorem base_pad (h : n.sign = .absent) : n.pad.base = '0' :: n.base := by
  cases hk : n.point <;> simp [base, signed, pad, hk, h, Sign.text]

theorem scale_pad (h : n.sign = .absent) : n.pad.scale = n.scale := by
  have hplaces : n.pad.places = n.places := by
    cases hk : n.point <;> simp [places, signed, pad, hk, h, Sign.text]
  rw [scale, hplaces]
  rfl

theorem Spells.pad (h : n.Spells text) (hs : n.sign = .absent) : n.pad.Spells ('0' :: text) := by
  obtain ⟨e, he, rfl⟩ := h
  exact ⟨e, he, by rw [base_pad hs, List.cons_append]⟩

theorem Spells.sign_eq_absent (h : n.Spells text) (hstart : StartsDigit text) :
    n.sign = .absent := by
  obtain ⟨e, -, rfl⟩ := h
  have hsigned : ∀ c, ¬ c.isDigit = true → n.signed.head? = some c → False := by
    intro c hc hhead
    obtain ⟨rest, hrest⟩ := List.head?_eq_some_iff.mp hhead
    cases hk : n.point with
    | none =>
      rw [base, hk] at hstart
      simp only [hrest, List.cons_append, startsDigit_cons] at hstart
      exact hc hstart
    | some k =>
      rw [base, hk] at hstart
      cases k <;> simp only [hrest, List.take_zero, List.take_succ_cons, List.nil_append,
        List.cons_append, startsDigit_cons] at hstart
      · cases hstart
      · exact hc hstart
  cases hs : n.sign with
  | absent => rfl
  | plus => exact (hsigned '+' (by decide) (by rw [signed, hs]; rfl)).elim
  | minus => exact (hsigned '-' (by decide) (by rw [signed, hs]; rfl)).elim

/-- A zero in front of a digit is one of the digits, and without it a numeral is left. -/
theorem Spells.exists_pad {rest : List Char} (h : n.Spells ('0' :: rest))
    (hstart : StartsDigit rest) :
    ∃ n' : Numeral, n'.Spells rest ∧ n'.sign = .absent ∧ n = n'.pad := by
  have hs := h.sign_eq_absent (startsDigit_cons.mpr rfl)
  obtain ⟨e, he, htext⟩ := h
  obtain ⟨sign, digits, point, exponent, hgrouped, hpoint, hexponent⟩ := n
  obtain rfl : sign = .absent := hs
  obtain ⟨c, ds, rfl, -⟩ := hgrouped.exists_cons
  have hds : StartsDigit ds → Grouped ds := by
    rintro ⟨d, hd, hdigit⟩
    obtain ⟨tail, rfl⟩ := List.head?_eq_some_iff.mp hd
    exact ⟨hdigit, fun x hx => hgrouped.2 x (List.mem_cons_of_mem d hx)⟩
  cases point with
  | none =>
    obtain ⟨rfl, rfl⟩ := List.cons.inj htext
    have hfirst : StartsDigit ds := hstart.of_append (not_startsDigit_exponent he)
    exact ⟨⟨.absent, ds, none, exponent, hds hfirst, nofun, hexponent⟩, ⟨e, he, rfl⟩, rfl, rfl⟩
  | some k =>
    cases k with
    | zero => cases (List.cons.inj htext).1
    | succ k =>
      obtain ⟨rfl, hrest⟩ := List.cons.inj htext
      have hpoint' : ∀ j ∈ some k, j ≤ ds.length := fun j hj => by
        cases hj
        exact Nat.le_of_succ_le_succ (hpoint _ rfl)
      obtain rfl : rest = ds.take k ++ ('.' :: ds.drop k ++ e) :=
        hrest.trans (List.append_assoc _ _ _)
      have hfirst : StartsDigit (ds.take k) := hstart.of_append (mt startsDigit_cons.mp (by decide))
      have hall : StartsDigit ds := by
        rw [← List.take_append_drop k ds]
        exact hfirst.append _
      refine ⟨⟨.absent, ds, some k, exponent, hds hall, hpoint', hexponent⟩, ⟨e, he, ?_⟩, rfl, rfl⟩
      exact (List.append_assoc _ _ _).symm

end Pad

end Numeral

theorem read_zero_cons {rest : List Char} (h : StartsDigit rest) {d : Decimal} :
    read ('0' :: rest) = .ok d ↔ read rest = .ok d := by
  simp only [read_eq_ok_iff]
  constructor
  · rintro ⟨n, hn, hfits, rfl⟩
    obtain ⟨n', hn', hs, rfl⟩ := hn.exists_pad h
    refine ⟨n', hn', ?_, ?_⟩
    · rwa [Numeral.Fits, Numeral.scale_pad hs] at hfits
    · rw [Numeral.decimal, Numeral.unscaled_pad, Numeral.scale_pad hs, Numeral.decimal]
  · rintro ⟨n, hn, hfits, rfl⟩
    have hs := hn.sign_eq_absent h
    refine ⟨n.pad, hn.pad hs, ?_, ?_⟩
    · rwa [Numeral.Fits, Numeral.scale_pad hs]
    · rw [Numeral.decimal, Numeral.decimal, Numeral.unscaled_pad, Numeral.scale_pad hs]

theorem read_stripZeros {text : List Char} {d : Decimal} :
    read (stripZeros text) = .ok d ↔ read text = .ok d := by
  induction text using stripZeros_induction with
  | stripped text h => rw [stripZeros_of_stripped h]
  | zero rest h ih => rw [stripZeros_zero_cons h, ih, read_zero_cons h]

namespace Numeral

/-- A text is written as a numeral of the same worth, or as none, without the zeros in front of
it. -/
theorem exists_spells_stripZeros {text : List Char} {q : ℚ} :
    (∃ n : Numeral, n.Spells (stripZeros text) ∧ n.worth = q)
      ↔ ∃ n : Numeral, n.Spells text ∧ n.worth = q := by
  have hpad : ∀ n : Numeral, n.sign = .absent → n.pad.worth = n.worth := fun n hs => by
    rw [worth, unscaled_pad, scale_pad hs, worth]
  induction text using stripZeros_induction with
  | stripped text h => rw [stripZeros_of_stripped h]
  | zero rest h ih =>
    rw [stripZeros_zero_cons h]
    refine ih.trans ⟨?_, ?_⟩
    · rintro ⟨n, hn, rfl⟩
      have hs := hn.sign_eq_absent h
      exact ⟨n.pad, hn.pad hs, hpad n hs⟩
    · rintro ⟨n, hn, rfl⟩
      obtain ⟨n', hn', hs, rfl⟩ := hn.exists_pad h
      exact ⟨n', hn', (hpad n' hs).symm⟩

/-- Zeros stand behind a minus sign and in front of a digit. -/
def Padded (n : Numeral) : Prop :=
  n.sign = .minus ∧ ¬ Stripped n.whole

section Plain

variable {n : Numeral} {text : List Char}

def literal (n : Numeral) : Literal :=
  ⟨decide (n.sign = .minus), stripZeros n.whole, n.fraction, n.exponent⟩

theorem Plain.sound_literal (h : n.Plain) : n.literal.Sound where
  whole_ne_nil := stripZeros_ne_nil h.whole_ne_nil
  whole_digits c hc := h.whole_digits c (mem_of_mem_stripZeros hc)
  leading_zero hzero := by
    obtain ⟨rest, hrest⟩ := List.head?_eq_some_iff.mp hzero
    have hstripped := stripped_stripZeros n.whole rest hrest
    cases rest with
    | nil => exact hrest
    | cons c rest =>
      refine absurd (startsDigit_cons.mpr ?_) hstripped
      have hc : c ∈ stripZeros n.whole := by
        rw [show stripZeros n.whole = '0' :: c :: rest from hrest]
        simp
      exact h.whole_digits c (mem_of_mem_stripZeros hc)
  fraction_digits := h.fraction_digits
  exponent_digits := n.exponent_digits

theorem Plain.spells_literal (h : n.Plain) (hpadded : ¬ n.Padded) (ht : n.Spells text) :
    n.literal.Spells (stripZeros text) := by
  obtain ⟨e, he, rfl⟩ := ht
  refine ⟨e, he, ?_⟩
  rw [h.base_eq]
  have htail : ¬ StartsDigit ((if n.fraction.isEmpty then [] else '.' :: n.fraction) ++ e) := by
    split
    · exact not_startsDigit_exponent he
    · exact mt startsDigit_cons.mp (by decide)
  cases hs : n.sign with
  | absent =>
    simp only [Sign.text, List.nil_append, literal, hs]
    rw [List.append_assoc, stripZeros_append h.whole_digits h.whole_ne_nil htail]
    simp
  | plus => exact absurd hs h.sign_ne_plus
  | minus =>
    have hstripped : Stripped n.whole := not_not.mp fun hzeros => hpadded ⟨hs, hzeros⟩
    simp only [Sign.text, literal, hs, stripZeros_of_stripped hstripped]
    rw [stripZeros_of_stripped]
    · simp
    · intro rest hrest
      cases hrest

end Plain

theorem worth_ofLiteral (zeros : Nat) {l : Literal} (hl : l.Sound) :
    (ofLiteral zeros hl).worth = l.worth := by
  rw [worth, unscaled_ofLiteral, scale_ofLiteral, Literal.worth]

theorem exists_of_literal {l : Literal} (hl : l.Sound) {text : List Char}
    (ht : l.Spells (stripZeros text)) :
    ∃ n : Numeral, n.Spells text ∧ n.Plain ∧ n.worth = l.worth := by
  obtain ⟨j, htext, hdigit⟩ := exists_zeros text
  have hsign : 0 < j → l.negative = false := by
    intro hj
    obtain ⟨e, -, hspelled⟩ := ht
    obtain ⟨c, hc, hd⟩ := hdigit hj
    rw [hspelled] at hc
    by_contra hminus
    rw [Bool.not_eq_false] at hminus
    rw [hminus] at hc
    cases hc
    cases hd
  refine ⟨ofLiteral j hl, ?_, plain_ofLiteral hl, worth_ofLiteral j hl⟩
  rw [htext]
  exact spells_ofLiteral hl hsign ht

end Numeral

end Decimal

end DecisionService
