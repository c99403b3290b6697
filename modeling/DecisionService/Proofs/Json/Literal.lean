import Mathlib
import DecisionService.Json.Literal
import DecisionService.Proofs.Numeral
import DecisionService.Proofs.Outcome
import DecisionService.Proofs.Utf8
/-!
# Literals read back

A literal is sound when its digits are digits, some stand before the point, and a zero in front
stands alone. Scanning yields sound literals only, and a sound literal is scanned back from its
text, whichever of both marks its exponent carries.
-/
namespace DecisionService.Json.Literal

structure Sound (l : Literal) : Prop where
  whole_ne_nil : l.whole ≠ []
  whole_digits : ∀ c ∈ l.whole, c.isDigit = true
  leading_zero : l.whole.head? = some '0' → l.whole = ['0']
  fraction_digits : ∀ c ∈ l.fraction, c.isDigit = true
  exponent_digits : ∀ e, l.exponent = some e → e.2 ≠ [] ∧ ∀ c ∈ e.2, c.isDigit = true

def spellExponent (mark : Char) : Option (Bool × List Char) → List Char
  | none => []
  | some (negative, digits) => mark :: (if negative then '-' else '+') :: digits

def spell (mark : Char) (l : Literal) : List Char :=
  (if l.negative then ['-'] else []) ++ (l.whole
    ++ ((if l.fraction.isEmpty then [] else '.' :: l.fraction) ++ spellExponent mark l.exponent))

inductive SpellsExponent : Option (Bool × List Char) → List Char → Prop
  | none : SpellsExponent none []
  | signed {mark : Char} (hm : mark = 'e' ∨ mark = 'E') (negative : Bool) (digits : List Char) :
    SpellsExponent (some (negative, digits)) (mark :: (if negative then '-' else '+') :: digits)
  | unsigned {mark : Char} (hm : mark = 'e' ∨ mark = 'E') (digits : List Char) :
    SpellsExponent (some (false, digits)) (mark :: digits)

/-- The texts of a literal: all that the grammar lets it be written as. -/
def Spells (l : Literal) (text : List Char) : Prop :=
  ∃ exponent, SpellsExponent l.exponent exponent
    ∧ text = (if l.negative then ['-'] else []) ++ (l.whole
      ++ ((if l.fraction.isEmpty then [] else '.' :: l.fraction) ++ exponent))

theorem spells_spell {mark : Char} (hm : mark = 'e' ∨ mark = 'E') (l : Literal) :
    l.Spells (l.spell mark) := by
  refine ⟨spellExponent mark l.exponent, ?_, rfl⟩
  cases l.exponent with
  | none => exact .none
  | some e => exact .signed hm e.1 e.2

theorem text_eq_spell (l : Literal) : l.text = l.spell 'e' := by
  cases h : l.exponent <;> simp [text, spell, spellExponent, h]

theorem spells_text (l : Literal) : l.Spells l.text := by
  rw [text_eq_spell]
  exact spells_spell (Or.inl rfl) l

def NoDigit (rest : Bytes) : Prop :=
  ∀ b ∈ rest.head?, isDigit b = false

def Ends (rest : Bytes) : Prop :=
  ∀ b ∈ rest.head?, isDigit b = false ∧ b ≠ 0x2E ∧ b ≠ 0x65 ∧ b ≠ 0x45

theorem Ends.noDigit {rest : Bytes} (h : Ends rest) : NoDigit rest :=
  fun b hb => (h b hb).1

@[simp] theorem ends_nil : Ends [] := by
  intro b hb
  cases hb

private theorem noDigit_cons {b : UInt8} {rest : Bytes} (h : isDigit b = false) :
    NoDigit (b :: rest) := by
  intro c hc
  cases hc
  exact h

private theorem digit_toNat {c : Char} (hc : c.isDigit = true) :
    (UInt8.ofNat c.toNat).toNat = c.toNat ∧ 48 ≤ c.toNat ∧ c.toNat ≤ 57 := by
  have h : 48 ≤ c.toNat ∧ c.toNat ≤ 57 := by
    simpa [Char.isDigit, UInt32.le_iff_toNat_le] using hc
  refine ⟨?_, h⟩
  rw [UInt8.toNat_ofNat']
  exact Nat.mod_eq_of_lt (by omega)

private theorem isDigit_iff (b : UInt8) : isDigit b = true ↔ 48 ≤ b.toNat ∧ b.toNat ≤ 57 := by
  simp only [isDigit, UInt8.le_iff_toNat_le, Bool.and_eq_true, decide_eq_true_eq,
    UInt8.reduceToNat]

theorem isDigit_ofNat {c : Char} (hc : c.isDigit = true) :
    isDigit (UInt8.ofNat c.toNat) = true := by
  obtain ⟨h, hl⟩ := digit_toNat hc
  rw [isDigit_iff, h]
  exact hl

private theorem isDigit_char {b : UInt8} (hb : isDigit b = true) :
    (Char.ofNat b.toNat).isDigit = true := by
  have h := (isDigit_iff b).mp hb
  have hn : b.toNat ∈ List.range' 48 10 := by
    rw [List.mem_range'_1]
    omega
  generalize b.toNat = n at hn
  revert n
  decide

theorem digits_append {ds : List Char} {rest : Bytes} (hd : ∀ c ∈ ds, c.isDigit = true)
    (hr : NoDigit rest) : digits (Bytes.ofAscii ds ++ rest) = (ds, rest) := by
  induction ds with
  | nil =>
    cases rest with
    | nil => rfl
    | cons b rest => simp [Bytes.ofAscii, digits, hr b rfl]
  | cons c ds ih =>
    have hc := hd c List.mem_cons_self
    have hrest := ih fun x hx => hd x (List.mem_cons_of_mem _ hx)
    simp only [Bytes.ofAscii] at hrest
    simp only [Bytes.ofAscii, List.map_cons, List.cons_append, digits, isDigit_ofNat hc, if_true,
      hrest, (digit_toNat hc).1, Char.ofNat_toNat]

theorem someDigits_append {ds : List Char} {rest : Bytes} (hne : ds ≠ [])
    (hd : ∀ c ∈ ds, c.isDigit = true) (hr : NoDigit rest) :
    someDigits (Bytes.ofAscii ds ++ rest) = .ok (ds, rest) := by
  rw [someDigits, digits_append hd hr]
  split
  · next h => exact absurd (Prod.mk.inj h).1 hne
  · next h => exact absurd (Prod.mk.inj h).1 hne
  · rfl

theorem digits_sound (bytes : Bytes) :
    (∀ c ∈ (digits bytes).1, c.isDigit = true) ∧ NoDigit (digits bytes).2 := by
  induction bytes with
  | nil => exact ⟨by simp [digits], by simp [digits, NoDigit]⟩
  | cons b rest ih =>
    by_cases hb : isDigit b = true
    · simp only [digits, hb, if_true, List.mem_cons, forall_eq_or_imp]
      exact ⟨⟨isDigit_char hb, ih.1⟩, ih.2⟩
    · simp only [digits, hb]
      exact ⟨by simp, noDigit_cons (by simpa using hb)⟩

theorem someDigits_sound {bytes rest : Bytes} {ds : List Char}
    (h : someDigits bytes = .ok (ds, rest)) : ds ≠ [] ∧ ∀ c ∈ ds, c.isDigit = true := by
  have hd := (digits_sound bytes).1
  rw [someDigits] at h
  split at h
  · cases h
  · cases h
  · next hne _ =>
    have hds : digits bytes = (ds, rest) := Except.ok.inj h
    rw [hds] at hd hne
    refine ⟨fun hnil => ?_, hd⟩
    subst hnil
    cases rest with
    | nil => exact hne rfl
    | cons b rest => simp_all

theorem scanWhole_append {ds : List Char} {rest : Bytes} (hne : ds ≠ [])
    (hd : ∀ c ∈ ds, c.isDigit = true) (hz : ds.head? = some '0' → ds = ['0'])
    (hr : NoDigit rest) : scanWhole (Bytes.ofAscii ds ++ rest) = .ok (ds, rest) := by
  by_cases h0 : ds.head? = some '0'
  · rw [hz h0]
    cases rest with
    | nil => rfl
    | cons b rest =>
      have hb : isDigit b = false := hr b rfl
      change (if isDigit b = true then _ else _) = _
      rw [hb]
      rfl
  · rw [← someDigits_append hne hd hr]
    cases ds with
    | nil => exact absurd rfl hne
    | cons c ds =>
      have hc := digit_toNat (hd c List.mem_cons_self)
      have hb : UInt8.ofNat c.toNat ≠ 0x30 := by
        intro h
        have hn : c.toNat = 48 := by
          rw [← hc.1, h]
          rfl
        have hc0 : c = '0' := by rw [← Char.ofNat_toNat c, hn]
        exact h0 (by simp [hc0])
      rw [scanWhole]
      intro tail h
      exact hb (List.cons.inj h).1

theorem scanFraction_append {ds : List Char} {rest : Bytes} (hd : ∀ c ∈ ds, c.isDigit = true)
    (hr : NoDigit rest) (hp : ∀ b ∈ rest.head?, b ≠ 0x2E) :
    scanFraction (Bytes.ofAscii (if ds.isEmpty then [] else '.' :: ds) ++ rest)
      = .ok (ds, rest) := by
  cases ds with
  | nil =>
    cases rest with
    | nil => rfl
    | cons b rest =>
      change scanFraction (b :: rest) = _
      rw [scanFraction]
      intro tail h
      exact hp b rfl (List.cons.inj h).1
  | cons c ds => exact someDigits_append (List.cons_ne_nil _ _) hd hr

private theorem scanExponentDigits_append (negative : Bool) {ds : List Char} {rest : Bytes}
    (hne : ds ≠ []) (hd : ∀ c ∈ ds, c.isDigit = true) (hr : NoDigit rest) :
    scanExponentDigits (Bytes.ofAscii ((if negative then '-' else '+') :: ds) ++ rest)
      = .ok (some (negative, ds), rest) := by
  have h := someDigits_append hne hd hr
  cases negative
  · change (someDigits (Bytes.ofAscii ds ++ rest)).bind _ = _
    rw [h]
    rfl
  · change (someDigits (Bytes.ofAscii ds ++ rest)).bind _ = _
    rw [h]
    rfl

private theorem scanExponentDigits_unsigned {ds : List Char} {rest : Bytes} (hne : ds ≠ [])
    (hd : ∀ c ∈ ds, c.isDigit = true) (hr : NoDigit rest) :
    scanExponentDigits (Bytes.ofAscii ds ++ rest) = .ok (some (false, ds), rest) := by
  have h := someDigits_append hne hd hr
  obtain ⟨c, cs, rfl⟩ := List.exists_cons_of_ne_nil hne
  have hc := isDigit_ofNat (hd c List.mem_cons_self)
  have sign : ∀ b, isDigit b = false → UInt8.ofNat c.toNat ≠ b := by
    rintro b hb rfl
    rw [hc] at hb
    cases hb
  rw [scanExponentDigits, h]
  · rfl
  · intro tail heq
    exact sign 0x2B rfl (List.cons.inj heq).1
  · intro tail heq
    exact sign 0x2D rfl (List.cons.inj heq).1

theorem scanExponent_append {exponent : Option (Bool × List Char)} {text : List Char}
    (ht : SpellsExponent exponent text) {rest : Bytes}
    (he : ∀ e, exponent = some e → e.2 ≠ [] ∧ ∀ c ∈ e.2, c.isDigit = true) (hr : Ends rest) :
    scanExponent (Bytes.ofAscii text ++ rest) = .ok (exponent, rest) := by
  cases ht with
  | none =>
    cases rest with
    | nil => rfl
    | cons b rest =>
      have hb := hr b rfl
      change scanExponent (b :: rest) = _
      rw [scanExponent]
      · intro tail h
        exact hb.2.2.1 (List.cons.inj h).1
      · intro tail h
        exact hb.2.2.2 (List.cons.inj h).1
  | signed hm negative ds =>
    have hds := he _ rfl
    have h := scanExponentDigits_append negative hds.1 hds.2 hr.noDigit
    rcases hm with rfl | rfl <;> exact h
  | unsigned hm ds =>
    have hds := he _ rfl
    have h := scanExponentDigits_unsigned hds.1 hds.2 hr.noDigit
    rcases hm with rfl | rfl <;> exact h

private theorem noDigit_exponent {exponent : Option (Bool × List Char)} {text : List Char}
    (ht : SpellsExponent exponent text) {rest : Bytes} (hr : Ends rest) :
    NoDigit (Bytes.ofAscii text ++ rest) ∧ ∀ b ∈ (Bytes.ofAscii text ++ rest).head?, b ≠ 0x2E := by
  cases ht with
  | none => exact ⟨hr.noDigit, fun b hb => (hr b hb).2.1⟩
  | signed hm | unsigned hm =>
    rcases hm with rfl | rfl
    · refine ⟨noDigit_cons (by decide), fun b hb => ?_⟩
      cases hb
      decide
    · refine ⟨noDigit_cons (by decide), fun b hb => ?_⟩
      cases hb
      decide

private theorem noDigit_fraction (ds : List Char) {rest : Bytes} (hr : NoDigit rest) :
    NoDigit (Bytes.ofAscii (if ds.isEmpty then [] else '.' :: ds) ++ rest) := by
  cases ds with
  | nil => exact hr
  | cons c ds => exact noDigit_cons (by decide)

theorem ofAscii_append (xs ys : List Char) :
    Bytes.ofAscii (xs ++ ys) = Bytes.ofAscii xs ++ Bytes.ofAscii ys :=
  List.map_append

private theorem scanUnsigned_append {l : Literal} (hl : l.Sound) {exponent : List Char}
    (ht : SpellsExponent l.exponent exponent) {rest : Bytes} (hr : Ends rest) :
    scanUnsigned l.negative (Bytes.ofAscii (l.whole
      ++ ((if l.fraction.isEmpty then [] else '.' :: l.fraction) ++ exponent)) ++ rest)
      = .ok (l, rest) := by
  have he := noDigit_exponent ht hr
  simp only [ofAscii_append, List.append_assoc]
  rw [scanUnsigned, scanWhole_append hl.whole_ne_nil hl.whole_digits hl.leading_zero
    (noDigit_fraction l.fraction he.1)]
  change (scanFraction _).bind _ = _
  rw [scanFraction_append hl.fraction_digits he.1 he.2]
  change (scanExponent _).bind _ = _
  rw [scanExponent_append ht hl.exponent_digits hr]
  rfl

/-- A literal is scanned back from whatever it is written as. -/
theorem scan_append {l : Literal} (hl : l.Sound) {text : List Char} (ht : l.Spells text)
    {rest : Bytes} (hr : Ends rest) : scan (Bytes.ofAscii text ++ rest) = .ok (l, rest) := by
  obtain ⟨exponent, he, rfl⟩ := ht
  have h := scanUnsigned_append hl he hr
  cases hn : l.negative with
  | true =>
    rw [hn] at h
    exact h
  | false =>
    rw [hn] at h
    rw [← h]
    obtain ⟨c, ds, hw⟩ := List.exists_cons_of_ne_nil hl.whole_ne_nil
    have hc := digit_toNat (hl.whole_digits c (by simp [hw]))
    have hb : UInt8.ofNat c.toNat ≠ 0x2D := by
      intro he
      have hv : c.toNat = 45 := by
        rw [← hc.1, he]
        rfl
      omega
    simp only [hw, List.cons_append, Bytes.ofAscii, List.map_cons, List.nil_append,
      Bool.false_eq_true, if_false]
    rw [scan]
    intro tail h
    exact hb (List.cons.inj h).1

private theorem scanWhole_sound {bytes rest : Bytes} {ds : List Char}
    (h : scanWhole bytes = .ok (ds, rest)) :
    ds ≠ [] ∧ (∀ c ∈ ds, c.isDigit = true) ∧ (ds.head? = some '0' → ds = ['0']) := by
  have zero : ['0'] ≠ [] ∧ (∀ c ∈ ['0'], c.isDigit = true)
      ∧ (['0'].head? = some '0' → ['0'] = ['0']) :=
    ⟨List.cons_ne_nil _ _, fun c hc => List.mem_singleton.mp hc ▸ rfl, fun _ => rfl⟩
  rw [scanWhole.eq_def] at h
  split at h
  · split at h
    · split at h
      · cases h
      · cases h
        exact zero
    · cases h
      exact zero
  · next hne =>
    have hs := someDigits_sound h
    refine ⟨hs.1, hs.2, fun h0 => ?_⟩
    -- the digits start with the first byte, which is no zero
    cases bytes with
    | nil => cases h
    | cons b tail =>
      exfalso
      have hd : digits (b :: tail) = (ds, rest) := by
        rw [someDigits] at h
        split at h
        · cases h
        · cases h
        · exact Except.ok.inj h
      by_cases hb : isDigit b = true
      · have hbn := (isDigit_iff b).mp hb
        simp only [digits, hb, if_true] at hd
        have hc : Char.ofNat b.toNat = '0' := by
          rw [← (Prod.mk.inj hd).1] at h0
          exact Option.some.inj h0
        have hv : b.toNat = 48 := by
          have hn : b.toNat ∈ List.range' 48 10 := by
            rw [List.mem_range'_1]
            omega
          generalize b.toNat = n at hn hc
          revert n
          decide
        have hb0 : b = 0x30 := UInt8.toNat_inj.mp (by simpa using hv)
        exact hne tail (by rw [hb0])
      · simp only [digits, hb] at hd
        exact hs.1 (Prod.mk.inj hd).1.symm

private theorem scanFraction_sound {bytes rest : Bytes} {ds : List Char}
    (h : scanFraction bytes = .ok (ds, rest)) : ∀ c ∈ ds, c.isDigit = true := by
  rw [scanFraction.eq_def] at h
  split at h
  · exact (someDigits_sound h).2
  · cases h
    simp

private theorem scanExponentDigits_sound {bytes rest : Bytes} {e : Option (Bool × List Char)}
    (h : scanExponentDigits bytes = .ok (e, rest)) :
    ∀ x, e = some x → x.2 ≠ [] ∧ ∀ c ∈ x.2, c.isDigit = true := by
  rw [scanExponentDigits.eq_def] at h
  intro x hx
  split at h <;>
  · obtain ⟨⟨run, tail⟩, hrun, he⟩ := Outcome.bind_eq_ok.mp h
    cases he
    cases hx
    exact someDigits_sound hrun

private theorem scanExponent_sound {bytes rest : Bytes} {e : Option (Bool × List Char)}
    (h : scanExponent bytes = .ok (e, rest)) :
    ∀ x, e = some x → x.2 ≠ [] ∧ ∀ c ∈ x.2, c.isDigit = true := by
  rw [scanExponent.eq_def] at h
  split at h
  · exact scanExponentDigits_sound h
  · exact scanExponentDigits_sound h
  · intro x hx
    cases h
    cases hx

theorem sound_of_scan {bytes rest : Bytes} {l : Literal} (h : scan bytes = .ok (l, rest)) :
    l.Sound := by
  have unsigned : ∀ negative bytes, scanUnsigned negative bytes = .ok (l, rest) → l.Sound := by
    intro negative bytes h
    obtain ⟨⟨whole, r1⟩, hw, h⟩ := Outcome.bind_eq_ok.mp h
    obtain ⟨⟨fraction, r2⟩, hf, h⟩ := Outcome.bind_eq_ok.mp h
    obtain ⟨⟨exponent, r3⟩, he, h⟩ := Outcome.bind_eq_ok.mp h
    cases h
    have hs := scanWhole_sound hw
    exact ⟨hs.1, hs.2.1, hs.2.2, scanFraction_sound hf, scanExponent_sound he⟩
  rw [scan.eq_def] at h
  split at h
  · exact unsigned _ _ h
  · exact unsigned _ _ h

private theorem digit_ascii {c : Char} (hc : c.isDigit = true) : c.toNat < 0x80 := by
  have h := (digit_toNat hc).2
  omega

theorem spell_ascii {mark : Char} (hm : mark = 'e' ∨ mark = 'E') {l : Literal} (hl : l.Sound) :
    ∀ c ∈ l.spell mark, c.toNat < 0x80 := by
  intro c hc
  simp only [spell, List.mem_append] at hc
  rcases hc with hc | hc | hc | hc
  · split at hc
    · rw [List.mem_singleton.mp hc]
      decide
    · cases hc
  · exact digit_ascii (hl.whole_digits c hc)
  · split at hc
    · cases hc
    · rcases List.mem_cons.mp hc with rfl | hc
      · decide
      · exact digit_ascii (hl.fraction_digits c hc)
  · cases he : l.exponent with
    | none => simp [he, spellExponent] at hc
    | some e =>
      obtain ⟨negative, ds⟩ := e
      simp only [he, spellExponent, List.mem_cons] at hc
      rcases hc with rfl | rfl | hc
      · rcases hm with rfl | rfl <;> decide
      · cases negative <;> decide
      · exact digit_ascii ((hl.exponent_digits _ he).2 c hc)

theorem read_spell {mark : Char} (hm : mark = 'e' ∨ mark = 'E') {l : Literal} (hl : l.Sound) :
    read (l.spell mark) = .ok l := by
  have h := scan_append hl (spells_spell hm l) ends_nil
  rw [List.append_nil] at h
  rw [read, Utf8.encodeChars_ascii (spell_ascii hm hl), h]
  rfl

theorem sound_of_read {text : List Char} {l : Literal} (h : read text = .ok l) : l.Sound := by
  obtain ⟨⟨l', rest⟩, hscan, h⟩ := Outcome.bind_eq_ok.mp h
  split at h
  · next heq =>
    cases heq
    cases h
    exact sound_of_scan hscan
  · cases h

def ofInteger (n : Int) : Literal :=
  ⟨n < 0, Nat.toDigits 10 n.natAbs, [], none⟩

@[simp] theorem text_ofInteger (n : Int) : (ofInteger n).text = Integer.text n := by
  by_cases h : n < 0 <;> simp [ofInteger, text, Integer.text, h]

theorem leading_zero_toDigits (n : Nat) :
    (Nat.toDigits 10 n).head? = some '0' → Nat.toDigits 10 n = ['0'] := by
  intro h
  rcases Nat.eq_zero_or_pos n with rfl | hn
  · rfl
  · exact absurd h (Integer.head_toDigits_ne_zero hn)

section Digits

variable (negative : Bool) (n : Nat)

private theorem isDigit_replicate (count : Nat) :
    ∀ c ∈ List.replicate count '0', c.isDigit = true := by
  intro c hc
  rw [List.eq_of_mem_replicate hc]
  rfl

theorem sound_zeros_behind {count : Nat} (h : n = 0 → count = 0) {fraction : List Char}
    (hf : ∀ c ∈ fraction, c.isDigit = true) :
    Sound ⟨negative, Nat.toDigits 10 n ++ List.replicate count '0', fraction, none⟩ where
  whole_ne_nil := List.append_ne_nil_of_left_ne_nil Nat.toDigits_ne_nil _
  whole_digits c hc := by
    rcases List.mem_append.mp hc with hc | hc
    · exact Integer.isDigit_toDigits c hc
    · exact isDigit_replicate count c hc
  leading_zero hhead := by
    rcases Nat.eq_zero_or_pos n with rfl | hn
    · rw [h rfl]
      rfl
    · rw [List.head?_append_of_ne_nil _ Nat.toDigits_ne_nil] at hhead
      exact absurd hhead (Integer.head_toDigits_ne_zero hn)
  fraction_digits := hf
  exponent_digits := by simp

theorem sound_zeros_front (count : Nat) :
    Sound ⟨negative, ['0'], List.replicate count '0' ++ Nat.toDigits 10 n, none⟩ where
  whole_ne_nil := List.cons_ne_nil _ _
  whole_digits c hc := by
    rw [List.mem_singleton.mp hc]
    rfl
  leading_zero _ := rfl
  fraction_digits c hc := by
    rcases List.mem_append.mp hc with hc | hc
    · exact isDigit_replicate count c hc
    · exact Integer.isDigit_toDigits c hc
  exponent_digits := by simp

theorem sound_split {places : Nat} (hp : 0 < places) (hl : places < (Nat.toDigits 10 n).length) :
    Sound ⟨negative, (Nat.toDigits 10 n).take ((Nat.toDigits 10 n).length - places),
      (Nat.toDigits 10 n).drop ((Nat.toDigits 10 n).length - places), none⟩ where
  whole_ne_nil := by
    rw [ne_eq, List.take_eq_nil_iff, not_or]
    exact ⟨by omega, Nat.toDigits_ne_nil⟩
  whole_digits c hc := Integer.isDigit_toDigits c (List.mem_of_mem_take hc)
  leading_zero hhead := by
    have htake : (Nat.toDigits 10 n).length - places ≠ 0 := by omega
    rw [List.head?_take, if_neg htake] at hhead
    rw [leading_zero_toDigits n hhead, List.length_singleton] at hl
    omega
  fraction_digits c hc := Integer.isDigit_toDigits c (List.mem_of_mem_drop hc)
  exponent_digits := by simp

theorem sound_scientific {e : Bool × List Char} (hne : e.2 ≠ [])
    (hd : ∀ c ∈ e.2, c.isDigit = true) :
    Sound ⟨negative, (Nat.toDigits 10 n).take 1, (Nat.toDigits 10 n).drop 1, some e⟩ := by
  obtain ⟨c, ds, hds⟩ := List.exists_cons_of_ne_nil (Nat.toDigits_ne_nil (n := n) (b := 10))
  refine ⟨by simp [hds], ?_, by simp [hds], ?_, ?_⟩
  · exact fun x hx => Integer.isDigit_toDigits x (List.mem_of_mem_take hx)
  · exact fun x hx => Integer.isDigit_toDigits x (List.mem_of_mem_drop hx)
  · intro e' he
    cases he
    exact ⟨hne, hd⟩

theorem sound_exponent {e : Bool × List Char} (hne : e.2 ≠ [])
    (hd : ∀ c ∈ e.2, c.isDigit = true) : Sound ⟨negative, Nat.toDigits 10 n, [], some e⟩ := by
  refine ⟨Nat.toDigits_ne_nil, Integer.isDigit_toDigits, leading_zero_toDigits n, by simp, ?_⟩
  intro e' he
  cases he
  exact ⟨hne, hd⟩

end Digits

theorem sound_ofInteger (n : Int) : (ofInteger n).Sound where
  whole_ne_nil := Nat.toDigits_ne_nil
  whole_digits := Integer.isDigit_toDigits
  leading_zero := leading_zero_toDigits n.natAbs
  fraction_digits := by simp [ofInteger]
  exponent_digits := by simp [ofInteger]

theorem read_integer (n : Int) : read (Integer.text n) = .ok (ofInteger n) := by
  rw [← text_ofInteger, text_eq_spell]
  exact read_spell (Or.inl rfl) (sound_ofInteger n)

end DecisionService.Json.Literal
