import Mathlib
import DecisionService.Text.Utf8
/-!
# Decoding what was encoded

The decoder takes back exactly the characters that the encoder wrote. One lemma per length of a
character reads its bytes; the ranges of the encoder's cases are the ranges that the decoder checks.
The bytes of texts are in the same order as the texts.
-/
namespace DecisionService.Utf8

private theorem toNat_ofNat {n : Nat} (h : n < 256) : (UInt8.ofNat n).toNat = n := by
  simp only [UInt8.toNat_ofNat']
  exact Nat.mod_eq_of_lt h

private theorem char_range (c : Char) :
    c.toNat < 0xD800 ∨ 0xDFFF < c.toNat ∧ c.toNat < 0x110000 :=
  c.valid

private theorem isTail_iff (b : UInt8) : isTail b = true ↔ 0x80 ≤ b.toNat ∧ b.toNat ≤ 0xBF := by
  simp only [isTail, UInt8.le_iff_toNat_le, Bool.and_eq_true, decide_eq_true_eq,
    UInt8.reduceToNat]

private theorem isTail_ofNat {n : Nat} (h : n < 64) : isTail (UInt8.ofNat (0x80 + n)) = true := by
  rw [isTail_iff, toNat_ofNat (show 0x80 + n < 256 by omega)]
  omega

private theorem payload_ofNat {n : Nat} (h : n < 64) : payload (UInt8.ofNat (0x80 + n)) = n := by
  have hn := toNat_ofNat (show 0x80 + n < 256 by omega)
  have hv : 0x80 + n - 0x80 = n := by omega
  unfold payload
  rw [hn]
  exact hv

private theorem decodeFrom_one (index : Nat) {a : UInt8} (rest : Bytes) (ha : a < 0x80) :
    decodeFrom index (a :: rest) = (do
      return Char.ofNat a.toNat :: (← decodeFrom (index + 1) rest)) := by
  rw [decodeFrom.eq_def]
  simp only [ha, if_true]

private theorem decodeFrom_two (index : Nat) {a b : UInt8} (rest : Bytes) (ha : ¬ a < 0x80)
    (hl : 0xC2 ≤ a) (hm : a ≤ 0xDF) (hb : isTail b = true) :
    decodeFrom index (a :: b :: rest) = (do
      return Char.ofNat ((a.toNat - 0xC0) * 64 + payload b)
        :: (← decodeFrom (index + 2) rest)) := by
  rw [decodeFrom.eq_def]
  simp only [ha, hl, hm, hb, if_true, if_false, decide_true, Bool.and_self]

private theorem decodeFrom_three (index : Nat) {a b c : UInt8} (rest : Bytes)
    (hl : 0xE0 ≤ a) (hm : a ≤ 0xEF) (hb : isSecondOfThree a b = true) (hc : isTail c = true) :
    decodeFrom index (a :: b :: c :: rest) = (do
      return Char.ofNat ((a.toNat - 0xE0) * 4096 + payload b * 64 + payload c)
        :: (← decodeFrom (index + 3) rest)) := by
  have h1 : ¬ a < 0x80 := by grind
  have h2 : ¬ a ≤ 0xDF := by grind
  rw [decodeFrom.eq_def]
  simp only [h1, h2, hl, hm, hb, hc, if_true, if_false, decide_true, decide_false, Bool.and_self,
    Bool.and_false, Bool.false_eq_true]

private theorem decodeFrom_four (index : Nat) {a b c d : UInt8} (rest : Bytes)
    (hl : 0xF0 ≤ a) (hm : a ≤ 0xF4) (hb : isSecondOfFour a b = true) (hc : isTail c = true)
    (hd : isTail d = true) :
    decodeFrom index (a :: b :: c :: d :: rest) = (do
      return Char.ofNat ((a.toNat - 0xF0) * 262144 + payload b * 4096 + payload c * 64 + payload d)
        :: (← decodeFrom (index + 4) rest)) := by
  have h1 : ¬ a < 0x80 := by grind
  have h2 : ¬ a ≤ 0xDF := by grind
  have h3 : ¬ a ≤ 0xEF := by grind
  rw [decodeFrom.eq_def]
  simp only [h1, h2, h3, hl, hm, hb, hc, hd, if_true, if_false, decide_true, decide_false,
    Bool.and_self, Bool.and_false, Bool.false_eq_true]

theorem decodeFrom_encodeChar (c : Char) (index : Nat) (rest : Bytes) :
    ∃ next, decodeFrom index (encodeChar c ++ rest) = (do
      return c :: (← decodeFrom next rest)) := by
  have hc := char_range c
  by_cases h1 : c.toNat < 0x80
  · have hn := toNat_ofNat (show c.toNat < 256 by omega)
    refine ⟨index + 1, ?_⟩
    simp only [encodeChar, h1, if_true, List.cons_append, List.nil_append]
    rw [decodeFrom_one index rest (by simpa [UInt8.lt_iff_toNat_lt, hn] using h1), hn,
      Char.ofNat_toNat]
  by_cases h2 : c.toNat < 0x800
  · have ha := toNat_ofNat (show 0xC0 + c.toNat / 64 < 256 by omega)
    refine ⟨index + 2, ?_⟩
    simp only [encodeChar, h1, h2, if_true, if_false, List.cons_append, List.nil_append]
    rw [decodeFrom_two index rest
      (by simp only [UInt8.lt_iff_toNat_lt, ha, UInt8.reduceToNat]; omega)
      (by simp only [UInt8.le_iff_toNat_le, ha, UInt8.reduceToNat]; omega)
      (by simp only [UInt8.le_iff_toNat_le, ha, UInt8.reduceToNat]; omega)
      (isTail_ofNat (by omega)), payload_ofNat (by omega), ha]
    have hv : (0xC0 + c.toNat / 64 - 0xC0) * 64 + c.toNat % 64 = c.toNat := by omega
    rw [hv, Char.ofNat_toNat]
  by_cases h3 : c.toNat < 0x10000
  · have ha := toNat_ofNat (show 0xE0 + c.toNat / 4096 < 256 by omega)
    have hb := toNat_ofNat (show 0x80 + c.toNat / 64 % 64 < 256 by omega)
    have hsecond : isSecondOfThree (UInt8.ofNat (0xE0 + c.toNat / 4096))
        (UInt8.ofNat (0x80 + c.toNat / 64 % 64)) = true := by
      simp only [isSecondOfThree, isTail_ofNat (show c.toNat / 64 % 64 < 64 by omega), bne,
        UInt8.le_iff_toNat_le, ← UInt8.toNat_inj, ha, hb, UInt8.reduceToNat, Bool.true_and,
        Bool.and_eq_true, Bool.or_eq_true, Bool.not_eq_true', beq_eq_false_iff_ne, ne_eq,
        decide_eq_true_eq]
      omega
    refine ⟨index + 3, ?_⟩
    simp only [encodeChar, h1, h2, h3, if_true, if_false, List.cons_append, List.nil_append]
    rw [decodeFrom_three index rest
      (by simp only [UInt8.le_iff_toNat_le, ha, UInt8.reduceToNat]; omega)
      (by simp only [UInt8.le_iff_toNat_le, ha, UInt8.reduceToNat]; omega)
      hsecond (isTail_ofNat (by omega)), payload_ofNat (by omega), payload_ofNat (by omega), ha]
    have hv : (0xE0 + c.toNat / 4096 - 0xE0) * 4096 + c.toNat / 64 % 64 * 64 + c.toNat % 64
        = c.toNat := by omega
    rw [hv, Char.ofNat_toNat]
  · have ha := toNat_ofNat (show 0xF0 + c.toNat / 262144 < 256 by omega)
    have hb := toNat_ofNat (show 0x80 + c.toNat / 4096 % 64 < 256 by omega)
    have hsecond : isSecondOfFour (UInt8.ofNat (0xF0 + c.toNat / 262144))
        (UInt8.ofNat (0x80 + c.toNat / 4096 % 64)) = true := by
      simp only [isSecondOfFour, isTail_ofNat (show c.toNat / 4096 % 64 < 64 by omega), bne,
        UInt8.le_iff_toNat_le, ← UInt8.toNat_inj, ha, hb, UInt8.reduceToNat, Bool.true_and,
        Bool.and_eq_true, Bool.or_eq_true, Bool.not_eq_true', beq_eq_false_iff_ne, ne_eq,
        decide_eq_true_eq]
      omega
    refine ⟨index + 4, ?_⟩
    simp only [encodeChar, h1, h2, h3, if_false, List.cons_append, List.nil_append]
    rw [decodeFrom_four index rest
      (by simp only [UInt8.le_iff_toNat_le, ha, UInt8.reduceToNat]; omega)
      (by simp only [UInt8.le_iff_toNat_le, ha, UInt8.reduceToNat]; omega)
      hsecond (isTail_ofNat (by omega)) (isTail_ofNat (by omega)), payload_ofNat (by omega),
      payload_ofNat (by omega), payload_ofNat (by omega), ha]
    have hv : (0xF0 + c.toNat / 262144 - 0xF0) * 262144 + c.toNat / 4096 % 64 * 4096
        + c.toNat / 64 % 64 * 64 + c.toNat % 64 = c.toNat := by omega
    rw [hv, Char.ofNat_toNat]

theorem decodeFrom_encodeChars (text : List Char) (index : Nat) :
    decodeFrom index (encodeChars text) = .ok text := by
  induction text generalizing index with
  | nil => rfl
  | cons c rest ih =>
    obtain ⟨next, hnext⟩ := decodeFrom_encodeChar c index (encodeChars rest)
    rw [encodeChars, List.flatMap_cons, ← encodeChars, hnext, ih next]
    rfl

/-- The bytes of a text give the text back. -/
@[simp] theorem decode_encode (s : String) : decode (encode s) = .ok s := by
  rw [decode, encode, decodeFrom_encodeChars]
  exact congrArg Except.ok String.ofList_toList

theorem encodeChars_ascii {text : List Char} (h : ∀ c ∈ text, c.toNat < 0x80) :
    encodeChars text = Bytes.ofAscii text := by
  induction text with
  | nil => rfl
  | cons c rest ih =>
    have hc := h c List.mem_cons_self
    rw [encodeChars, List.flatMap_cons, ← encodeChars,
      ih fun x hx => h x (List.mem_cons_of_mem _ hx)]
    simp [encodeChar, hc, Bytes.ofAscii]

theorem encodeChars_append (a b : List Char) :
    encodeChars (a ++ b) = encodeChars a ++ encodeChars b :=
  List.flatMap_append

/-- The bytes of a text tell which text it is. -/
theorem encodeChars_injective : Function.Injective encodeChars := by
  intro a b h
  have hdecode := congrArg (decodeFrom 0) h
  rw [decodeFrom_encodeChars, decodeFrom_encodeChars] at hdecode
  exact Except.ok.inj hdecode

theorem eq_ofNat_of_mem_encodeChar {c : Char} {b : UInt8} (hb : b ∈ encodeChar c) (h : b < 0x80) :
    c = Char.ofNat b.toNat := by
  have hc := char_range c
  have hsmall : ∀ n, n < 256 → b = UInt8.ofNat n → n < 0x80 := by
    intro n hn hbn
    have hlt := UInt8.lt_iff_toNat_lt.mp h
    rw [hbn, toNat_ofNat hn] at hlt
    exact hlt
  simp only [encodeChar] at hb
  split_ifs at hb with h1 h2 h3
  · rw [List.mem_singleton.mp hb, toNat_ofNat (by omega), Char.ofNat_toNat]
  -- every byte of a longer encoding is beyond ASCII
  all_goals
    simp only [List.mem_cons, List.not_mem_nil, or_false] at hb
    exfalso
  · rcases hb with hb | hb <;>
      exact absurd (hsmall _ (by omega) hb) (by omega)
  · rcases hb with hb | hb | hb <;>
      exact absurd (hsmall _ (by omega) hb) (by omega)
  · rcases hb with hb | hb | hb | hb <;>
      exact absurd (hsmall _ (by omega) hb) (by omega)

private theorem ofNat_cons_lt {a b : Nat} {x y : Bytes} (hle : a ≤ b) (hb : b < 256)
    (hrest : a = b → x < y) : UInt8.ofNat a :: x < UInt8.ofNat b :: y := by
  rw [List.cons_lt_cons_iff, UInt8.lt_iff_toNat_lt, toNat_ofNat (by omega), toNat_ofNat hb]
  rcases Nat.lt_or_eq_of_le hle with hlt | heq
  · exact Or.inl hlt
  · exact Or.inr ⟨congrArg UInt8.ofNat heq, hrest heq⟩

private theorem encodeChar_append_lt {c d : Char} (h : c < d) (x y : Bytes) :
    encodeChar c ++ x < encodeChar d ++ y := by
  have hcd : c.toNat < d.toNat := h
  have hd := char_range d
  simp only [encodeChar]
  -- a longer encoding begins with a larger byte; of one length, the digits to base 64 decide
  split_ifs <;> simp only [List.cons_append, List.nil_append]
  all_goals first
    | omega
    | exact ofNat_cons_lt (by omega) (by omega) fun _ => by omega
    | skip
  · refine ofNat_cons_lt (by omega) (by omega) fun h1 => ?_
    exact ofNat_cons_lt (by omega) (by omega) fun h2 => by omega
  · refine ofNat_cons_lt (by omega) (by omega) fun h1 => ?_
    refine ofNat_cons_lt (by omega) (by omega) fun h2 => ?_
    exact ofNat_cons_lt (by omega) (by omega) fun h3 => by omega
  · refine ofNat_cons_lt (by omega) (by omega) fun h1 => ?_
    refine ofNat_cons_lt (by omega) (by omega) fun h2 => ?_
    refine ofNat_cons_lt (by omega) (by omega) fun h3 => ?_
    exact ofNat_cons_lt (by omega) (by omega) fun h4 => by omega

private theorem encodeChar_ne_nil (c : Char) : encodeChar c ≠ [] := by
  simp only [encodeChar]
  split_ifs <;> simp

theorem encodeChars_lt {a b : List Char} (h : a < b) : encodeChars a < encodeChars b := by
  induction b generalizing a with
  | nil => exact absurd h (List.not_lt_nil a)
  | cons d rest ih =>
    simp only [encodeChars, List.flatMap_cons] at ih ⊢
    cases a with
    | nil =>
      obtain ⟨byte, bytes, hbytes⟩ := List.exists_cons_of_ne_nil (encodeChar_ne_nil d)
      rw [hbytes]
      exact List.nil_lt_cons _ _
    | cons c front =>
      rcases List.cons_lt_cons_iff.mp h with hlt | ⟨rfl, hfront⟩
      · exact encodeChar_append_lt hlt _ _
      · exact List.append_left_lt (ih hfront)

/-- The order of texts by their characters is the order by their bytes. -/
theorem encode_lt {a b : String} (h : a < b) : encode a < encode b :=
  encodeChars_lt (String.lt_iff_toList_lt.mp h)

end DecisionService.Utf8
