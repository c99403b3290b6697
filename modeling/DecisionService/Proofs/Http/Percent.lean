import Mathlib
import DecisionService.Http.Percent
import DecisionService.Proofs.Utf8
/-!
# Decoding percent-encoded text

A text whose percent signs are encoded is read back from its bytes, whichever other characters are
encoded with them. What is written for a barred character are percent signs and capital digits.
-/
namespace DecisionService.Http.Percent

variable {barred : Char → Bool}

theorem digitValue_digit {n : Nat} (h : n < 16) : digitValue (digit n) = some n := by
  interval_cases n <;> rfl

theorem toNat_digit_lt {n : Nat} (h : n < 16) : (digit n).toNat < 0x80 := by
  interval_cases n <;> decide

private theorem digits_lt (b : UInt8) : b.toNat / 16 < 16 ∧ b.toNat % 16 < 16 := by
  have h := b.toNat_lt
  omega

theorem toNat_encodeByte_lt {b : UInt8} {c : Char} (h : c ∈ encodeByte b) : c.toNat < 0x80 := by
  obtain ⟨hhigh, hlow⟩ := digits_lt b
  simp only [encodeByte, List.mem_cons, List.not_mem_nil, or_false] at h
  rcases h with rfl | rfl | rfl
  · decide
  · exact toNat_digit_lt hhigh
  · exact toNat_digit_lt hlow

private theorem digitValue_ofNat {n : Nat} (h : n < 16) :
    digitValue (Char.ofNat (UInt8.ofNat (digit n).toNat).toNat) = some n := by
  have hlt := toNat_digit_lt h
  rw [UInt8.toNat_ofNat', Nat.mod_eq_of_lt (by omega), Char.ofNat_toNat, digitValue_digit h]

theorem decode_cons {a : UInt8} (h : a ≠ 0x25) (rest : Bytes) :
    decode (a :: rest) = a :: decode rest := by
  match rest with
  | [] => rfl
  | [_] => rfl
  | _ :: _ :: _ => rw [decode, if_neg h]

theorem decode_encodeByte (b : UInt8) (rest : Bytes) :
    decode (Bytes.ofAscii (encodeByte b) ++ rest) = b :: decode rest := by
  obtain ⟨hhigh, hlow⟩ := digits_lt b
  have hb : b.toNat / 16 * 16 + b.toNat % 16 = b.toNat := Nat.div_add_mod' b.toNat 16
  have hpair : pairValue (UInt8.ofNat (digit (b.toNat / 16)).toNat)
      (UInt8.ofNat (digit (b.toNat % 16)).toNat) = some b := by
    simp only [pairValue, digitValue_ofNat hhigh, digitValue_ofNat hlow, Option.bind_eq_bind,
      Option.bind_some, hb, UInt8.ofNat_toNat]
    rfl
  simp only [encodeByte, Bytes.ofAscii, List.map_cons, List.map_nil, List.cons_append,
    List.nil_append]
  rw [decode, if_pos (by decide), hpair]

theorem decode_encodeBytes (bytes rest : Bytes) :
    decode (Bytes.ofAscii (bytes.flatMap encodeByte) ++ rest) = bytes ++ decode rest := by
  induction bytes with
  | nil => rfl
  | cons b bytes ih =>
    rw [List.flatMap_cons, Bytes.ofAscii, List.map_append, List.append_assoc]
    exact (decode_encodeByte b _).trans (congrArg (b :: ·) ih)

theorem decode_append {bytes : Bytes} (h : ∀ b ∈ bytes, b ≠ 0x25) (rest : Bytes) :
    decode (bytes ++ rest) = bytes ++ decode rest := by
  induction bytes with
  | nil => rfl
  | cons b bytes ih =>
    have hrest := ih fun a ha => h a (List.mem_cons_of_mem b ha)
    rw [List.cons_append, decode_cons (h b List.mem_cons_self), hrest, List.cons_append]

theorem decode_encodeChar (h : barred '%' = true) (c : Char) (rest : Bytes) :
    decode (Utf8.encodeChars (encodeChar barred c) ++ rest) = Utf8.encodeChar c ++ decode rest := by
  rw [encodeChar]
  split
  · have hascii : ∀ d ∈ (Utf8.encodeChar c).flatMap encodeByte, d.toNat < 0x80 := by
      intro d hd
      obtain ⟨b, -, hd⟩ := List.mem_flatMap.mp hd
      exact toNat_encodeByte_lt hd
    rw [Utf8.encodeChars_ascii hascii, decode_encodeBytes]
  · next hbarred =>
    have hbytes : ∀ b ∈ Utf8.encodeChar c, b ≠ 0x25 := by
      rintro b hb rfl
      apply hbarred
      rw [Utf8.eq_ofNat_of_mem_encodeChar hb (by decide)]
      exact h
    rw [Utf8.encodeChars, List.flatMap_singleton, decode_append hbytes]

theorem decode_encode (h : barred '%' = true) (text : List Char) :
    decode (Utf8.encodeChars (encode barred text)) = Utf8.encodeChars text := by
  induction text with
  | nil => rfl
  | cons c rest ih =>
    rw [encode, List.flatMap_cons, ← encode, Utf8.encodeChars_append, decode_encodeChar h, ih]
    rfl

theorem encode_injective (h : barred '%' = true) : Function.Injective (encode barred) := by
  intro a b hab
  apply Utf8.encodeChars_injective
  rw [← decode_encode h a, ← decode_encode h b, hab]

theorem encode_eq_self {text : List Char} (h : ∀ c ∈ text, barred c = false) :
    encode barred text = text := by
  induction text with
  | nil => rfl
  | cons c rest ih =>
    have hc := h c List.mem_cons_self
    have hrest := ih fun d hd => h d (List.mem_cons_of_mem c hd)
    rw [encode, List.flatMap_cons, ← encode, hrest]
    simp [encodeChar, hc]

/-- A barred character is in an encoded text only where the encoding puts it. -/
theorem not_mem_encode {c : Char} (hc : barred c = true) (hpercent : c ≠ '%')
    (hdigit : digitValue c = none) (text : List Char) : c ∉ encode barred text := by
  intro hmem
  obtain ⟨d, -, hd⟩ := List.mem_flatMap.mp hmem
  rw [encodeChar] at hd
  split at hd
  · obtain ⟨b, -, hb⟩ := List.mem_flatMap.mp hd
    obtain ⟨hhigh, hlow⟩ := digits_lt b
    simp only [encodeByte, List.mem_cons, List.not_mem_nil, or_false] at hb
    rcases hb with rfl | rfl | rfl
    · exact hpercent rfl
    · rw [digitValue_digit hhigh] at hdigit
      cases hdigit
    · rw [digitValue_digit hlow] at hdigit
      cases hdigit
  · next hbarred =>
    rw [List.mem_singleton.mp hd] at hc
    exact hbarred hc

/-- The characters that are encoded in a segment of any URL. -/
theorem barredInSegment_eq (c : Char) : barredInSegment c
    = (isControl c
      || [' ', '"', '<', '>', '\x60', '#', '?', '\x7b', '\x7d', '/', '%'].contains c) := by
  simp [barredInSegment, barredInPath, barredInFragment, String.contains_char_eq, Bool.or_assoc]

end DecisionService.Http.Percent
