import Mathlib
import DecisionService.Json.Quoted
import DecisionService.Proofs.Outcome
import DecisionService.Proofs.Utf8
/-!
# Quoted texts read back

Every byte of a text is written as itself or as an escape that stands for it. Reading and skipping
both take one written byte after the other and stop at the closing quote.
-/
namespace DecisionService.Json.Quoted

private theorem hexNumber_control : ∀ n < 32,
    hexNumber 0x30 0x30 (hexDigit (n / 16)) (hexDigit (n % 16)) = some n := by
  decide

private theorem encodeChar_control : ∀ n < 32, Utf8.encodeChar (Char.ofNat n) = [UInt8.ofNat n] := by
  decide

private theorem short_escape {letter b : UInt8} (hu : letter ≠ 0x75)
    (h : ofShortEscape letter = some b) (rest : Bytes) :
    decodeBytes (0x5C :: letter :: rest) = (decodeBytes rest).map (b :: ·)
      ∧ skip (0x5C :: letter :: rest) = skip rest := by
  constructor
  · rw [decodeBytes.eq_def]
    simp [hu, h]
  · rw [skip.eq_def]
    simp [hu, h]

theorem encodeByte_append (b : UInt8) (rest : Bytes) :
    decodeBytes (encodeByte b ++ rest) = (decodeBytes rest).map (b :: ·)
      ∧ skip (encodeByte b ++ rest) = skip rest := by
  unfold encodeByte
  split_ifs with h1 h2 h3 h4 h5 h6 h7 h8
  · subst h1
    exact short_escape (by decide) rfl rest
  · subst h2
    exact short_escape (by decide) rfl rest
  · subst h3
    exact short_escape (by decide) rfl rest
  · subst h4
    exact short_escape (by decide) rfl rest
  · subst h5
    exact short_escape (by decide) rfl rest
  · subst h6
    exact short_escape (by decide) rfl rest
  · subst h7
    exact short_escape (by decide) rfl rest
  · have hn : b.toNat < 32 := by simpa [UInt8.lt_iff_toNat_lt] using h8
    have hhex := hexNumber_control b.toNat hn
    have htrail : isTrailingSurrogate b.toNat = false := by
      simp only [isTrailingSurrogate, Bool.and_eq_false_iff, decide_eq_false_iff_not]
      omega
    have hlead : isLeadingSurrogate b.toNat = false := by
      simp only [isLeadingSurrogate, Bool.and_eq_false_iff, decide_eq_false_iff_not]
      omega
    have hchar := encodeChar_control b.toNat hn
    rw [UInt8.ofNat_toNat] at hchar
    constructor
    · rw [decodeBytes.eq_def]
      simp [hhex, htrail, hlead, hchar]
    · rw [skip.eq_def]
      simp [hhex]
  · constructor
    · rw [List.singleton_append, decodeBytes.eq_def]
      simp [h1, h2, h8]
    · rw [List.singleton_append, skip.eq_def]
      simp [h1, h2, h8]

private theorem decodeBytes_flatMap (bytes rest : Bytes) :
    decodeBytes (bytes.flatMap encodeByte ++ 0x22 :: rest) = .ok bytes := by
  induction bytes with
  | nil =>
    rw [List.flatMap_nil, List.nil_append, decodeBytes.eq_def]
    rfl
  | cons b bytes ih =>
    rw [List.flatMap_cons, List.append_assoc, (encodeByte_append b _).1, ih]
    rfl

/-- Behind the opening quote of a written text stands that text. -/
theorem decode_body (s : String) (rest : Bytes) :
    decode ((Utf8.encode s).flatMap encodeByte ++ 0x22 :: rest) = .ok s := by
  rw [decode, decodeBytes_flatMap, Outcome.ok_bind, Utf8.decode_encode]
  rfl

theorem skip_body (bytes rest : Bytes) :
    skip (bytes.flatMap encodeByte ++ 0x22 :: rest) = .ok rest := by
  induction bytes with
  | nil =>
    rw [List.flatMap_nil, List.nil_append, skip.eq_def]
    rfl
  | cons b bytes ih => rw [List.flatMap_cons, List.append_assoc, (encodeByte_append b _).2, ih]

end DecisionService.Json.Quoted
