import Mathlib
import DecisionService.Proofs.Json.Literal
/-!
# Texts that are literals

Scanning takes a spelling of the literal it yields from the front of the bytes. A text is therefore
read as a literal exactly when it spells that literal, and no text spells two.
-/
namespace DecisionService.Json.Literal

open Outcome

private theorem ofNat_toNat_byte (b : UInt8) : UInt8.ofNat (Char.ofNat b.toNat).toNat = b := by
  have hvalid : b.toNat.isValidChar := Or.inl (by have := b.toNat_lt; omega)
  rw [Char.toNat_ofNat, if_pos hvalid, UInt8.ofNat_toNat]

private theorem digits_taken (bytes : Bytes) :
    bytes = Bytes.ofAscii (digits bytes).1 ++ (digits bytes).2 := by
  induction bytes with
  | nil => rfl
  | cons b rest ih =>
    rw [digits]
    split
    · simp only [Bytes.ofAscii, List.map_cons, List.cons_append, ofNat_toNat_byte, List.cons.injEq,
        true_and]
      exact ih
    · rfl

private theorem someDigits_taken {bytes rest : Bytes} {ds : List Char}
    (h : someDigits bytes = .ok (ds, rest)) : bytes = Bytes.ofAscii ds ++ rest := by
  have htaken := digits_taken bytes
  rw [someDigits] at h
  split at h
  · cases h
  · cases h
  · rwa [Except.ok.inj h] at htaken

private theorem scanWhole_taken {bytes rest : Bytes} {ds : List Char}
    (h : scanWhole bytes = .ok (ds, rest)) : bytes = Bytes.ofAscii ds ++ rest := by
  rw [scanWhole.eq_def] at h
  split at h
  · split at h
    · split at h <;> cases h
      rfl
    · cases h
      rfl
  · exact someDigits_taken h

private theorem scanFraction_taken {bytes rest : Bytes} {ds : List Char}
    (h : scanFraction bytes = .ok (ds, rest)) :
    bytes = Bytes.ofAscii (if ds.isEmpty then [] else '.' :: ds) ++ rest := by
  rw [scanFraction.eq_def] at h
  split at h
  · obtain ⟨c, cs, rfl⟩ := List.exists_cons_of_ne_nil (someDigits_sound h).1
    rw [someDigits_taken h]
    rfl
  · cases h
    rfl

private theorem scanExponent_taken {bytes rest : Bytes} {e : Option (Bool × List Char)}
    (h : scanExponent bytes = .ok (e, rest)) :
    ∃ text, SpellsExponent e text ∧ bytes = Bytes.ofAscii text ++ rest := by
  have behindMark : ∀ {mark : Char}, mark = 'e' ∨ mark = 'E' → ∀ {tail : Bytes},
      scanExponentDigits tail = .ok (e, rest) →
      ∃ text, SpellsExponent e text
        ∧ UInt8.ofNat mark.toNat :: tail = Bytes.ofAscii text ++ rest := by
    intro mark hm tail h
    rw [scanExponentDigits.eq_def] at h
    split at h <;> obtain ⟨⟨run, behind⟩, hrun, he⟩ := bind_eq_ok.mp h <;> cases he <;>
      rw [someDigits_taken hrun]
    · exact ⟨_, .signed hm false run, rfl⟩
    · exact ⟨_, .signed hm true run, rfl⟩
    · exact ⟨_, .unsigned hm run, rfl⟩
  rw [scanExponent.eq_def] at h
  split at h
  · exact behindMark (Or.inl rfl) h
  · exact behindMark (Or.inr rfl) h
  · cases h
    exact ⟨[], .none, rfl⟩

theorem scan_taken {bytes rest : Bytes} {l : Literal} (h : scan bytes = .ok (l, rest)) :
    ∃ text, l.Spells text ∧ bytes = Bytes.ofAscii text ++ rest := by
  have unsigned : ∀ {negative : Bool} {tail : Bytes}, scanUnsigned negative tail = .ok (l, rest) →
      ∃ text, l.Spells text ∧ Bytes.ofAscii (if negative then ['-'] else []) ++ tail
        = Bytes.ofAscii text ++ rest := by
    intro negative tail h
    obtain ⟨⟨whole, behindWhole⟩, hwhole, h⟩ := bind_eq_ok.mp h
    obtain ⟨⟨fraction, behindFraction⟩, hfraction, h⟩ := bind_eq_ok.mp h
    obtain ⟨⟨exponent, behindExponent⟩, hexponent, h⟩ := bind_eq_ok.mp h
    cases h
    obtain ⟨e, he, htail⟩ := scanExponent_taken hexponent
    refine ⟨_, ⟨e, he, rfl⟩, ?_⟩
    rw [scanWhole_taken hwhole, scanFraction_taken hfraction, htail]
    simp only [ofAscii_append, List.append_assoc]
  rw [scan.eq_def] at h
  split at h
  · exact unsigned h
  · exact unsigned h

theorem spells_ascii {l : Literal} (hl : l.Sound) {text : List Char} (ht : l.Spells text) :
    ∀ c ∈ text, c.toNat < 0x80 := by
  obtain ⟨e, he, rfl⟩ := ht
  have hspell := spell_ascii (Or.inl rfl) hl
  intro c hc
  simp only [List.mem_append] at hc
  rcases hc with hc | hc | hc | hc
  · exact hspell c (by simp only [spell, List.mem_append]; exact Or.inl hc)
  · exact hspell c (by simp only [spell, List.mem_append]; exact Or.inr (Or.inl hc))
  · exact hspell c (by simp only [spell, List.mem_append]; exact Or.inr (Or.inr (Or.inl hc)))
  · -- the mark and the sign are the only characters that differ from one spelling to another
    have hdigit : ∀ e, l.exponent = some e → c ∈ e.2 → c.toNat < 0x80 := by
      intro e hl' hmem
      exact hspell c (by simp [spell, spellExponent, hl', hmem])
    generalize l.exponent = x at he hdigit
    cases he with
    | none => cases hc
    | signed hm negative ds =>
      rcases List.mem_cons.mp hc with rfl | hc
      · rcases hm with rfl | rfl <;> decide
      · rcases List.mem_cons.mp hc with rfl | hc
        · cases negative <;> decide
        · exact hdigit _ rfl hc
    | unsigned hm ds =>
      rcases List.mem_cons.mp hc with rfl | hc
      · rcases hm with rfl | rfl <;> decide
      · exact hdigit _ rfl hc

/-- A text is read as a literal exactly when it spells it. -/
theorem read_eq_ok_iff {text : List Char} {l : Literal} :
    read text = .ok l ↔ l.Sound ∧ l.Spells text := by
  constructor
  · intro h
    have hsound := sound_of_read h
    refine ⟨hsound, ?_⟩
    obtain ⟨⟨l', rest⟩, hscan, h⟩ := bind_eq_ok.mp h
    split at h
    · next heq =>
      cases heq
      cases h
      obtain ⟨text', hspells, hbytes⟩ := scan_taken hscan
      rw [List.append_nil, ← Utf8.encodeChars_ascii (spells_ascii hsound hspells)] at hbytes
      rwa [Utf8.encodeChars_injective hbytes]
    · cases h
  · rintro ⟨hl, ht⟩
    have hscan := scan_append hl ht ends_nil
    rw [List.append_nil] at hscan
    rw [read, Utf8.encodeChars_ascii (spells_ascii hl ht), hscan]
    rfl

end DecisionService.Json.Literal
