import Mathlib
import DecisionService.Json.Doc
import DecisionService.Proofs.Outcome
/-!
# Documents in front of more

A document that is scanned to its end is the same document in front of whatever follows. A number
has no end of its own: it may go on where the text goes on right behind it.
-/
namespace DecisionService.Json

open Outcome

namespace Literal

variable {bytes rest : Bytes} (hne : rest ≠ []) (more : Bytes)
include hne

theorem digits_followed {run : List Char} (h : digits bytes = (run, rest)) :
    digits (bytes ++ more) = (run, rest ++ more) := by
  induction bytes generalizing run with
  | nil =>
    cases h
    exact absurd rfl hne
  | cons b tail ih =>
    rw [List.cons_append]
    simp only [digits] at h ⊢
    split at h
    · next hb =>
      obtain ⟨rfl, htail⟩ := Prod.mk.inj h
      rw [if_pos hb, ih (Prod.ext rfl htail)]
    · next hb =>
      cases h
      rw [if_neg hb, List.cons_append]

theorem someDigits_followed {run : List Char} (h : someDigits bytes = .ok (run, rest)) :
    someDigits (bytes ++ more) = .ok (run, rest ++ more) := by
  unfold someDigits at h
  split at h
  · cases h
  · cases h
  · next hrun _ =>
    rw [someDigits, digits_followed hne more (Except.ok.inj h)]
    split
    · simp_all
    · simp_all
    · rfl

private theorem scanWhole_followed {run : List Char} (h : scanWhole bytes = .ok (run, rest)) :
    scanWhole (bytes ++ more) = .ok (run, rest ++ more) := by
  rw [scanWhole.eq_def] at h
  split at h
  · split at h
    · next b tail =>
      split at h
      · cases h
      · next hb =>
        cases h
        exact if_neg hb
    · cases h
      exact absurd rfl hne
  · next hzero =>
    rw [scanWhole]
    · exact someDigits_followed hne more h
    · intro tail htail
      cases bytes with
      | nil => cases h
      | cons b bytes =>
        obtain ⟨rfl, -⟩ := List.cons.inj htail
        exact hzero bytes rfl

private theorem scanFraction_followed {run : List Char} (h : scanFraction bytes = .ok (run, rest)) :
    scanFraction (bytes ++ more) = .ok (run, rest ++ more) := by
  rw [scanFraction.eq_def] at h
  split at h
  · exact someDigits_followed hne more h
  · next hpoint =>
    cases h
    rw [scanFraction]
    intro tail htail
    cases bytes with
    | nil => exact hne rfl
    | cons b bytes =>
      obtain ⟨rfl, -⟩ := List.cons.inj htail
      exact hpoint bytes rfl

private theorem scanExponentDigits_followed {e : Option (Bool × List Char)}
    (h : scanExponentDigits bytes = .ok (e, rest)) :
    scanExponentDigits (bytes ++ more) = .ok (e, rest ++ more) := by
  rw [scanExponentDigits.eq_def] at h
  split at h <;> obtain ⟨⟨run, tail⟩, hrun, he⟩ := bind_eq_ok.mp h <;> cases he
  · rw [List.cons_append, scanExponentDigits, someDigits_followed hne more hrun]
    rfl
  · rw [List.cons_append, scanExponentDigits, someDigits_followed hne more hrun]
    rfl
  · next hplus hminus =>
    cases bytes with
    | nil => cases hrun
    | cons b bytes =>
      rw [List.cons_append, scanExponentDigits, ← List.cons_append,
        someDigits_followed hne more hrun]
      · rfl
      · intro tail htail
        obtain ⟨rfl, -⟩ := List.cons.inj htail
        exact hplus bytes rfl
      · intro tail htail
        obtain ⟨rfl, -⟩ := List.cons.inj htail
        exact hminus bytes rfl

private theorem scanExponent_followed {e : Option (Bool × List Char)}
    (h : scanExponent bytes = .ok (e, rest)) :
    scanExponent (bytes ++ more) = .ok (e, rest ++ more) := by
  rw [scanExponent.eq_def] at h
  split at h
  · exact scanExponentDigits_followed hne more h
  · exact scanExponentDigits_followed hne more h
  · next hsmall hlarge =>
    cases h
    cases bytes with
    | nil => exact absurd rfl hne
    | cons b bytes =>
      rw [List.cons_append, scanExponent]
      · intro tail htail
        obtain ⟨rfl, -⟩ := List.cons.inj htail
        exact hsmall bytes rfl
      · intro tail htail
        obtain ⟨rfl, -⟩ := List.cons.inj htail
        exact hlarge bytes rfl

private theorem scanUnsigned_followed {negative : Bool} {l : Literal}
    (h : scanUnsigned negative bytes = .ok (l, rest)) :
    scanUnsigned negative (bytes ++ more) = .ok (l, rest ++ more) := by
  obtain ⟨⟨whole, behindWhole⟩, hwhole, h⟩ := bind_eq_ok.mp h
  obtain ⟨⟨fraction, behindFraction⟩, hfraction, h⟩ := bind_eq_ok.mp h
  obtain ⟨⟨exponent, behindExponent⟩, hexponent, h⟩ := bind_eq_ok.mp h
  cases h
  -- what is left in the end was left at every step
  have hne₂ : behindFraction ≠ [] := by
    rintro rfl
    cases hexponent
    exact hne rfl
  have hne₁ : behindWhole ≠ [] := by
    rintro rfl
    cases hfraction
    exact hne₂ rfl
  rw [scanUnsigned, scanWhole_followed hne₁ more hwhole, ok_bind]
  dsimp only
  rw [scanFraction_followed hne₂ more hfraction, ok_bind]
  dsimp only
  rw [scanExponent_followed hne more hexponent]
  rfl

theorem scan_followed {l : Literal} (h : scan bytes = .ok (l, rest)) :
    scan (bytes ++ more) = .ok (l, rest ++ more) := by
  rw [scan.eq_def] at h
  split at h
  · exact scanUnsigned_followed hne more h
  · next hminus =>
    cases bytes with
    | nil => cases h
    | cons b bytes =>
      rw [List.cons_append, scan, ← List.cons_append]
      · exact scanUnsigned_followed hne more h
      · intro tail htail
        obtain ⟨rfl, -⟩ := List.cons.inj htail
        exact hminus bytes rfl

end Literal

namespace Quoted

variable {bytes rest : Bytes} (more : Bytes)

theorem skip_followed (h : skip bytes = .ok rest) : skip (bytes ++ more) = .ok (rest ++ more) := by
  fun_induction skip bytes
  all_goals try simp_all only [reduceCtorEq]
  all_goals simp only [List.cons_append]; rw [skip.eq_def]
  all_goals simp_all

private theorem decodeBytes_followed (h : skip bytes = .ok rest) :
    decodeBytes (bytes ++ more) = decodeBytes bytes := by
  -- bytes that end inside an escape cannot be skipped; in all other cases the same byte decides
  fun_induction decodeBytes bytes
  all_goals rw [skip.eq_def] at h
  all_goals try simp_all only [reduceCtorEq]
  all_goals rw [decodeBytes.eq_def]
  all_goals try simp_all [List.cons_append]
  -- what is left has a second escape behind a leading surrogate
  all_goals (rw [skip.eq_def] at h; simp_all)

theorem decode_followed (h : skip bytes = .ok rest) : decode (bytes ++ more) = decode bytes := by
  rw [decode, decodeBytes_followed more h, decode]

end Quoted

namespace Doc

/-- The text behind a document tells where it ends: a number is not at the end of the text. -/
def Delimited (doc : Doc) (rest : Bytes) : Prop :=
  ∀ l, doc = number l → rest ≠ []

theorem skipBlanks_eq_nil_iff {bytes : Bytes} :
    skipBlanks bytes = [] ↔ ∀ b ∈ bytes, b ∈ [0x20, 0x09, 0x0A, 0x0D] := by
  simp [skipBlanks, or_assoc]

theorem skipBlanks_followed {bytes rest : Bytes} {b : UInt8} (h : skipBlanks bytes = b :: rest)
    (more : Bytes) : skipBlanks (bytes ++ more) = b :: (rest ++ more) := by
  rw [skipBlanks, List.dropWhile_append, ← skipBlanks, h]
  rfl

private theorem delimited_of_skipBlanks {doc : Doc} {bytes rest : Bytes} {b : UInt8}
    (h : skipBlanks bytes = b :: rest) : doc.Delimited bytes := by
  rintro l - rfl
  cases h

private theorem scanWord_followed {doc found : Doc} {word : List UInt8} {bytes rest : Bytes}
    (h : scanWord doc word bytes = (found, some rest)) (more : Bytes) :
    scanWord doc word (bytes ++ more) = (found, some (rest ++ more)) := by
  induction word generalizing bytes with
  | nil =>
    cases h
    rfl
  | cons w word ih =>
    cases bytes with
    | nil => cases h
    | cons b bytes =>
      rw [scanWord] at h
      rw [List.cons_append, scanWord]
      split at h
      · next hb => rw [if_pos hb, ih h]
      · cases h

private theorem scanNumber_followed {doc : Doc} {bytes rest : Bytes}
    (h : scanNumber bytes = (doc, some rest)) (hd : doc.Delimited rest) (more : Bytes) :
    scanNumber (bytes ++ more) = (doc, some (rest ++ more)) := by
  unfold scanNumber at h
  split at h
  · next l tail hscan =>
    cases h
    rw [scanNumber, Literal.scan_followed (hd l rfl) more hscan]
  · cases h

private theorem scanText_followed {doc : Doc} {bytes rest : Bytes}
    (h : scanText bytes = (doc, some rest)) (more : Bytes) :
    scanText (bytes ++ more) = (doc, some (rest ++ more)) := by
  unfold scanText at h
  split at h
  · next tail hskip =>
    cases h
    rw [scanText, Quoted.skip_followed more hskip, Quoted.decode_followed more hskip]
  · cases h

private theorem test_followed {α : Type} {test : Prop} [Decidable test] {x x' y y' found found' : α}
    (h : (if test then x else y) = found) (hthen : x = found → x' = found')
    (helse : y = found → y' = found') : (if test then x' else y') = found' := by
  split at h
  · next htest =>
    rw [if_pos htest]
    exact hthen h
  · next htest =>
    rw [if_neg htest]
    exact helse h

/-- What is scanned to its end with some fuel is scanned likewise in front of more with other
fuel. -/
private structure Followed (fuel fuel' : Nat) : Prop where
  doc : ∀ {bytes rest : Bytes} {doc : Doc}, scan fuel bytes = (doc, some rest) →
    doc.Delimited rest → ∀ more, scan fuel' (bytes ++ more) = (doc, some (rest ++ more))
  items : ∀ {bytes rest : Bytes} {items : List Doc} {stop : Stop},
    scanItems fuel bytes = (items, stop, some rest) →
    ∀ more, scanItems fuel' (bytes ++ more) = (items, stop, some (rest ++ more))
  value : ∀ {bytes rest : Bytes} {doc : Doc}, scanValue fuel bytes = (doc, some rest) →
    doc.Delimited rest → ∀ more, scanValue fuel' (bytes ++ more) = (doc, some (rest ++ more))
  members : ∀ {bytes rest : Bytes} {members : List (Except Flaw String × Doc)} {stop : Stop},
    scanMembers fuel bytes = (members, stop, some rest) →
    ∀ more, scanMembers fuel' (bytes ++ more) = (members, stop, some (rest ++ more))

section Step

variable {fuel fuel' : Nat} (ih : Followed fuel fuel') {bytes rest : Bytes} {stop : Stop}
include ih

private theorem scan_step {doc : Doc} (h : scan (fuel + 1) bytes = (doc, some rest))
    (hd : doc.Delimited rest) (more : Bytes) :
    scan (fuel' + 1) (bytes ++ more) = (doc, some (rest ++ more)) := by
  rw [scan] at h ⊢
  cases hblanks : skipBlanks bytes with
  | nil =>
    rw [hblanks] at h
    cases h
  | cons b tail =>
    rw [hblanks] at h
    rw [skipBlanks_followed hblanks more]
    dsimp only at h ⊢
    refine test_followed h (fun h => scanWord_followed h more) fun h => ?_
    refine test_followed h (fun h => scanWord_followed h more) fun h => ?_
    refine test_followed h (fun h => scanWord_followed h more) fun h => ?_
    refine test_followed h (fun h => scanNumber_followed h hd more) fun h => ?_
    refine test_followed h (fun h => scanText_followed h more) fun h => ?_
    refine test_followed h (fun h => ?_) fun h => test_followed h (fun h => ?_) nofun
    · cases hinner : skipBlanks tail with
      | nil =>
        rw [hinner] at h
        cases h
      | cons c after =>
        rw [hinner] at h
        rw [skipBlanks_followed hinner more]
        refine test_followed h (fun h => ?_) fun h => ?_
        · cases h
          rfl
        · generalize hitems : scanItems fuel (c :: after) = scanned at h
          obtain ⟨items, stop, left⟩ := scanned
          cases h
          rw [← List.cons_append, ih.items hitems more]
    · cases hinner : skipBlanks tail with
      | nil =>
        rw [hinner] at h
        cases h
      | cons c after =>
        rw [hinner] at h
        rw [skipBlanks_followed hinner more]
        refine test_followed h (fun h => ?_) fun h => test_followed h (fun h => ?_) nofun
        · cases h
          rfl
        · generalize hmembers : scanMembers fuel after = scanned at h
          obtain ⟨members, stop, left⟩ := scanned
          cases h
          rw [ih.members hmembers more]

private theorem scanItems_step {items : List Doc}
    (h : scanItems (fuel + 1) bytes = (items, stop, some rest)) (more : Bytes) :
    scanItems (fuel' + 1) (bytes ++ more) = (items, stop, some (rest ++ more)) := by
  rw [scanItems] at h ⊢
  generalize hscan : scan fuel bytes = scanned at h
  obtain ⟨item, _ | left⟩ := scanned
  · cases h
  cases hblanks : skipBlanks left with
  | nil =>
    simp only [hblanks] at h
    cases h
  | cons b tail =>
    simp only [hblanks] at h
    rw [ih.doc hscan (delimited_of_skipBlanks hblanks) more]
    dsimp only
    rw [skipBlanks_followed hblanks more]
    refine test_followed h (fun h => ?_) fun h => test_followed h (fun h => ?_) nofun
    · cases h
      rfl
    · cases hinner : skipBlanks tail with
      | nil =>
        rw [hinner] at h
        cases h
      | cons c after =>
        rw [hinner] at h
        rw [skipBlanks_followed hinner more]
        refine test_followed h nofun fun h => ?_
        generalize hitems : scanItems fuel (c :: after) = scanned at h
        obtain ⟨others, stop, left⟩ := scanned
        cases h
        rw [← List.cons_append, ih.items hitems more]

private theorem scanValue_step {doc : Doc} (h : scanValue (fuel + 1) bytes = (doc, some rest))
    (hd : doc.Delimited rest) (more : Bytes) :
    scanValue (fuel' + 1) (bytes ++ more) = (doc, some (rest ++ more)) := by
  rw [scanValue] at h ⊢
  cases hblanks : skipBlanks bytes with
  | nil =>
    rw [hblanks] at h
    cases h
  | cons b tail =>
    rw [hblanks] at h
    rw [skipBlanks_followed hblanks more]
    exact test_followed h (fun h => ih.doc h hd more) nofun

private theorem scanMembers_step {members : List (Except Flaw String × Doc)}
    (h : scanMembers (fuel + 1) bytes = (members, stop, some rest)) (more : Bytes) :
    scanMembers (fuel' + 1) (bytes ++ more) = (members, stop, some (rest ++ more)) := by
  rw [scanMembers] at h ⊢
  cases hskip : Quoted.skip bytes with
  | error flaw =>
    rw [hskip] at h
    cases h
  | ok behind =>
    rw [hskip] at h
    rw [Quoted.skip_followed more hskip, Quoted.decode_followed more hskip]
    dsimp only at h ⊢
    generalize hscan : scanValue fuel behind = scanned at h
    obtain ⟨value, _ | left⟩ := scanned
    · cases h
    cases hblanks : skipBlanks left with
    | nil =>
      simp only [hblanks] at h
      cases h
    | cons b tail =>
      simp only [hblanks] at h
      rw [ih.value hscan (delimited_of_skipBlanks hblanks) more]
      dsimp only
      rw [skipBlanks_followed hblanks more]
      refine test_followed h (fun h => ?_) fun h => test_followed h (fun h => ?_) nofun
      · cases h
        rfl
      · cases hinner : skipBlanks tail with
        | nil =>
          rw [hinner] at h
          cases h
        | cons c after =>
          rw [hinner] at h
          rw [skipBlanks_followed hinner more]
          refine test_followed h (fun h => ?_) fun h => test_followed h nofun nofun
          generalize hmembers : scanMembers fuel after = scanned at h
          obtain ⟨others, stop, left⟩ := scanned
          cases h
          rw [ih.members hmembers more]

end Step

private theorem followed {fuel fuel' : Nat} (hf : fuel ≤ fuel') : Followed fuel fuel' := by
  induction fuel generalizing fuel' with
  | zero => exact ⟨nofun, nofun, nofun, nofun⟩
  | succ fuel ih =>
    obtain ⟨fuel', rfl⟩ := Nat.exists_eq_succ_of_ne_zero (Nat.ne_zero_of_lt hf)
    have ih := ih (Nat.le_of_succ_le_succ hf)
    exact ⟨scan_step ih, scanItems_step ih, scanValue_step ih, scanMembers_step ih⟩

/-- A document that is scanned to its end is the same document in front of more. -/
theorem ofBytes_followed {bytes rest : Bytes} {doc : Doc} (h : ofBytes bytes = (doc, some rest))
    (hd : doc.Delimited rest) (more : Bytes) :
    ofBytes (bytes ++ more) = (doc, some (rest ++ more)) := by
  have hlen : bytes.length ≤ (bytes ++ more).length := by simp
  exact (followed (by omega)).doc h hd more

end Doc

end DecisionService.Json
