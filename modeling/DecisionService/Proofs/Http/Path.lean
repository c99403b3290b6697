import Mathlib
import DecisionService.Http.Url
import DecisionService.Proofs.Http.Percent
import DecisionService.Proofs.Text.Split
/-!
# Segments put behind a path

A text that is put behind a path makes one segment of it, encoded as a whole. The exceptions are the
texts that read as dots: one or two dots are skipped, and where tabs or line breaks are dropped
before the dots are read, two dots take the last segment away.
-/
namespace DecisionService.Http

namespace Path

variable {barred : Char → Bool}

/-! ## Dots -/

theorem undotted_cons {c : Char} (h : c ≠ '%') (rest : List Char) :
    undotted (c :: rest) = c :: undotted rest := by
  conv_lhs => unfold undotted
  split <;> simp_all

private theorem digit_cases {n : Nat} (h : n < 16) :
    Percent.digit n ≠ '%' ∧ Percent.digit n ≠ 'e' ∧ (Percent.digit n = '2' → n = 2)
      ∧ (Percent.digit n = 'E' → n = 14) := by
  interval_cases n <;> decide

theorem undotted_encodeByte {b : UInt8} (h : b ≠ 0x2E) (rest : List Char) :
    undotted (Percent.encodeByte b ++ rest) = Percent.encodeByte b ++ undotted rest := by
  have hb := b.toNat_lt
  have hvalue : b.toNat ≠ 0x2E := fun heq => h (UInt8.toNat_inj.mp heq)
  obtain ⟨hhigh, -, htwo, -⟩ := digit_cases (n := b.toNat / 16) (by omega)
  obtain ⟨hlow, hsmall, -, hcapital⟩ := digit_cases (n := b.toNat % 16) (by omega)
  simp only [Percent.encodeByte, List.cons_append, List.nil_append]
  conv_lhs => unfold undotted
  split
  · next heq =>
    simp only [List.cons.injEq] at heq
    exact absurd heq.2.2.1 hsmall
  · next heq =>
    simp only [List.cons.injEq] at heq
    have h2 := htwo heq.2.1
    have h14 := hcapital heq.2.2.1
    omega
  · next heq =>
    simp only [List.cons.injEq] at heq
    rw [← heq.1, ← heq.2, undotted_cons hhigh, undotted_cons hlow]
  · next heq => cases heq

theorem undotted_encodeBytes {bytes : Bytes} (h : ∀ b ∈ bytes, b ≠ 0x2E) (rest : List Char) :
    undotted (bytes.flatMap Percent.encodeByte ++ rest)
      = bytes.flatMap Percent.encodeByte ++ undotted rest := by
  induction bytes with
  | nil => rfl
  | cons b bytes ih =>
    have hbytes := ih fun a ha => h a (List.mem_cons_of_mem b ha)
    rw [List.flatMap_cons, List.append_assoc, undotted_encodeByte (h b List.mem_cons_self), hbytes,
      List.append_assoc]

/-- Nothing in an encoded text counts as a dot unless it is one. -/
theorem undotted_encode (hpercent : barred '%' = true) (hdot : barred '.' = false)
    (text : List Char) :
    undotted (Percent.encode barred text) = Percent.encode barred text := by
  induction text with
  | nil => rfl
  | cons c rest ih =>
    rw [Percent.encode, List.flatMap_cons, ← Percent.encode, Percent.encodeChar]
    split
    · next hc =>
      have hbytes : ∀ b ∈ Utf8.encodeChar c, b ≠ 0x2E := by
        rintro b hb rfl
        have hdotted := Utf8.eq_ofNat_of_mem_encodeChar hb (by decide)
        rw [hdotted] at hc
        exact Bool.false_ne_true (hdot.symm.trans hc)
      rw [undotted_encodeBytes hbytes, ih]
    · next hc =>
      have hne : c ≠ '%' := by
        rintro rfl
        exact hc hpercent
      rw [List.singleton_append, undotted_cons hne, ih]

private theorem undotted_encode_eq_iff (hpercent : barred '%' = true) (hdot : barred '.' = false)
    (text : List Char) {dots : List Char} (h : ∀ c ∈ dots, c = '.') :
    undotted (Percent.encode barred text) = dots ↔ text = dots := by
  have hdots : Percent.encode barred dots = dots := by
    apply Percent.encode_eq_self
    intro c hc
    rw [h c hc, hdot]
  have hiff := (Percent.encode_injective hpercent).eq_iff (a := text) (b := dots)
  rw [undotted_encode hpercent hdot, ← hiff, hdots]

theorem isAbove_encode (hpercent : barred '%' = true) (hdot : barred '.' = false)
    (text : List Char) : isAbove (Percent.encode barred text) = true ↔ text = ['.', '.'] := by
  rw [isAbove, beq_iff_eq]
  exact undotted_encode_eq_iff hpercent hdot text (by simp)

theorem isHere_encode (hpercent : barred '%' = true) (hdot : barred '.' = false)
    (text : List Char) : isHere (Percent.encode barred text) = true ↔ text = ['.'] := by
  rw [isHere, beq_iff_eq]
  exact undotted_encode_eq_iff hpercent hdot text (by simp)

/-! ## One segment -/

def visible (text : List Char) : List Char :=
  text.filter fun c => c ≠ '\t' && c ≠ '\n' && c ≠ '\r'

/-- What becomes of a text that is put behind a path. -/
inductive Place
  /-- Nothing is put there. -/
  | skipped
  /-- An empty segment takes the place of the last one. -/
  | above
  | segment (text : List Char)
deriving DecidableEq, Repr

def Place.of (text : List Char) : Place :=
  if text = ['.'] ∨ text = ['.', '.'] then skipped
  else if visible text = ['.', '.'] then above
  else if visible text = ['.'] then segment []
  else segment (visible text)

def IsPlain (text : List Char) : Prop :=
  text ≠ ['.'] ∧ text ≠ ['.', '.'] ∧ ∀ c ∈ text, c ≠ '\t' ∧ c ≠ '\n' ∧ c ≠ '\r'

theorem Place.of_plain {text : List Char} (h : IsPlain text) : Place.of text = .segment text := by
  obtain ⟨hone, htwo, hshown⟩ := h
  have hvisible : visible text = text := by
    rw [visible, List.filter_eq_self]
    intro c hc
    simpa [and_assoc] using hshown c hc
  simp [Place.of, hvisible, hone, htwo]

def opened (path : List String) : List String :=
  if path = [""] then [] else path

theorem push_eq (hpercent : barred '%' = true) (hdot : barred '.' = false) (text : List Char)
    (path : List String) :
    push barred text path = match Place.of text with
      | .skipped => path
      | .above => (opened path).dropLast ++ [""]
      | .segment shown => opened path ++ [String.ofList (Percent.encode barred shown)] := by
  have habove := isAbove_encode hpercent hdot (visible text)
  have hhere := isHere_encode hpercent hdot (visible text)
  have hpush : push barred text path = if text = ['.'] ∨ text = ['.', '.'] then path
      else resolve (opened path) [Percent.encode barred (visible text)] := rfl
  rw [hpush, Place.of]
  by_cases hskip : text = ['.'] ∨ text = ['.', '.']
  · simp only [if_pos hskip]
  by_cases hdots : visible text = ['.', '.']
  · simp only [if_neg hskip, if_pos hdots, resolve, habove.mpr hdots, if_true, List.isEmpty_nil]
  have hnot : isAbove (Percent.encode barred (visible text)) = false := by
    simpa using mt habove.mp hdots
  by_cases hone : visible text = ['.']
  · simp only [if_neg hskip, if_neg hdots, if_pos hone, resolve, hnot, hhere.mpr hone, if_true,
      Bool.false_eq_true, if_false, List.isEmpty_nil]
    rfl
  · have hnothere : isHere (Percent.encode barred (visible text)) = false := by
      simpa using mt hhere.mp hone
    simp only [if_neg hskip, if_neg hdots, if_neg hone, resolve, hnot, hnothere,
      Bool.false_eq_true, if_false]

theorem opened_append {front : List String} {last : String} (h : front ≠ [] ∨ last ≠ "") :
    opened (front ++ [last]) = front ++ [last] := by
  rw [opened, if_neg]
  intro heq
  cases front with
  | nil =>
    rcases h with h | h
    · exact h rfl
    · exact h (by simpa using heq)
  | cons first rest => simp at heq

def lead (path : List String) : List String :=
  opened (closed path)

theorem lead_eq (path : List String) :
    lead path = if path = ["", ""] then []
      else if path.getLast? = some "" then path.dropLast else path := by
  rw [lead, closed]
  by_cases htwo : path = ["", ""]
  · subst htwo
    rfl
  by_cases hone : path = [""]
  · subst hone
    rfl
  rw [if_neg htwo]
  by_cases hlast : path.getLast? = some ""
  · have hpath : path = path.dropLast ++ [""] := by
      rw [List.dropLast_append_getLast? "" hlast]
    have hne : path.dropLast ≠ [""] := by
      intro hdrop
      rw [hdrop] at hpath
      exact htwo hpath
    rw [if_pos ⟨hlast, hone⟩, if_pos hlast, opened, if_neg hne]
  · rw [if_neg (by simp [hlast]), if_neg hlast, opened, if_neg hone]

/-! ## Writing a path -/

theorem toList_renderSegments (path : List String) :
    (renderSegments path).toList = (path.map String.toList).flatMap ('/' :: ·) := by
  simp [renderSegments, List.flatMap_map]

/-- Paths with one lead are told apart by what stands behind it. -/
theorem renderSegments_append_inj {front left right : List String}
    (hl : ∀ part ∈ left, '/' ∉ part.toList) (hr : ∀ part ∈ right, '/' ∉ part.toList)
    (h : renderSegments (front ++ left) = renderSegments (front ++ right)) : left = right := by
  have hchars := congrArg String.toList h
  simp only [toList_renderSegments, List.map_append, List.flatMap_append,
    List.append_cancel_left_eq] at hchars
  have hfree : ∀ {parts : List String}, (∀ part ∈ parts, '/' ∉ part.toList) →
      ∀ part ∈ parts.map String.toList, ∀ c ∈ part, decide (c = '/') = false := by
    intro parts hparts part hpart c hc
    obtain ⟨text, htext, rfl⟩ := List.mem_map.mp hpart
    rw [decide_eq_false_iff_not]
    rintro rfl
    exact hparts text htext hc
  have hmap := Text.flatMap_cons_inj (· = '/') (by decide) (hfree hl) (hfree hr) hchars
  exact List.map_injective_iff.mpr (fun _ _ => String.toList_injective) hmap

end Path

end DecisionService.Http
