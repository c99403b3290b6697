import Mathlib
import DecisionService.Json.Doc
import DecisionService.Proofs.Json.Literal
import DecisionService.Proofs.Json.Quoted
/-!
# Documents scanned back

A document is sound when nothing in it is cut short and its numbers are sound literals. A sound
document is scanned back from its text in front of anything that ends a literal.
-/
namespace DecisionService.Json.Doc

mutual

def Sound : Doc → Prop
  | null => True
  | bool _ => True
  | number l => l.Sound
  | string (.ok _) => True
  | array items .closed => SoundItems items
  | object members .closed => SoundMembers members
  | _ => False

def SoundItems : List Doc → Prop
  | [] => True
  | item :: rest => Sound item ∧ SoundItems rest

def SoundMembers : List (Except Flaw String × Doc) → Prop
  | [] => True
  | (.ok _, value) :: rest => Sound value ∧ SoundMembers rest
  | (.error _, _) :: _ => False

end

private def IsBlank (b : UInt8) : Prop :=
  b = 0x20 ∨ b = 0x09 ∨ b = 0x0A ∨ b = 0x0D

private theorem skipBlanks_cons {b : UInt8} (h : ¬ IsBlank b) (rest : Bytes) :
    skipBlanks (b :: rest) = b :: rest := by
  simp only [IsBlank, not_or] at h
  simp [skipBlanks, h]

private theorem head_number {l : Literal} (h : l.Sound) {text : List Char} (ht : l.Spells text) :
    ∃ b tail, Bytes.ofAscii text = b :: tail ∧ (b = 0x2D ∨ Literal.isDigit b = true) := by
  obtain ⟨exponent, -, rfl⟩ := ht
  obtain ⟨c, ds, hw⟩ := List.exists_cons_of_ne_nil h.whole_ne_nil
  have hc := Literal.isDigit_ofNat (h.whole_digits c (by simp [hw]))
  cases hn : l.negative with
  | true => exact ⟨0x2D, _, rfl, Or.inl rfl⟩
  | false =>
    rw [hw]
    exact ⟨UInt8.ofNat c.toNat, _, rfl, Or.inr hc⟩

private theorem number_start {b : UInt8} (h : b = 0x2D ∨ Literal.isDigit b = true) :
    ¬ IsBlank b ∧ b ≠ 0x5D ∧ b ≠ 0x6E ∧ b ≠ 0x74 ∧ b ≠ 0x66 := by
  have other : ∀ a : UInt8, a ≠ 0x2D → Literal.isDigit a = false → b ≠ a := by
    rintro a hm hd rfl
    rcases h with h | h
    · exact hm h
    · rw [hd] at h
      cases h
  refine ⟨?_, other _ (by decide) rfl, other _ (by decide) rfl, other _ (by decide) rfl,
    other _ (by decide) rfl⟩
  simp only [IsBlank, not_or]
  exact ⟨other _ (by decide) rfl, other _ (by decide) rfl, other _ (by decide) rfl,
    other _ (by decide) rfl⟩

private theorem head_render {doc : Doc} (h : doc.Sound) : ∃ b tail, render doc = b :: tail
    ∧ ¬ IsBlank b ∧ b ≠ 0x5D := by
  have fixed : ∀ b ∈ [0x6E, 0x74, 0x66, 0x22, 0x5B, 0x7B], ¬ IsBlank b ∧ b ≠ 0x5D := by
    intro b hb
    simp only [List.mem_cons, List.not_mem_nil, or_false] at hb
    rcases hb with rfl | rfl | rfl | rfl | rfl | rfl <;> simp [IsBlank]
  cases doc with
  | null => exact ⟨0x6E, _, rfl, fixed _ (by simp)⟩
  | bool b =>
    cases b with
    | true => exact ⟨0x74, _, rfl, fixed _ (by simp)⟩
    | false => exact ⟨0x66, _, rfl, fixed _ (by simp)⟩
  | number l =>
    obtain ⟨b, tail, ht, hb⟩ := head_number h l.spells_text
    have hstart := number_start hb
    exact ⟨b, tail, ht, hstart.1, hstart.2.1⟩
  | string text =>
    cases text with
    | ok s => exact ⟨0x22, _, rfl, fixed _ (by simp)⟩
    | error flaw => exact h.elim
  | array items stop => exact ⟨0x5B, _, rfl, fixed _ (by simp)⟩
  | object members stop => exact ⟨0x7B, _, rfl, fixed _ (by simp)⟩
  | missing | keyless | broken => exact h.elim

private theorem scan_number {l : Literal} (h : l.Sound) {text : List Char} (hs : l.Spells text)
    {rest : Bytes} (hr : Literal.Ends rest) (fuel : Nat) :
    scan (fuel + 1) (Bytes.ofAscii text ++ rest) = (number l, some rest) := by
  have htext := Literal.scan_append h hs hr
  obtain ⟨b, tail, ht, hb⟩ := head_number h hs
  obtain ⟨hblank, -, h1, h2, h3⟩ := number_start hb
  rw [ht, List.cons_append] at htext ⊢
  have hnumber : (b = 0x2D || Literal.isDigit b) = true := by
    rcases hb with rfl | hb
    · rfl
    · rw [hb, Bool.or_true]
  rw [scan, skipBlanks_cons hblank]
  simp only [h1, h2, h3, hnumber, if_true, if_false, scanNumber, htext]

private theorem scan_string (s : String) (rest : Bytes) (fuel : Nat) :
    scan (fuel + 1) (Quoted.encode s ++ rest) = (string (.ok s), some rest) := by
  have hbody : Quoted.encode s ++ rest
      = 0x22 :: ((Utf8.encode s).flatMap Quoted.encodeByte ++ 0x22 :: rest) := by
    simp [Quoted.encode]
  rw [hbody, scan, skipBlanks_cons (by simp [IsBlank])]
  change scanText _ = _
  rw [scanText, Quoted.skip_body, Quoted.decode_body]

private theorem scan_null (rest : Bytes) (fuel : Nat) :
    scan (fuel + 1) (render null ++ rest) = (null, some rest) := by
  rw [render, List.cons_append, scan, skipBlanks_cons (by simp [IsBlank])]
  rfl

private theorem scan_bool (b : Bool) (rest : Bytes) (fuel : Nat) :
    scan (fuel + 1) (render (bool b) ++ rest) = (bool b, some rest) := by
  cases b <;>
  · rw [render, List.cons_append, scan, skipBlanks_cons (by simp [IsBlank])]
    rfl

private theorem scan_bracket {b : UInt8} (hblank : ¬ IsBlank b) (hend : b ≠ 0x5D) (tail : Bytes)
    (fuel : Nat) : scan (fuel + 1) (0x5B :: b :: tail)
      = (array (scanItems fuel (b :: tail)).1 (scanItems fuel (b :: tail)).2.1,
        (scanItems fuel (b :: tail)).2.2) := by
  rw [scan, skipBlanks_cons (by simp [IsBlank])]
  simp only [skipBlanks_cons hblank, hend, if_false]
  rfl

private theorem scan_array {items : List Doc} (hs : SoundItems items) (rest : Bytes) (fuel : Nat)
    (h : items ≠ [] → scanItems fuel (renderItems items ++ 0x5D :: rest)
      = (items, .closed, some rest)) :
    scan (fuel + 1) (render (array items .closed) ++ rest) = (array items .closed, some rest) := by
  have htext : render (array items .closed) ++ rest
      = 0x5B :: (renderItems items ++ 0x5D :: rest) := by
    simp [render]
  rw [htext]
  cases items with
  | nil =>
    rw [scan, skipBlanks_cons (by simp [IsBlank])]
    rfl
  | cons item items =>
    obtain ⟨b, tail, hr, hblank, hend⟩ := head_render hs.1
    have hitems := h (List.cons_ne_nil _ _)
    rw [renderItems, hr] at hitems ⊢
    rw [List.append_assoc, List.cons_append] at hitems ⊢
    rw [scan_bracket hblank hend, hitems]

private theorem renderMembers_cons (name : String) (value : Doc)
    (others : List (Except Flaw String × Doc)) :
    renderMembers ((.ok name, value) :: others)
      = 0x22 :: ((Utf8.encode name).flatMap Quoted.encodeByte ++ 0x22 :: 0x3A :: (render value
        ++ (if others.isEmpty then [] else 0x2C :: renderMembers others))) := by
  simp [renderMembers, Quoted.encode]

private theorem scan_object {members : List (Except Flaw String × Doc)} (hs : SoundMembers members)
    (rest : Bytes) (fuel : Nat)
    (h : members ≠ [] → scanMembers fuel ((renderMembers members).tail ++ 0x7D :: rest)
      = (members, .closed, some rest)) :
    scan (fuel + 1) (render (object members .closed) ++ rest)
      = (object members .closed, some rest) := by
  have htext : render (object members .closed) ++ rest
      = 0x7B :: (renderMembers members ++ 0x7D :: rest) := by
    simp [render]
  rw [htext, scan, skipBlanks_cons (by simp [IsBlank])]
  cases members with
  | nil => rfl
  | cons member members =>
    obtain ⟨name | name, value⟩ := member
    · exact hs.elim
    · have hmembers := h (List.cons_ne_nil _ _)
      rw [renderMembers_cons, List.tail_cons] at hmembers
      rw [renderMembers_cons, List.cons_append]
      change (object (scanMembers fuel _).1 _, _) = _
      rw [hmembers]

private theorem ends_cons {b : UInt8} (hb : b ∈ [0x2C, 0x5D, 0x7D]) (rest : Bytes) :
    Literal.Ends (b :: rest) := by
  intro a ha
  cases ha
  simp only [List.mem_cons, List.not_mem_nil, or_false] at hb
  rcases hb with rfl | rfl | rfl <;> decide

theorem length_render_pos {doc : Doc} (h : doc.Sound) : 0 < (render doc).length := by
  obtain ⟨b, tail, hr, -⟩ := head_render h
  rw [hr]
  exact Nat.succ_pos _

mutual

/-- A sound document is scanned back from its text. -/
theorem scan_render : (doc : Doc) → doc.Sound → (rest : Bytes) → Literal.Ends rest →
    (fuel : Nat) → 2 * (render doc).length ≤ fuel →
    scan fuel (render doc ++ rest) = (doc, some rest)
  | doc, h, rest, _, 0, hf => by
    have := length_render_pos h
    omega
  | null, _, rest, _, fuel + 1, _ => scan_null rest fuel
  | bool b, _, rest, _, fuel + 1, _ => scan_bool b rest fuel
  | number l, h, rest, hr, fuel + 1, _ => scan_number h l.spells_text hr fuel
  | string (.ok s), _, rest, _, fuel + 1, _ => scan_string s rest fuel
  | array items .closed, h, rest, _, fuel + 1, hf => by
    simp only [render, List.length_cons, List.length_append, List.length_nil] at hf
    exact scan_array h rest fuel fun hne => scanItems_render items h hne rest fuel (by omega)
  | object members .closed, h, rest, _, fuel + 1, hf => by
    simp only [render, List.length_cons, List.length_append, List.length_nil] at hf
    exact scan_object h rest fuel fun hne => scanMembers_render members h hne rest fuel (by omega)

theorem scanItems_render : (items : List Doc) → SoundItems items → items ≠ [] → (rest : Bytes) →
    (fuel : Nat) → 2 * (renderItems items).length + 1 ≤ fuel →
    scanItems fuel (renderItems items ++ 0x5D :: rest) = (items, .closed, some rest)
  | [], _, hne, _, _, _ => absurd rfl hne
  | _ :: _, _, _, _, 0, hf => by omega
  | [item], h, _, rest, fuel + 1, hf => by
    simp only [renderItems, List.isEmpty_nil, if_true, List.append_nil] at hf ⊢
    rw [scanItems, scan_render item h.1 _ (ends_cons (by simp) rest) fuel (by omega)]
    rfl
  | item :: next :: items, h, _, rest, fuel + 1, hf => by
    have hitems := scanItems_render (next :: items) h.2 (List.cons_ne_nil _ _) rest fuel
    have htext : renderItems (item :: next :: items) ++ 0x5D :: rest
        = render item ++ 0x2C :: (renderItems (next :: items) ++ 0x5D :: rest) := by
      rw [renderItems]
      simp
    rw [renderItems] at hf
    simp only [List.isEmpty_cons, Bool.false_eq_true, if_false, List.length_append,
      List.length_cons] at hf
    rw [htext, scanItems, scan_render item h.1 _ (ends_cons (by simp) _) fuel (by omega)]
    obtain ⟨b, tail, hr, hblank, hend⟩ := head_render h.2.1
    have hitems := hitems (by omega)
    rw [renderItems, hr] at hitems ⊢
    simp only [List.cons_append] at hitems ⊢
    simp only [skipBlanks_cons (show ¬ IsBlank 0x2C by simp [IsBlank]), skipBlanks_cons hblank,
      hend, if_false, hitems]
    rfl

theorem scanMembers_render : (members : List (Except Flaw String × Doc)) → SoundMembers members →
    members ≠ [] → (rest : Bytes) → (fuel : Nat) →
    2 * (renderMembers members).length + 1 ≤ fuel →
    scanMembers fuel ((renderMembers members).tail ++ 0x7D :: rest)
      = (members, .closed, some rest)
  | [], _, hne, _, _, _ => absurd rfl hne
  | (.error _, _) :: _, h, _, _, _, _ => h.elim
  | (.ok _, _) :: _, _, _, _, 0, hf => by omega
  | (.ok name, value) :: members, h, _, rest, fuel + 1, hf => by
    have hvalue : ∀ tail, Literal.Ends tail → 2 * (render value).length + 1 ≤ fuel →
        scanValue fuel (0x3A :: (render value ++ tail)) = (value, some tail) := by
      intro tail ht hfuel
      obtain ⟨fuel, rfl⟩ := Nat.exists_eq_succ_of_ne_zero (show fuel ≠ 0 by omega)
      exact scan_render value h.1 tail ht fuel (by omega)
    rw [renderMembers_cons] at hf ⊢
    simp only [List.length_cons, List.length_append] at hf
    rw [List.tail_cons]
    cases members with
    | nil =>
      simp only [List.isEmpty_nil, if_true, List.append_nil, List.append_assoc, List.cons_append]
      have hlast := hvalue (0x7D :: rest) (ends_cons (by simp) rest) (by omega)
      rw [scanMembers, Quoted.skip_body, Quoted.decode_body]
      simp only [hlast]
      rfl
    | cons member members =>
      have hmembers := scanMembers_render (member :: members) h.2 (List.cons_ne_nil _ _) rest fuel
      obtain ⟨other | other, next⟩ := member
      · exact h.2.elim
      · simp only [List.isEmpty_cons, Bool.false_eq_true, if_false, List.length_cons] at hf
        have hmembers := hmembers (by omega)
        rw [renderMembers_cons, List.tail_cons] at hmembers
        simp only [List.isEmpty_cons, Bool.false_eq_true, if_false, List.append_assoc,
          List.cons_append]
        have hfirst := hvalue
          (0x2C :: (renderMembers ((.ok other, next) :: members) ++ 0x7D :: rest))
          (ends_cons (by simp) _) (by omega)
        rw [scanMembers, Quoted.skip_body, Quoted.decode_body]
        simp only [hfirst]
        rw [renderMembers_cons, List.cons_append]
        change ((.ok name, value) :: (scanMembers fuel _).1, _, _) = _
        rw [hmembers]

end

theorem ofBytes_render {doc : Doc} (h : doc.Sound) : ofBytes (render doc) = (doc, some []) := by
  have hscan := scan_render doc h [] Literal.ends_nil (2 * (render doc).length + 2) (by omega)
  rwa [List.append_nil] at hscan

theorem ofBytes_literal {l : Literal} (h : l.Sound) {text : List Char} (ht : l.Spells text) :
    ofBytes (Bytes.ofAscii text) = (number l, some []) := by
  have hscan := scan_number h ht Literal.ends_nil (2 * (Bytes.ofAscii text).length + 1)
  rwa [List.append_nil] at hscan

end DecisionService.Json.Doc
