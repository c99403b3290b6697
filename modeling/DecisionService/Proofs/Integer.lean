import Mathlib
import DecisionService.Proofs.Numeral
import DecisionService.Proofs.Outcome
/-!
# The grammar of integers

An integer of any size is read from one sign and digits that underscores may group; an integer
between two bounds from one sign and digits. No text is made up so in two ways.
-/
namespace DecisionService.Integer

inductive Sign
  | absent
  | plus
  | minus
deriving DecidableEq, Repr

namespace Sign

def text : Sign → List Char
  | absent => []
  | plus => ['+']
  | minus => ['-']

def apply : Sign → Nat → Int
  | minus, n => -n
  | _, n => n

end Sign

/-- Digits that underscores may group: a digit stands first. -/
def Grouped : List Char → Prop
  | [] => False
  | c :: rest => c.isDigit = true ∧ ∀ d ∈ rest, d.isDigit = true ∨ d = '_'

def ofGrouped (ds : List Char) : Nat :=
  ofDigits (ds.filter (· ≠ '_'))

theorem Grouped.exists_cons {ds : List Char} (h : Grouped ds) :
    ∃ c rest, ds = c :: rest ∧ c.isDigit = true := by
  cases ds with
  | nil => exact h.elim
  | cons c rest => exact ⟨c, rest, rfl, h.1⟩

theorem Grouped.mem {ds : List Char} (h : Grouped ds) {c : Char} (hc : c ∈ ds) :
    c.isDigit = true ∨ c = '_' := by
  cases ds with
  | nil => cases hc
  | cons d rest =>
    rcases List.mem_cons.mp hc with rfl | hc
    · exact Or.inl h.1
    · exact h.2 c hc

theorem grouped_of_digits {ds : List Char} (hne : ds ≠ []) (hd : ∀ c ∈ ds, c.isDigit = true) :
    Grouped ds := by
  obtain ⟨c, rest, rfl⟩ := List.exists_cons_of_ne_nil hne
  exact ⟨hd c List.mem_cons_self, fun d hmem => Or.inl (hd d (List.mem_cons_of_mem c hmem))⟩

theorem filter_digits {ds : List Char} (hd : ∀ c ∈ ds, c.isDigit = true) :
    ds.filter (· ≠ '_') = ds := by
  rw [List.filter_eq_self]
  exact fun c hc => decide_eq_true (digit_ne (hd c hc) rfl)

theorem Grouped.signed_inj {s s' : Sign} {ds ds' : List Char} (h : Grouped ds) (h' : Grouped ds')
    (heq : s.text ++ ds = s'.text ++ ds') : s = s' ∧ ds = ds' := by
  obtain ⟨c, rest, rfl, hc⟩ := h.exists_cons
  obtain ⟨c', rest', rfl, hc'⟩ := h'.exists_cons
  have hplus := digit_ne hc (d := '+') rfl
  have hminus := digit_ne hc (d := '-') rfl
  have hplus' := digit_ne hc' (d := '+') rfl
  have hminus' := digit_ne hc' (d := '-') rfl
  cases s <;> cases s' <;> simp only [Sign.text, List.nil_append, List.cons_append, List.cons.injEq,
    true_and] at heq ⊢ <;> grind

section Grouped

variable {text : List Char}

private theorem readBody_eq_ok_iff {n : Nat} :
    (match text with
      | [] => .error .empty
      | '_' :: _ => .error .badDigit
      | _ => if (text.filter (· ≠ '_')).all Char.isDigit then .ok (ofGrouped text)
        else .error .badDigit : Except IntegerError Nat) = .ok n
      ↔ Grouped text ∧ n = ofGrouped text := by
  split
  · simp [Grouped]
  · simp only [reduceCtorEq, Grouped, false_iff, not_and]
    exact fun h => absurd h.1 (by decide)
  · next hempty hbar =>
    obtain ⟨c, rest, rfl⟩ := List.exists_cons_of_ne_nil hempty
    have hc : c ≠ '_' := fun h => hbar rest (by rw [h])
    have hall : ((c :: rest).filter (· ≠ '_')).all Char.isDigit = true ↔ Grouped (c :: rest) := by
      simp only [List.all_eq_true, List.mem_filter, List.mem_cons, decide_eq_true_eq, Grouped]
      constructor
      · intro h
        exact ⟨h c ⟨Or.inl rfl, hc⟩, fun d hd => or_iff_not_imp_right.mpr fun hne =>
          h d ⟨Or.inr hd, hne⟩⟩
      · rintro ⟨hfirst, hrest⟩ d ⟨rfl | hd, hne⟩
        · exact hfirst
        · exact (hrest d hd).resolve_right hne
    split
    · next h => simp [hall.mp h, eq_comm]
    · next h => simp [mt hall.mpr h]

private theorem readGrouped_eq (text : List Char) : readGrouped text =
    let body := match text with
      | '+' :: rest => if rest.head? = some '+' then text else rest
      | _ => text
    match body with
      | [] => .error .empty
      | '_' :: _ => .error .badDigit
      | _ => if (body.filter (· ≠ '_')).all Char.isDigit then .ok (ofGrouped body)
        else .error .badDigit :=
  rfl

theorem readGrouped_eq_ok_iff {n : Nat} : readGrouped text = .ok n
    ↔ ∃ ds, Grouped ds ∧ (text = ds ∨ text = '+' :: ds) ∧ n = ofGrouped ds := by
  rw [readGrouped_eq]
  extract_lets body
  rw [readBody_eq_ok_iff]
  constructor
  · rintro ⟨hbody, hn⟩
    refine ⟨body, hbody, ?_, hn⟩
    simp only [body]
    split
    · split
      · exact Or.inl rfl
      · exact Or.inr rfl
    · exact Or.inl rfl
  · rintro ⟨ds, hds, htext, hn⟩
    obtain ⟨c, rest, rfl, hc⟩ := hds.exists_cons
    have hplus : c ≠ '+' := digit_ne hc rfl
    have hbody : body = c :: rest := by
      rcases htext with rfl | rfl
      · simp only [body]
        split
        · next h => exact absurd (List.cons.inj h).1 hplus
        · rfl
      · simp [body, hplus]
    rw [hbody]
    exact ⟨hds, hn⟩

private theorem map_cast_eq_ok {x : Except IntegerError Nat} {f : Int → Int} {n : Int} :
    (x >>= fun m => pure (m : Int)).map f = .ok n ↔ ∃ m : Nat, x = .ok m ∧ n = f m := by
  rw [Outcome.map_eq_ok]
  simp only [Outcome.bind_eq_ok]
  constructor
  · rintro ⟨k, ⟨m, hm, hk⟩, hn⟩
    cases hk
    exact ⟨m, hm, hn⟩
  · rintro ⟨m, hm, hn⟩
    exact ⟨m, ⟨m, hm, rfl⟩, hn⟩

theorem readAny_eq_ok_iff {n : Int} : readAny text = .ok n
    ↔ ∃ (s : Sign) (ds : List Char), Grouped ds ∧ text = s.text ++ ds
      ∧ n = s.apply (ofGrouped ds) := by
  rw [readAny.eq_def]
  split
  · next rest =>
    simp only [map_cast_eq_ok, readGrouped_eq_ok_iff]
    constructor
    · rintro ⟨m, ⟨ds, hds, htext, rfl⟩, rfl⟩
      split at htext
      · -- a second sign is no digit
        obtain ⟨c, tail, rfl, hc⟩ := hds.exists_cons
        rcases htext with htext | htext
        · exact absurd (List.cons.inj htext).1.symm (digit_ne hc rfl)
        · cases (List.cons.inj htext).1
      · next hhead =>
        rcases htext with rfl | rfl
        · exact ⟨.minus, rest, hds, rfl, rfl⟩
        · exact absurd rfl hhead
    · rintro ⟨s, ds, hds, htext, rfl⟩
      obtain ⟨c, tail, rfl, hc⟩ := hds.exists_cons
      have hplus : c ≠ '+' := digit_ne hc rfl
      have hminus : '-' ≠ c := (digit_ne hc rfl).symm
      cases s with
      | absent => exact absurd (List.cons.inj htext).1 hminus
      | plus => cases (List.cons.inj htext).1
      | minus =>
        obtain ⟨-, rfl⟩ := List.cons.inj htext
        exact ⟨_, ⟨c :: tail, hds, Or.inl (by simp [hplus]), rfl⟩, rfl⟩
  · next hminus =>
    simp only [map_cast_eq_ok, readGrouped_eq_ok_iff]
    constructor
    · rintro ⟨m, ⟨ds, hds, rfl | rfl, rfl⟩, rfl⟩
      · exact ⟨.absent, text, hds, rfl, rfl⟩
      · exact ⟨.plus, ds, hds, rfl, rfl⟩
    · rintro ⟨s, ds, hds, rfl, rfl⟩
      cases s with
      | absent => exact ⟨_, ⟨ds, hds, Or.inl rfl, rfl⟩, rfl⟩
      | plus => exact ⟨_, ⟨ds, hds, Or.inr rfl, rfl⟩, rfl⟩
      | minus => exact absurd rfl (hminus ds)

end Grouped

section Bounded

variable {least most : Int} {text : List Char} {n : Int}

private def digitsBetween (least most : Int) (s : Sign) (ds : List Char) :
    Except IntegerError Int :=
  let run := ds.takeWhile Char.isDigit
  let n := s.apply (ofDigits run)
  if n < least then .error .tooSmall
  else if most < n then .error .tooLarge
  else if ds.isEmpty || run.length < ds.length then .error .badDigit
  else .ok n

private theorem of_digitsBetween {s : Sign} {ds : List Char}
    (h : digitsBetween least most s ds = .ok n) :
    ds ≠ [] ∧ (∀ c ∈ ds, c.isDigit = true) ∧ n = s.apply (ofDigits ds) ∧ least ≤ n ∧ n ≤ most := by
  simp only [digitsBetween] at h
  split_ifs at h with hsmall hlarge hbad
  simp only [Bool.or_eq_true, not_or, List.isEmpty_iff, decide_eq_true_eq, not_lt] at hbad
  have hrun : ds.takeWhile Char.isDigit = ds := (List.takeWhile_prefix _).eq_of_length_le hbad.2
  rw [hrun] at h hsmall hlarge
  cases h
  exact ⟨hbad.1, List.takeWhile_eq_self_iff.mp hrun, rfl, not_lt.mp hsmall, not_lt.mp hlarge⟩

/-- The first character decides which digits are looked at. -/
private theorem exists_digitsBetween (most : Int) (hl : least < 0) (htext : text ≠ []) :
    ∃ (s : Sign) (ds : List Char), text = s.text ++ ds
      ∧ readBetween least most text = digitsBetween least most s ds := by
  obtain ⟨c, rest, rfl⟩ := List.exists_cons_of_ne_nil htext
  by_cases hminus : c = '-'
  · subst hminus
    exact ⟨.minus, rest, rfl, by simp [readBetween, digitsBetween, Sign.apply, hl]⟩
  by_cases hplus : c = '+'
  · subst hplus
    exact ⟨.plus, rest, rfl, by simp [readBetween, digitsBetween, Sign.apply]⟩
  · exact ⟨.absent, c :: rest, rfl, by
      simp [readBetween, digitsBetween, Sign.apply, hminus, hplus]⟩

theorem readBetween_eq_ok_iff (hl : least < 0) (hm : 0 ≤ most) : readBetween least most text = .ok n
    ↔ ∃ (s : Sign) (ds : List Char), ds ≠ [] ∧ (∀ c ∈ ds, c.isDigit = true) ∧ text = s.text ++ ds
      ∧ n = s.apply (ofDigits ds) ∧ least ≤ n ∧ n ≤ most := by
  constructor
  · intro h
    have htext : text ≠ [] := by
      rintro rfl
      cases h
    obtain ⟨s, ds, rfl, hread⟩ := exists_digitsBetween most hl htext
    obtain ⟨hne, hd, hn⟩ := of_digitsBetween (hread.symm.trans h)
    exact ⟨s, ds, hne, hd, rfl, hn⟩
  · rintro ⟨s, ds, hne, hd, rfl, rfl, hleast, hmost⟩
    cases s with
    | absent => exact (readBetween_digits hne hd hleast).trans (if_neg hmost.not_gt)
    | plus => exact (readBetween_plus hne hd hl.le).trans (if_neg hmost.not_gt)
    | minus => exact (readBetween_minus hne hd hl hm).trans (if_neg hleast.not_gt)

end Bounded

end DecisionService.Integer
