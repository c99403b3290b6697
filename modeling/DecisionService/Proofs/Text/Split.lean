import Mathlib
import DecisionService.Text.Split
/-!
# Splitting what was put together

Parts that hold no separator are found again, whether the separator stands between them or in front
of each.
-/
namespace DecisionService.Text

variable {α : Type} {separates : α → Bool}

theorem split_eq_singleton {part : List α} (h : ∀ a ∈ part, separates a = false) :
    split separates part = [part] := by
  induction part with
  | nil => rfl
  | cons a rest ih =>
    have ha := h a List.mem_cons_self
    have hrest := ih fun b hb => h b (List.mem_cons_of_mem a hb)
    simp [split, ha, hrest]

theorem split_append {part : List α} (h : ∀ a ∈ part, separates a = false) {separator : α}
    (hs : separates separator = true) (rest : List α) :
    split separates (part ++ separator :: rest) = part :: split separates rest := by
  induction part with
  | nil => simp [split, hs]
  | cons a front ih =>
    have ha := h a List.mem_cons_self
    have hfront := ih fun b hb => h b (List.mem_cons_of_mem a hb)
    simp [split, ha, hfront]

/-- Behind every separator stands one of the parts. -/
theorem split_flatMap_cons {separator : α} (hs : separates separator = true)
    {parts : List (List α)} (h : ∀ part ∈ parts, ∀ a ∈ part, separates a = false) :
    split separates (parts.flatMap (separator :: ·)) = [] :: parts := by
  have hbehind : ∀ front : List α, (∀ a ∈ front, separates a = false) →
      split separates (front ++ parts.flatMap (separator :: ·)) = front :: parts := by
    induction parts with
    | nil =>
      intro front hfront
      simpa using split_eq_singleton hfront
    | cons part rest ih =>
      intro front hfront
      have hpart := h part List.mem_cons_self
      have hrest := ih fun p hp => h p (List.mem_cons_of_mem part hp)
      rw [List.flatMap_cons, List.cons_append, split_append hfront hs, hrest part hpart]
  exact hbehind [] (List.forall_mem_nil _)

theorem flatMap_cons_inj (separates : α → Bool) {separator : α} (hs : separates separator = true)
    {left right : List (List α)} (hl : ∀ part ∈ left, ∀ a ∈ part, separates a = false)
    (hr : ∀ part ∈ right, ∀ a ∈ part, separates a = false)
    (h : left.flatMap (separator :: ·) = right.flatMap (separator :: ·)) : left = right := by
  have hsplit := congrArg (split separates) h
  rw [split_flatMap_cons hs hl, split_flatMap_cons hs hr] at hsplit
  exact (List.cons.inj hsplit).2

end DecisionService.Text
