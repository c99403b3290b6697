import Mathlib
import DecisionService.Proofs.Value.Distinct
/-!
# The decimal form of a value

Where no number stops it and there are no sets, coercion puts the decimal of every number in the
place of the number and changes nothing else. Passing over the outcome once more leaves it as it is.
-/
namespace DecisionService

namespace Coerced

variable {α β : Type}

theorem pair_eq_none_iff {first : Coerced α} {second : β} {coerce : β → Coerced β} {a : α} {b : β} :
    first.pair second coerce = ⟨(a, b), none⟩ ↔ first = ⟨a, none⟩ ∧ coerce second = ⟨b, none⟩ := by
  obtain ⟨left, _ | e⟩ := first
  · generalize hc : coerce second = c
    obtain ⟨rest, fault?⟩ := c
    simp [pair, hc, map, and_assoc]
  · simp [pair]

theorem list_eq_none_iff {coerce : α → Coerced α} {items left : List α} :
    list coerce items = ⟨left, none⟩
      ↔ List.Forall₂ (fun a b => coerce a = ⟨b, none⟩) items left := by
  induction items generalizing left with
  | nil => cases left <;> simp [list]
  | cons a rest ih =>
    rw [list]
    generalize ha : coerce a = c
    obtain ⟨b, _ | e⟩ := c
    · simp only [map_eq_iff, ih]
      constructor
      · rintro ⟨others, hothers, rfl⟩
        exact .cons ha hothers
      · rintro (_ | ⟨hb, hothers⟩)
        rw [ha] at hb
        cases hb
        exact ⟨_, hothers, rfl⟩
    · constructor
      · intro h
        cases h
      · rintro (_ | ⟨hb, hothers⟩)
        rw [ha] at hb
        cases hb

end Coerced

namespace Value

mutual

/-- The second value is the first with the decimal of each number in its place. Neither has sets. -/
def DecimalForm : Value → Value → Prop
  | null, null => True
  | bool a, bool b => a = b
  | number m, number n => ∃ d, m.toDecimal = .ok d ∧ n = .decimal d
  | string a, string b => a = b
  | array a, array b => DecimalFormList a b
  | object a, object b => DecimalFormEntries a b
  | _, _ => False

def DecimalFormList : List Value → List Value → Prop
  | [], [] => True
  | a :: as, b :: bs => DecimalForm a b ∧ DecimalFormList as bs
  | _, _ => False

def DecimalFormEntries : Entries Value → Entries Value → Prop
  | [], [] => True
  | (name, a) :: as, (other, b) :: bs => name = other ∧ DecimalForm a b ∧ DecimalFormEntries as bs
  | _, _ => False

end

theorem decimalFormList_iff (as bs : List Value) :
    DecimalFormList as bs ↔ List.Forall₂ DecimalForm as bs := by
  induction as generalizing bs with
  | nil => cases bs <;> simp [DecimalFormList]
  | cons a as ih => cases bs <;> simp [DecimalFormList, ih]

theorem decimalFormEntries_iff (as bs : Entries Value) : DecimalFormEntries as bs
    ↔ List.Forall₂ (fun a b => a.1 = b.1 ∧ a.2.DecimalForm b.2) as bs := by
  induction as generalizing bs with
  | nil => cases bs <;> simp [DecimalFormEntries]
  | cons a as ih => cases bs <;> simp [DecimalFormEntries, ih, and_assoc]

/-! ## The passes over members and entries -/

theorem coerceList_eq_list (items : List Value) : coerceList items = Coerced.list coerce items := by
  induction items with
  | nil => rfl
  | cons v rest ih => rw [coerceList, Coerced.list, ih]

def coerceEntry (e : String × Value) : Coerced (String × Value) :=
  e.2.coerce.map (e.1, ·)

theorem coerceEntries_eq_list (entries : Entries Value) :
    coerceEntries entries = Coerced.list coerceEntry entries := by
  induction entries with
  | nil => rfl
  | cons e rest ih =>
    rw [coerceEntries, Coerced.list, ih]
    rfl

theorem coerceEntry_eq_none_iff {e e' : String × Value} :
    coerceEntry e = ⟨e', none⟩ ↔ e.1 = e'.1 ∧ e.2.coerce = ⟨e'.2, none⟩ := by
  obtain ⟨name, v⟩ := e
  obtain ⟨name', w⟩ := e'
  simp only [coerceEntry, Coerced.map_eq_iff, Prod.mk.injEq]
  grind

/-! ## Values -/

theorem number_coerce_eq_none_iff {m n : Number} :
    m.coerce = ⟨n, none⟩ ↔ ∃ d, m.toDecimal = .ok d ∧ n = .decimal d := by
  rw [Number.coerce]
  cases m.toDecimal with
  | ok d => simp [eq_comm]
  | error e => simp

/-- Coercion goes through a value without sets exactly when it makes the decimal form of it. -/
theorem coerce_eq_none_iff {p : Value → Prop} (hp : ∀ members, ¬ p (set members)) {v w : Value}
    (hv : v.Each p) : v.coerce = ⟨w, none⟩ ↔ v.DecimalForm w := by
  induction v using Value.induction generalizing w with
  | null | bool | string => cases w <;> simp [coerce, DecimalForm]
  | number n =>
    rw [coerce, Coerced.map_eq_iff]
    simp only [number_coerce_eq_none_iff]
    cases w <;> simp [DecimalForm, eq_comm]
  | array items ih =>
    have hitems := (eachOfList_iff _ _).mp hv.2
    have hparts := fun bs =>
      forall₂_iff_of_mem bs fun v hmem w _ => ih v hmem (hitems v hmem) (w := w)
    rw [coerce, Coerced.map_eq_iff]
    simp only [coerceList_eq_list, Coerced.list_eq_none_iff, hparts]
    cases w <;> simp [DecimalForm, decimalFormList_iff]
  | set members ih => exact absurd hv.1 (hp members)
  | object entries ih =>
    have hentries := (eachOfEntries_iff _ _).mp hv.2
    have hentry : ∀ e ∈ entries, ∀ e', coerceEntry e = ⟨e', none⟩
        ↔ e.1 = e'.1 ∧ e.2.DecimalForm e'.2 := by
      intro e he e'
      rw [coerceEntry_eq_none_iff, ih e he (hentries e he)]
    have hparts := fun bs => forall₂_iff_of_mem bs fun e he e' _ => hentry e he e'
    rw [coerce, Coerced.map_eq_iff]
    simp only [coerceEntries_eq_list, Coerced.list_eq_none_iff, hparts]
    cases w <;> simp [DecimalForm, decimalFormEntries_iff]

theorem DecimalForm.coerce_self {v w : Value} (h : v.DecimalForm w) : w.coerce = ⟨w, none⟩ := by
  induction v using Value.induction generalizing w with
  | null | bool | string =>
    cases w with
    | null | bool | string => rfl
    | _ => cases h
  | number n =>
    cases w with
    | number m =>
      obtain ⟨d, -, rfl⟩ := h
      rfl
    | _ => cases h
  | array items ih =>
    cases w with
    | array others =>
      have hself : List.Forall₂ (fun v w => v.coerce = ⟨w, none⟩) others others :=
        forall₂_self_right (fun v hv w hw => ih v hv hw) ((decimalFormList_iff _ _).mp h)
      rw [coerce, coerceList_eq_list, Coerced.list_eq_none_iff.mpr hself]
      rfl
    | _ => cases h
  | set members ih => cases w <;> cases h
  | object entries ih =>
    cases w with
    | object others =>
      have hself : List.Forall₂ (fun e e' => coerceEntry e = ⟨e', none⟩) others others :=
        forall₂_self_right
          (fun e he e' he' => coerceEntry_eq_none_iff.mpr ⟨rfl, ih e he he'.2⟩)
          ((decimalFormEntries_iff _ _).mp h)
      rw [coerce, coerceEntries_eq_list, Coerced.list_eq_none_iff.mpr hself]
      rfl
    | _ => cases h

end Value

end DecisionService
