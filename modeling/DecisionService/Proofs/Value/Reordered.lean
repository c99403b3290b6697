import Mathlib
import DecisionService.Proofs.Related
import DecisionService.Proofs.Value.Relay
/-!
# Trees of one shape

Two values correspond when their trees do: nothing, booleans and texts are the same, numbers are
related, lists correspond item by item, and objects hold the same names, each with values that
correspond. An object is a map: the order of its entries says nothing, and it may be written in any.
-/
namespace DecisionService.Value

/-- Trees of one shape: `leaf` relates the numbers, and a set stands as a `group`. -/
inductive Corresponds (leaf : Number → Number → Prop) (group : List Value → Value) :
    Value → Value → Prop
  | null : Corresponds leaf group null null
  | bool (b : Bool) : Corresponds leaf group (bool b) (bool b)
  | number {n m : Number} (h : leaf n m) : Corresponds leaf group (number n) (number m)
  | string (s : String) : Corresponds leaf group (string s) (string s)
  | array {as bs : List Value} (h : List.Forall₂ (Corresponds leaf group) as bs) :
    Corresponds leaf group (array as) (array bs)
  | set {as bs : List Value} (h : List.Forall₂ (Corresponds leaf group) as bs) :
    Corresponds leaf group (set as) (group bs)
  | object {as bs : Entries Value} (hnames : as.names.Perm bs.names)
      (h : ∀ name a b, (name, a) ∈ as → (name, b) ∈ bs → Corresponds leaf group a b) :
    Corresponds leaf group (object as) (object bs)

abbrev Reordered : Value → Value → Prop :=
  Corresponds Eq set

private theorem exists_of_perm_names {as bs : Entries Value} (h : as.names.Perm bs.names)
    {e : String × Value} (he : e ∈ bs) : ∃ a, (e.1, a) ∈ as := by
  have hmem : e.1 ∈ as.names := h.mem_iff.mpr (List.mem_map.mpr ⟨e, he, rfl⟩)
  obtain ⟨⟨name, a⟩, ha, hname⟩ := List.mem_map.mp hmem
  cases hname
  exact ⟨a, ha⟩

private theorem heightOfList_le {items : List Value} {n : Nat} :
    heightOfList items ≤ n ↔ ∀ v ∈ items, v.height ≤ n := by
  induction items with
  | nil => simp [heightOfList]
  | cons v rest ih => simp [heightOfList, ih]

namespace Reordered

theorem of_perm {as bs : Entries Value} (h : as.Perm bs) (hnames : as.names.Nodup)
    (hrefl : ∀ e ∈ as, e.2.Reordered e.2) : (object as).Reordered (object bs) := by
  refine .object (h.map _) fun name a b ha hb => ?_
  have hget : as.get? name = some b := Entries.get?_of_mem hnames (h.mem_iff.mpr hb)
  rw [Entries.get?_of_mem hnames ha] at hget
  rw [← Option.some.inj hget]
  exact hrefl _ ha

theorem refl {v : Value} (h : v.WellFormed) : v.Reordered v := by
  induction v using Value.induction with
  | null => exact .null
  | bool b => exact .bool b
  | number n => exact .number rfl
  | string s => exact .string s
  | array items ih | set items ih =>
    have hitems := (eachOfList_iff _ _).mp h.2
    constructor
    exact List.forall₂_same.mpr fun v hv => ih v hv (hitems v hv)
  | object entries ih =>
    have hentries := (eachOfEntries_iff _ _).mp h.2
    exact of_perm (List.Perm.refl _) h.1 fun e he => ih e he (hentries e he)

section Preserved

variable {v w : Value} (hw : v.Reordered w)
include hw

theorem each {p : Value → Prop} (hp : ∀ {v w : Value}, v.Reordered w → p v → p w)
    (h : v.Each p) : w.Each p := by
  induction v using Value.induction generalizing w with
  | null | bool | string =>
    cases hw
    exact h
  | number n =>
    cases hw with
    | number heq => exact heq ▸ h
  | array items ih | set items ih =>
    have hitems := (eachOfList_iff _ _).mp h.2
    cases hw
    next hall =>
      refine ⟨hp (by constructor; exact hall) h.1, (eachOfList_iff _ _).mpr fun b hb => ?_⟩
      obtain ⟨a, ha, hab⟩ := exists_of_forall₂ hall b hb
      exact ih a ha hab (hitems a ha)
  | object entries ih =>
    have hentries := (eachOfEntries_iff _ _).mp h.2
    cases hw with
    | object hnames hall =>
      refine ⟨hp (.object hnames hall) h.1, (eachOfEntries_iff _ _).mpr fun e he => ?_⟩
      obtain ⟨a, ha⟩ := exists_of_perm_names hnames he
      exact ih _ ha (hall _ _ _ ha he) (hentries _ ha)

theorem height_le : w.height ≤ v.height := by
  induction v using Value.induction generalizing w with
  | null | bool | string =>
    cases hw
    exact le_rfl
  | number n =>
    cases hw with
    | number heq => exact le_rfl
  | array items ih | set items ih =>
    cases hw
    next hall =>
      refine Nat.succ_le_succ (heightOfList_le.mpr fun b hb => ?_)
      obtain ⟨a, ha, hab⟩ := exists_of_forall₂ hall b hb
      exact (ih a ha hab).trans (heightOfList_le.mp le_rfl a ha)
  | object entries ih =>
    cases hw with
    | object hnames hall =>
      refine Nat.succ_le_succ (heightOfEntries_le.mpr fun e he => ?_)
      obtain ⟨a, ha⟩ := exists_of_perm_names hnames he
      exact (ih _ ha (hall _ _ _ ha he)).trans (heightOfEntries_le.mp le_rfl _ ha)

theorem wellFormed (h : v.WellFormed) : w.WellFormed := by
  refine hw.each (fun hvw hv => ?_) h
  cases hvw with
  | object hnames hall => exact hnames.nodup_iff.mp hv
  | _ => trivial

/-- A medium that relates the numbers of a value relates the value, in whatever order it is sent. -/
theorem relay {m : Medium} {leaf : Number → Number → Prop} {p : Value → Prop}
    (hleaf : ∀ n, p (number n) → ∃ n', m.leaf n = number n' ∧ leaf n n') (hv : v.WellFormed)
    (h : v.Each p) : v.Corresponds leaf m.group (w.relay m) := by
  induction v using Value.induction generalizing w with
  | null =>
    cases hw
    exact .null
  | bool b =>
    cases hw
    exact .bool b
  | string s =>
    cases hw
    exact .string s
  | number n =>
    cases hw with
    | number heq =>
      obtain ⟨n', hn, hrel⟩ := hleaf n h
      rw [Value.relay, ← heq, hn]
      exact .number hrel
  | array items ih | set items ih =>
    have hitems := (eachOfList_iff _ _).mp h.2
    have hwell := (eachOfList_iff _ _).mp hv.2
    cases hw
    next hall =>
      rw [Value.relay, relayList_eq_map]
      constructor
      rw [List.forall₂_map_right_iff]
      refine forall₂_imp_of_mem (fun a ha b _ hab => ?_) hall
      exact ih a ha hab (hwell a ha) (hitems a ha)
  | object entries ih =>
    have hentries := (eachOfEntries_iff _ _).mp h.2
    have hwell := (eachOfEntries_iff _ _).mp hv.2
    have hsent := hw.wellFormed hv
    cases hw with
    | object hnames hall =>
      rw [hsent.relay_object]
      refine .object (by rw [names_relayEntries]; exact hnames) fun name a b ha hb => ?_
      rw [relayEntries_eq_map] at hb
      obtain ⟨e, he, heq⟩ := List.mem_map.mp hb
      cases heq
      exact ih _ ha (hall _ _ _ ha he) (hwell _ ha) (hentries _ ha)

end Preserved

end Reordered

end DecisionService.Value
