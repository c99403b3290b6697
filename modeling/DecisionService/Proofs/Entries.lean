import Mathlib
import DecisionService.Entries
/-!
# Entries by their names

What a list of entries holds is decided by its look-ups, and a list in which each name stands once
is what comes of putting its pairs one after the other.
-/
namespace DecisionService.Entries

variable {α β : Type}

@[simp] theorem names_cons (name : String) (a : α) (rest : Entries α) :
    names ((name, a) :: rest) = name :: names rest := rfl

theorem mem_of_get? {name : String} {a : α} {entries : Entries α}
    (h : entries.get? name = some a) : (name, a) ∈ entries := by
  induction entries with
  | nil => cases h
  | cons entry rest ih =>
    obtain ⟨k, b⟩ := entry
    by_cases hk : k = name
    · simp only [get?, hk, if_true, Option.some.injEq] at h
      rw [hk, h]
      exact List.mem_cons_self
    · simp only [get?, hk, if_false] at h
      exact List.mem_cons_of_mem _ (ih h)

theorem get?_of_mem {name : String} {a : α} {entries : Entries α} (hn : entries.names.Nodup)
    (h : (name, a) ∈ entries) : entries.get? name = some a := by
  induction entries with
  | nil => cases h
  | cons entry rest ih =>
    obtain ⟨k, b⟩ := entry
    rw [names_cons, List.nodup_cons] at hn
    rcases List.mem_cons.mp h with heq | hmem
    · cases heq
      simp [get?]
    · have hk : k ≠ name := by
        intro hk
        subst hk
        exact hn.1 (List.mem_map.mpr ⟨(k, a), hmem, rfl⟩)
      simp only [get?, hk, if_false]
      exact ih hn.2 hmem

theorem get?_isSome_iff (name : String) (entries : Entries α) :
    (entries.get? name).isSome = true ↔ name ∈ entries.names := by
  induction entries with
  | nil => simp [get?, names]
  | cons entry rest ih =>
    obtain ⟨k, b⟩ := entry
    by_cases hk : k = name
    · simp [get?, hk]
    · simp [get?, hk, ih, Ne.symm hk]

theorem get?_eq_none_iff (name : String) (entries : Entries α) :
    entries.get? name = none ↔ name ∉ entries.names := by
  rw [← get?_isSome_iff, Bool.not_eq_true, Option.isSome_eq_false_iff, Option.isNone_iff_eq_none]

/-- Every look-up finds related values in both, or nothing in both, exactly when the names are the
same and what stands under one name is related. -/
theorem rel_get?_iff {R : α → β → Prop} {as : Entries α} {bs : Entries β}
    (ha : as.names.Nodup) (hb : bs.names.Nodup) :
    (∀ name, Option.Rel R (as.get? name) (bs.get? name)) ↔
      as.names.Perm bs.names ∧ ∀ name a b, (name, a) ∈ as → (name, b) ∈ bs → R a b := by
  constructor
  · intro h
    refine ⟨(List.perm_ext_iff_of_nodup ha hb).mpr fun name => ?_, fun name a b hmem hmem' => ?_⟩
    · rw [← get?_isSome_iff, ← get?_isSome_iff]
      have hrel := h name
      generalize as.get? name = x, bs.get? name = y at hrel
      cases hrel <;> simp
    · have hrel := h name
      rw [get?_of_mem ha hmem, get?_of_mem hb hmem'] at hrel
      cases hrel with
      | some hab => exact hab
  · rintro ⟨hperm, h⟩ name
    cases hget : as.get? name with
    | none =>
      rw [get?_eq_none_iff, hperm.mem_iff, ← get?_eq_none_iff] at hget
      rw [hget]
      exact .none
    | some a =>
      have hname : (bs.get? name).isSome = true := by
        rw [get?_isSome_iff, ← hperm.mem_iff, ← get?_isSome_iff, hget]
        rfl
      obtain ⟨b, hother⟩ := Option.isSome_iff_exists.mp hname
      rw [hother]
      exact .some (h name a b (mem_of_get? hget) (mem_of_get? hother))

theorem get?_map (f : α → β) (name : String) (entries : Entries α) :
    get? name (entries.map fun e => (e.1, f e.2)) = (entries.get? name).map f := by
  induction entries with
  | nil => rfl
  | cons entry rest ih =>
    obtain ⟨k, b⟩ := entry
    by_cases hk : k = name <;> simp [get?, hk, ih]

theorem names_map (f : α → β) (entries : Entries α) :
    names (entries.map fun e => (e.1, f e.2)) = entries.names := by
  simp [names]

theorem put_of_notMem {name : String} (a : α) {entries : Entries α} (h : name ∉ entries.names) :
    entries.put name a = entries ++ [(name, a)] := by
  induction entries with
  | nil => rfl
  | cons entry rest ih =>
    obtain ⟨k, b⟩ := entry
    rw [names_cons, List.mem_cons, not_or] at h
    simp [put, Ne.symm h.1, ih h.2]

theorem names_put (name : String) (a : α) (entries : Entries α) :
    (entries.put name a).names
      = if name ∈ entries.names then entries.names else entries.names ++ [name] := by
  induction entries with
  | nil => rfl
  | cons entry rest ih =>
    obtain ⟨k, b⟩ := entry
    by_cases hk : k = name
    · simp [put, hk]
    · by_cases hr : name ∈ names rest <;> simp [put, hk, ih, hr, Ne.symm hk]

theorem mem_names_put (name : String) (a : α) (entries : Entries α) (other : String) :
    other ∈ (entries.put name a).names ↔ name = other ∨ other ∈ entries.names := by
  rw [names_put]
  split
  · next hin =>
    constructor
    · exact Or.inr
    · rintro (rfl | hother)
      · exact hin
      · exact hother
  · rw [List.mem_append, List.mem_singleton, or_comm, eq_comm]

theorem nodup_put {name : String} (a : α) {entries : Entries α} (h : entries.names.Nodup) :
    (entries.put name a).names.Nodup := by
  rw [names_put]
  split
  · exact h
  · next hn => exact List.Nodup.append h (List.nodup_singleton name) (by simpa using hn)

theorem mem_put {name : String} {a : α} {entries : Entries α} {e : String × α}
    (h : e ∈ entries.put name a) : e = (name, a) ∨ e ∈ entries := by
  induction entries with
  | nil => exact Or.inl (List.mem_singleton.mp h)
  | cons entry rest ih =>
    obtain ⟨k, b⟩ := entry
    by_cases hk : k = name
    · simp only [put, hk, if_true, List.mem_cons] at h ⊢
      exact h.imp id Or.inr
    · simp only [put, hk, if_false, List.mem_cons] at h ⊢
      rcases h with h | h
      · exact Or.inr (Or.inl h)
      · exact (ih h).imp id Or.inr

theorem names_erase (name : String) (entries : Entries α) :
    (entries.erase name).names = entries.names.filter fun other => other ≠ name := by
  simp only [names, erase, List.filter_map]
  rfl

theorem nodup_erase (name : String) {entries : Entries α} (h : entries.names.Nodup) :
    (entries.erase name).names.Nodup := by
  rw [names_erase]
  exact h.filter _

theorem get?_erase_self (name : String) (entries : Entries α) :
    (entries.erase name).get? name = none := by
  rw [get?_eq_none_iff, names_erase]
  simp

theorem erase_cons (name : String) (entry : String × α) (rest : Entries α) :
    erase name (entry :: rest)
      = if entry.1 = name then rest.erase name else entry :: rest.erase name := by
  by_cases h : entry.1 = name <;> simp [erase, h]

theorem get?_erase_of_ne {name other : String} (h : other ≠ name) (entries : Entries α) :
    (entries.erase name).get? other = entries.get? other := by
  induction entries with
  | nil => rfl
  | cons entry rest ih =>
    obtain ⟨k, b⟩ := entry
    rw [erase_cons]
    by_cases hk : k = name
    · simp [get?, hk, Ne.symm h, ih]
    · simp only [hk, if_false, get?, ih]

theorem get?_filterMap {f : α → Option β} {name : String} {entries : Entries α}
    (h : ∀ e ∈ entries, (f e.2).isSome) :
    get? name (entries.filterMap fun e => (f e.2).map fun b => (e.1, b))
      = (entries.get? name).bind f := by
  induction entries with
  | nil => rfl
  | cons entry rest ih =>
    obtain ⟨k, a⟩ := entry
    obtain ⟨b, hb⟩ := Option.isSome_iff_exists.mp (h (k, a) List.mem_cons_self)
    simp only at hb
    have ih := ih fun e he => h e (List.mem_cons_of_mem _ he)
    by_cases hk : k = name <;> simp [get?, hb, hk, ih]

theorem names_filterMap {f : α → Option β} {entries : Entries α}
    (h : ∀ e ∈ entries, (f e.2).isSome) :
    names (entries.filterMap fun e => (f e.2).map fun b => (e.1, b)) = entries.names := by
  induction entries with
  | nil => rfl
  | cons entry rest ih =>
    obtain ⟨k, a⟩ := entry
    obtain ⟨b, hb⟩ := Option.isSome_iff_exists.mp (h (k, a) List.mem_cons_self)
    simp only at hb
    have ih := ih fun e he => h e (List.mem_cons_of_mem _ he)
    simp [hb, ih]

private theorem foldl_put (pairs : List (String × α)) (entries : Entries α)
    (h : (entries.names ++ pairs.map Prod.fst).Nodup) :
    pairs.foldl (fun entries (name, a) => entries.put name a) entries = entries ++ pairs := by
  induction pairs generalizing entries with
  | nil => rw [List.foldl_nil, List.append_nil]
  | cons pair rest ih =>
    obtain ⟨name, a⟩ := pair
    have hname : name ∉ entries.names := by
      intro hmem
      exact (List.nodup_append.mp h).2.2 name hmem name (by simp) rfl
    simp only [List.foldl_cons, put_of_notMem a hname]
    rw [ih]
    · rw [List.append_assoc]
      rfl
    · simpa [names] using h

theorem ofPairs_of_nodup {pairs : List (String × α)} (h : (names pairs).Nodup) :
    ofPairs pairs = pairs :=
  foldl_put pairs [] h

private theorem mem_names_foldl_put (pairs : List (String × α)) (entries : Entries α)
    (name : String) : name ∈ (pairs.foldl (fun entries (name, a) => entries.put name a) entries).names
      ↔ name ∈ entries.names ∨ name ∈ names pairs := by
  induction pairs generalizing entries with
  | nil => simp [names]
  | cons pair rest ih =>
    rw [List.foldl_cons, ih, mem_names_put, names_cons, List.mem_cons, eq_comm]
    exact or_assoc.trans or_left_comm

theorem mem_names_ofPairs (pairs : List (String × α)) (name : String) :
    name ∈ (ofPairs pairs).names ↔ name ∈ names pairs :=
  (mem_names_foldl_put pairs [] name).trans (by simp [names])

end DecisionService.Entries
