import Mathlib
import DecisionService.Proofs.Value.Equivalent
/-!
# Sets without duplicates

A set built from items keeps the first of equal ones, so no two of its members are equal. A value
whose sets are all built anew stays as it is exactly when none of them had equal members. Coercion
is such a rebuilding, with a decimal for every number.
-/
namespace DecisionService

theorem Coerced.result_eq_ok {α : Type} {c : Coerced α} {a : α} :
    c.result = .ok a ↔ c = ⟨a, none⟩ := by
  obtain ⟨left, fault?⟩ := c
  cases fault? <;> simp [result]

theorem Coerced.map_eq_iff {α β : Type} {f : α → β} {c : Coerced α} {b : β}
    {fault? : Option NumberError} :
    c.map f = ⟨b, fault?⟩ ↔ ∃ a, c = ⟨a, fault?⟩ ∧ f a = b := by
  obtain ⟨left, fault'?⟩ := c
  constructor
  · intro h
    cases h
    exact ⟨left, rfl, rfl⟩
  · rintro ⟨a, h, rfl⟩
    cases h
    rfl

namespace Value

/-- No two of the members are equal, whichever of the two is compared with the other. -/
def Distinct (members : List Value) : Prop :=
  members.Pairwise fun a b => a.same b = false ∧ b.same a = false

instance (members : List Value) : Decidable (Distinct members) :=
  inferInstanceAs (Decidable (members.Pairwise _))

def MembersOnce : Value → Prop
  | set members => Distinct members
  | _ => True

instance : DecidablePred MembersOnce := fun v =>
  match v with
  | set members => inferInstanceAs (Decidable (Distinct members))
  | null | bool _ | number _ | string _ | array _ | object _ => isTrue trivial

def SetsDistinct (v : Value) : Prop :=
  v.Each MembersOnce

instance : DecidablePred SetsDistinct := fun v => decideEach MembersOnce v

section Fold

private def keep (members : List Value) (item : Value) : List Value :=
  if members.any (same · item) then members else members ++ [item]

private theorem mem_keep {members : List Value} {item v : Value} (h : v ∈ keep members item) :
    v ∈ members ∨ v = item := by
  unfold keep at h
  split at h
  · exact Or.inl h
  · simpa using h

private theorem pairwise_keep {members : List Value} {item : Value}
    (h : members.Pairwise fun a b => a.same b = false) :
    (keep members item).Pairwise fun a b => a.same b = false := by
  unfold keep
  split
  · exact h
  · next hnone =>
    refine List.pairwise_append.mpr ⟨h, List.pairwise_singleton _ _, fun a ha b hb => ?_⟩
    rw [List.mem_singleton.mp hb]
    simp only [List.any_eq_true, not_exists, not_and, Bool.not_eq_true] at hnone
    exact hnone a ha

private theorem foldl_keep_spec (items : List Value) {before : List Value}
    (h : before.Pairwise fun a b => a.same b = false) :
    (∀ v ∈ items.foldl keep before, v ∈ before ∨ v ∈ items)
      ∧ (items.foldl keep before).Pairwise fun a b => a.same b = false := by
  induction items generalizing before with
  | nil => exact ⟨fun v hv => Or.inl hv, h⟩
  | cons item rest ih =>
    obtain ⟨hmem, hpairs⟩ := ih (pairwise_keep h)
    refine ⟨fun v hv => ?_, hpairs⟩
    rcases hmem v hv with hv | hv
    · rcases mem_keep hv with hv | rfl
      · exact Or.inl hv
      · exact Or.inr List.mem_cons_self
    · exact Or.inr (List.mem_cons_of_mem _ hv)

private theorem foldl_keep_eq {items before : List Value}
    (h : (before ++ items).Pairwise fun a b => a.same b = false) :
    items.foldl keep before = before ++ items := by
  induction items generalizing before with
  | nil => exact (List.append_nil before).symm
  | cons item rest ih =>
    have hnew : before.any (same · item) = false := by
      rw [List.any_eq_false]
      intro a ha
      rw [(List.pairwise_append.mp h).2.2 a ha item List.mem_cons_self]
      exact Bool.false_ne_true
    have hkeep : keep before item = before ++ [item] := if_neg (by simp [hnew])
    rw [List.foldl_cons, hkeep, ih (by simpa using h), List.append_assoc, List.singleton_append]

/-- The members come from the items, and none equals one behind it. -/
theorem distinct_spec (items : List Value) : (∀ v ∈ distinct items, v ∈ items)
    ∧ (distinct items).Pairwise fun a b => a.same b = false := by
  obtain ⟨hmem, hpairs⟩ := foldl_keep_spec items List.Pairwise.nil
  exact ⟨fun v hv => (hmem v hv).resolve_left List.not_mem_nil, hpairs⟩

theorem distinct_eq_self {items : List Value} (h : items.Pairwise fun a b => a.same b = false) :
    distinct items = items :=
  foldl_keep_eq h

end Fold

theorem distinct_distinct {items : List Value} (h : ∀ v ∈ items, v.WellFormed) :
    Distinct (distinct items) := by
  obtain ⟨hmem, hpairs⟩ := distinct_spec items
  -- the constructor compares each item with those before it only; the other way is by symmetry
  refine hpairs.imp_of_mem fun {a b} ha hb hab => ⟨hab, ?_⟩
  cases hba : b.same a with
  | false => rfl
  | true =>
    have hsame := same_symm (h b (hmem b hb)) (h a (hmem a ha)) hba
    exact absurd (hsame.symm.trans hab) Bool.true_eq_false.mp

def rebuilding (leaf : Number → Value) : Medium := ⟨leaf, ofItems⟩

theorem WellFormed.relay_rebuilding {leaf : Number → Value} (hleaf : ∀ n, ∃ n', leaf n = number n')
    {v : Value} (hv : v.WellFormed) :
    (v.relay (rebuilding leaf)).Each fun u => u.NamesOnce ∧ u.MembersOnce := by
  induction v using Value.induction with
  | null | bool | string => exact ⟨trivial, trivial⟩
  | number n =>
    obtain ⟨n', hn⟩ := hleaf n
    change (leaf n).Each _
    rw [hn]
    exact ⟨trivial, trivial⟩
  | array items ih =>
    have hitems := (eachOfList_iff _ _).mp hv.2
    refine ⟨⟨trivial, trivial⟩, (eachOfList_relayList _ _ _).mpr ?_⟩
    exact fun v hmem => ih v hmem (hitems v hmem)
  | set members ih =>
    have hmembers := (eachOfList_iff _ _).mp hv.2
    have hrebuilt : ∀ u ∈ relayList (rebuilding leaf) members,
        u.Each fun u => u.NamesOnce ∧ u.MembersOnce := by
      rw [← eachOfList_iff, eachOfList_relayList]
      exact fun v hmem => ih v hmem (hmembers v hmem)
    have honce : Distinct (distinct (relayList (rebuilding leaf) members)) :=
      distinct_distinct fun u hu => (hrebuilt u hu).imp fun _ h => h.1
    refine ⟨⟨trivial, honce⟩, (eachOfList_iff _ _).mpr fun u hu => ?_⟩
    exact hrebuilt u ((distinct_spec _).1 u hu)
  | object entries ih =>
    have hentries := (eachOfEntries_iff _ _).mp hv.2
    rw [hv.relay_object]
    have honce : (relayEntries (rebuilding leaf) entries).names.Nodup := by
      rw [names_relayEntries]
      exact hv.1
    refine ⟨⟨honce, trivial⟩, (eachOfEntries_relayEntries _ _ _).mpr ?_⟩
    exact fun e he => ih e he (hentries e he)

/-- Building the sets of a value anew changes nothing exactly when none of them has equal members. -/
theorem setsDistinct_iff {v : Value} (hv : v.WellFormed) :
    v.SetsDistinct ↔ v.relay (rebuilding number) = v := by
  constructor
  · intro hd
    refine hv.relay_eq_self (hd.imp fun u hu => ?_)
    cases u with
    | set members => exact congrArg set (distinct_eq_self (hu.imp And.left))
    | number n => rfl
    | _ => trivial
  · intro h
    -- what is rebuilt has distinct sets, and here that is the value itself
    rw [← h]
    exact (hv.relay_rebuilding fun n => ⟨n, rfl⟩).imp fun _ h => h.2

section Coercion

def coercion : Medium := rebuilding Number.canonical

private theorem coerceList_eq {items left : List Value}
    (ih : ∀ v ∈ items, ∀ w, v.coerce = ⟨w, none⟩ → w = v.relay coercion)
    (h : coerceList items = ⟨left, none⟩) : left = relayList coercion items := by
  induction items generalizing left with
  | nil =>
    cases h
    rfl
  | cons v rest ihrest =>
    rw [coerceList] at h
    generalize hv : v.coerce = c at h
    obtain ⟨w, _ | e⟩ := c
    · obtain ⟨others, hrest, rfl⟩ := Coerced.map_eq_iff.mp h
      rw [relayList, ← ih v List.mem_cons_self w hv,
        ← ihrest (fun v hmem => ih v (List.mem_cons_of_mem _ hmem)) hrest]
    · cases h

private theorem coerceEntries_eq {entries left : Entries Value}
    (ih : ∀ e ∈ entries, ∀ w, e.2.coerce = ⟨w, none⟩ → w = e.2.relay coercion)
    (h : coerceEntries entries = ⟨left, none⟩) : left = relayEntries coercion entries := by
  induction entries generalizing left with
  | nil =>
    cases h
    rfl
  | cons e rest ihrest =>
    obtain ⟨name, v⟩ := e
    rw [coerceEntries] at h
    generalize hv : v.coerce = c at h
    obtain ⟨w, _ | e⟩ := c
    · obtain ⟨others, hrest, rfl⟩ := Coerced.map_eq_iff.mp h
      rw [relayEntries, ← ih _ List.mem_cons_self w hv,
        ← ihrest (fun v hmem => ih v (List.mem_cons_of_mem _ hmem)) hrest]
    · cases h

theorem WellFormed.coerce_eq {v w : Value} (hv : v.WellFormed) (h : v.coerce = ⟨w, none⟩) :
    w = v.relay coercion := by
  induction v using Value.induction generalizing w with
  | null | bool | string =>
    cases h
    rfl
  | number n =>
    obtain ⟨n', hn, rfl⟩ := Coerced.map_eq_iff.mp h
    rw [Number.coerce] at hn
    cases hd : n.toDecimal with
    | ok d =>
      rw [hd] at hn
      cases hn
      simp [relay, coercion, rebuilding, Number.canonical, hd]
    | error e =>
      rw [hd] at hn
      cases hn
  | array items ih =>
    have hitems := (eachOfList_iff _ _).mp hv.2
    obtain ⟨left, hleft, rfl⟩ := Coerced.map_eq_iff.mp h
    rw [relay, ← coerceList_eq (fun v hmem w => ih v hmem (hitems v hmem)) hleft]
  | set members ih =>
    have hmembers := (eachOfList_iff _ _).mp hv.2
    rw [Value.coerce] at h
    generalize hc : coerceList members = c at h
    obtain ⟨left, _ | e⟩ := c
    · cases h
      rw [relay, ← coerceList_eq (fun v hmem w => ih v hmem (hmembers v hmem)) hc]
      rfl
    · cases h
  | object entries ih =>
    have hentries := (eachOfEntries_iff _ _).mp hv.2
    obtain ⟨left, hleft, rfl⟩ := Coerced.map_eq_iff.mp h
    rw [hv.relay_object, ← coerceEntries_eq (fun e he w => ih e he (hentries e he)) hleft]

theorem WellFormed.setsDistinct_coerce {v w : Value} (hv : v.WellFormed)
    (h : v.coerce.result = .ok w) : w.SetsDistinct := by
  have hleaf : ∀ n : Number, ∃ n', n.canonical = number n' := by
    intro n
    unfold Number.canonical
    split <;> exact ⟨_, rfl⟩
  rw [hv.coerce_eq (Coerced.result_eq_ok.mp h)]
  exact (hv.relay_rebuilding hleaf).imp fun _ h => h.2

end Coercion

end Value

end DecisionService
