import Mathlib
import DecisionService.Proofs.Entries
import DecisionService.Value.Basic
/-!
# Values on their way

A medium carries values and may change numbers and sets; lists and objects arrive as such, and of
two entries of one name the last one arrives. The height of a value is the number of levels that its
containers take.
-/
namespace DecisionService.Value

/-- A property of values holds if it passes from the parts of a container to the container. -/
@[elab_as_elim] theorem induction {P : Value → Prop} (null : P null) (bool : ∀ b, P (bool b))
    (number : ∀ n, P (number n)) (string : ∀ s, P (string s))
    (array : ∀ items, (∀ v ∈ items, P v) → P (array items))
    (set : ∀ members, (∀ v ∈ members, P v) → P (set members))
    (object : ∀ entries : Entries Value, (∀ e ∈ entries, P e.2) → P (object entries))
    (v : Value) : P v :=
  match v with
  | .null => null
  | .bool b => bool b
  | .number n => number n
  | .string s => string s
  | .array items => array items fun v _ => induction null bool number string array set object v
  | .set members => set members fun v _ => induction null bool number string array set object v
  | .object entries =>
    object entries fun e _ => induction null bool number string array set object e.2
termination_by sizeOf v
decreasing_by
  · have := List.sizeOf_lt_of_mem ‹v ∈ items›
    simp only [Value.array.sizeOf_spec]
    omega
  · have := List.sizeOf_lt_of_mem ‹v ∈ members›
    simp only [Value.set.sizeOf_spec]
    omega
  · have := List.sizeOf_lt_of_mem ‹e ∈ entries›
    obtain ⟨name, v⟩ := e
    simp only [Value.object.sizeOf_spec, Prod.mk.sizeOf_spec] at *
    omega

mutual

def height : Value → Nat
  | array items => heightOfList items + 1
  | set members => heightOfList members + 1
  | object entries => heightOfEntries entries + 1
  | _ => 0

def heightOfList : List Value → Nat
  | [] => 0
  | v :: rest => max (height v) (heightOfList rest)

def heightOfEntries : Entries Value → Nat
  | [] => 0
  | (_, v) :: rest => max (height v) (heightOfEntries rest)

end

theorem heightOfEntries_le {entries : Entries Value} {n : Nat} :
    heightOfEntries entries ≤ n ↔ ∀ e ∈ entries, e.2.height ≤ n := by
  induction entries with
  | nil => simp [heightOfEntries]
  | cons e rest ih => simp [heightOfEntries, ih]

/-- What becomes of numbers and of sets on the way. -/
structure Medium where
  leaf : Number → Value
  group : List Value → Value

mutual

def relay (m : Medium) : Value → Value
  | null => null
  | bool b => bool b
  | number n => m.leaf n
  | string s => string s
  | array items => array (relayList m items)
  | set members => m.group (relayList m members)
  | object entries => object (Entries.ofPairs (relayEntries m entries))

def relayList (m : Medium) : List Value → List Value
  | [] => []
  | v :: rest => relay m v :: relayList m rest

def relayEntries (m : Medium) : Entries Value → Entries Value
  | [] => []
  | (name, v) :: rest => (name, relay m v) :: relayEntries m rest

end

theorem relayList_eq_map (m : Medium) (items : List Value) :
    relayList m items = items.map (relay m) := by
  induction items with
  | nil => rfl
  | cons v rest ih => rw [relayList, ih, List.map_cons]

theorem relayEntries_eq_map (m : Medium) (entries : Entries Value) :
    relayEntries m entries = entries.map fun e => (e.1, relay m e.2) := by
  induction entries with
  | nil => rfl
  | cons e rest ih => rw [relayEntries, ih, List.map_cons]

@[simp] theorem names_relayEntries (m : Medium) (entries : Entries Value) :
    (relayEntries m entries).names = entries.names := by
  rw [relayEntries_eq_map, Entries.names_map]

theorem get?_relayEntries (m : Medium) (name : String) (entries : Entries Value) :
    (relayEntries m entries).get? name = (entries.get? name).map (relay m) := by
  rw [relayEntries_eq_map, Entries.get?_map]

mutual

def Each (p : Value → Prop) : Value → Prop
  | array items => p (array items) ∧ EachOfList p items
  | set members => p (set members) ∧ EachOfList p members
  | object entries => p (object entries) ∧ EachOfEntries p entries
  | v => p v

def EachOfList (p : Value → Prop) : List Value → Prop
  | [] => True
  | v :: rest => Each p v ∧ EachOfList p rest

def EachOfEntries (p : Value → Prop) : Entries Value → Prop
  | [] => True
  | (_, v) :: rest => Each p v ∧ EachOfEntries p rest

end

theorem eachOfList_iff (p : Value → Prop) (items : List Value) :
    EachOfList p items ↔ ∀ v ∈ items, Each p v := by
  induction items with
  | nil => simp [EachOfList]
  | cons v rest ih => simp [EachOfList, ih]

theorem eachOfEntries_iff (p : Value → Prop) (entries : Entries Value) :
    EachOfEntries p entries ↔ ∀ e ∈ entries, Each p e.2 := by
  induction entries with
  | nil => simp [EachOfEntries]
  | cons e rest ih => simp [EachOfEntries, ih]

theorem eachOfList_relayList (p : Value → Prop) (m : Medium) (items : List Value) :
    EachOfList p (relayList m items) ↔ ∀ v ∈ items, (v.relay m).Each p := by
  rw [eachOfList_iff, relayList_eq_map, List.forall_mem_map]

theorem eachOfEntries_relayEntries (p : Value → Prop) (m : Medium) (entries : Entries Value) :
    EachOfEntries p (relayEntries m entries) ↔ ∀ e ∈ entries, (e.2.relay m).Each p := by
  rw [eachOfEntries_iff, relayEntries_eq_map, List.forall_mem_map]

theorem Each.imp {p q : Value → Prop} (h : ∀ v, p v → q v) {v : Value} (hv : v.Each p) :
    v.Each q := by
  induction v using Value.induction with
  | array items ih | set items ih =>
    refine ⟨h _ hv.1, (eachOfList_iff q items).mpr fun v hmem => ih v hmem ?_⟩
    exact (eachOfList_iff p items).mp hv.2 v hmem
  | object entries ih =>
    refine ⟨h _ hv.1, (eachOfEntries_iff q entries).mpr fun e hmem => ih e hmem ?_⟩
    exact (eachOfEntries_iff p entries).mp hv.2 e hmem
  | null | bool | number | string => exact h _ hv

mutual

def decideEach (p : Value → Prop) [DecidablePred p] : (v : Value) → Decidable (v.Each p)
  | array items =>
    have := decideEachOfList p items
    inferInstanceAs (Decidable (p (array items) ∧ EachOfList p items))
  | set members =>
    have := decideEachOfList p members
    inferInstanceAs (Decidable (p (set members) ∧ EachOfList p members))
  | object entries =>
    have := decideEachOfEntries p entries
    inferInstanceAs (Decidable (p (object entries) ∧ EachOfEntries p entries))
  | null => inferInstanceAs (Decidable (p null))
  | bool b => inferInstanceAs (Decidable (p (bool b)))
  | number n => inferInstanceAs (Decidable (p (number n)))
  | string s => inferInstanceAs (Decidable (p (string s)))

def decideEachOfList (p : Value → Prop) [DecidablePred p] :
    (items : List Value) → Decidable (EachOfList p items)
  | [] => isTrue trivial
  | v :: rest =>
    have := decideEach p v
    have := decideEachOfList p rest
    inferInstanceAs (Decidable (Each p v ∧ EachOfList p rest))

def decideEachOfEntries (p : Value → Prop) [DecidablePred p] :
    (entries : Entries Value) → Decidable (EachOfEntries p entries)
  | [] => isTrue trivial
  | (_, v) :: rest =>
    have := decideEach p v
    have := decideEachOfEntries p rest
    inferInstanceAs (Decidable (Each p v ∧ EachOfEntries p rest))

end

instance (p : Value → Prop) [DecidablePred p] : DecidablePred (Each p) :=
  decideEach p

def NamesOnce : Value → Prop
  | object entries => (Entries.names entries).Nodup
  | _ => True

instance : DecidablePred NamesOnce := fun v =>
  match v with
  | object entries => inferInstanceAs (Decidable (Entries.names entries).Nodup)
  | null | bool _ | number _ | string _ | array _ | set _ => isTrue trivial

/-- In every object of a value each name stands once, as in a map. -/
def WellFormed (v : Value) : Prop :=
  v.Each NamesOnce

instance : DecidablePred WellFormed := fun v => decideEach NamesOnce v

theorem WellFormed.relay_object {entries : Entries Value} (h : (object entries).WellFormed)
    (m : Medium) : relay m (object entries) = object (relayEntries m entries) := by
  have hn : (relayEntries m entries).names.Nodup := by
    rw [names_relayEntries]
    exact h.1
  rw [relay, Entries.ofPairs_of_nodup hn]

def Kept (m : Medium) : Value → Prop
  | number n => m.leaf n = number n
  | set members => m.group members = set members
  | _ => True

/-- A medium that keeps the numbers and the sets of a value keeps the value. -/
theorem WellFormed.relay_eq_self {m : Medium} {v : Value} (hv : v.WellFormed)
    (hk : v.Each (Kept m)) : v.relay m = v := by
  induction v using Value.induction with
  | null | bool | string => rfl
  | number n => exact hk
  | array items ih =>
    have hitems := (eachOfList_iff _ _).mp hv.2
    have hkept := (eachOfList_iff _ _).mp hk.2
    have hid : items.map (relay m) = items.map id :=
      List.map_congr_left fun v hmem => ih v hmem (hitems v hmem) (hkept v hmem)
    rw [relay, relayList_eq_map, hid, List.map_id]
  | set members ih =>
    have hmembers := (eachOfList_iff _ _).mp hv.2
    have hkept := (eachOfList_iff _ _).mp hk.2
    have hid : members.map (relay m) = members.map id :=
      List.map_congr_left fun v hmem => ih v hmem (hmembers v hmem) (hkept v hmem)
    rw [relay, relayList_eq_map, hid, List.map_id]
    exact hk.1
  | object entries ih =>
    have hentries := (eachOfEntries_iff _ _).mp hv.2
    have hkept := (eachOfEntries_iff _ _).mp hk.2
    have hid : entries.map (fun e => (e.1, e.2.relay m)) = entries.map id :=
      List.map_congr_left fun e he => Prod.ext rfl (ih e he (hentries e he) (hkept e he))
    rw [hv.relay_object, relayEntries_eq_map, hid, List.map_id]

end DecisionService.Value
