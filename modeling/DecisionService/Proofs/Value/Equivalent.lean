import Mathlib
import DecisionService.Decision.Coercion
import DecisionService.Proofs.Json.Value
import DecisionService.Proofs.MessagePack.Value
import DecisionService.Proofs.Value.Same
/-!
# Values that stand for the same

Two values are equivalent when they are equal once every number is its canonical decimal. A medium
is faithful when a plain number arrives as a plain number of the same worth. Plain values arrive
through faithful media plain and equivalent to what was sent, and coercion makes their numbers
decimals without fail.
-/
namespace DecisionService

namespace Number

/-- An integer, or a decimal with no digits behind the point. -/
def isPlain : Number → Bool
  | .int _ | .uint _ | .big _ => true
  | .decimal d => d.isWhole
  | .float _ | .text _ => false

def worth : Number → ℚ
  | .int n => n.toInt
  | .uint n => n.toNat
  | .big n => n
  | .decimal d => d.toRat
  | .float _ | .text _ => 0

theorem toDecimal_of_isPlain {n : Number} (h : n.isPlain = true) :
    ∃ d, n.toDecimal = .ok d ∧ d.toRat = n.worth := by
  cases n with
  | int n => exact ⟨_, rfl, Decimal.toRat_ofInt _⟩
  | uint n => exact ⟨_, rfl, Decimal.toRat_ofInt _⟩
  | big n => exact ⟨_, rfl, Decimal.toRat_ofInt _⟩
  | decimal d => exact ⟨d, rfl, rfl⟩
  | float | text => cases h

theorem isPlain_ofInt (n : Int) : (ofInt n).isPlain = true := by
  unfold ofInt
  split_ifs <;> rfl

theorem worth_ofInt (n : Int) : (ofInt n).worth = n := by
  unfold ofInt
  split_ifs with h1 h2
  · rw [worth, Int64.toInt_ofInt_of_le h1.1 h1.2]
  · have hn : n.toNat < 2 ^ 64 := by omega
    rw [worth, UInt64.toNat_ofNat_of_lt' hn]
    exact_mod_cast Int.toNat_of_nonneg h2.1
  · rfl

def canonical (n : Number) : Value :=
  match n.toDecimal with
  | .ok d => .number (.decimal d)
  | .error _ => .number n

end Number

namespace Value

/-- A plain number arrives as a plain number of the same worth. -/
def Medium.Faithful (m : Medium) : Prop :=
  ∀ n : Number, n.isPlain = true →
    ∃ n' : Number, m.leaf n = number n' ∧ n'.isPlain = true ∧ n'.worth = n.worth

def still : Medium := ⟨number, set⟩

def canonical : Medium := ⟨Number.canonical, set⟩

def decimals (v : Value) : Value :=
  v.relay canonical

/-- Equal once every number is its canonical decimal. -/
def Equivalent (v w : Value) : Prop :=
  v.decimals.same w.decimals = true

/-- A plain number, no set, and an object in which each name stands once and none announces a
literal. -/
def IsPlain : Value → Prop
  | number n => n.isPlain = true
  | set _ => False
  | object entries => (Entries.names entries).Nodup ∧ Json.literalName ∉ Entries.names entries
  | null | bool _ | string _ | array _ => True

instance : DecidablePred IsPlain := fun v =>
  match v with
  | number n => inferInstanceAs (Decidable (n.isPlain = true))
  | set _ => isFalse not_false
  | object _ => inferInstanceAs (Decidable (_ ∧ _))
  | null | bool _ | string _ | array _ => isTrue trivial

def Plain (v : Value) : Prop :=
  v.Each IsPlain

instance : DecidablePred Plain := fun v => decideEach IsPlain v

theorem Plain.nodup {entries : Entries Value} (h : (object entries).Plain) :
    entries.names.Nodup :=
  h.1.1

theorem Plain.wellFormed {v : Value} (h : v.Plain) : v.WellFormed := by
  apply h.imp
  intro v hv
  cases v with
  | object entries => exact hv.1
  | _ => trivial

theorem Plain.readable {v : Value} (h : v.Plain) : Json.Readable v := by
  apply h.imp
  intro v hv
  cases v with
  | object entries =>
    cases entries with
    | nil => trivial
    | cons e rest => exact fun hname => hv.2 (hname ▸ List.mem_cons_self)
  | _ => trivial

theorem Equivalent.trans {u v w : Value} (h : u.Equivalent v) (h' : v.Equivalent w) :
    u.Equivalent w :=
  same_trans h h'

theorem equivalent_array_iff {as bs : List Value} :
    (array as).Equivalent (array bs) ↔ List.Forall₂ Equivalent as bs := by
  rw [Equivalent, decimals, decimals, relay, relay, same, sameList_iff, relayList_eq_map,
    relayList_eq_map, List.forall₂_map_left_iff, List.forall₂_map_right_iff]
  rfl

theorem equivalent_object_iff {as bs : Entries Value} (ha : as.names.Nodup)
    (hb : bs.names.Nodup) : (object as).Equivalent (object bs) ↔
      ∀ name, Option.Rel Equivalent (as.get? name) (bs.get? name) := by
  rw [← names_relayEntries canonical] at ha hb
  rw [Equivalent, decimals, decimals, relay, relay, Entries.ofPairs_of_nodup ha,
    Entries.ofPairs_of_nodup hb, same_object_iff ha hb]
  refine forall_congr' fun name => ?_
  rw [get?_relayEntries, get?_relayEntries]
  cases as.get? name <;> cases bs.get? name <;> simp [Equivalent, decimals]

private theorem equivalent_number {n n' : Number} (h : n.isPlain = true)
    (h' : n'.isPlain = true) (hw : n.worth = n'.worth) : (number n).Equivalent (number n') := by
  obtain ⟨d, hd, hworth⟩ := Number.toDecimal_of_isPlain h
  obtain ⟨d', hd', hworth'⟩ := Number.toDecimal_of_isPlain h'
  have hsame : d.same d' = true := by rw [Decimal.same_iff, hworth, hworth', hw]
  simpa [Equivalent, decimals, relay, canonical, Number.canonical, hd, hd', same, Number.same]
    using hsame

section Faithful

variable {k l : Medium} (hk : k.Faithful) (hl : l.Faithful)
include hk hl

theorem Plain.relay_equivalent {v : Value} (h : v.Plain) :
    (v.relay k).Equivalent (v.relay l) := by
  induction v using Value.induction with
  | null => rfl
  | bool b => exact beq_self_eq_true b
  | string s => exact beq_self_eq_true s
  | number n =>
    obtain ⟨a, ha, hplain, hworth⟩ := hk n h
    obtain ⟨b, hb, hplain', hworth'⟩ := hl n h
    rw [relay, relay, ha, hb]
    exact equivalent_number hplain hplain' (hworth.trans hworth'.symm)
  | array items ih =>
    have hitems := (eachOfList_iff _ _).mp h.2
    rw [relay, relay, equivalent_array_iff, relayList_eq_map, relayList_eq_map,
      List.forall₂_map_left_iff, List.forall₂_map_right_iff, List.forall₂_same]
    exact fun v hv => ih v hv (hitems v hv)
  | set members => exact h.1.elim
  | object entries ih =>
    have hentries := (eachOfEntries_iff _ _).mp h.2
    have hnames : ∀ m, (relayEntries m entries).names.Nodup := by
      intro m
      rw [names_relayEntries]
      exact h.nodup
    rw [h.wellFormed.relay_object, h.wellFormed.relay_object,
      equivalent_object_iff (hnames k) (hnames l)]
    intro name
    rw [get?_relayEntries, get?_relayEntries]
    cases hget : entries.get? name with
    | none => exact .none
    | some v =>
      have hmem := Entries.mem_of_get? hget
      exact .some (ih _ hmem (hentries _ hmem))

omit hl in
theorem Plain.relay {v : Value} (h : v.Plain) : (v.relay k).Plain := by
  induction v using Value.induction with
  | null | bool | string => trivial
  | number n =>
    obtain ⟨a, ha, hplain, -⟩ := hk n h
    rw [Value.relay, ha]
    exact hplain
  | array items ih =>
    have hitems := (eachOfList_iff _ _).mp h.2
    refine ⟨trivial, (eachOfList_relayList _ _ _).mpr ?_⟩
    exact fun v hv => ih v hv (hitems v hv)
  | set members => exact h.1.elim
  | object entries ih =>
    have hentries := (eachOfEntries_iff _ _).mp h.2
    rw [h.wellFormed.relay_object]
    refine ⟨?_, (eachOfEntries_relayEntries _ _ _).mpr ?_⟩
    · rw [IsPlain, names_relayEntries]
      exact h.1
    · exact fun e he => ih e he (hentries e he)

end Faithful

theorem faithful_still : still.Faithful :=
  fun n hn => ⟨n, rfl, hn, rfl⟩

theorem relay_still {v : Value} (h : v.WellFormed) : v.relay still = v := by
  refine h.relay_eq_self (h.imp fun u _ => ?_)
  cases u <;> first | rfl | trivial

/-- Equivalent plain values arrive equivalent, through different faithful media too. -/
theorem Equivalent.relay {k l : Medium} (hk : k.Faithful) (hl : l.Faithful) {v w : Value}
    (h : v.Equivalent w) (hv : v.Plain) (hw : w.Plain) :
    (v.relay k).Equivalent (w.relay l) := by
  have hleft := hv.relay_equivalent hk faithful_still
  have hright := hw.relay_equivalent faithful_still hl
  rw [relay_still hv.wellFormed] at hleft
  rw [relay_still hw.wellFormed] at hright
  exact hleft.trans (h.trans hright)

private theorem coerceList_plain {items : List Value}
    (h : ∀ v ∈ items, v.coerce = ⟨v.decimals, none⟩) :
    coerceList items = ⟨relayList canonical items, none⟩ := by
  induction items with
  | nil => rfl
  | cons v rest ih =>
    rw [coerceList, h v List.mem_cons_self, ih fun w hw => h w (List.mem_cons_of_mem _ hw)]
    rfl

private theorem coerceEntries_plain {entries : Entries Value}
    (h : ∀ e ∈ entries, e.2.coerce = ⟨e.2.decimals, none⟩) :
    coerceEntries entries = ⟨relayEntries canonical entries, none⟩ := by
  induction entries with
  | nil => rfl
  | cons e rest ih =>
    rw [coerceEntries, h e List.mem_cons_self, ih fun w hw => h w (List.mem_cons_of_mem _ hw)]
    rfl

theorem Plain.coerce {v : Value} (h : v.Plain) : v.coerce = ⟨v.decimals, none⟩ := by
  induction v using Value.induction with
  | null | bool | string => rfl
  | number n =>
    obtain ⟨d, hd, -⟩ := Number.toDecimal_of_isPlain h
    simp [Value.coerce, Number.coerce, Coerced.map, decimals, Value.relay, canonical,
      Number.canonical, hd]
  | array items ih =>
    have hitems := (eachOfList_iff _ _).mp h.2
    rw [Value.coerce, coerceList_plain fun v hv => ih v hv (hitems v hv)]
    rfl
  | set members => exact h.1.elim
  | object entries ih =>
    have hentries := (eachOfEntries_iff _ _).mp h.2
    rw [Value.coerce, coerceEntries_plain fun e he => ih e he (hentries e he), decimals,
      h.wellFormed.relay_object]
    rfl

theorem coerceEntries_of_plain {entries : Entries Value} (h : ∀ e ∈ entries, e.2.Plain) :
    coerceEntries entries = ⟨relayEntries canonical entries, none⟩ :=
  coerceEntries_plain fun e he => (h e he).coerce

end Value

theorem Json.faithful : Json.medium.Faithful := by
  intro n hn
  have integer : ∀ i : Int, n.worth = i → arriving n = .number (.ofInt i) →
      ∃ n' : Number, medium.leaf n = .number n' ∧ n'.isPlain = true ∧ n'.worth = n.worth :=
    fun i hw ha => ⟨_, ha, Number.isPlain_ofInt i, (Number.worth_ofInt i).trans hw.symm⟩
  cases n with
  | int n => exact integer n.toInt rfl rfl
  | uint n => exact integer n.toNat (Int.cast_natCast _).symm rfl
  | big n => exact integer n rfl rfl
  | decimal d => exact integer d.truncate (Decimal.toRat_truncate hn).symm (if_pos hn)
  | float | text => cases hn

theorem MessagePack.faithful : MessagePack.medium.Faithful := by
  intro n hn
  refine ⟨n.settled, rfl, ?_, ?_⟩
  · cases n with
    | decimal d =>
      change d.settled.isWhole = true
      rw [Decimal.settled]
      split
      · simp [Decimal.isWhole]
      · exact hn
    | _ => exact hn
  · cases n with
    | decimal d => exact ((Decimal.same_iff _ _).mp d.same_settled).symm
    | _ => rfl

end DecisionService
