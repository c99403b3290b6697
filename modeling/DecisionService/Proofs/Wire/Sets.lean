import Mathlib
import DecisionService.Proofs.Json.Payload
import DecisionService.Proofs.MessagePack.Payload
import DecisionService.Proofs.Value.Distinct
/-!
# Sets from the wire

JSON tells of no sets. MessagePack gives every set back as it was written, and its decoder compares
no members: equal ones come in and stay. Coercion builds each set anew and leaves none of them.
-/
namespace DecisionService

theorem Number.same_settled_iff (m n : Number) :
    m.settled.same n.settled = true ↔ m.same n = true := by
  cases m <;> cases n <;> try exact Iff.rfl
  next x y =>
    have hx := (Decimal.same_iff _ _).mp x.same_settled
    have hy := (Decimal.same_iff _ _).mp y.same_settled
    change x.settled.same y.settled = true ↔ x.same y = true
    rw [Decimal.same_iff, Decimal.same_iff, hx, hy]

namespace MessagePack

private theorem sameList_relay_iff {as bs : List Value}
    (h : ∀ a ∈ as, ∀ b ∈ bs, (a.relay medium).same (b.relay medium) = true ↔ a.same b = true) :
    Value.sameList (Value.relayList medium as) (Value.relayList medium bs) = true
      ↔ Value.sameList as bs = true := by
  induction as generalizing bs with
  | nil => cases bs <;> exact Iff.rfl
  | cons a as ih =>
    cases bs with
    | nil => exact Iff.rfl
    | cons b bs =>
      have hfirst := h a List.mem_cons_self b List.mem_cons_self
      have hrest := ih fun v hv w hw => h v (List.mem_cons_of_mem _ hv) w (List.mem_cons_of_mem b hw)
      simp only [Value.relayList, Value.sameList, Bool.and_eq_true, hfirst, hrest]

theorem same_relay_iff {v w : Value} (hv : v.WellFormed) (hw : w.WellFormed) :
    (v.relay medium).same (w.relay medium) = true ↔ v.same w = true := by
  induction v using Value.induction generalizing w with
  | null | bool | string => cases w <;> exact Iff.rfl
  | number n =>
    cases w with
    | number m => exact Number.same_settled_iff n m
    | _ => exact Iff.rfl
  | array items ih | set items ih =>
    have hitems := (Value.eachOfList_iff _ _).mp hv.2
    cases w <;> try exact Iff.rfl
    next others =>
      have hothers := (Value.eachOfList_iff _ _).mp hw.2
      exact sameList_relay_iff fun a ha b hb => ih a ha (hitems a ha) (hothers b hb)
  | object entries ih =>
    have hentries := (Value.eachOfEntries_iff _ _).mp hv.2
    rw [hv.relay_object]
    cases w with
    | object others =>
      have hothers := (Value.eachOfEntries_iff _ _).mp hw.2
      have hnames : (Value.relayEntries medium entries).names.Nodup := by
        rw [Value.names_relayEntries]
        exact hv.1
      have hnames' : (Value.relayEntries medium others).names.Nodup := by
        rw [Value.names_relayEntries]
        exact hw.1
      rw [hw.relay_object, Value.same_object_iff hnames hnames', Value.same_object_iff hv.1 hw.1]
      refine forall_congr' fun name => ?_
      rw [Value.get?_relayEntries, Value.get?_relayEntries]
      cases hget : entries.get? name <;> cases hother : Entries.get? name others
      case some.some a b =>
        have ha := Entries.mem_of_get? hget
        have hb := Entries.mem_of_get? hother
        simpa using ih _ ha (hentries _ ha) (hothers _ hb)
      all_goals simp
    | _ => exact Iff.rfl

private theorem distinct_relay_iff {members : List Value} (h : ∀ v ∈ members, v.WellFormed) :
    Value.Distinct (Value.relayList medium members) ↔ Value.Distinct members := by
  rw [Value.Distinct, Value.relayList_eq_map, List.pairwise_map, Value.Distinct]
  refine List.Pairwise.iff_of_mem fun {a b} ha hb => ?_
  have hab := same_relay_iff (h a ha) (h b hb)
  have hba := same_relay_iff (h b hb) (h a ha)
  simp only [← Bool.not_eq_true, hab, hba]

theorem setsDistinct_relay_iff {v : Value} (hv : v.WellFormed) :
    (v.relay medium).SetsDistinct ↔ v.SetsDistinct := by
  induction v using Value.induction with
  | null | bool | string | number => exact Iff.rfl
  | array items ih =>
    have hitems := (Value.eachOfList_iff _ _).mp hv.2
    refine and_congr Iff.rfl ?_
    rw [Value.eachOfList_relayList, Value.eachOfList_iff]
    exact forall₂_congr fun v hmem => ih v hmem (hitems v hmem)
  | set members ih =>
    have hmembers := (Value.eachOfList_iff _ _).mp hv.2
    refine and_congr (distinct_relay_iff hmembers) ?_
    rw [Value.eachOfList_relayList, Value.eachOfList_iff]
    exact forall₂_congr fun v hmem => ih v hmem (hmembers v hmem)
  | object entries ih =>
    have hentries := (Value.eachOfEntries_iff _ _).mp hv.2
    rw [hv.relay_object]
    refine and_congr Iff.rfl ?_
    rw [Value.eachOfEntries_relayEntries, Value.eachOfEntries_iff]
    exact forall₂_congr fun e he => ih e he (hentries e he)

end MessagePack

namespace Format

theorem exists_source {format : Format} {bytes : Bytes} {v : Value}
    (h : format.unmarshal bytes = .ok v) :
    match format with
    | json => ∃ doc, Json.Doc.value Json.levels doc = .ok v
    | msgpack => ∃ item, MessagePack.Item.value MessagePack.levels item = .ok v := by
  have hread : format.read bytes = .ok v := Outcome.mapError_eq_ok.mp h
  cases format with
  | json =>
    obtain ⟨a, hdoc, hread⟩ := Outcome.bind_eq_ok.mp hread
    obtain ⟨-, -, heq⟩ := Outcome.bind_eq_ok.mp hread
    cases heq
    rw [Wire.readPayload_value] at hdoc
    exact ⟨_, hdoc⟩
  | msgpack =>
    change Wire.readPayload _ = _ at hread
    rw [Wire.readPayload_value] at hread
    exact ⟨_, hread⟩

theorem wellFormed_unmarshal {format : Format} {bytes : Bytes} {v : Value}
    (h : format.unmarshal bytes = .ok v) : v.WellFormed := by
  have hsource := exists_source h
  cases format with
  | json =>
    obtain ⟨doc, hdoc⟩ := hsource
    refine (Json.Doc.each_value hdoc).imp fun u hu => ?_
    cases u <;> first | exact hu.1 | trivial
  | msgpack =>
    obtain ⟨item, hitem⟩ := hsource
    exact MessagePack.Item.wellFormed_value hitem

/-- The sets of what is read have no equal members exactly when building them anew changes nothing.
JSON tells of no sets at all. A value written as MessagePack is read with equal members in a set
exactly when it had them. What coercion returns has none in any case. -/
theorem unmarshal_sets {format : Format} {bytes : Bytes} {v : Value}
    (h : format.unmarshal bytes = .ok v) :
    (v.SetsDistinct ↔ v.relay (Value.rebuilding .number) = v)
    ∧ (format = json → v.Each Json.IsTree)
    ∧ (∀ u : Value, u.WellFormed → MessagePack.Fits u → format = msgpack →
      msgpack.marshal u = .ok bytes → (v.SetsDistinct ↔ u.SetsDistinct))
    ∧ ∀ w, v.coerce.result = .ok w → w.SetsDistinct := by
  have hv : v.WellFormed := wellFormed_unmarshal h
  refine ⟨Value.setsDistinct_iff hv, ?_, ?_, fun w => hv.setsDistinct_coerce⟩
  · rintro rfl
    obtain ⟨doc, hdoc⟩ := exists_source h
    exact (Json.Doc.each_value hdoc).imp fun _ hu => hu.1
  · rintro u hu hf rfl hm
    obtain ⟨bytes', hm', hread⟩ := MessagePack.unmarshal_marshal (α := Value) trivial hf
    cases hm.symm.trans hm'
    -- a value with too many levels would not have been read
    rw [h] at hread
    split at hread
    · cases hread
      exact MessagePack.setsDistinct_relay_iff hu
    · cases hread

def twice : Format → Bytes
  | json => Bytes.ofAscii "[null,null]".toList
  | msgpack => 0x81 :: 0xA3 :: Bytes.ofAscii "Set".toList ++ 0x92 :: 0xA4 ::
      Bytes.ofAscii "Null".toList ++ 0xA4 :: Bytes.ofAscii "Null".toList

theorem unmarshal_sets_twice :
    (Value.array [.null, .null]).Each Json.IsTree
    ∧ ¬ (Value.set [.null, .null]).SetsDistinct
    ∧ (Value.set [.null]).SetsDistinct := by
  have hlist : json.unmarshal (twice json) = .ok (Value.array [.null, .null]) := rfl
  have hset : msgpack.unmarshal (twice msgpack) = .ok (Value.set [.null, .null]) := rfl
  have hmarshal : msgpack.marshal (Value.set [.null, .null]) = .ok (twice msgpack) := rfl
  have hcoerce : (Value.set [.null, .null]).coerce.result = .ok (.set [.null]) := rfl
  obtain ⟨-, hjson, -, -⟩ := unmarshal_sets hlist
  obtain ⟨-, -, hmsgpack, hcoerced⟩ := unmarshal_sets hset
  refine ⟨hjson rfl, ?_, hcoerced _ hcoerce⟩
  rw [hmsgpack _ (by decide) (by decide +kernel) rfl hmarshal]
  decide

theorem unmarshal_repeated :
    msgpack.unmarshal (twice msgpack) = .ok (Value.set [.null, .null])
    ∧ ¬ (Value.set [.null, .null]).SetsDistinct := by
  constructor
  · rfl
  · decide

end Format

end DecisionService
