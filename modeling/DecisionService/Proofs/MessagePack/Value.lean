import Mathlib
import DecisionService.MessagePack.Target
import DecisionService.Proofs.Decimal.Magnitude
import DecisionService.Proofs.MessagePack.Item
import DecisionService.Proofs.Outcome
import DecisionService.Proofs.Utf8
import DecisionService.Proofs.Value.Relay
/-!
# Values read back from MessagePack

Every value is read back from the item it is written as, unless its containers take more levels than
there are. Numbers keep their form; only a decimal comes back as its text is read. Whatever an item
is, no object read from it holds a name twice.
-/
namespace DecisionService

/-- The number that comes back: a decimal is written as text. -/
def Number.settled : Number → Number
  | .decimal d => .decimal d.settled
  | n => n

namespace MessagePack

open Wire

abbrev tooDeep : Problem := .messagePack .tooDeep

/-- MessagePack keeps the forms of numbers, and sets apart from lists. -/
def medium : Value.Medium := ⟨fun n => .number n.settled, .set⟩

namespace Item

theorem exists_ofText (s : String) : ∃ marker, ofText s = text marker (Utf8.encode s) := by
  unfold ofText
  extract_lets bytes n
  split_ifs <;> exact ⟨_, rfl⟩

theorem exists_ofItems (items : List Item) : ∃ marker, ofItems items = array marker items := by
  unfold ofItems
  extract_lets n
  split_ifs <;> exact ⟨_, rfl⟩

theorem exists_ofEntries (entries : List (Item × Item)) :
    ∃ marker, ofEntries entries = map marker entries.length entries := by
  unfold ofEntries
  extract_lets n
  split_ifs <;> exact ⟨_, rfl⟩

theorem exists_ofNat (n : Nat) : ∃ marker, ofNat n = integer marker n := by
  unfold ofNat
  split_ifs <;> exact ⟨_, rfl⟩

theorem exists_ofInt (n : Int) : ∃ marker, ofInt n = integer marker n := by
  unfold ofInt
  split_ifs with h
  · obtain ⟨marker, hm⟩ := exists_ofNat n.toNat
    rw [hm, Int.toNat_of_nonneg h]
    exact ⟨marker, rfl⟩
  all_goals exact ⟨_, rfl⟩

@[simp] theorem textOf_ofText (depth : Nat) (s : String) : textOf depth (ofText s) = .ok s := by
  obtain ⟨marker, hm⟩ := exists_ofText s
  simp only [hm, textOf, Utf8.decode_encode]

theorem variant_ofText (depth : Nat) (known : List String) (s : String) :
    variant depth known (ofText s) = variant.position known s := by
  obtain ⟨marker, hm⟩ := exists_ofText s
  simp only [hm, variant, Utf8.decode_encode]

theorem integerOf_ofInt {n : Int} (least most : Int) (expected : String) (hl : least ≤ n)
    (hm : n ≤ most) : integerOf least most expected (ofInt n) = .ok n := by
  obtain ⟨marker, h⟩ := exists_ofInt n
  simp only [h, integerOf, plain, found, Outcome.ok_bind, hl, hm, and_self, if_true]
  rfl

theorem integerOf_ofNat {n : Nat} (least most : Int) (expected : String) (hl : least ≤ n)
    (hm : n ≤ most) : integerOf least most expected (ofNat n) = .ok (n : Int) := by
  obtain ⟨marker, h⟩ := exists_ofNat n
  simp only [h, integerOf, plain, found, Outcome.ok_bind, hl, hm, and_self, if_true]
  rfl

private theorem decimalOf_text (depth : Nat) (d : Decimal) :
    decimalOf depth (ofText (String.ofList d.text)) = .ok d.settled := by
  obtain ⟨marker, h⟩ := exists_ofText (String.ofList d.text)
  rw [h, decimalOf.eq_def]
  simp only [Utf8.decode_encode, String.toList_ofList, Decimal.read_text]

private theorem named_eq (name : String) (content : Item) :
    named name content = map 0x81 1 [(ofText name, content)] := rfl

theorem numberOf_ofNumber (depth : Nat) (n : Number) :
    numberOf depth (ofNumber n) = .ok n.settled := by
  have hnamed : ∀ name content, numberOf depth (named name content) = (do
      numberContent depth (← variant.position numberNames name) content) := by
    intro name content
    rw [named_eq, numberOf, variant_ofText]
  cases n with
  | int n =>
    have hl : -(2 ^ 63) ≤ n.toInt := n.le_toInt
    have hm : n.toInt ≤ 2 ^ 63 - 1 := Int.le_sub_one_of_lt n.toInt_lt
    rw [ofNumber, hnamed, show variant.position numberNames "Int" = .ok 0 from rfl]
    simp only [Outcome.ok_bind, numberContent, integerOf_ofInt _ _ _ hl hm, Int64.ofInt_toInt]
    rfl
  | uint n =>
    have hm : (n.toNat : Int) ≤ 2 ^ 64 - 1 := by
      have := n.toNat_lt
      omega
    rw [ofNumber, hnamed, show variant.position numberNames "UInt" = .ok 1 from rfl]
    simp only [Outcome.ok_bind, numberContent, integerOf_ofNat _ _ _ (Int.natCast_nonneg _) hm,
      Int.toNat_natCast, UInt64.ofNat_toNat]
    rfl
  | big n =>
    rw [ofNumber, hnamed, show variant.position numberNames "BigInt" = .ok 2 from rfl]
    simp only [Outcome.ok_bind, numberContent, textOf_ofText, String.toList_ofList,
      Integer.readAny_text]
    rfl
  | float x =>
    rw [ofNumber, hnamed, show variant.position numberNames "Float" = .ok 3 from rfl]
    rfl
  | text t =>
    rw [ofNumber, hnamed, show variant.position numberNames "Text" = .ok 4 from rfl]
    simp only [Outcome.ok_bind, numberContent, textOf_ofText]
    rfl
  | decimal d =>
    rw [ofNumber, hnamed, show variant.position numberNames "Decimal" = .ok 5 from rfl]
    simp only [Outcome.ok_bind, numberContent, decimalOf_text]
    rfl

private theorem values_ofValues {depth : Nat} {items : List Value}
    (h : ∀ v ∈ items, value depth (ofValue v)
      = if v.height ≤ depth then .ok (v.relay medium) else .error tooDeep) :
    values depth (ofValues items) = if Value.heightOfList items ≤ depth
      then .ok (Value.relayList medium items) else .error tooDeep := by
  induction items with
  | nil => simp [ofValues, values, Value.heightOfList, Value.relayList]
  | cons v rest ih =>
    have hrest := ih fun w hw => h w (List.mem_cons_of_mem _ hw)
    rw [ofValues, values, Value.heightOfList, Value.relayList]
    exact Outcome.bind_levels (h v List.mem_cons_self) (Outcome.map_levels hrest rfl)

private theorem members_ofMemberValues {depth : Nat} {entries : Entries Value}
    (h : ∀ e ∈ entries, value depth (ofValue e.2)
      = if e.2.height ≤ depth then .ok (e.2.relay medium) else .error tooDeep)
    (before : Entries Value) :
    members depth (ofMemberValues entries) before = if Value.heightOfEntries entries ≤ depth
      then .ok ((Value.relayEntries medium entries).foldl
        (fun entries (name, v) => entries.put name v) before)
      else .error tooDeep := by
  induction entries generalizing before with
  | nil => simp [ofMemberValues, members, Value.heightOfEntries, Value.relayEntries]
  | cons e rest ih =>
    obtain ⟨name, v⟩ := e
    have hrest := ih (fun w hw => h w (List.mem_cons_of_mem _ hw))
    rw [ofMemberValues, members, textOf_ofText, Outcome.ok_bind, Value.heightOfEntries,
      Value.relayEntries, List.foldl_cons]
    exact Outcome.bind_levels (h _ List.mem_cons_self) (hrest _)

private theorem enter_bind {α : Type} (depth height : Nat) (a : α) (x : Except Problem α)
    (h : x = if height ≤ depth - 1 then .ok a else .error tooDeep) :
    (do enter depth; x) = if height + 1 ≤ depth then .ok a else .error tooDeep := by
  subst h
  by_cases h0 : depth = 0
  · subst h0
    rfl
  · have hd : height ≤ depth - 1 ↔ height + 1 ≤ depth := by omega
    simp only [enter, h0, if_false, Outcome.ok_bind, hd]

/-- A value is read back from its item exactly when there are levels enough. -/
theorem value_ofValue (v : Value) (depth : Nat) :
    value depth (ofValue v)
      = if v.height ≤ depth then .ok (v.relay medium) else .error tooDeep := by
  have hnamed : ∀ depth name content, value depth (named name content) = (do
      valueContent depth (← variant.position valueNames name) content) := by
    intro depth name content
    rw [named_eq, value, wrapped, variant_ofText]
  induction v using Value.induction generalizing depth with
  | null =>
    have hname : variant depth valueNames (ofText "Null") = .ok 0 := by
      rw [variant_ofText]
      rfl
    obtain ⟨marker, h⟩ := exists_ofText "Null"
    rw [h] at hname
    rw [ofValue, h, value.eq_def]
    simp only [hname, Outcome.ok_bind, Value.height, Nat.zero_le, if_true, Value.relay]
    rfl
  | bool b =>
    rw [ofValue, hnamed, show variant.position valueNames "Bool" = .ok 1 from rfl]
    simp only [Outcome.ok_bind, valueContent, boolOf, Value.height, Nat.zero_le, if_true,
      Value.relay]
    rfl
  | number n =>
    rw [ofValue, hnamed, show variant.position valueNames "Number" = .ok 2 from rfl]
    simp only [Outcome.ok_bind, valueContent, numberOf_ofNumber, Value.height, Nat.zero_le, if_true,
      Value.relay]
    rfl
  | string s =>
    rw [ofValue, hnamed, show variant.position valueNames "String" = .ok 3 from rfl]
    simp only [Outcome.ok_bind, valueContent, textOf_ofText, Value.height, Nat.zero_le, if_true,
      Value.relay]
    rfl
  | array items ih =>
    obtain ⟨marker, h⟩ := exists_ofItems (ofValues items)
    rw [ofValue, hnamed, show variant.position valueNames "Array" = .ok 4 from rfl, h]
    simp only [Outcome.ok_bind, valueContent, Value.height, Value.relay]
    apply enter_bind
    rw [values_ofValues fun v hv => ih v hv (depth - 1)]
    split <;> rfl
  | set members ih =>
    obtain ⟨marker, h⟩ := exists_ofItems (ofValues members)
    rw [ofValue, hnamed, show variant.position valueNames "Set" = .ok 5 from rfl, h]
    simp only [Outcome.ok_bind, valueContent, Value.height, Value.relay]
    apply enter_bind
    rw [values_ofValues fun v hv => ih v hv (depth - 1)]
    split <;> rfl
  | object entries ih =>
    obtain ⟨marker, h⟩ := exists_ofEntries (ofMemberValues entries)
    rw [ofValue, hnamed, show variant.position valueNames "Object" = .ok 6 from rfl, h]
    simp only [Outcome.ok_bind, valueContent, Value.height, Value.relay]
    apply enter_bind
    rw [members_ofMemberValues fun e he => ih e he (depth - 1)]
    split <;> rfl

theorem entriesOf_ofEntries (entries : Entries Value) (depth : Nat) :
    entriesOf depth (ofEntries (ofMemberValues entries))
      = if Value.heightOfEntries entries + 1 ≤ depth
        then .ok (Entries.ofPairs (Value.relayEntries medium entries)) else .error tooDeep := by
  obtain ⟨marker, h⟩ := exists_ofEntries (ofMemberValues entries)
  rw [h, entriesOf]
  apply enter_bind
  exact members_ofMemberValues (fun e _ => value_ofValue e.2 (depth - 1)) []

private theorem sound_named {name : String} {content : Item} (h : (named name content).Fits)
    (hs : content.Fits → content.Sound) : (named name content).Sound := by
  rw [named, fits_ofEntries] at h
  exact sound_ofEntries h.1 ⟨sound_ofText h.2.1, hs h.2.2.1, trivial⟩

theorem sound_ofNumber {n : Number} (h : (ofNumber n).Fits) : (ofNumber n).Sound := by
  cases n with
  | int n => exact sound_named h fun _ => sound_ofInt n.le_toInt n.toInt_lt
  | uint n => exact sound_named h fun _ => sound_ofNat n.toNat_lt
  | big n => exact sound_named h sound_ofText
  | float x => exact sound_named h fun _ => trivial
  | text t => exact sound_named h sound_ofText
  | decimal d => exact sound_named h sound_ofText

private theorem soundItems_ofValues {items : List Value}
    (h : ∀ v ∈ items, (ofValue v).Fits → (ofValue v).Sound) :
    FitsItems (ofValues items) → SoundItems (ofValues items) := by
  induction items with
  | nil => exact fun _ => trivial
  | cons v rest ih =>
    intro hf
    exact ⟨h v List.mem_cons_self hf.1, ih (fun w hw => h w (List.mem_cons_of_mem _ hw)) hf.2⟩

private theorem soundEntries_ofMemberValues {entries : Entries Value}
    (h : ∀ e ∈ entries, (ofValue e.2).Fits → (ofValue e.2).Sound) :
    FitsEntries (ofMemberValues entries) → SoundEntries (ofMemberValues entries) := by
  induction entries with
  | nil => exact fun _ => trivial
  | cons e rest ih =>
    intro hf
    exact ⟨sound_ofText hf.1, h e List.mem_cons_self hf.2.1,
      ih (fun w hw => h w (List.mem_cons_of_mem _ hw)) hf.2.2⟩

theorem sound_ofValue (v : Value) : (ofValue v).Fits → (ofValue v).Sound := by
  induction v using Value.induction with
  | null =>
    rw [ofValue]
    exact sound_ofText
  | bool b => exact fun h => sound_named h fun _ => trivial
  | number n => exact fun h => sound_named h sound_ofNumber
  | string s => exact fun h => sound_named h sound_ofText
  | array items ih | set items ih =>
    intro h
    refine sound_named h fun hf => ?_
    rw [fits_ofItems] at hf
    exact sound_ofItems hf.1 (soundItems_ofValues ih hf.2)
  | object entries ih =>
    intro h
    refine sound_named h fun hf => ?_
    rw [fits_ofEntries] at hf
    exact sound_ofEntries hf.1 (soundEntries_ofMemberValues ih hf.2)

theorem sound_ofMemberValues {entries : Entries Value}
    (h : (ofEntries (ofMemberValues entries)).Fits) :
    (ofEntries (ofMemberValues entries)).Sound := by
  rw [fits_ofEntries] at h
  exact sound_ofEntries h.1 (soundEntries_ofMemberValues (fun e _ => sound_ofValue e.2) h.2)

private theorem wellFormed_octets (bytes : Bytes) : Value.EachOfList Value.NamesOnce (octets bytes) := by
  rw [Value.eachOfList_iff, octets, List.forall_mem_map]
  exact fun b _ => trivial

private theorem enter_eq_ok {α : Type} {depth : Nat} {x : Except Problem α} {a : α}
    (h : (do enter depth; x) = .ok a) : x = .ok a := by
  obtain ⟨-, -, h⟩ := Outcome.bind_eq_ok.mp h
  exact h

private theorem mismatch_ne_ok {α : Type} {depth : Nat} {expected : String} {item : Item} {a : α} :
    item.mismatch depth expected ≠ .ok a := by
  intro h
  obtain ⟨found, -, h⟩ := Outcome.bind_eq_ok.mp h
  cases h

mutual

theorem wellFormed_value {depth : Nat} {item : Item} {v : Value}
    (h : value depth item = .ok v) : v.WellFormed := by
  unfold value at h
  split at h
  case h_1 => exact wellFormed_wrapped h
  case h_2 =>
    cases h
    trivial
  case h_3 =>
    obtain ⟨position, -, h⟩ := Outcome.bind_eq_ok.mp h
    split at h
    · cases h
      trivial
    · cases h
termination_by sizeOf item

theorem wellFormed_wrapped {depth length : Nat} {entries : List (Item × Item)} {v : Value}
    (h : wrapped depth length entries = .ok v) : v.WellFormed := by
  unfold wrapped at h
  split at h
  · obtain ⟨position, -, h⟩ := Outcome.bind_eq_ok.mp h
    exact wellFormed_content h
  · cases h
termination_by sizeOf entries

theorem wellFormed_content {depth position : Nat} {item : Item} {v : Value}
    (h : valueContent depth position item = .ok v) : v.WellFormed := by
  unfold valueContent at h
  split at h
  -- the types without parts, then lists and sets, each as items or as a byte string
  case h_1 | h_2 | h_3 | h_4 =>
    obtain ⟨content, -, h⟩ := Outcome.bind_eq_ok.mp h
    cases h
    trivial
  case h_5 | h_7 =>
    obtain ⟨vs, hvs, h⟩ := Outcome.bind_eq_ok.mp (enter_eq_ok h)
    cases h
    exact ⟨trivial, wellFormed_values hvs⟩
  case h_6 | h_8 =>
    cases h
    exact ⟨trivial, wellFormed_octets _⟩
  case h_9 =>
    obtain ⟨entries, hentries, h⟩ := Outcome.bind_eq_ok.mp (enter_eq_ok h)
    cases h
    exact wellFormed_members hentries List.nodup_nil trivial
  case h_10 | h_11 => exact (mismatch_ne_ok h).elim
termination_by sizeOf item

theorem wellFormed_values : {depth : Nat} → {items : List Item} → {vs : List Value} →
    values depth items = .ok vs → Value.EachOfList Value.NamesOnce vs
  | _, [], _, h => by
    cases h
    trivial
  | _, item :: rest, _, h => by
    obtain ⟨v, hv, h⟩ := Outcome.bind_eq_ok.mp h
    obtain ⟨vs, hvs, h⟩ := Outcome.bind_eq_ok.mp h
    cases h
    exact ⟨wellFormed_value hv, wellFormed_values hvs⟩
termination_by _ items => sizeOf items

theorem wellFormed_members : {depth : Nat} → {given : List (Item × Item)} →
    {before entries : Entries Value} → members depth given before = .ok entries →
    before.names.Nodup → Value.EachOfEntries Value.NamesOnce before →
    (Value.object entries).WellFormed
  | _, [], _, _, h, hn, hb => by
    cases h
    exact ⟨hn, hb⟩
  | _, (name, item) :: rest, before, _, h, hn, hb => by
    obtain ⟨s, -, h⟩ := Outcome.bind_eq_ok.mp h
    obtain ⟨v, hv, h⟩ := Outcome.bind_eq_ok.mp h
    refine wellFormed_members h (Entries.nodup_put v hn) ?_
    rw [Value.eachOfEntries_iff] at *
    intro e he
    rcases Entries.mem_put he with rfl | he
    · exact wellFormed_value hv
    · exact hb e he
termination_by _ given => sizeOf given

end

end Item

end MessagePack

end DecisionService
