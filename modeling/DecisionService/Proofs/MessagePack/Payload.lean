import Mathlib
import DecisionService.Proofs.MessagePack.Value
import DecisionService.Proofs.Wire.Channel
import DecisionService.Wire.Format
/-!
# Payloads read back from MessagePack
-/
namespace DecisionService.MessagePack

open Wire

namespace Item

private theorem isNull_ofText (s : String) : Source.isNull (ofText s) = false := by
  obtain ⟨marker, h⟩ := exists_ofText s
  rw [h]
  rfl

private theorem isNull_ofItems (items : List Item) : Source.isNull (ofItems items) = false := by
  obtain ⟨marker, h⟩ := exists_ofItems items
  rw [h]
  rfl

private theorem isNull_ofEntries (entries : List (Item × Item)) :
    Source.isNull (ofEntries entries) = false := by
  obtain ⟨marker, h⟩ := exists_ofEntries entries
  rw [h]
  rfl

private theorem isNull_ofValue (v : Value) : Source.isNull (ofValue v) = false := by
  cases v with
  | null =>
    rw [ofValue]
    exact isNull_ofText _
  | _ =>
    rw [ofValue]
    exact isNull_ofEntries _

private theorem choiceOf_ofText (depth : Nat) {known : List String} (i : Fin known.length)
    (h : known.Nodup) : choiceOf depth known (ofText (known.get i)) = .ok i.val := by
  have hv := variant_ofText depth known (known.get i)
  obtain ⟨marker, hm⟩ := exists_ofText (known.get i)
  rw [hm] at hv ⊢
  rw [choiceOf, hv, variant.position, findIdx?_get h]
  · intro _ _ _ h
    cases h
  · intro _ _ _ h
    cases h

private theorem itemsOf_ofItems (depth : Nat) (items : List Item) :
    itemsOf depth (ofItems items)
      = if depth = 0 then .error tooDeep else .ok ⟨items, .ok ()⟩ := by
  obtain ⟨marker, h⟩ := exists_ofItems items
  rw [h, itemsOf, enter]
  split <;> rfl

private theorem fieldName_ofText (depth : Nat) (s : String) :
    fieldName depth (ofText s) = .ok (.name s) := by
  obtain ⟨marker, h⟩ := exists_ofText s
  simp only [h, fieldName, Utf8.decode_encode]

private theorem fieldsOf_ofMembers (depth : Nat) (expected : String)
    (members : List (String × Item)) :
    fieldsOf depth expected (ofMembers members) = if depth = 0 then .error tooDeep
      else .ok (.named (members.map fun m => (.ok (.name m.1), m.2)) (.ok ())) := by
  change fieldsOf depth expected (ofEntries (members.map fun m => (ofText m.1, m.2))) = _
  obtain ⟨marker, h⟩ := exists_ofEntries (members.map fun m => (ofText m.1, m.2))
  rw [h, fieldsOf, enter]
  simp only [List.map_map, Function.comp_def, fieldName_ofText]
  split <;> rfl

end Item

open Item in
def channel : Channel Item where
  medium := medium
  tooDeep := tooDeep
  Carries _ := True
  CarriesEntries _ := True
  isNothing _ := false
  isNull_null := rfl
  isNull_text := isNull_ofText
  isNull_list := isNull_ofItems
  isNull_record _ := isNull_ofEntries _
  text_text := textOf_ofText
  choice_text depth _ i h := choiceOf_ofText depth i h
  value_value v _ := ⟨ofValue v, rfl, isNull_ofValue v, value_ofValue v⟩
  entries_entries entries _ :=
    ⟨ofEntries (ofMemberValues entries), rfl, isNull_ofEntries _, entriesOf_ofEntries entries⟩
  items_list := itemsOf_ofItems
  fields_record := fieldsOf_ofMembers

private theorem soundItems {items : List Item} (h : ∀ item ∈ items, item.Fits → item.Sound)
    (hf : Item.FitsItems items) : Item.SoundItems items := by
  induction items with
  | nil => trivial
  | cons item rest ih =>
    exact ⟨h item List.mem_cons_self hf.1, ih (fun i hi => h i (List.mem_cons_of_mem _ hi)) hf.2⟩

private theorem inherited_sound : Inherited fun item : Item => item.Fits → item.Sound where
  null _ := trivial
  text _ := Item.sound_ofText
  value v node h := by
    cases h
    exact Item.sound_ofValue v
  entries entries node h := by
    cases h
    exact Item.sound_ofMemberValues
  list nodes h hf := by
    obtain ⟨hlen, hitems⟩ := (Item.fits_ofItems nodes).mp hf
    exact Item.sound_ofItems hlen (soundItems h hitems)
  record members h hf := Item.sound_ofMembers hf h

/-- No text, list or map in a payload is longer than the four bytes of a length can tell. -/
def Fits {α : Type} [Payload α] (a : α) : Prop :=
  ∀ item : Item, writePayload a = .ok item → item.Fits

instance {α : Type} [Payload α] (a : α) : Decidable (Fits a) :=
  match h : (writePayload a : Except Problem Item) with
  | .ok item => decidable_of_iff item.Fits ⟨fun hf _ hw => by
      rw [h] at hw
      cases hw
      exact hf, fun hf => hf item h⟩
  | .error _ => isTrue fun _ hw => by
      rw [h] at hw
      cases hw

theorem ofBytes_marshal {α ν : Type} [Payload α] [Target ν] [Source ν] (ch : Channel ν) {a : α}
    (h : ch.ConveysPayload a) (hf : Fits a) {bytes : Bytes}
    (hm : Format.msgpack.marshal a = .ok bytes) : ∃ item, Item.ofBytes bytes = (item, some []) := by
  obtain ⟨item, hw, hbytes⟩ := Outcome.bind_eq_ok.mp (Outcome.mapError_eq_ok.mp hm)
  cases hbytes
  exact ⟨item, Item.ofBytes_render (inherited_sound.write ch _ _ h item hw (hf item hw))⟩

theorem unmarshal_marshal {α : Type} [Payload α] {a : α} (h : channel.ConveysPayload a)
    (hf : Fits a) : ∃ bytes, Format.msgpack.marshal a = .ok bytes
      ∧ Format.msgpack.unmarshal bytes = if Payload.height a ≤ levels
        then .ok (Payload.relay medium a) else .error (.problem tooDeep) := by
  obtain ⟨item, hw, hread⟩ := channel.readPayload_writePayload h
  have hsound := inherited_sound.write channel _ _ h item hw (hf item hw)
  refine ⟨item.render, ?_, ?_⟩
  · rw [Format.marshal, Format.write, hw]
    rfl
  · rw [Format.unmarshal, Format.read, Item.ofBytes_render hsound, hread]
    change (if Payload.height a ≤ levels then _ else _ : Except Problem α).mapError _ = _
    split <;> rfl

end DecisionService.MessagePack
