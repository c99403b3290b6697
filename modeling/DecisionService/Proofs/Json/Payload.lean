import Mathlib
import DecisionService.Proofs.Json.Value
import DecisionService.Proofs.Wire.Channel
import DecisionService.Wire.Format
/-!
# Payloads read back from JSON
-/
namespace DecisionService.Json

open Wire

namespace Doc

private theorem choiceOf_string (depth : Nat) {known : List String} (i : Fin known.length)
    (h : known.Nodup) : choiceOf depth known (string (.ok (known.get i))) = .ok i.val := by
  simp only [choiceOf, readText, Outcome.ok_bind, position, findIdx?_get h]

private theorem itemsOf_ofItems (depth : Nat) (items : List Doc) :
    itemsOf depth (ofItems items) = if depth = 0 then .error tooDeep else .ok ⟨items, .ok ()⟩ :=
  rfl

private theorem fieldsOf_ofMembers (depth : Nat) (expected : String)
    (members : List (String × Doc)) :
    fieldsOf depth expected (ofMembers members) = if depth = 0 then .error tooDeep
      else .ok (.named (members.map fun m => (.ok (.name m.1), m.2)) (.ok ())) := by
  rw [ofMembers, fieldsOf, List.map_map]
  rfl

end Doc

open Doc in
def channel : Channel Doc where
  medium := medium
  tooDeep := tooDeep
  Carries := Readable
  CarriesEntries entries := ∀ e ∈ entries, Readable e.2
  isNothing := isNothing
  isNull_null := rfl
  isNull_text _ := rfl
  isNull_list _ := rfl
  isNull_record _ := rfl
  text_text _ _ := rfl
  choice_text depth _ i h := choiceOf_string depth i h
  value_value v h := by
    obtain ⟨doc, hdoc, -⟩ := exists_ofValue v
    exact ⟨doc, hdoc, isNull_ofValue hdoc, value_ofValue h hdoc⟩
  entries_entries entries h := by
    obtain ⟨members, hmembers, -⟩ := exists_ofEntries entries
    exact ⟨object members .closed, congrArg (· >>= _) hmembers, rfl, entriesOf_ofEntries h hmembers⟩
  items_list := itemsOf_ofItems
  fields_record := fieldsOf_ofMembers

private theorem soundItems {items : List Doc} (h : ∀ item ∈ items, item.Sound) :
    Doc.SoundItems items := by
  induction items with
  | nil => trivial
  | cons item rest ih =>
    exact ⟨h item List.mem_cons_self, ih fun i hi => h i (List.mem_cons_of_mem _ hi)⟩

private theorem soundMembers {members : List (String × Doc)} (h : ∀ m ∈ members, m.2.Sound) :
    (Doc.ofMembers members).Sound := by
  induction members with
  | nil => trivial
  | cons m rest ih =>
    exact ⟨h m List.mem_cons_self, ih fun n hn => h n (List.mem_cons_of_mem _ hn)⟩

private theorem inherited_sound : Inherited Doc.Sound where
  null := trivial
  text _ := trivial
  value v node h := by
    obtain ⟨doc, hdoc, hs⟩ := Doc.exists_ofValue v
    cases hdoc.symm.trans h
    exact hs
  entries entries node h := by
    obtain ⟨members, hmembers, hs⟩ := Doc.exists_ofEntries entries
    obtain ⟨given, hgiven, h⟩ := Outcome.bind_eq_ok.mp h
    cases hmembers.symm.trans hgiven
    cases h
    exact hs
  list _ := soundItems
  record _ := soundMembers

theorem unmarshal_of_ofBytes {α : Type} [Payload α] {bytes : Bytes} {doc : Doc}
    (h : Doc.ofBytes bytes = (doc, some [])) :
    (Format.json.unmarshal bytes : Except FormatError α) = (readPayload doc).mapError .problem := by
  rw [Format.unmarshal, Format.read, h]
  change (readPayload doc >>= fun a => Format.checkRest (some []) >>= fun _ =>
    Except.ok a : Except Problem α).mapError _ = _
  cases (readPayload doc : Except Problem α) <;> rfl

theorem ofBytes_marshal {α ν : Type} [Payload α] [Target ν] [Source ν] (ch : Channel ν) {a : α}
    (h : ch.ConveysPayload a) {bytes : Bytes} (hm : Format.json.marshal a = .ok bytes) :
    ∃ doc, Doc.ofBytes bytes = (doc, some []) := by
  obtain ⟨doc, hw, hbytes⟩ := Outcome.bind_eq_ok.mp (Outcome.mapError_eq_ok.mp hm)
  cases hbytes
  exact ⟨doc, Doc.ofBytes_render (inherited_sound.write ch _ _ h doc hw)⟩

theorem unmarshal_number {l : Literal} (h : l.Sound) {text : List Char} (ht : l.Spells text) :
    Format.json.unmarshal (Bytes.ofAscii text) = .ok (reread l.text) := by
  rw [unmarshal_of_ofBytes (Doc.ofBytes_literal h ht), readPayload_value]
  change (Doc.value levels (.number l)).mapError _ = _
  rw [Doc.value_literal h]
  rfl

/-- The document of a value is what is written, and it alone decides what is read back. -/
theorem unmarshal_value {v : Value} {doc : Doc} (h : Doc.ofValue v = .ok doc) :
    Format.json.marshal v = .ok doc.render
    ∧ (Format.json.unmarshal doc.render : Except FormatError Value)
      = (Doc.value levels doc).mapError .problem := by
  constructor
  · change (Doc.ofValue v >>= fun doc => Except.ok doc.render).mapError _ = _
    rw [h]
    rfl
  · obtain ⟨doc', hdoc, hsound⟩ := Doc.exists_ofValue v
    cases h.symm.trans hdoc
    rw [unmarshal_of_ofBytes (Doc.ofBytes_render hsound), readPayload_value]
    rfl

/-- A payload is marshalled, and its text gives it back unless its containers take more levels than
there are. -/
theorem unmarshal_marshal {α : Type} [Payload α] {a : α} (h : channel.ConveysPayload a) :
    ∃ bytes, Format.json.marshal a = .ok bytes
      ∧ Format.json.unmarshal bytes = if Payload.height a ≤ levels
        then .ok (Payload.relay medium a) else .error (.problem tooDeep) := by
  obtain ⟨doc, hw, hread⟩ := channel.readPayload_writePayload h
  have hsound := inherited_sound.write channel _ _ h doc hw
  refine ⟨doc.render, ?_, ?_⟩
  · rw [Format.marshal, Format.write, hw]
    rfl
  · rw [unmarshal_of_ofBytes (Doc.ofBytes_render hsound), hread]
    change (if Payload.height a ≤ levels then _ else _ : Except Problem α).mapError _ = _
    split <;> rfl

end DecisionService.Json
