import Mathlib
import DecisionService.Proofs.Decision.Payload
import DecisionService.Proofs.Json.Cut
import DecisionService.Proofs.Json.Framing
import DecisionService.Proofs.Json.Payload
import DecisionService.Proofs.MessagePack.Cut
import DecisionService.Proofs.MessagePack.Framing
import DecisionService.Proofs.MessagePack.Payload
import DecisionService.Proofs.Wire.Marshal
/-!
# Where a payload ends

What is read goes as far as its framing says, and what is cut off before is not read at all. So no
strict part in front of a marshalled payload is read, although most fields may be missing. What
stands behind a payload makes JSON refuse it; MessagePack does not look there.
-/
namespace DecisionService

open Wire Outcome

def Wire.Schema.isRecord : Schema → Bool
  | .record _ _ => true
  | _ => false

section Read

variable {α : Type} [Payload α]

private theorem readPayload_fails {ν : Type} [Source ν] {cut : ν → Prop}
    (h : Source.Refuses ν cut) {node : ν} (hcut : cut node) :
    Fails (readPayload node : Except Problem α) :=
  ((Payload.schema α).read_fails h _ hcut).bind _

namespace Json

private theorem read_number : (schema : Schema) → schema.isRecord = true → (depth : Nat) →
    (l : Literal) → Fails (schema.read depth (Doc.number l))
  | .record _ _, _, _, _ => ⟨_, rfl⟩

variable {bytes rest : Bytes} {doc : Doc} {a : α}

/-- What is read is a whole document, no number, with nothing but blanks behind it. -/
theorem exists_complete (hrecord : (Payload.schema α).isRecord = true)
    (h : Format.json.unmarshal bytes = .ok a) :
    ∃ doc rest, Doc.ofBytes bytes = (doc, some rest) ∧ doc.Delimited rest
      ∧ Doc.skipBlanks rest = [] ∧ readPayload doc = .ok a := by
  have h : Format.json.read bytes = .ok a := mapError_eq_ok.mp h
  have hended := Doc.ended_ofBytes bytes
  rw [Format.read] at h
  generalize Doc.ofBytes bytes = scanned at *
  obtain ⟨b, hread, h⟩ := bind_eq_ok.mp h
  obtain ⟨_, hrest, h⟩ := bind_eq_ok.mp h
  cases h
  obtain ⟨doc, _ | rest⟩ := scanned
  · exact absurd hread ((readPayload_fails Doc.refuses_cutShort (hended rfl)).ne_ok _)
  · refine ⟨doc, rest, rfl, ?_, ?_, hread⟩
    · rintro l rfl
      exact absurd hread (((read_number _ hrecord _ l).bind _).ne_ok _)
    · unfold Format.checkRest at hrest
      dsimp only at hrest
      split at hrest
      · next hempty => exact List.isEmpty_iff.mp hempty
      · cases hrest

theorem unmarshal_of_scanned (hscan : Doc.ofBytes bytes = (doc, some rest))
    (hread : readPayload doc = .ok a) : Format.json.unmarshal bytes
      = if ∀ b ∈ rest, b ∈ [0x20, 0x09, 0x0A, 0x0D] then .ok a
        else .error (.problem (.json .trailingCharacters)) := by
  rw [Format.unmarshal, Format.read, hscan]
  dsimp only
  rw [hread, ok_bind, Format.checkRest]
  by_cases hblank : Doc.skipBlanks rest = []
  · rw [if_pos (List.isEmpty_iff.mpr hblank), if_pos (Doc.skipBlanks_eq_nil_iff.mp hblank)]
    rfl
  · rw [if_neg (mt List.isEmpty_iff.mp hblank), if_neg (mt Doc.skipBlanks_eq_nil_iff.mpr hblank)]
    rfl

/-- A payload that is read is read in front of blanks and refused in front of anything else. -/
theorem unmarshal_followed (hrecord : (Payload.schema α).isRecord = true)
    (h : Format.json.unmarshal bytes = .ok a) (behind : Bytes) :
    Format.json.unmarshal (bytes ++ behind)
      = if ∀ b ∈ behind, b ∈ [0x20, 0x09, 0x0A, 0x0D] then .ok a
        else .error (.problem (.json .trailingCharacters)) := by
  obtain ⟨doc, rest, hscan, hd, hblank, hread⟩ := exists_complete hrecord h
  rw [unmarshal_of_scanned (Doc.ofBytes_followed hscan hd behind) hread]
  refine if_congr ?_ rfl rfl
  rw [List.forall_mem_append]
  exact and_iff_right (Doc.skipBlanks_eq_nil_iff.mp hblank)

end Json

namespace MessagePack

variable {bytes : Bytes} {a : α}

theorem exists_complete (h : Format.msgpack.unmarshal bytes = .ok a) :
    ∃ item rest, Item.ofBytes bytes = (item, some rest) ∧ readPayload item = .ok a := by
  have h : Format.msgpack.read bytes = .ok a := mapError_eq_ok.mp h
  have hended := Item.ended_ofBytes bytes
  rw [Format.read] at h
  generalize Item.ofBytes bytes = scanned at *
  obtain ⟨item, _ | rest⟩ := scanned
  · exact absurd h ((readPayload_fails Item.refuses_cutShort (hended rfl)).ne_ok _)
  · exact ⟨item, rest, rfl, h⟩

theorem unmarshal_followed (h : Format.msgpack.unmarshal bytes = .ok a) (behind : Bytes) :
    Format.msgpack.unmarshal (bytes ++ behind) = .ok a := by
  obtain ⟨item, rest, hscan, hread⟩ := exists_complete h
  rw [Format.unmarshal, Format.read, Item.ofBytes_followed hscan, hread]
  rfl

end MessagePack

end Read

/-- The payload is marshalled, and no strict part in front of its bytes is read as a payload of its
type. -/
def Format.DetectsCuts {α : Type} [Payload α] (format : Format) (a : α) : Prop :=
  ∃ bytes, format.marshal a = .ok bytes ∧ ∀ cut, cut <+: bytes → cut ≠ bytes →
    ∃ e, (format.unmarshal cut : Except FormatError α) = .error e

/-- What is scanned to the end of the bytes is read from no strict part in front of them. -/
private theorem detectsCuts {α ν : Type} [Payload α] [Target ν] [Source ν] {ch : Channel ν} {a : α}
    (hrecord : (Payload.schema α).isRecord = true) (h : ch.ConveysPayload a) (format : Format)
    (hf : format = .msgpack → MessagePack.Fits a) : format.DetectsCuts a := by
  obtain ⟨bytes, hm⟩ := format.exists_marshal a
  refine ⟨bytes, hm, fun cut hcut hne => fails_iff.mpr fun b hread => hne ?_⟩
  obtain ⟨behind, rfl⟩ := hcut
  -- the part goes as far as the whole, so there is nothing behind it
  suffices hnil : behind = [] by rw [hnil, List.append_nil]
  cases format with
  | json =>
    obtain ⟨doc, rest, hscan, hd, -, -⟩ := Json.exists_complete hrecord hread
    obtain ⟨whole, hwhole⟩ := Json.ofBytes_marshal ch h hm
    rw [Json.Doc.ofBytes_followed hscan hd] at hwhole
    exact (List.append_eq_nil_iff.mp (Option.some.inj (Prod.mk.inj hwhole).2)).2
  | msgpack =>
    obtain ⟨item, rest, hscan, -⟩ := MessagePack.exists_complete hread
    obtain ⟨whole, hwhole⟩ := MessagePack.ofBytes_marshal ch h (hf rfl) hm
    rw [MessagePack.Item.ofBytes_followed hscan] at hwhole
    exact (List.append_eq_nil_iff.mp (Option.some.inj (Prod.mk.inj hwhole).2)).2

/-- No request and no response is read from a strict part in front of its bytes. -/
theorem Format.unmarshal_cut (format : Format) :
    (∀ request : Request, (format = .msgpack → MessagePack.Fits request) →
      format.DetectsCuts request)
    ∧ ∀ response : Response Report, (format = .msgpack → MessagePack.Fits response) →
      format.DetectsCuts response := by
  constructor
  · intro request
    exact detectsCuts rfl (Request.conveys MessagePack.channel trivial) format
  · intro response
    refine detectsCuts rfl (Response.conveys MessagePack.channel fun report _ => ?_) format
    exact ⟨Report.conveys MessagePack.channel trivial fun _ _ => trivial, rfl⟩

def sampleRequest : Request :=
  ⟨some "urn:1", some "loan", none, some ["r"], ⟨[("amount", .number (.int 300))]⟩⟩

def sampleResponse : Response Report :=
  .success "OK" ⟨"urn:1", "loan", none, ⟨[("rate", .string "5%")]⟩, [],
    [⟨"r", "rate", .string "5%", .succeeded⟩]⟩

theorem Format.unmarshal_cut_sample :
    json.DetectsCuts sampleRequest ∧ msgpack.DetectsCuts sampleRequest
    ∧ json.DetectsCuts sampleResponse ∧ msgpack.DetectsCuts sampleResponse := by
  have hrequest : MessagePack.Fits sampleRequest := by decide +kernel
  have hresponse : MessagePack.Fits sampleResponse := by decide +kernel
  exact ⟨(unmarshal_cut json).1 _ nofun, (unmarshal_cut msgpack).1 _ fun _ => hrequest,
    (unmarshal_cut json).2 _ nofun, (unmarshal_cut msgpack).2 _ fun _ => hresponse⟩

/-- A request that JSON reads is read in front of blanks and refused in front of anything else. One
that MessagePack reads is read in front of anything. -/
theorem Format.unmarshal_behind {bytes : Bytes} {request : Request} (behind : Bytes) :
    (json.unmarshal bytes = .ok request → json.unmarshal (bytes ++ behind)
      = if ∀ b ∈ behind, b ∈ [0x20, 0x09, 0x0A, 0x0D] then .ok request
        else .error (.problem (.json .trailingCharacters)))
    ∧ (msgpack.unmarshal bytes = .ok request →
      msgpack.unmarshal (bytes ++ behind) = .ok request) :=
  ⟨fun h => Json.unmarshal_followed rfl h behind,
    fun h => MessagePack.unmarshal_followed h behind⟩

def openRequest : Request :=
  ⟨none, none, none, none, ⟨[]⟩⟩

theorem Format.unmarshal_behind_open :
    json.unmarshal [0x7B, 0x7D, 0x7D]
      = (.error (.problem (.json .trailingCharacters)) : Except FormatError Request)
    ∧ json.unmarshal [0x7B, 0x7D, 0x20] = .ok openRequest
    ∧ msgpack.unmarshal [0x80, 0x80] = .ok openRequest := by
  have hjson : json.unmarshal [0x7B, 0x7D] = .ok openRequest := rfl
  have hmsgpack : msgpack.unmarshal [0x80] = .ok openRequest := rfl
  have hbrace : ¬ ∀ b ∈ ([0x7D] : Bytes), b ∈ [0x20, 0x09, 0x0A, 0x0D] := by simp
  have hblank : ∀ b ∈ ([0x20] : Bytes), b ∈ [0x20, 0x09, 0x0A, 0x0D] := by simp
  exact ⟨((unmarshal_behind [0x7D]).1 hjson).trans (if_neg hbrace),
    ((unmarshal_behind [0x20]).1 hjson).trans (if_pos hblank),
    (unmarshal_behind [0x80]).2 hmsgpack⟩

/-- Bytes behind a request are ignored: here another item behind the request that leaves
everything open. -/
theorem Format.unmarshal_ignored :
    ¬ ∀ (format : Format) (bytes behind : Bytes) (request : Request),
      format.unmarshal bytes = .ok request → behind ≠ [] →
      (format = json → ∃ b ∈ behind, b ∉ [0x20, 0x09, 0x0A, 0x0D]) →
      ∃ e, (format.unmarshal (bytes ++ behind) : Except FormatError Request) = .error e := by
  intro h
  have hopen : msgpack.unmarshal [0x80] = .ok openRequest := rfl
  have hmore : msgpack.unmarshal ([0x80] ++ [0xC0]) = .ok openRequest := rfl
  obtain ⟨e, he⟩ := h msgpack [0x80] [0xC0] openRequest hopen (by decide) nofun
  cases hmore.symm.trans he

end DecisionService
