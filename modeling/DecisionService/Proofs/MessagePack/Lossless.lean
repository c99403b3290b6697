import Mathlib
import DecisionService.Proofs.Decision.Payload
import DecisionService.Proofs.MessagePack.Payload
/-!
# MessagePack loses nothing

Two values are alike when they have the same shape and the same numbers in the same forms. A
payload whose objects hold each name once comes back alike, or the nesting limit stops its decoder.
-/
namespace DecisionService

/-- The same form with the same digits or bits; of a decimal, the same value. -/
inductive Number.Alike : Number → Number → Prop
  | exact (n : Number) : Alike n n
  | decimal {x y : Decimal} (h : x.same y = true) : Alike (.decimal x) (.decimal y)

namespace Value

mutual

def Alike : Value → Value → Prop
  | null, null => True
  | bool a, bool b => a = b
  | number a, number b => a.Alike b
  | string a, string b => a = b
  | array a, array b => AlikeList a b
  | set a, set b => AlikeList a b
  | object a, object b => AlikeEntries a b
  | _, _ => False

def AlikeList : List Value → List Value → Prop
  | [], [] => True
  | a :: as, b :: bs => Alike a b ∧ AlikeList as bs
  | _, _ => False

def AlikeEntries : Entries Value → Entries Value → Prop
  | [], [] => True
  | (name, a) :: as, (other, b) :: bs => name = other ∧ Alike a b ∧ AlikeEntries as bs
  | _, _ => False

end

end Value

/-- In every object among the values of a context, and in the context, each name stands once. -/
def Context.WellFormed (c : Context) : Prop :=
  (Value.object c.entries).WellFormed

def Context.Alike (a b : Context) : Prop :=
  Value.AlikeEntries a.entries b.entries

structure Request.Alike (a b : Request) : Prop where
  modelNamespace : a.modelNamespace? = b.modelNamespace?
  modelName : a.modelName? = b.modelName?
  names : a.names? = b.names?
  ids : a.ids? = b.ids?
  context : a.context.Alike b.context

structure DecisionResult.Alike (a b : DecisionResult) : Prop where
  id : a.id = b.id
  name : a.name = b.name
  result : a.result.Alike b.result
  status : a.status = b.status

def Report.WellFormed (r : Report) : Prop :=
  r.context.WellFormed ∧ ∀ d ∈ r.decisions, d.result.WellFormed

structure Report.Alike (a b : Report) : Prop where
  modelNamespace : a.modelNamespace = b.modelNamespace
  modelName : a.modelName = b.modelName
  names : a.names? = b.names?
  context : a.context.Alike b.context
  messages : a.messages = b.messages
  decisions : List.Forall₂ DecisionResult.Alike a.decisions b.decisions

structure Response.Alike {α : Type} (alike : α → α → Prop) (a b : Response α) : Prop where
  type : a.type = b.type
  text : a.text = b.text
  result : Option.Rel alike a.result? b.result?

theorem Number.alike_settled (n : Number) : n.Alike n.settled := by
  cases n with
  | decimal d => exact .decimal d.same_settled
  | _ => exact .exact _

namespace MessagePack

private theorem alikeList_relay {items : List Value} (h : ∀ v ∈ items, v.Alike (v.relay medium)) :
    Value.AlikeList items (Value.relayList medium items) := by
  induction items with
  | nil => trivial
  | cons v rest ih =>
    exact ⟨h v List.mem_cons_self, ih fun w hw => h w (List.mem_cons_of_mem _ hw)⟩

private theorem alikeEntries_relay {entries : Entries Value}
    (h : ∀ e ∈ entries, e.2.Alike (e.2.relay medium)) :
    Value.AlikeEntries entries (Value.relayEntries medium entries) := by
  induction entries with
  | nil => trivial
  | cons e rest ih =>
    exact ⟨rfl, h e List.mem_cons_self, ih fun w hw => h w (List.mem_cons_of_mem _ hw)⟩

theorem alike_value (v : Value) (h : v.WellFormed) : v.Alike (v.relay medium) := by
  induction v using Value.induction with
  | null => trivial
  | bool b => rfl
  | number n => exact n.alike_settled
  | string s => rfl
  | array items ih =>
    have hitems := (Value.eachOfList_iff _ _).mp h.2
    exact alikeList_relay fun v hv => ih v hv (hitems v hv)
  | set members ih =>
    have hmembers := (Value.eachOfList_iff _ _).mp h.2
    exact alikeList_relay fun v hv => ih v hv (hmembers v hv)
  | object entries ih =>
    have hentries := (Value.eachOfEntries_iff _ _).mp h.2
    rw [Value.WellFormed.relay_object h]
    exact alikeEntries_relay fun e he => ih e he (hentries e he)

theorem alike_context {c : Context} (h : c.WellFormed) :
    c.Alike (c.relay medium) := by
  have hentries := (Value.eachOfEntries_iff _ _).mp h.2
  have hnames : (Value.relayEntries medium c.entries).names.Nodup := by
    rw [Value.names_relayEntries]
    exact h.1
  rw [Context.Alike, Context.relay, Entries.ofPairs_of_nodup hnames]
  exact alikeEntries_relay fun e he => alike_value e.2 (hentries e he)

theorem alike_request {r : Request} (h : r.context.WellFormed) :
    r.Alike (Wire.Payload.relay medium r) := by
  rw [Request.relay_eq]
  exact ⟨rfl, rfl, rfl, rfl, alike_context h⟩

theorem alike_report {r : Report} (h : r.WellFormed) :
    r.Alike (Wire.Payload.relay medium r) := by
  rw [Report.relay_eq]
  refine ⟨rfl, rfl, rfl, alike_context h.1, rfl, ?_⟩
  rw [List.forall₂_map_right_iff, List.forall₂_same]
  exact fun d hd => ⟨rfl, rfl, alike_value d.result (h.2 d hd), rfl⟩

/-- A payload is marshalled, and its bytes are unmarshalled to a payload that is alike, exactly as
long as its containers take no more levels than there are. -/
def RoundTrips {α : Type} [Wire.Payload α] (alike : α → α → Prop) (a : α) : Prop :=
  ∃ bytes b, Format.msgpack.marshal a = .ok bytes ∧ alike a b
    ∧ Format.msgpack.unmarshal bytes
      = if Wire.Payload.height a ≤ levels then .ok b else .error (.problem tooDeep)

private theorem roundTrips {α : Type} [Wire.Payload α] {alike : α → α → Prop} {a : α}
    (hc : channel.ConveysPayload a) (hf : Fits a) (ha : alike a (Wire.Payload.relay medium a)) :
    RoundTrips alike a := by
  obtain ⟨bytes, hm, hu⟩ := unmarshal_marshal hc hf
  exact ⟨bytes, _, hm, ha, hu⟩

theorem alike_response {α : Type} [Wire.Payload α] {alike : α → α → Prop} {r : Response α}
    (h : ∀ a, r.result? = some a → alike a (Wire.Payload.relay medium a)) :
    r.Alike alike (Wire.Payload.relay medium r) := by
  rw [Response.relay_eq]
  refine ⟨rfl, rfl, ?_⟩
  cases hr : r.result? with
  | none => exact .none
  | some a => exact .some (h a hr)

private theorem roundTrips_response {α : Type} [Wire.Payload α] {alike : α → α → Prop}
    {r : Response α} (hf : Fits r) (h : ∀ a, r.result? = some a → channel.ConveysPayload a
      ∧ channel.writesNothing (Wire.Payload.schema α) (Wire.Payload.content a) = false
      ∧ alike a (Wire.Payload.relay medium a)) : RoundTrips (Response.Alike alike) r := by
  apply roundTrips _ hf
  · exact alike_response fun a hr => (h a hr).2.2
  · exact Response.conveys channel fun a hr => ⟨(h a hr).1, (h a hr).2.1⟩

/-- Values, requests, reports and envelopes come back from MessagePack as they were. -/
theorem marshal_lossless :
    (∀ v : Value, v.WellFormed → Fits v → RoundTrips Value.Alike v)
    ∧ (∀ r : Request, r.context.WellFormed → Fits r → RoundTrips Request.Alike r)
    ∧ (∀ r : Report, r.WellFormed → Fits r → RoundTrips Report.Alike r)
    ∧ (∀ r : Response Report, (∀ report, r.result? = some report → report.WellFormed) → Fits r →
      RoundTrips (Response.Alike Report.Alike) r)
    ∧ (∀ r : Response Value, (∀ v, r.result? = some v → v.WellFormed) → Fits r →
      RoundTrips (Response.Alike Value.Alike) r) := by
  have hreport : ∀ r : Report, channel.ConveysPayload r :=
    fun r => Report.conveys channel trivial fun _ _ => trivial
  refine ⟨?_, ?_, ?_, ?_, ?_⟩
  · intro v hv hf
    exact roundTrips trivial hf (alike_value v hv)
  · intro r hr hf
    exact roundTrips (Request.conveys channel trivial) hf (alike_request hr)
  · intro r hr hf
    exact roundTrips (hreport r) hf (alike_report hr)
  · intro r hr hf
    exact roundTrips_response hf fun report h => ⟨hreport report, rfl, alike_report (hr report h)⟩
  · intro r hr hf
    exact roundTrips_response hf fun v h => ⟨trivial, rfl, alike_value v (hr v h)⟩

def mixedValue : Value :=
  .object [("numbers", .array [.number (.int (-33)), .number (.uint (2 ^ 63)),
      .number (.big (2 ^ 64)), .number (.float ⟨0x7FF8000000000001⟩), .number (.text "007"),
      .number (.decimal ⟨150, 2⟩)]),
    ("members", .set [.bool true, .null, .string "a"])]

def mixedReport : Report :=
  ⟨"ns", "m", some ["d"], ⟨[("v", mixedValue)]⟩,
    [⟨.error, "skipped", .requirementNotFound, some "1"⟩], [⟨"1", "d", mixedValue, .succeeded⟩]⟩

theorem marshal_lossless_mixed :
    RoundTrips Value.Alike mixedValue
    ∧ RoundTrips Request.Alike ⟨none, some "m", none, some ["1"], ⟨[("v", mixedValue)]⟩⟩
    ∧ RoundTrips (Response.Alike Report.Alike) (.success "OK" mixedReport) := by
  have hvalue : mixedValue.WellFormed := by decide
  have hcontext : (⟨[("v", mixedValue)]⟩ : Context).WellFormed :=
    ⟨List.nodup_singleton _, hvalue, trivial⟩
  refine ⟨marshal_lossless.1 _ hvalue (by decide +kernel),
    marshal_lossless.2.1 _ hcontext (by decide +kernel),
    marshal_lossless.2.2.2.1 _ ?_ (by decide +kernel)⟩
  intro report h
  cases h
  refine ⟨hcontext, fun d hd => ?_⟩
  rw [List.mem_singleton.mp hd]
  exact hvalue

end MessagePack

end DecisionService
