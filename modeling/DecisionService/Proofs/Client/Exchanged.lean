import Mathlib
import DecisionService.Proofs.Client.Coerced
import DecisionService.Proofs.Client.Interrupted
import DecisionService.Proofs.Json.Integral
import DecisionService.Proofs.Number.Worth
import DecisionService.Proofs.Wire.Marshal
/-!
# One exchange for a query

A query for a blank name or id is refused, and nothing is sent. Any other is posted once, whatever
becomes of it, and the request that a service reads of it asks for what the query asks for.
-/
namespace DecisionService

open Wire

namespace Query

/-- A decision is asked for, and the text that it is asked for by has no character that is not
white space. -/
def Blank : Query → Prop
  | byName _ _ text _ | byId _ _ text _ => ∀ ch ∈ text.toList, Text.isBlank ch = true
  | prepared _ | all _ | allIn _ _ _ => False

theorem accepted_iff (q : Query) : q.Accepted ↔ ¬ q.Blank := by
  cases q with
  | byName _ _ text _ | byId _ _ text _ =>
    rw [Accepted, Blank, Text.isBlankText, ← List.all_eq_true, Bool.not_eq_true]
  | prepared | all | allIn => simp [Accepted, Blank]

def modelNamespace? : Query → Option String
  | prepared r => r.modelNamespace?
  | all _ => none
  | allIn modelNamespace? _ _ | byName modelNamespace? _ _ _ | byId modelNamespace? _ _ _ =>
    modelNamespace?

def modelName? : Query → Option String
  | prepared r => r.modelName?
  | all _ => none
  | allIn _ modelName? _ | byName _ modelName? _ _ | byId _ modelName? _ _ => modelName?

def context : Query → Context
  | prepared r => r.context
  | all context | allIn _ _ context | byName _ _ _ context | byId _ _ _ context => context

/-- The decisions that are asked for. A prepared request may itself ask for none that there can
be. -/
def selection : Query → Except EvaluationError Selector
  | prepared r => Service.selector r
  | all _ | allIn _ _ _ => .ok .all
  | byName _ _ name _ => .ok (.byName [name])
  | byId _ _ id _ => .ok (.byId [id])

/-- The request asks for what the query asks for, of the same model and with a context of the same
names. -/
structure AskedBy (q : Query) (read : Request) : Prop where
  modelNamespace : read.modelNamespace? = q.modelNamespace?
  modelName : read.modelName? = q.modelName?
  context : ∀ name, read.context.contains name = q.context.contains name
  selection : Service.selector read = q.selection

end Query

/-- The format brings the request: for JSON no name in a value of the context announces a literal,
for MessagePack every length has room in four bytes. -/
def Request.CarriedBy (r : Request) : Format → Prop
  | .json => ∀ e ∈ r.context.entries, e.2.Each Json.NamesPlain
  | .msgpack => MessagePack.Fits r

def Request.Shallow (r : Request) (levels : Nat) : Prop :=
  ∀ e ∈ r.context.entries, e.2.height + 2 ≤ levels

instance (r : Request) (levels : Nat) : Decidable (r.Shallow levels) :=
  inferInstanceAs (Decidable (∀ e ∈ _, _))

namespace Request

theorem CarriedBy.conveys {r : Request} {format : Format} (h : r.CarriedBy format) : format.Conveys r := by
  cases format with
  | json =>
    refine Request.conveys Json.channel fun e he => ?_
    exact (h e he).imp fun _ => Json.startsPlain_of_namesPlain
  | msgpack => exact ⟨Request.conveys MessagePack.channel trivial, h⟩

theorem height_le (r : Request) {n : Nat} (hn : 2 ≤ n) : Payload.height r ≤ n ↔ r.Shallow n := by
  obtain ⟨n, rfl⟩ := Nat.exists_eq_add_of_le' hn
  have hnames : ∀ texts? : Option (List String),
      Schema.height (.optional (.list (.text ""))) texts? ≤ n + 1 :=
    fun texts? => height_texts?_le texts? (Nat.succ_pos n)
  have htext : ∀ text? : Option String, Schema.height (.optional (.text "")) text? = 0 := by
    rintro (_ | text) <;> rfl
  -- texts take no levels, the request takes one around its context or a list of names
  change max (Schema.height (.optional (.text "")) r.modelNamespace?)
    (max (Schema.height (.optional (.text "")) r.modelName?)
      (max (Schema.height (.optional (.list (.text ""))) r.names?)
        (max (Schema.height (.optional (.list (.text ""))) r.ids?)
          (max (Schema.height .entries r.context.entries) 0)))) + 1 ≤ n + 2 ↔ _
  simp only [Shallow, Nat.add_le_add_iff_right, ← height_entries_le]
  have hnamed := hnames r.names?
  have hids := hnames r.ids?
  rw [htext, htext]
  omega

end Request

theorem Context.contains_relay (m : Value.Medium) (c : Context) (name : String) :
    (c.relay m).contains name = c.contains name := by
  rw [Bool.eq_iff_iff]
  simp only [contains, Entries.contains, relay, Entries.get?_isSome_iff, Entries.mem_names_ofPairs,
    Value.names_relayEntries]

theorem Query.askedBy_relay (q : Query) (m : Value.Medium) :
    q.AskedBy (Payload.relay m q.toRequest) := by
  rw [Request.relay_eq]
  cases q <;> exact ⟨rfl, rfl, Context.contains_relay m _, rfl⟩

theorem Query.exists_read (q : Query) {format : Format} (h : q.toRequest.CarriedBy format)
    {payload : Bytes} (hm : format.marshal q.toRequest = .ok payload) :
    ∃ read, q.AskedBy read ∧ format.unmarshal payload
      = if q.toRequest.Shallow format.levels then .ok read else .error format.tooDeep := by
  obtain ⟨bytes, hbytes, hu⟩ := h.conveys.readsBack
  cases Except.ok.inj (hm.symm.trans hbytes)
  have hlevels : 2 ≤ format.levels := by cases format <;> decide
  refine ⟨_, q.askedBy_relay format.medium, ?_⟩
  simp only [hu, q.toRequest.height_le hlevels]

structure Exchange.Posts (e : Exchange) (id : String) (payload : Bytes) (format : Format) : Prop
    where
  method : e.method = .post
  containerId : e.containerId = id
  payload : e.payload? = some payload
  format : e.format = format

theorem Report.Halted.exists_number {p : Value → Prop} {r left : Report} {e : NumberError}
    (hr : r.AllValues p) (h : r.Halted e left) :
    ∃ n : Number, p (.number n) ∧ n.toDecimal = .error e := by
  cases h with
  | context h => exact Value.Halted.exists_number hr.1 h
  | decisions _ h =>
    obtain ⟨d, hmem, _, hd⟩ := h.exists_stopped
    exact Value.Halted.exists_number (hr.2 d hmem) hd.result

namespace Client

/-- What a client makes of a reply: it fails as the transport failed, it cannot read the reply, or it
hands out the envelope that it reads. From JSON that is its decimal form; there is none where a
number is a binary number that is not finite, and no other number stands in the way. -/
inductive Received :
    Format → Except ClientError Bytes → Except ClientError (Response Report) → Prop
  | unreached {format : Format} (e : ClientError) : Received format (.error e) (.error e)
  | unread {format : Format} {reply : Bytes} {e : FormatError}
      (h : format.unmarshal (α := Response Report) reply = .error e) :
    Received format (.ok reply) (.error (.marshalling e))
  | uncoerced {reply : Bytes} {response : Response Report} {x : Binary64}
      {e : Binary64.DecimalError} (h : Format.json.unmarshal reply = .ok response)
      (hform : ∀ other, ¬ response.Alike Report.DecimalForm other) :
    Received .json (.ok reply) (.error (.coercion (.float x e)))
  | coerced {reply : Bytes} {response other : Response Report}
      (h : Format.json.unmarshal reply = .ok response)
      (hform : response.Alike Report.DecimalForm other) :
    Received .json (.ok reply) (.ok other)
  | decoded {reply : Bytes} {response : Response Report}
      (h : Format.msgpack.unmarshal reply = .ok response) :
    Received .msgpack (.ok reply) (.ok response)

variable {σ : Type}

structure Exchanges (c : Client σ) (e : Exchange) (s : σ) (call : Call σ (Response Report)) : Prop
    where
  sent : call.sent = [e]
  state : call.state = (c.transport.send e s).2
  outcome : Received c.format (c.transport.send e s).1 call.outcome

/-- A report that was read from JSON has no text to make a decimal of, so a float stops the pass. -/
theorem coerceResult_eq_error {reply : Bytes} {response : Response Report} {e : ClientError}
    (hread : Format.json.unmarshal reply = .ok response) (h : coerceResult response = .error e) :
    ∃ x e', e = .coercion (.float x e') := by
  rw [coerceResult] at h
  split at h
  · cases h
  · next report hreport =>
    split at h
    · cases h
    · next fault hfault =>
      cases h
      have hhalted := Report.halted_of_coerce (Coerced.result_eq_error hfault)
      obtain ⟨n, ⟨-, text, hn⟩, hfault⟩ :=
        hhalted.exists_number (Response.allValues_of_json hread hreport)
      have htext : ∀ t, n ≠ .text t := by
        rintro t rfl
        exact Number.ofLiteral_ne_text hn
      obtain ⟨d, hd⟩ | ⟨x, e, hd⟩ := Number.toDecimal_of_ne_text htext
      · cases hfault.symm.trans hd
      · cases hfault.symm.trans hd
        exact ⟨x, e, rfl⟩

theorem received_readEvaluation (format : Format) (reply : Bytes) :
    Received format (.ok reply) (readEvaluation format reply) := by
  cases hread : format.unmarshal (α := Response Report) reply with
  | error e =>
    rw [readEvaluation, hread]
    exact .unread hread
  | ok response =>
    cases format with
    | msgpack =>
      rw [readEvaluation, hread]
      exact .decoded hread
    | json =>
      cases hresult : readEvaluation .json reply with
      | ok other =>
        obtain ⟨received, hreceived, hform⟩ :=
          (readEvaluation_json_eq_ok_iff reply other).mp hresult
        exact .coerced hreceived hform
      | error e =>
        have hcoerce : coerceResult response = .error e := by
          rw [← hresult, readEvaluation, hread]
          rfl
        obtain ⟨x, e, rfl⟩ := coerceResult_eq_error hread hcoerce
        refine .uncoerced hread fun other hform => ?_
        rw [(readEvaluation_json_eq_ok_iff reply other).mpr ⟨response, hread, hform⟩] at hresult
        cases hresult

theorem exchanges_exchange (c : Client σ) (e : Exchange) (s : σ) :
    c.Exchanges e s (c.exchange e (readEvaluation c.format) s) where
  sent := rfl
  state := rfl
  outcome := by
    change Received c.format _ ((c.transport.send e s).1.bind (readEvaluation c.format))
    cases (c.transport.send e s).1 with
    | error e => exact .unreached e
    | ok reply => exact received_readEvaluation c.format reply

theorem ask_blank (c : Client σ) (id : String) {q : Query} (h : q.Blank) (s : σ) :
    ∃ text, c.ask id q s = refused (.invalidArgument text) s := by
  cases q with
  | byName _ _ text _ | byId _ _ text _ => exact ⟨_, if_pos (List.all_eq_true.mpr h)⟩
  | prepared | all | allIn => cases h

theorem ask_posted (c : Client σ) (id : String) {q : Query} (h : ¬ q.Blank) (s : σ) :
    ∃ e payload, c.format.marshal q.toRequest = .ok payload ∧ e.Posts id payload c.format
      ∧ c.Exchanges e s (c.ask id q s) := by
  obtain ⟨payload, hpayload⟩ := c.format.exists_marshal q.toRequest
  refine ⟨.evaluation id payload c.format, payload, hpayload, ⟨rfl, rfl, rfl, rfl⟩, ?_⟩
  rw [ask_eq c id (q.accepted_iff.mpr h), evaluate, hpayload]
  exact c.exchanges_exchange _ s

/-- Nothing is sent for a query exactly when it is blank, and then it is refused as it is. Any other
query is marshalled and posted to the container, once and whatever is replied. What the format brings
of it is read as a request for the same, unless it takes too many levels. -/
theorem ask_exchanges (c : Client σ) (id : String) (q : Query) (s : σ) :
    let call := c.ask id q s
    (call.sent = [] ↔ q.Blank)
    ∧ (q.Blank → (∃ text, call.outcome = .error (.invalidArgument text)) ∧ call.state = s)
    ∧ (¬ q.Blank → ∃ e payload, c.format.marshal q.toRequest = .ok payload
      ∧ e.Posts id payload c.format ∧ c.Exchanges e s call
      ∧ (q.toRequest.CarriedBy c.format → ∃ read, q.AskedBy read ∧ c.format.unmarshal payload
        = if q.toRequest.Shallow c.format.levels then .ok read else .error c.format.tooDeep)) := by
  intro call
  have hrefused : q.Blank → ∃ text, call = refused (.invalidArgument text) s :=
    fun hblank => c.ask_blank id hblank s
  refine ⟨⟨fun hsent => ?_, fun hblank => ?_⟩, fun hblank => ?_, fun hblank => ?_⟩
  · by_contra hblank
    obtain ⟨e, -, -, -, hexchanges⟩ := c.ask_posted id hblank s
    rw [hexchanges.sent] at hsent
    cases hsent
  · obtain ⟨text, hcall⟩ := hrefused hblank
    rw [hcall]
    rfl
  · obtain ⟨text, hcall⟩ := hrefused hblank
    rw [hcall]
    exact ⟨⟨text, rfl⟩, rfl⟩
  · obtain ⟨e, payload, hpayload, hposts, hexchanges⟩ := c.ask_posted id hblank s
    exact ⟨e, payload, hpayload, hposts, hexchanges, fun h => q.exists_read h hpayload⟩

end Client

end DecisionService
