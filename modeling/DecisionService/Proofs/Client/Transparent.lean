import Mathlib
import DecisionService.Proofs.Client.Formats
import DecisionService.Proofs.Engine.ByValue
/-!
# A client as a window on its service

Whatever a client asks through MessagePack, it gets the response that the service computes for the
request as it reads it: the same forms, the same bits, and decimals of the same value. Only a nesting
limit stands between them. A decision that tells equal decimals apart may notice that a decimal has
travelled, as zeros that its scale stands for become digits on the way.
-/
namespace DecisionService

inductive Query
  | prepared (r : Request)
  | all (context : Context)
  | allIn (modelNamespace? modelName? : Option String) (context : Context)
  | byName (modelNamespace? modelName? : Option String) (name : String) (context : Context)
  | byId (modelNamespace? modelName? : Option String) (id : String) (context : Context)

namespace Query

def toRequest : Query → Request
  | prepared r => r
  | all context => ⟨none, none, none, none, context⟩
  | allIn modelNamespace? modelName? context =>
    ⟨modelNamespace?, modelName?, none, none, context⟩
  | byName modelNamespace? modelName? name context =>
    ⟨modelNamespace?, modelName?, some [name], none, context⟩
  | byId modelNamespace? modelName? id context =>
    ⟨modelNamespace?, modelName?, none, some [id], context⟩

def Accepted : Query → Prop
  | byName _ _ text _ | byId _ _ text _ => Text.isBlankText text = false
  | prepared _ | all _ | allIn _ _ _ => True

end Query

/-- A decimal is what its own text is read as. -/
def Value.IsSettled : Value → Prop
  | number (.decimal d) => d.settled = d
  | _ => True

def Context.Settled (c : Context) : Prop :=
  ∀ e ∈ c.entries, e.2.Each Value.IsSettled

theorem Context.Settled.relay {c : Context} (h : c.Settled) (hc : c.WellFormed) :
    c.relay MessagePack.medium = c := by
  have hleaf : ∀ v : Value, v.IsSettled → v.Kept MessagePack.medium := by
    intro v hv
    cases v with
    | number n =>
      cases n with
      | decimal d => exact congrArg (fun d => Value.number (.decimal d)) hv
      | _ => rfl
    | set members => rfl
    | _ => trivial
  have hkept : (Value.object c.entries).Each (Value.Kept MessagePack.medium) :=
    ⟨trivial, (Value.eachOfEntries_iff _ _).mpr fun e he => (h e he).imp hleaf⟩
  have hobject := Value.WellFormed.relay_eq_self hc hkept
  rw [Value.relay, Value.object.injEq] at hobject
  exact congrArg Context.mk hobject

namespace Client

variable {σ : Type}

def ask (c : Client σ) (id : String) : Query → σ → Call σ (Response Report)
  | .prepared r => c.evaluate id r
  | .all context => c.evaluateAll id context
  | .allIn modelNamespace? modelName? context =>
    c.evaluateAllIn id modelNamespace? modelName? context
  | .byName modelNamespace? modelName? name context =>
    c.evaluateByName id modelNamespace? modelName? name context
  | .byId modelNamespace? modelName? decision context =>
    c.evaluateById id modelNamespace? modelName? decision context

theorem ask_eq (c : Client σ) (id : String) {q : Query} (h : q.Accepted) (s : σ) :
    c.ask id q s = c.evaluate id q.toRequest s := by
  cases q with
  | byName modelNamespace? modelName? name context =>
    rw [ask, evaluateByName, if_neg (Bool.eq_false_iff.mp h)]
    rfl
  | byId modelNamespace? modelName? decision context =>
    rw [ask, evaluateById, if_neg (Bool.eq_false_iff.mp h)]
    rfl
  | _ => rfl

/-- The call comes to a response that is alike. -/
def Sees (outcome : Except ClientError (Response Report)) (expected : Response Report) : Prop :=
  ∃ response, outcome = .ok response ∧ expected.Alike Report.Alike response

section Received

variable {r : Registry} {request : Request}

private def received (request : Request) : Request :=
  { request with context := request.context.relay MessagePack.medium }

private theorem sees_received (hr : r.Each Decision.WellFormed) (id : String)
    (hc : request.context.WellFormed) {outcome : Except ClientError (Response Report)}
    (h : outcome
      = .ok (Wire.Payload.relay MessagePack.medium (Service.respond r id (received request)))) :
    Sees outcome (Service.respond r id (received request))
      ∧ (r.Each Decision.SeesValues ∨ request.context.Settled →
        Sees outcome (Service.respond r id request)) := by
  have hcontext := MessagePack.alike_context hc
  have hrelayed : (Service.respond r id (received request)).Alike Report.Alike
      (Wire.Payload.relay MessagePack.medium (Service.respond r id (received request))) := by
    refine MessagePack.alike_response fun report hreport => MessagePack.alike_report ?_
    exact Service.respond_wellFormed hr id (hcontext.wellFormed hc) hreport
  refine ⟨⟨_, h, hrelayed⟩, ?_⟩
  rintro (hs | hsettled)
  · exact ⟨_, h, (Service.respond_alike hr hs id request hcontext hc).trans hrelayed⟩
  · have hsame : received request = request := by rw [received, hsettled.relay hc]
    rw [hsame] at h hrelayed
    exact ⟨_, h, hrelayed⟩

/-- A call stops at a limit, or comes to the response to the request that the service reads. -/
private theorem outcome_received (config : ClientConfig) (id : String)
    (hf : MessagePack.Fits request)
    (ha : ∀ payload, Format.msgpack.marshal request = .ok payload →
      MessagePack.Fits (Service.evaluate r id .msgpack payload)) :
    let outcome := ((connected config .msgpack r).evaluate id request ()).outcome
    StopsAtLimit id .msgpack outcome
        ∧ (Format.msgpack.levels < Wire.Payload.height request
          ∨ Format.msgpack.levels < Wire.Payload.height (Service.respond r id (received request)))
      ∨ outcome
        = .ok (Wire.Payload.relay MessagePack.medium (Service.respond r id (received request))) := by
  intro outcome
  have hconveys : Format.msgpack.Conveys request :=
    ⟨Request.conveys MessagePack.channel trivial, hf⟩
  obtain ⟨payload, hp, hu⟩ := hconveys.readsBack
  have hfits : Format.msgpack.Conveys (Service.evaluate r id .msgpack payload) :=
    Response.Readable.conveys (ha payload hp)
  cases hs : r.newSession id with
  | error e =>
    -- without a session the request is not even read
    have houtcome : outcome = _ :=
      outcome_failure hp (Service.evaluate_closed .msgpack payload hs) hfits
    rw [Service.respond_closed (received request) hs]
    exact Or.inr houtcome
  | ok s =>
    by_cases hdeep : Wire.Payload.height request ≤ Format.msgpack.levels
    swap
    · have hunread : Format.msgpack.unmarshal payload
          = (.error Format.msgpack.tooDeep : Except FormatError Request) := by
        rw [hu]
        exact if_neg hdeep
      have houtcome : outcome = _ :=
        outcome_failure hp (Service.evaluate_unread hs hunread) hfits
      rw [houtcome]
      exact Or.inl ⟨.request, Or.inl (Nat.lt_of_not_le hdeep)⟩
    have hread : Format.msgpack.unmarshal payload = .ok (received request) := by
      rw [hu, received, ← Request.relay_eq]
      exact if_pos hdeep
    have houtcome : outcome = _ := outcome_connected hp hfits
    rw [Service.evaluate_eq_respond hread] at houtcome
    by_cases hlevels : Wire.Payload.height (Service.respond r id (received request))
        ≤ Format.msgpack.levels
    · rw [if_pos hlevels] at houtcome
      exact Or.inr houtcome
    · rw [if_neg hlevels] at houtcome
      rw [houtcome]
      exact Or.inl ⟨.answer, Or.inr (Nat.lt_of_not_le hlevels)⟩

end Received

/-- Through MessagePack a client gets what the service responds to the request that it reads, which
is alike to the request that was asked. Where decisions see decimals by their value, or the decimals
of the request are written as they are read, this is the response to the request itself. -/
theorem ask_transparent (config : ClientConfig) {r : Registry} (hr : r.Each Decision.WellFormed)
    (id : String) {q : Query} (hq : q.Accepted) (hc : q.toRequest.context.WellFormed)
    (hf : MessagePack.Fits q.toRequest)
    (ha : ∀ payload, Format.msgpack.marshal q.toRequest = .ok payload →
      MessagePack.Fits (Service.evaluate r id .msgpack payload)) :
    let outcome := ((connected config .msgpack r).ask id q ()).outcome
    ∃ read, q.toRequest.Alike read
      ∧ (StopsAtLimit id .msgpack outcome
          ∧ (Format.msgpack.levels < Wire.Payload.height q.toRequest
            ∨ Format.msgpack.levels < Wire.Payload.height (Service.respond r id read))
        ∨ Sees outcome (Service.respond r id read)
          ∧ (r.Each Decision.SeesValues ∨ q.toRequest.context.Settled →
            Sees outcome (Service.respond r id q.toRequest))) := by
  intro outcome
  have hcall : outcome = ((connected config .msgpack r).evaluate id q.toRequest ()).outcome :=
    congrArg Call.outcome (ask_eq _ id hq ())
  have halike : q.toRequest.Alike (received q.toRequest) :=
    ⟨rfl, rfl, rfl, rfl, MessagePack.alike_context hc⟩
  refine ⟨received q.toRequest, halike, ?_⟩
  rw [hcall]
  exact (outcome_received config id hf ha).imp_right (sees_received hr id hc)

theorem each_registered {p : Decision → Prop} {d : Decision} (h : p d) :
    (Registry.empty.register (.deployed "c" [(Model.new "urn:1" "m").withDecision d])).Each p := by
  intro e he
  cases List.mem_singleton.mp he
  intro m hm d hd
  cases List.mem_singleton.mp hm
  cases List.mem_singleton.mp hd
  exact h

def doubled : Query :=
  .byName none (some "m") "a" ⟨[("x", .number (.decimal ⟨15, -2⟩))]⟩

theorem ask_transparent_doubled :
    Sees ((connected .standard .msgpack (Service.single (.double "x"))).ask "c" doubled ()).outcome
      (Service.respond (Service.single (.double "x")) "c" doubled.toRequest) := by
  have hwellFormed : (Service.single (.double "x")).Each Decision.WellFormed :=
    each_registered (Logic.wellFormed _ _ _ nofun)
  have hfits : (Format.msgpack.marshal doubled.toRequest).toOption.all (fun payload =>
      decide (MessagePack.Fits
        (Service.evaluate (Service.single (.double "x")) "c" .msgpack payload))) = true := by
    decide +kernel
  have haccepted : doubled.Accepted := (by decide : Text.isBlankText "a" = false)
  have hcontext : doubled.toRequest.context.WellFormed := ⟨List.nodup_singleton _, trivial, trivial⟩
  obtain ⟨read, -, ⟨hstops, -⟩ | ⟨-, hsees⟩⟩ := ask_transparent .standard hwellFormed "c"
    haccepted hcontext (by decide +kernel) fun payload hp => by
      rw [hp] at hfits
      exact of_decide_eq_true hfits
  · exact absurd hstops.not_succeeds (by decide +kernel)
  · exact hsees (Or.inl (each_registered (Logic.seesValues _ _ _ _)))

/-- The decision that counts the digits of the decimal `x`; it does not see decimals by their
value. -/
def countingDigits : Decision :=
  ⟨"id1", "a", [], fun c =>
    match c.get? "x" with
    | some (.number (.decimal d)) => .ok (.number (.int (Int64.ofNat d.precision)))
    | _ => .error "'x' is not a decimal"⟩

def counting : Registry :=
  Registry.empty.register (.deployed "c" [(Model.new "urn:1" "m").withDecision countingDigits])

def counted? (response : Response Report) : Option Number :=
  match response.result?.map Report.decisions with
  | some (d :: _) => d.result.number?
  | _ => none

theorem counted?_of_alike {a b : Response Report} {n : Int64} (h : a.Alike Report.Alike b)
    (ha : counted? a = some (.int n)) : counted? b = some (.int n) := by
  obtain ⟨-, -, hreports⟩ := h
  obtain ⟨_, _, report?⟩ := a
  obtain ⟨_, _, report'?⟩ := b
  cases hreports with
  | none => cases ha
  | @some report report' hreport =>
    obtain ⟨-, -, -, -, -, hdecisions⟩ := hreport
    obtain ⟨_, _, _, _, _, decisions⟩ := report
    obtain ⟨_, _, _, _, _, decisions'⟩ := report'
    cases hdecisions with
    | nil => cases ha
    | @cons d d' _ _ hfirst _ =>
      obtain ⟨-, -, hvalue, -⟩ := hfirst
      obtain ⟨_, _, v, _⟩ := d
      obtain ⟨_, _, w, _⟩ := d'
      cases v with
      | number m =>
        cases Option.some.inj ha
        obtain ⟨m, rfl, hm⟩ := Value.number_alike hvalue
        cases hm
        rfl
      | _ => cases ha

/-- A decision that counts digits tells the decimal that comes through from the one that was sent:
written out, it has two digits more. -/
theorem ask_counting :
    let outcome := ((connected .standard .msgpack counting).ask "c" doubled ()).outcome
    counting.Each Decision.WellFormed ∧ doubled.Accepted
    ∧ doubled.toRequest.context.WellFormed
    ∧ ¬ StopsAtLimit "c" .msgpack outcome
    ∧ ¬ Sees outcome (Service.respond counting "c" doubled.toRequest) := by
  intro outcome
  have hwellFormed : counting.Each Decision.WellFormed := by
    refine each_registered fun c v _ hv => ?_
    unfold countingDigits at hv
    dsimp only at hv
    split at hv <;> cases hv
    trivial
  refine ⟨hwellFormed, (by decide : Text.isBlankText "a" = false),
    ⟨List.nodup_singleton _, trivial, trivial⟩,
    fun hstops => absurd hstops.not_succeeds (by decide +kernel), ?_⟩
  rintro ⟨response, hresponse, halike⟩
  have hsent : counted? (Service.respond counting "c" doubled.toRequest) = some (.int 2) := by
    decide +kernel
  have hreceived : outcome.toOption.bind counted? = some (.int 4) := by decide +kernel
  rw [hresponse, Except.toOption, Option.bind_some, counted?_of_alike halike hsent] at hreceived
  cases hreceived

end Client

end DecisionService
