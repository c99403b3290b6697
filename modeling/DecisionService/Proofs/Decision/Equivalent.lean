import Mathlib
import DecisionService.Proofs.Decision.Payload
import DecisionService.Proofs.Value.Equivalent
/-!
# Reports that stand for the same

Plain contexts and reports, and when two of them are equivalent. Setting equivalent values under one
name keeps contexts equivalent, and equivalent plain reports are equal once they are coerced,
whatever faithful media they come through.
-/
namespace DecisionService

open Wire

namespace Value

theorem Plain.equivalent_self {v : Value} (h : v.Plain) : v.Equivalent v := by
  have hstill := h.relay_equivalent faithful_still faithful_still
  rwa [relay_still h.wellFormed] at hstill

end Value

namespace Context

structure Plain (c : Context) : Prop where
  nodup : c.entries.names.Nodup
  values : ∀ e ∈ c.entries, e.2.Plain

/-- Equal once every number is its canonical decimal. -/
def Equivalent (a b : Context) : Prop :=
  (a.relay Value.canonical).same (b.relay Value.canonical) = true

variable {a b c : Context}

theorem Plain.get? (h : c.Plain) {name : String} {v : Value} (hv : c.get? name = some v) :
    v.Plain :=
  h.values _ (Entries.mem_of_get? hv)

theorem Plain.set (h : c.Plain) (name : String) {v : Value} (hv : v.Plain) :
    (c.set name v).Plain where
  nodup := Entries.nodup_put v h.nodup
  values e he := by
    rcases Entries.mem_put he with rfl | he
    · exact hv
    · exact h.values e he

/-- Contexts are equivalent when every name holds equivalents in both, or nothing in both. -/
theorem equivalent_iff (ha : a.Plain) (hb : b.Plain) : a.Equivalent b ↔
    ∀ name, Option.Rel Value.Equivalent (a.get? name) (b.get? name) :=
  Value.equivalent_object_iff ha.nodup hb.nodup

theorem Plain.equivalent_self (h : c.Plain) : c.Equivalent c := by
  rw [equivalent_iff h h]
  intro name
  cases hv : c.get? name with
  | none => exact .none
  | some v => exact .some (h.get? hv).equivalent_self

theorem Equivalent.contains (h : a.Equivalent b) (ha : a.Plain) (hb : b.Plain) (name : String) :
    a.contains name = b.contains name := by
  have hrel := (equivalent_iff ha hb).mp h name
  change (a.get? name).isSome = (b.get? name).isSome
  generalize a.get? name = x, b.get? name = y at hrel
  cases hrel <;> rfl

theorem Equivalent.set (h : a.Equivalent b) (ha : a.Plain) (hb : b.Plain) (name : String)
    {v w : Value} (hvw : v.Equivalent w) (hv : v.Plain) (hw : w.Plain) :
    (a.set name v).Equivalent (b.set name w) := by
  rw [equivalent_iff (ha.set name hv) (hb.set name hw)]
  intro other
  by_cases hother : other = name
  · rw [hother, get?_set_self, get?_set_self]
    exact .some hvw
  · rw [get?_set_of_ne hother, get?_set_of_ne hother]
    exact (equivalent_iff ha hb).mp h other

theorem Plain.entries_relay (h : c.Plain) (m : Value.Medium) :
    (c.relay m).entries = Value.relayEntries m c.entries := by
  apply Entries.ofPairs_of_nodup
  rw [Value.names_relayEntries]
  exact h.nodup

theorem Plain.get?_relay (h : c.Plain) (m : Value.Medium) (name : String) :
    (c.relay m).get? name = (c.get? name).map (Value.relay m) := by
  rw [Context.get?, h.entries_relay, Value.get?_relayEntries]
  rfl

theorem Plain.relay {m : Value.Medium} (hm : m.Faithful) (h : c.Plain) : (c.relay m).Plain where
  nodup := by
    rw [h.entries_relay, Value.names_relayEntries]
    exact h.nodup
  values := by
    rw [h.entries_relay, Value.relayEntries_eq_map, List.forall_mem_map]
    exact fun e he => (h.values e he).relay hm

theorem Equivalent.relay {k l : Value.Medium} (hk : k.Faithful) (hl : l.Faithful)
    (h : a.Equivalent b) (ha : a.Plain) (hb : b.Plain) : (a.relay k).Equivalent (b.relay l) := by
  rw [equivalent_iff (ha.relay hk) (hb.relay hl)]
  intro name
  have hrel := (equivalent_iff ha hb).mp h name
  rw [ha.get?_relay, hb.get?_relay]
  generalize hx : a.get? name = x, hy : b.get? name = y at hrel ⊢
  cases hrel with
  | none => exact .none
  | some hvw => exact .some (hvw.relay hk hl (ha.get? hx) (hb.get? hy))

theorem Plain.coerce (h : c.Plain) : c.coerce = ⟨c.relay Value.canonical, none⟩ := by
  rw [Context.coerce, Value.coerceEntries_of_plain h.values, ← h.entries_relay]
  rfl

end Context

structure DecisionResult.Equivalent (a b : DecisionResult) : Prop where
  id : a.id = b.id
  name : a.name = b.name
  status : a.status = b.status
  result : a.result.Equivalent b.result

namespace Report

structure Plain (r : Report) : Prop where
  context : r.context.Plain
  results : ∀ d ∈ r.decisions, d.result.Plain

structure Equivalent (a b : Report) : Prop where
  modelNamespace : a.modelNamespace = b.modelNamespace
  modelName : a.modelName = b.modelName
  names : a.names? = b.names?
  messages : a.messages = b.messages
  context : a.context.Equivalent b.context
  decisions : List.Forall₂ DecisionResult.Equivalent a.decisions b.decisions

private theorem coerce_decisions {decisions : List DecisionResult}
    (h : ∀ d ∈ decisions, d.result.Plain) : Coerced.list DecisionResult.coerce decisions
      = ⟨decisions.map (DecisionResult.relay Value.canonical), none⟩ := by
  induction decisions with
  | nil => rfl
  | cons d rest ih =>
    have hd : d.coerce = ⟨d.relay Value.canonical, none⟩ := by
      rw [DecisionResult.coerce, (h d List.mem_cons_self).coerce]
      rfl
    rw [Coerced.list, hd, ih fun d hd => h d (List.mem_cons_of_mem _ hd)]
    rfl

theorem Plain.coerce {r : Report} (h : r.Plain) :
    r.coerce = ⟨Payload.relay Value.canonical r, none⟩ := by
  have hdecisions : Coerced.list DecisionResult.coerce r.decisions
      = ⟨r.decisions.map (DecisionResult.relay Value.canonical), none⟩ :=
    coerce_decisions h.results
  rw [Report.coerce, h.context.coerce, relay_eq]
  simp only [Coerced.pair, hdecisions, Coerced.map]

theorem Plain.relay {m : Value.Medium} (hm : m.Faithful) {r : Report} (h : r.Plain) :
    Plain (Payload.relay m r) := by
  rw [relay_eq]
  refine ⟨h.context.relay hm, ?_⟩
  rw [List.forall_mem_map]
  exact fun d hd => (h.results d hd).relay hm

private theorem relay_decisions {k l : Value.Medium} (hk : k.Faithful) (hl : l.Faithful)
    {as bs : List DecisionResult} (h : List.Forall₂ DecisionResult.Equivalent as bs)
    (ha : ∀ d ∈ as, d.result.Plain) (hb : ∀ d ∈ bs, d.result.Plain) :
    List.Forall₂ (fun a b => (a.relay k).Equivalent (b.relay l)) as bs := by
  induction h with
  | nil => exact .nil
  | cons hab _ ih =>
    have hresult := hab.result.relay hk hl (ha _ List.mem_cons_self) (hb _ List.mem_cons_self)
    refine .cons ⟨hab.id, hab.name, hab.status, hresult⟩ ?_
    exact ih (fun d hd => ha d (List.mem_cons_of_mem _ hd))
      fun d hd => hb d (List.mem_cons_of_mem _ hd)

theorem Equivalent.relay {k l : Value.Medium} (hk : k.Faithful) (hl : l.Faithful) {a b : Report}
    (h : a.Equivalent b) (ha : a.Plain) (hb : b.Plain) :
    Equivalent (Payload.relay k a) (Payload.relay l b) := by
  rw [relay_eq, relay_eq]
  refine ⟨h.modelNamespace, h.modelName, h.names, h.messages, h.context.relay hk hl ha.context
    hb.context, ?_⟩
  rw [List.forall₂_map_left_iff, List.forall₂_map_right_iff]
  exact relay_decisions hk hl h.decisions ha.results hb.results

private theorem same_decisions {as bs : List DecisionResult}
    (h : List.Forall₂ DecisionResult.Equivalent as bs) :
    sameDecisions (as.map (DecisionResult.relay Value.canonical))
      (bs.map (DecisionResult.relay Value.canonical)) = true := by
  induction h with
  | nil => rfl
  | cons hd _ ih =>
    obtain ⟨hid, hname, hstatus, hresult⟩ := hd
    rw [List.map_cons, List.map_cons, sameDecisions, ih, Bool.and_true]
    simp only [DecisionResult.same, DecisionResult.relay, hid, hname, hstatus, beq_self_eq_true,
      Bool.true_and, Bool.and_true]
    exact hresult

/-- Equivalent reports are the same once their numbers are decimals. -/
theorem Equivalent.same {a b : Report} (h : a.Equivalent b) :
    Report.same (Payload.relay Value.canonical a) (Payload.relay Value.canonical b) = true := by
  have hdecisions := same_decisions h.decisions
  rw [relay_eq, relay_eq]
  simp only [Report.same, h.modelNamespace, h.modelName, h.names, h.messages, beq_self_eq_true,
    Bool.true_and, Bool.and_true, hdecisions]
  exact h.context

end Report

end DecisionService
