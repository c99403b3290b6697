import Mathlib
import DecisionService.Engine.Logic
import DecisionService.Proofs.Engine.Compared
import DecisionService.Proofs.Value.Alike
import DecisionService.Proofs.Value.Distinct
/-!
# Decisions that see decimals by their value

A decision sees values when contexts that are alike have outcomes that are alike. A service of such
decisions responds alike to requests that are alike. All ready-made logic sees values.
-/
namespace DecisionService

/-- From a context in which each name stands once comes a value in which each name stands once. -/
def Decision.WellFormed (d : Decision) : Prop :=
  ∀ c v, Context.WellFormed c → d.logic c = .ok v → v.WellFormed

/-- Contexts that are alike have the same failure or values that are alike. -/
def Decision.SeesValues (d : Decision) : Prop :=
  ∀ a b, Context.WellFormed a → a.Alike b → Outcome.Rel Value.Alike (d.logic a) (d.logic b)

namespace Comparison

def wellFormed : Comparison where
  value v w := v = w ∧ v.WellFormed
  context a b := a = b ∧ a.WellFormed
  null := ⟨rfl, trivial⟩
  contains := by
    rintro a b ⟨rfl, -⟩ name
    rfl
  set := by
    rintro a b v w ⟨rfl, ha⟩ ⟨rfl, hv⟩ name
    exact ⟨rfl, ha.set name hv⟩

theorem keptBy_wellFormed {d : Decision} (hd : d.WellFormed) : wellFormed.KeptBy d := by
  rintro a b ⟨rfl, ha⟩
  cases hlogic : d.logic a with
  | error text => exact .error text
  | ok v => exact .ok ⟨rfl, hd a v ha hlogic⟩

def alike : Comparison where
  value v w := v.Alike w ∧ v.WellFormed
  context a b := a.Alike b ∧ a.WellFormed
  null := ⟨trivial, trivial⟩
  contains h := h.1.contains
  set h hv name := ⟨h.1.set name hv.1, h.2.set name hv.2⟩

theorem keptBy_alike {d : Decision} (hd : d.WellFormed) (hs : d.SeesValues) : alike.KeptBy d := by
  rintro a b ⟨h, ha⟩
  have hlogic := hs a b ha h
  generalize hx : d.logic a = x, d.logic b = y at hlogic ⊢
  cases hlogic with
  | error text => exact .error text
  | ok hvw => exact .ok ⟨hvw, hd a _ ha hx⟩

end Comparison

theorem Comparison.wellFormed_report {x y : Report} (h : Comparison.wellFormed.Reports x y) :
    x.WellFormed := by
  have hvalue : ∀ {v w}, Comparison.wellFormed.value v w → v.WellFormed ∧ w.WellFormed := by
    rintro v w ⟨rfl, hv⟩
    exact ⟨hv, hv⟩
  exact ⟨h.context.2, (Comparison.forall_results hvalue h.decisions).1⟩

theorem Comparison.alike_report {x y : Report} (h : Comparison.alike.Reports x y) : x.Alike y :=
  ⟨h.modelNamespace, h.modelName, h.names, h.context.1, h.messages,
    h.decisions.imp fun _ _ hd => ⟨hd.id, hd.name, hd.value.1, hd.status⟩⟩

namespace Service

variable {r : Registry}

theorem respond_wellFormed (hr : r.Each Decision.WellFormed) (id : String) {request : Request}
    (hc : request.context.WellFormed) {report : Report}
    (h : (respond r id request).result? = some report) : report.WellFormed := by
  have hkept : r.Each Comparison.wellFormed.KeptBy :=
    hr.imp fun _ => Comparison.keptBy_wellFormed
  have hresponses : Comparison.wellFormed.Responses (respond r id request) (respond r id request) :=
    Comparison.respond_compared hkept id request ⟨rfl, hc⟩
  generalize respond r id request = response at h hresponses
  cases hresponses with
  | failure text => cases h
  | success text hreports =>
    cases h
    exact Comparison.wellFormed_report hreports

/-- Requests with contexts that are alike get responses that are alike. -/
theorem respond_alike (hr : r.Each Decision.WellFormed) (hs : r.Each Decision.SeesValues)
    (id : String) (request : Request) {c c' : Context} (h : c.Alike c') (hc : c.WellFormed) :
    (respond r id { request with context := c }).Alike Report.Alike
      (respond r id { request with context := c' }) := by
  have hkept : r.Each Comparison.alike.KeptBy :=
    (hr.and hs).imp fun _ hd => Comparison.keptBy_alike hd.1 hd.2
  have hresponses := Comparison.respond_compared hkept id request ⟨h, hc⟩
  generalize respond r id { request with context := c } = x,
    respond r id { request with context := c' } = y at hresponses ⊢
  cases hresponses with
  | failure text => exact ⟨rfl, rfl, .none⟩
  | success text hreports => exact ⟨rfl, rfl, .some (Comparison.alike_report hreports)⟩

end Service

namespace Logic

variable {a b : Context}

theorem decimal_alike (h : a.Alike b) (name : String) :
    Outcome.Rel (fun x y => x.toRat = y.toRat) (decimal a name) (decimal b name) := by
  have hget := h.get? name
  unfold decimal
  generalize a.get? name = x, b.get? name = y at hget
  cases hget with
  | none => exact .error _
  | @some v w hvw =>
    simp only [Option.map_some]
    cases v with
    | number m =>
      obtain ⟨n, rfl, hmn⟩ := Value.number_alike hvw
      cases hmn with
      | exact =>
        match (Value.number m).decimal? with
        | .error _ | .ok none => exact .error _
        | .ok (some d) => exact .ok rfl
      | decimal hxy => exact .ok ((Decimal.same_iff _ _).mp hxy)
    | _ =>
      cases w <;> first | exact .error _ | cases hvw

theorem text?_alike (h : a.Alike b) (name : String) : text? a name = text? b name := by
  have hget := h.get? name
  unfold text?
  generalize a.get? name = x, b.get? name = y at hget
  cases hget with
  | none => rfl
  | @some v w hvw =>
    cases v with
    | string s => rw [Value.string_alike hvw]
    | _ => cases w <;> first | rfl | cases hvw

private theorem alike_value {x y : Decimal} (h : x.toRat = y.toRat) : (value x).Alike (value y) :=
  .decimal ((Decimal.same_iff x y).mpr h)

private theorem toRat_sum {xs ys : List Decimal}
    (h : List.Forall₂ (fun x y => x.toRat = y.toRat) xs ys) {x y : Decimal}
    (hxy : x.toRat = y.toRat) : (xs.foldl Decimal.add x).toRat = (ys.foldl Decimal.add y).toRat := by
  induction h generalizing x y with
  | nil => exact hxy
  | @cons u v _ _ huv _ ih =>
    apply ih
    rw [Decimal.toRat_add, Decimal.toRat_add, hxy, huv]

/-- Ready-made logic sees values. -/
theorem seesValues (id name : String) (requires : List String) (logic : Logic) :
    (decision id name requires logic).SeesValues := by
  intro a b ha h
  change Outcome.Rel Value.Alike (logic.run a) (logic.run b)
  cases logic with
  | const v => exact .ok (Value.alike_refl v)
  | fail text => exact .error text
  | copy name =>
    have hget := h.get? name
    simp only [run]
    generalize a.get? name = x, b.get? name = y at hget
    cases hget with
    | none => exact .error _
    | some hvw => exact .ok hvw
  | sum names =>
    refine (Outcome.Rel.mapM fun name _ => decimal_alike h name).bind fun xs ys hxs => ?_
    exact .ok (alike_value (toRat_sum hxs rfl))
  | double name =>
    refine (decimal_alike h name).bind fun x y hxy => ?_
    refine .ok (alike_value ?_)
    rw [Decimal.toRat_times, Decimal.toRat_times, hxy]
  | math =>
    refine (decimal_alike h "a").bind fun x y hxy => ?_
    refine (decimal_alike h "b").bind fun u v huv => ?_
    refine .ok ⟨rfl, alike_value ?_, trivial⟩
    rw [Decimal.toRat_add, Decimal.toRat_add, hxy, huv]
  | greet name =>
    simp only [run, text?_alike h name]
    exact .ok (Value.alike_refl _)
  | upper name =>
    simp only [run, text?_alike h name]
    cases text? b name with
    | none => exact .error _
    | some t => exact .ok (Value.alike_refl _)
  | size =>
    have hsize : a.size = b.size := ((Value.alikeEntries_iff _ _).mp h).length_eq
    simp only [run, hsize]
    exact .ok (Value.alike_refl _)
  | collect names =>
    have hitems : List.Forall₂ Value.Alike (names.filterMap a.get?) (names.filterMap b.get?) := by
      refine List.rel_filterMap (R := Eq) (fun name other hname => ?_) (List.forall₂_refl names)
      rw [hname]
      exact h.get? other
    exact .ok ((Value.alikeList_iff _ _).mpr (Value.distinct_alike hitems))

theorem wellFormed (id name : String) (requires : List String) {logic : Logic}
    (h : ∀ v, logic = .const v → v.WellFormed) : (decision id name requires logic).WellFormed := by
  intro c v hc hv
  change logic.run c = .ok v at hv
  cases logic with
  | const w =>
    cases hv
    exact h v rfl
  | fail text => cases hv
  | copy name =>
    rw [run] at hv
    split at hv
    · next w hget =>
      cases hv
      exact hc.get? hget
    · cases hv
  | sum names =>
    obtain ⟨ds, -, hds⟩ := Outcome.bind_eq_ok.mp hv
    cases hds
    trivial
  | double name =>
    obtain ⟨d, -, hd⟩ := Outcome.bind_eq_ok.mp hv
    cases hd
    trivial
  | math =>
    obtain ⟨x, -, hv⟩ := Outcome.bind_eq_ok.mp hv
    obtain ⟨y, -, hv⟩ := Outcome.bind_eq_ok.mp hv
    cases hv
    exact ⟨List.nodup_singleton _, trivial, trivial⟩
  | greet name =>
    cases hv
    trivial
  | upper name =>
    rw [run] at hv
    split at hv
    · cases hv
      trivial
    · cases hv
  | size =>
    cases hv
    trivial
  | collect names =>
    cases hv
    refine ⟨trivial, (Value.eachOfList_iff _ _).mpr fun v hmem => ?_⟩
    obtain ⟨name, -, hget⟩ := List.mem_filterMap.mp ((Value.distinct_spec _).1 v hmem)
    exact hc.get? hget

end Logic

end DecisionService
