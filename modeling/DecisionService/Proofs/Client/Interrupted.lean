import Mathlib
import DecisionService.Proofs.Value.Coercion
/-!
# Passes that stop

Coercion works on what it is given and stops at the first number without a decimal. What it has
visited before is coerced, the number it stops at and all that it would have visited later are as
they were, and every container keeps its shape. Of a set in which it stops it is only said that a
set is left.
-/
namespace DecisionService

/-- A pass over a list that stopped: the members before are done, at one the pass stopped, and the
rest is as it was. -/
inductive Interrupted {α : Type} (done stopped : α → α → Prop) : List α → List α → Prop
  | here {a b : α} {rest : List α} (h : stopped a b) :
    Interrupted done stopped (a :: rest) (b :: rest)
  | later {a b : α} {as bs : List α} (h : done a b) (hrest : Interrupted done stopped as bs) :
    Interrupted done stopped (a :: as) (b :: bs)

theorem Interrupted.imp_of_mem {α : Type} {done done' stopped stopped' : α → α → Prop}
    {as bs : List α} (hdone : ∀ a ∈ as, ∀ b, done a b → done' a b)
    (hstopped : ∀ a ∈ as, ∀ b, stopped a b → stopped' a b) (h : Interrupted done stopped as bs) :
    Interrupted done' stopped' as bs := by
  induction h with
  | here h => exact .here (hstopped _ List.mem_cons_self _ h)
  | later h _ ih =>
    obtain ⟨hd, hds⟩ := List.forall_mem_cons.mp hdone
    obtain ⟨-, hss⟩ := List.forall_mem_cons.mp hstopped
    exact .later (hd _ h) (ih hds hss)

theorem Interrupted.exists_stopped {α : Type} {done stopped : α → α → Prop} {as bs : List α}
    (h : Interrupted done stopped as bs) : ∃ a ∈ as, ∃ b, stopped a b := by
  induction h with
  | here h => exact ⟨_, List.mem_cons_self, _, h⟩
  | later _ _ ih =>
    obtain ⟨a, ha, b, hb⟩ := ih
    exact ⟨a, List.mem_cons_of_mem _ ha, b, hb⟩

theorem Interrupted.entries {done stopped : Value → Value → Prop} {as bs : Entries Value}
    (h : Interrupted (fun a b => a.1 = b.1 ∧ done a.2 b.2) (fun a b => a.1 = b.1 ∧ stopped a.2 b.2)
      as bs) :
    as.names = bs.names ∧ Interrupted done stopped (as.map Prod.snd) (bs.map Prod.snd) := by
  induction h with
  | here h => exact ⟨by simp [Entries.names, h.1], .here h.2⟩
  | later h _ ih =>
    refine ⟨?_, .later h.2 ih.2⟩
    simpa [Entries.names, h.1] using ih.1

namespace Coerced

variable {α β : Type}

theorem result_eq_error {c : Coerced α} {e : NumberError} (h : c.result = .error e) :
    c = ⟨c.left, some e⟩ := by
  obtain ⟨left, _ | e'⟩ := c <;> cases h
  rfl

theorem interrupted_of_list {coerce : α → Coerced α} {items left : List α} {e : NumberError}
    (h : list coerce items = ⟨left, some e⟩) :
    Interrupted (fun a b => coerce a = ⟨b, none⟩) (fun a b => coerce a = ⟨b, some e⟩) items left := by
  induction items generalizing left with
  | nil => cases h
  | cons a rest ih =>
    rw [list] at h
    generalize ha : coerce a = c at h
    obtain ⟨b, _ | e'⟩ := c
    · obtain ⟨others, hothers, rfl⟩ := map_eq_iff.mp h
      exact .later ha (ih hothers)
    · cases h
      exact .here ha

theorem pair_eq_some {first : Coerced α} {second : β} {coerce : β → Coerced β} {a : α} {b : β}
    {e : NumberError} (h : first.pair second coerce = ⟨(a, b), some e⟩) :
    first = ⟨a, some e⟩ ∧ second = b ∨ first = ⟨a, none⟩ ∧ coerce second = ⟨b, some e⟩ := by
  obtain ⟨left, _ | e'⟩ := first
  · obtain ⟨c, hc, heq⟩ := map_eq_iff.mp h
    cases heq
    exact Or.inr ⟨rfl, hc⟩
  · cases h
    exact Or.inl ⟨rfl, rfl⟩

end Coerced

namespace Value

/-- A pass over the first value stopped at a number with that fault and left the second. -/
inductive Halted (e : NumberError) : Value → Value → Prop
  | number {n : Number} (h : n.toDecimal = .error e) : Halted e (number n) (number n)
  | array {items left : List Value} (h : Interrupted CoercesTo (Halted e) items left) :
    Halted e (array items) (array left)
  /-- Of the members nothing is said. -/
  | set {members others left : List Value} (h : Interrupted CoercesTo (Halted e) members others) :
    Halted e (set members) (set left)
  | object {entries left : Entries Value} (hnames : entries.names = left.names)
      (h : Interrupted CoercesTo (Halted e) (entries.map Prod.snd) (left.map Prod.snd)) :
    Halted e (object entries) (object left)

theorem number_coerce_eq_some {n m : Number} {e : NumberError} (h : n.coerce = ⟨m, some e⟩) :
    n.toDecimal = .error e ∧ n = m := by
  rw [Number.coerce] at h
  cases hd : n.toDecimal with
  | ok d =>
    rw [hd] at h
    cases h
  | error e' =>
    rw [hd] at h
    cases h
    exact ⟨rfl, rfl⟩

private theorem interrupted_of_coerceList {items left : List Value} {e : NumberError}
    (ih : ∀ v ∈ items, ∀ w, v.coerce = ⟨w, some e⟩ → v.Halted e w)
    (h : coerceList items = ⟨left, some e⟩) : Interrupted CoercesTo (Halted e) items left := by
  rw [coerceList_eq_list] at h
  exact (Coerced.interrupted_of_list h).imp_of_mem (fun v _ w => coerce_eq_iff.mp) ih

private theorem interrupted_of_coerceEntries {entries left : Entries Value} {e : NumberError}
    (ih : ∀ entry ∈ entries, ∀ w, entry.2.coerce = ⟨w, some e⟩ → entry.2.Halted e w)
    (h : coerceEntries entries = ⟨left, some e⟩) : entries.names = left.names
      ∧ Interrupted CoercesTo (Halted e) (entries.map Prod.snd) (left.map Prod.snd) := by
  rw [coerceEntries_eq_list] at h
  refine ((Coerced.interrupted_of_list h).imp_of_mem (fun entry _ left hleft => ?_)
    fun entry hmem left hleft => ?_).entries
  · obtain ⟨hname, hvalue⟩ := coerceEntry_eq_none_iff.mp hleft
    exact ⟨hname, coerce_eq_iff.mp hvalue⟩
  · obtain ⟨w, hw, rfl⟩ := Coerced.map_eq_iff.mp hleft
    exact ⟨rfl, ih entry hmem w hw⟩

/-- Where coercion stops, it leaves what belongs to its stopping there. -/
theorem halted_of_coerce {v w : Value} {e : NumberError} (h : v.coerce = ⟨w, some e⟩) :
    v.Halted e w := by
  induction v using Value.induction generalizing w with
  | null | bool | string => cases h
  | number n =>
    obtain ⟨m, hm, rfl⟩ := Coerced.map_eq_iff.mp h
    obtain ⟨hd, rfl⟩ := number_coerce_eq_some hm
    exact .number hd
  | array items ih =>
    obtain ⟨left, hleft, rfl⟩ := Coerced.map_eq_iff.mp h
    exact .array (interrupted_of_coerceList (fun v hv w => ih v hv) hleft)
  | set members ih =>
    rw [coerce] at h
    generalize hc : coerceList members = c at h
    obtain ⟨left, _ | e'⟩ := c
    · cases h
    · cases h
      exact .set (interrupted_of_coerceList (fun v hv w => ih v hv) hc)
  | object entries ih =>
    obtain ⟨left, hleft, rfl⟩ := Coerced.map_eq_iff.mp h
    obtain ⟨hnames, hvalues⟩ := interrupted_of_coerceEntries (fun e he w => ih e he) hleft
    exact .object hnames hvalues

theorem Halted.exists_number {p : Value → Prop} {v w : Value} {e : NumberError} (hv : v.Each p)
    (h : v.Halted e w) : ∃ n : Number, p (.number n) ∧ n.toDecimal = .error e := by
  induction v using Value.induction generalizing w with
  | null | bool | string => cases h
  | number n =>
    cases h with
    | number hn => exact ⟨n, hv, hn⟩
  | array items ih | set items ih =>
    cases h
    next h =>
      obtain ⟨v, hmem, left, hleft⟩ := h.exists_stopped
      exact ih v hmem ((eachOfList_iff _ _).mp hv.2 v hmem) hleft
  | object entries ih =>
    cases h with
    | object _ h =>
      obtain ⟨_, hmem, left, hleft⟩ := h.exists_stopped
      obtain ⟨entry, hentry, rfl⟩ := List.mem_map.mp hmem
      exact ih entry hentry ((eachOfEntries_iff _ _).mp hv.2 entry hentry) hleft

end Value

/-! ## Contexts and reports -/

namespace Context

def CoercesTo (a b : Context) : Prop :=
  (Value.object a.entries).CoercesTo (.object b.entries)

def Halted (e : NumberError) (a b : Context) : Prop :=
  (Value.object a.entries).Halted e (.object b.entries)

theorem object_coerce {a b : Context} {fault? : Option NumberError} (h : a.coerce = ⟨b, fault?⟩) :
    (Value.object a.entries).coerce = ⟨.object b.entries, fault?⟩ := by
  rw [coerce] at h
  rw [Value.coerce]
  generalize Value.coerceEntries a.entries = c at h
  cases h
  rfl

theorem halted_of_coerce {a b : Context} {e : NumberError} (h : a.coerce = ⟨b, some e⟩) :
    a.Halted e b :=
  Value.halted_of_coerce (object_coerce h)

end Context

structure DecisionResult.Over (r : Value → Value → Prop) (a b : DecisionResult) : Prop where
  id : a.id = b.id
  name : a.name = b.name
  result : r a.result b.result
  status : a.status = b.status

/-- A pass over the first report stopped and left the second: it stopped in the context, or behind
it at a decision. -/
inductive Report.Halted (e : NumberError) : Report → Report → Prop
  | context {r : Report} {left : Context} (h : r.context.Halted e left) :
    Halted e r { r with context := left }
  | decisions {r : Report} {context : Context} {left : List DecisionResult}
      (hcontext : r.context.CoercesTo context)
      (h : Interrupted (DecisionResult.Over Value.CoercesTo) (DecisionResult.Over (Value.Halted e))
        r.decisions left) :
    Halted e r { r with context := context, decisions := left }

theorem Report.halted_of_coerce {a b : Report} {e : NumberError} (h : a.coerce = ⟨b, some e⟩) :
    a.Halted e b := by
  obtain ⟨⟨context, decisions⟩, hpair, rfl⟩ := Coerced.map_eq_iff.mp h
  rcases Coerced.pair_eq_some hpair with ⟨hcontext, rfl⟩ | ⟨hcontext, hdecisions⟩
  · exact .context (Context.halted_of_coerce hcontext)
  · refine .decisions (Value.coerce_eq_iff.mp (Context.object_coerce hcontext)) ?_
    refine (Coerced.interrupted_of_list hdecisions).imp_of_mem (fun d _ left hleft => ?_)
      fun d _ left hleft => ?_
    · obtain ⟨v, hv, rfl⟩ := Coerced.map_eq_iff.mp hleft
      exact ⟨rfl, rfl, Value.coerce_eq_iff.mp hv, rfl⟩
    · obtain ⟨v, hv, rfl⟩ := Coerced.map_eq_iff.mp hleft
      exact ⟨rfl, rfl, Value.halted_of_coerce hv, rfl⟩

/-- A pass that stops, over a value, a context or a report, leaves what is before the number it
stops at coerced and all else as it was. -/
theorem coerce_interrupted (e : NumberError) :
    (∀ v : Value, v.coerce.result = .error e → v.Halted e v.coerce.left)
    ∧ (∀ c : Context, c.coerce.result = .error e → c.Halted e c.coerce.left)
    ∧ ∀ r : Report, r.coerce.result = .error e → r.Halted e r.coerce.left :=
  ⟨fun _ h => Value.halted_of_coerce (Coerced.result_eq_error h),
    fun _ h => Context.halted_of_coerce (Coerced.result_eq_error h),
    fun _ h => Report.halted_of_coerce (Coerced.result_eq_error h)⟩

def broken : Value :=
  .array [.number (.int 1), .number (.float .nan), .number (.int 2)]

def brokenReport : Report :=
  ⟨"urn:1", "m", none, ⟨[("total", .number (.int 5))]⟩, [], [⟨"1", "first", broken, .succeeded⟩,
    ⟨"2", "second", .number (.int 3), .succeeded⟩]⟩

theorem coerce_interrupted_broken :
    let e := NumberError.float .nan .notANumber
    let left := Value.array [.number (.decimal ⟨1, 0⟩), .number (.float .nan), .number (.int 2)]
    broken.Halted e left ∧ (⟨[("x", broken)]⟩ : Context).Halted e ⟨[("x", left)]⟩
    ∧ brokenReport.Halted e { brokenReport with
      context := ⟨[("total", .number (.decimal ⟨5, 0⟩))]⟩
      decisions := [⟨"1", "first", left, .succeeded⟩,
        ⟨"2", "second", .number (.int 3), .succeeded⟩] } := by
  intro e left
  obtain ⟨hvalue, hcontext, hreport⟩ := coerce_interrupted e
  exact ⟨hvalue broken rfl, hcontext ⟨[("x", broken)]⟩ rfl, hreport brokenReport rfl⟩

/-- The number before the one it stops at is a decimal when coercion fails. -/
theorem failed_coercion_changes :
    let v := Value.array [.number (.int 1), .number (.float .nan)]
    v.coerce.result = .error (.float .nan .notANumber)
    ∧ v.coerce.left = .array [.number (.decimal ⟨1, 0⟩), .number (.float .nan)]
    ∧ v.coerce.left ≠ v := by
  refine ⟨rfl, rfl, fun h => ?_⟩
  cases h

end DecisionService
