import Mathlib
import DecisionService.Engine.Logic
import DecisionService.Proofs.Engine.Run
/-!
# The order of a run

A decision is local when its logic sees of a context only what the decision requires. Local
decisions of which neither requires the other give the same in either order. So two orders of the
same look-ups come to the same if every decision that requires another stands on the same side of it
in both.
-/
namespace DecisionService

namespace Decision

/-- Contexts that agree on what the decision requires have the same outcome. -/
def IsLocal (d : Decision) : Prop :=
  ∀ c c' : Context, (∀ name ∈ d.requires, c.get? name = c'.get? name) → d.logic c = d.logic c'

def Dependent (d e : Decision) : Prop :=
  e.name ∈ d.requires ∨ d.name ∈ e.requires

end Decision

/-- The entries that the logic reads are among the names. What counts all entries reads more. -/
def Logic.ReadsOnly (names : List String) : Logic → Prop
  | .const _ | .fail _ => True
  | .copy name | .double name | .greet name | .upper name => name ∈ names
  | .sum read | .collect read => ∀ name ∈ read, name ∈ names
  | .math => "a" ∈ names ∧ "b" ∈ names
  | .size => False

private theorem mapM_congr {f g : String → Except String Decimal} {names : List String}
    (h : ∀ name ∈ names, f name = g name) : names.mapM f = names.mapM g := by
  induction names with
  | nil => rfl
  | cons name rest ih =>
    obtain ⟨hname, hrest⟩ := List.forall_mem_cons.mp h
    rw [List.mapM_cons, List.mapM_cons, hname, ih hrest]

theorem Logic.isLocal {requires : List String} {logic : Logic} (h : logic.ReadsOnly requires)
    (id name : String) : (Logic.decision id name requires logic).IsLocal := by
  intro c c' hagree
  have hdecimal : ∀ name ∈ requires, decimal c name = decimal c' name := by
    intro name hname
    simp only [decimal, hagree name hname]
  have htext : ∀ name ∈ requires, text? c name = text? c' name := by
    intro name hname
    simp only [text?, hagree name hname]
  change logic.run c = logic.run c'
  cases logic with
  | const v => rfl
  | fail text => rfl
  | copy name => simp only [run, hagree name h]
  | double name => simp only [run, hdecimal name h]
  | greet name => simp only [run, htext name h]
  | upper name => simp only [run, htext name h]
  | math => simp only [run, mathObject, hdecimal "a" h.1, hdecimal "b" h.2]
  | size => cases h
  | sum read =>
    have hread : read.mapM (decimal c) = read.mapM (decimal c') :=
      mapM_congr fun name hname => hdecimal name (h name hname)
    simp only [run, hread]
  | collect read =>
    have hread : read.filterMap c.get? = read.filterMap c'.get? :=
      List.filterMap_congr fun name hname => hagree name (h name hname)
    rw [run, run, hread]

namespace Run

def FindsLocal (m : Model) (lookups : List Lookup) : Prop :=
  ∀ l ∈ lookups, ∀ d, m.find? l = some d → d.IsLocal

/-- The same look-ups in an order in which two of them keep theirs if the decision of one requires
that of the other. -/
structure Rearranged (m : Model) (lookups lookups' : List Lookup) : Prop where
  perm : lookups.Perm lookups'
  keeps : ∀ k l d e, m.find? k = some d → m.find? l = some e → d.Dependent e →
    [k, l].Sublist lookups → [k, l].Sublist lookups'

structure Agree (a b : Run) : Prop where
  context : ∀ name, a.evaluation.context.get? name = b.evaluation.context.get? name
  unavailable : ∀ name, name ∈ a.unavailable ↔ name ∈ b.unavailable
  decisions : a.evaluation.decisions.Perm b.evaluation.decisions
  messages : a.evaluation.messages.Perm b.evaluation.messages

namespace Agree

variable {a b c : Run}

theorem refl (a : Run) : Agree a a :=
  ⟨fun _ => rfl, fun _ => Iff.rfl, List.Perm.refl _, List.Perm.refl _⟩

theorem symm (h : Agree a b) : Agree b a :=
  ⟨fun name => (h.context name).symm, fun name => (h.unavailable name).symm, h.decisions.symm,
    h.messages.symm⟩

theorem trans (h : Agree a b) (h' : Agree b c) : Agree a c :=
  ⟨fun name => (h.context name).trans (h'.context name),
    fun name => (h.unavailable name).trans (h'.unavailable name), h.decisions.trans h'.decisions,
    h.messages.trans h'.messages⟩

end Agree

section Evaluate

variable (r : Run) (d : Decision)

theorem get?_evaluate (name : String) :
    (r.evaluate d).evaluation.context.get? name
      = if name = d.name then some (r.outcome d).value else r.evaluation.context.get? name := by
  simp only [evaluate]
  by_cases hname : name = d.name
  · rw [if_pos hname, hname]
    exact Context.get?_set_self d.name _ _
  · rw [if_neg hname]
    exact Context.get?_set_of_ne hname _ _

theorem mem_unavailable_evaluate (name : String) :
    name ∈ (r.evaluate d).unavailable
      ↔ name = d.name ∧ (r.outcome d).status ≠ .succeeded ∨ name ∈ r.unavailable := by
  simp only [evaluate]
  by_cases hs : (r.outcome d).status = .succeeded <;> simp [hs]

theorem decisions_evaluate :
    (r.evaluate d).evaluation.decisions = r.evaluation.decisions ++ [r.resultOf d] := rfl

theorem messages_evaluate :
    (r.evaluate d).evaluation.messages = r.evaluation.messages ++ (r.outcome d).messages := rfl

end Evaluate

/-- What a local decision comes to is decided by what it requires. -/
theorem outcome_congr {a b : Run} {d : Decision} (hd : d.IsLocal)
    (hcontext : ∀ name ∈ d.requires,
      a.evaluation.context.get? name = b.evaluation.context.get? name)
    (hunavailable : ∀ name ∈ d.requires, name ∈ a.unavailable ↔ name ∈ b.unavailable) :
    a.outcome d = b.outcome d := by
  have hmissing : a.missing d = b.missing d := by
    apply List.filter_congr
    intro name hname
    have hget : a.evaluation.context.contains name = b.evaluation.context.contains name :=
      congrArg Option.isSome (hcontext name hname)
    have hin : a.unavailable.contains name = b.unavailable.contains name := by
      rw [Bool.eq_iff_iff]
      simpa using hunavailable name hname
    rw [hget, hin]
  have hlogic : d.logic a.evaluation.context = d.logic b.evaluation.context := hd _ _ hcontext
  simp only [outcome, hmissing, hlogic]

theorem Agree.outcome {a b : Run} (h : Agree a b) {d : Decision} (hd : d.IsLocal) :
    a.outcome d = b.outcome d :=
  outcome_congr hd (fun name _ => h.context name) fun name _ => h.unavailable name

theorem Agree.evaluate {a b : Run} (h : Agree a b) {d : Decision} (hd : d.IsLocal) :
    Agree (a.evaluate d) (b.evaluate d) := by
  have houtcome := h.outcome hd
  refine ⟨fun name => ?_, fun name => ?_, ?_, ?_⟩
  · rw [get?_evaluate, get?_evaluate, houtcome, h.context]
  · rw [mem_unavailable_evaluate, mem_unavailable_evaluate, houtcome, h.unavailable]
  · rw [decisions_evaluate, decisions_evaluate, resultOf, resultOf, houtcome]
    exact h.decisions.append_right _
  · rw [messages_evaluate, messages_evaluate, houtcome]
    exact h.messages.append_right _

/-- A local decision does not notice one before it that it does not require. -/
theorem outcome_evaluate (r : Run) {d e : Decision} (he : e.IsLocal) (hd : d.name ∉ e.requires) :
    (r.evaluate d).outcome e = r.outcome e := by
  apply outcome_congr he
  · intro name hname
    rw [get?_evaluate, if_neg]
    rintro rfl
    exact hd hname
  · intro name hname
    rw [mem_unavailable_evaluate, or_iff_right]
    rintro ⟨rfl, -⟩
    exact hd hname

theorem evaluate_comm (r : Run) {d e : Decision} (hd : d.IsLocal) (he : e.IsLocal)
    (hname : d.name ≠ e.name) (hfree : ¬ d.Dependent e) :
    Agree ((r.evaluate d).evaluate e) ((r.evaluate e).evaluate d) := by
  obtain ⟨hde, hed⟩ := not_or.mp hfree
  have hsecond : (r.evaluate d).outcome e = r.outcome e := outcome_evaluate r he hed
  have hfirst : (r.evaluate e).outcome d = r.outcome d := outcome_evaluate r hd hde
  refine ⟨fun name => ?_, fun name => ?_, ?_, ?_⟩
  · simp only [get?_evaluate, hsecond, hfirst]
    by_cases h : name = d.name
    · have hne : name ≠ e.name := fun heq => hname (h.symm.trans heq)
      rw [if_neg hne, if_pos h, if_pos h]
    · rw [if_neg h, if_neg h]
  · simp only [mem_unavailable_evaluate, hsecond, hfirst]
    exact or_left_comm
  · simp only [decisions_evaluate, resultOf, hsecond, hfirst, List.append_assoc]
    exact List.perm_append_comm.append_left _
  · simp only [messages_evaluate, hsecond, hfirst, List.append_assoc]
    exact List.perm_append_comm.append_left _

section Steps

variable {m : Model} {modelName : String}

theorem Agree.step {a b : Run} (h : Agree a b) {l : Lookup}
    (hl : ∀ d, m.find? l = some d → d.IsLocal) :
    Agree (step m modelName a l) (step m modelName b l) := by
  unfold Run.step
  cases hfind : m.find? l with
  | some d => exact h.evaluate (hl d hfind)
  | none => exact ⟨h.context, h.unavailable, h.decisions, h.messages.append_right _⟩

theorem Agree.steps {a b : Run} (h : Agree a b) {lookups : List Lookup}
    (hlocal : FindsLocal m lookups) :
    Agree (lookups.foldl (Run.step m modelName) a) (lookups.foldl (Run.step m modelName) b) := by
  induction lookups generalizing a b with
  | nil => exact h
  | cons l rest ih =>
    obtain ⟨hl, hrest⟩ := List.forall_mem_cons.mp hlocal
    exact ih (h.step hl) hrest

def Commute (m : Model) (modelName : String) (k l : Lookup) : Prop :=
  ∀ r, Agree (step m modelName (step m modelName r k) l) (step m modelName (step m modelName r l) k)

theorem commute_of_none {k : Lookup} (hk : m.find? k = none) (l : Lookup) :
    Commute m modelName k l := by
  intro r
  cases hl : m.find? l with
  | none =>
    simp only [step, hk, hl, List.append_assoc]
    exact ⟨fun _ => rfl, fun _ => Iff.rfl, List.Perm.refl _, List.perm_append_comm.append_left _⟩
  | some e =>
    simp only [step, hk, hl, evaluate, List.append_assoc]
    exact ⟨fun _ => rfl, fun _ => Iff.rfl, List.Perm.refl _, List.perm_append_comm.append_left _⟩

theorem Commute.symm {k l : Lookup} (h : Commute m modelName k l) : Commute m modelName l k :=
  fun r => (h r).symm

/-- Only decisions of one name, or of which one requires the other, keep look-ups in their order. -/
theorem commute_of_independent {k l : Lookup}
    (hk : ∀ d, m.find? k = some d → d.IsLocal) (hl : ∀ e, m.find? l = some e → e.IsLocal)
    (hfree : ∀ d e, m.find? k = some d → m.find? l = some e → d.name ≠ e.name ∧ ¬ d.Dependent e) :
    Commute m modelName k l := by
  cases hfindk : m.find? k with
  | none => exact commute_of_none hfindk l
  | some d =>
    cases hfindl : m.find? l with
    | none => exact (commute_of_none hfindl k).symm
    | some e =>
      obtain ⟨hname, hdependent⟩ := hfree d e hfindk hfindl
      intro r
      simp only [step, hfindk, hfindl]
      exact evaluate_comm r (hk d hfindk) (hl e hfindl) hname hdependent

theorem agree_front {front : List Lookup} {l : Lookup} (hlocal : FindsLocal m front)
    (hcommute : ∀ k ∈ front, Commute m modelName k l) (r : Run) :
    Agree ((front ++ [l]).foldl (step m modelName) r) ((l :: front).foldl (step m modelName) r) := by
  induction front generalizing r with
  | nil => exact Agree.refl _
  | cons k rest ih =>
    obtain ⟨-, hrest⟩ := List.forall_mem_cons.mp hlocal
    obtain ⟨hk, hbehind⟩ := List.forall_mem_cons.mp hcommute
    have hfront := ih hrest hbehind (step m modelName r k)
    exact hfront.trans ((hk r).steps hrest)

/-- Orders of the same look-ups come to the same if those can change places that stand one way in
the one and the other way in the other. -/
theorem agree_of_perm {lookups lookups' : List Lookup} (hlocal : FindsLocal m lookups)
    (hperm : lookups.Perm lookups')
    (hcommute : ∀ k l, [k, l].Sublist lookups → [l, k].Sublist lookups' → Commute m modelName k l)
    (r : Run) :
    Agree (lookups.foldl (step m modelName) r) (lookups'.foldl (step m modelName) r) := by
  induction lookups generalizing lookups' r with
  | nil =>
    rw [hperm.nil_eq]
    exact Agree.refl _
  | cons l rest ih =>
    obtain ⟨-, hrest⟩ := List.forall_mem_cons.mp hlocal
    obtain ⟨front, behind, rfl⟩ := List.append_of_mem (hperm.mem_iff.mp List.mem_cons_self)
    have hothers : rest.Perm (front ++ behind) := (hperm.trans List.perm_middle).cons_inv
    have hothersLocal : FindsLocal m (front ++ behind) :=
      fun k hk => hrest k (hothers.mem_iff.mpr hk)
    have hsublist : (front ++ behind).Sublist (front ++ l :: behind) :=
      (List.sublist_cons_self l behind).append_left front
    -- what stands before `l` in the other order stands behind it in this one
    have hfront : ∀ k ∈ front, Commute m modelName k l := by
      intro k hk
      have hin : k ∈ rest := hothers.mem_iff.mpr (List.mem_append_left behind hk)
      have hbehind : [l, k].Sublist (l :: rest) := (List.singleton_sublist.mpr hin).cons_cons l
      have hbefore : [k, l].Sublist (front ++ l :: behind) :=
        (List.singleton_sublist.mpr hk).append
          (List.singleton_sublist.mpr List.mem_cons_self)
      exact (hcommute l k hbehind hbefore).symm
    have hmoved : Agree ((front ++ [l] ++ behind).foldl (step m modelName) r)
        ((l :: (front ++ behind)).foldl (step m modelName) r) := by
      have hlocals := List.forall_mem_append.mp hothersLocal
      have hlater : Agree
          (behind.foldl (step m modelName) ((front ++ [l]).foldl (step m modelName) r))
          (behind.foldl (step m modelName) ((l :: front).foldl (step m modelName) r)) :=
        (agree_front hlocals.1 hfront r).steps hlocals.2
      rwa [← List.foldl_append, ← List.foldl_append] at hlater
    have hrun : Agree ((l :: rest).foldl (step m modelName) r)
        ((l :: (front ++ behind)).foldl (step m modelName) r) := by
      rw [List.foldl_cons, List.foldl_cons]
      refine ih hrest hothers (fun j k hjk hkj => ?_) (step m modelName r l)
      exact hcommute j k (hjk.cons l) (hkj.trans hsublist)
    rw [List.append_cons]
    exact hrun.trans hmoved.symm

end Steps

section Names

variable {m : Model}

private theorem not_sublist_of_nodup {names : List String} {a b : String} (h : names.Nodup)
    (hab : [a, b].Sublist names) : ¬ [b, a].Sublist names := by
  induction names with
  | nil => cases hab
  | cons name rest ih =>
    obtain ⟨hname, hrest⟩ := List.nodup_cons.mp h
    intro hba
    rw [List.cons_sublist_cons'] at hab hba
    rcases hab with hab | ⟨rfl, hb⟩
    · rcases hba with hba | ⟨rfl, ha⟩
      · exact ih hrest hab hba
      · exact hname (hab.subset (by simp))
    · rcases hba with hba | ⟨rfl, ha⟩
      · exact hname (hba.subset (by simp))
      · exact hname (List.singleton_sublist.mp ha)

theorem names_sublist {lookups : List Lookup} {k l : Lookup} {d e : Decision}
    (hk : m.find? k = some d) (hl : m.find? l = some e) (h : [k, l].Sublist lookups) :
    [d.name, e.name].Sublist ((lookups.filterMap m.find?).map Decision.name) := by
  have hfound := (h.filterMap m.find?).map Decision.name
  simpa [hk, hl] using hfound

theorem Rearranged.independent {lookups lookups' : List Lookup} (h : Rearranged m lookups lookups')
    (hnames : ((lookups.filterMap m.find?).map Decision.name).Nodup) {k l : Lookup}
    (hkl : [k, l].Sublist lookups) (hlk : [l, k].Sublist lookups') {d e : Decision}
    (hk : m.find? k = some d) (hl : m.find? l = some e) : d.name ≠ e.name ∧ ¬ d.Dependent e := by
  have hfound := names_sublist hk hl hkl
  refine ⟨?_, fun hdependent => ?_⟩
  · simpa using hnames.sublist hfound
  · have hkept := h.keeps k l d e hk hl hdependent hkl
    have hnames' : ((lookups'.filterMap m.find?).map Decision.name).Nodup :=
      ((h.perm.filterMap m.find?).map Decision.name).nodup_iff.mp hnames
    exact not_sublist_of_nodup hnames' (names_sublist hk hl hkept) (names_sublist hl hk hlk)

theorem Rearranged.agree {lookups lookups' : List Lookup} (h : Rearranged m lookups lookups')
    (hlocal : FindsLocal m lookups)
    (hnames : ((lookups.filterMap m.find?).map Decision.name).Nodup) (modelName : String) (r : Run) :
    Agree (lookups.foldl (step m modelName) r) (lookups'.foldl (step m modelName) r) := by
  refine agree_of_perm hlocal h.perm (fun k l hkl hlk => ?_) r
  have hmem : k ∈ lookups ∧ l ∈ lookups := by simpa using hkl.subset
  exact commute_of_independent (hlocal k hmem.1) (hlocal l hmem.2)
    fun d e => h.independent hnames hkl hlk

end Names

theorem byName?_eq_some_iff {e : Evaluation} (h : (e.decisions.map DecisionResult.name).Nodup)
    (name : String) (x : DecisionResult) :
    e.byName? name = some x ↔ x ∈ e.decisions ∧ x.name = name := by
  constructor
  · intro hfind
    exact ⟨List.mem_of_find?_eq_some hfind, by simpa using List.find?_some hfind⟩
  · rintro ⟨hmem, hname⟩
    cases hfind : e.byName? name with
    | none =>
      have hother := List.find?_eq_none.mp hfind x hmem
      simp [hname] at hother
    | some y =>
      have hy : y ∈ e.decisions := List.mem_of_find?_eq_some hfind
      have hyname : y.name = name := by simpa using List.find?_some hfind
      rw [List.inj_on_of_nodup_map h hy hmem (hyname.trans hname.symm)]

/-- Local decisions of distinct names come to the same in every order in which those keep theirs of
which one requires the other: to the same context, the same result of every decision, and the same
messages. -/
theorem evaluate_rearranged {m : Model} {lookups first second : List Lookup}
    (hlocal : FindsLocal m lookups)
    (hnames : ((lookups.filterMap m.find?).map Decision.name).Nodup)
    (hfirst : Rearranged m lookups first) (hsecond : Rearranged m lookups second)
    (modelName : String) (c : Context) :
    let e := m.evaluate modelName c first
    let e' := m.evaluate modelName c second
    (∀ name, e.context.get? name = e'.context.get? name)
      ∧ (∀ name, e.byName? name = e'.byName? name)
      ∧ e.decisions.Perm e'.decisions ∧ e.messages.Perm e'.messages := by
  intro e e'
  have hagree : Agree (first.foldl (step m modelName) (start c))
      (second.foldl (step m modelName) (start c)) :=
    (hfirst.agree hlocal hnames modelName _).symm.trans (hsecond.agree hlocal hnames modelName _)
  have hdecisions : e.decisions.Perm e'.decisions := hagree.decisions
  have hnodup : (e.decisions.map DecisionResult.name).Nodup := by
    have hfound := (invariant_steps m modelName first (invariant_start c)).names
    have hperm := (hfirst.perm.filterMap m.find?).map Decision.name
    rw [List.nil_append] at hfound
    exact hfound ▸ hperm.nodup_iff.mp hnames
  have hnodup' : (e'.decisions.map DecisionResult.name).Nodup :=
    (hdecisions.map DecisionResult.name).nodup_iff.mp hnodup
  refine ⟨hagree.context, fun name => ?_, hdecisions, hagree.messages⟩
  apply Option.ext
  intro x
  rw [byName?_eq_some_iff hnodup, byName?_eq_some_iff hnodup', hdecisions.mem_iff]

def forkedModel : Model :=
  ⟨"forked", "forked", "_forked",
    [Logic.decision "1" "left" ["a"] (.double "a"), Logic.decision "2" "right" ["b"] (.copy "b"),
      Logic.decision "3" "total" ["left", "right"] (.sum ["left", "right"])]⟩

theorem findsLocal_forkedModel (lookups : List Lookup) : FindsLocal forkedModel lookups := by
  intro l _ d hfind
  have hd : d ∈ forkedModel.decisions := List.mem_of_find?_eq_some hfind
  simp only [forkedModel, List.mem_cons, List.not_mem_nil, or_false] at hd
  rcases hd with rfl | rfl | rfl
  · exact Logic.isLocal (by simp [Logic.ReadsOnly]) _ _
  · exact Logic.isLocal (by simp [Logic.ReadsOnly]) _ _
  · exact Logic.isLocal (by simp [Logic.ReadsOnly]) _ _

theorem rearranged_forkedModel :
    Rearranged forkedModel [.byName "left", .byName "right", .byName "total"]
      [.byName "right", .byName "left", .byName "total"] where
  perm := List.Perm.swap _ _ _
  keeps k l d e hk hl hdependent hkl := by
    simp only [List.cons_sublist_cons', List.sublist_nil, reduceCtorEq, false_or, and_false,
      or_false] at hkl
    rcases hkl with ⟨rfl, rfl, -⟩ | ⟨rfl, ⟨rfl, -⟩ | ⟨rfl, -⟩⟩
    · simp
    · simp
    · -- the first two decisions are independent
      cases hk
      cases hl
      simp [Decision.Dependent, Logic.decision] at hdependent

theorem evaluate_rearranged_forkedModel :
    let c := Context.ofPairs [("a", .number (.int 2)), ("b", .number (.int 3))]
    (forkedModel.evaluate "forked" c
        [.byName "left", .byName "right", .byName "total"]).byName? "total"
      = (forkedModel.evaluate "forked" c
        [.byName "right", .byName "left", .byName "total"]).byName? "total" := by
  intro c
  have hsame : Rearranged forkedModel [.byName "left", .byName "right", .byName "total"]
      [.byName "left", .byName "right", .byName "total"] :=
    ⟨List.Perm.refl _, fun _ _ _ _ _ _ _ h => h⟩
  exact (evaluate_rearranged (findsLocal_forkedModel _) (by decide) hsame rearranged_forkedModel
    "forked" c).2.1 "total"

end Run

end DecisionService
