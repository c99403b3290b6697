import Mathlib
import DecisionService.Proofs.Value.Distinct
import DecisionService.Proofs.Value.Reordered
/-!
# Equality and the sets it builds

Two values are equal when they are trees of one shape with equal numbers. That is an equivalence on
the values without a NaN, so a set built from such values has one member for each class of equals,
its first occurrence, and it may as well be built in two stages.
-/
namespace DecisionService

namespace Number

def isNaN : Number → Bool
  | .float x => x.isNaN
  | _ => false

/-- Equal numbers have one form: the same integer, text or binary number, decimals of one value, or
binary zeros of any sign. A NaN equals nothing. -/
inductive Equal : Number → Number → Prop
  | int (n : Int64) : Equal (.int n) (.int n)
  | uint (n : UInt64) : Equal (.uint n) (.uint n)
  | big (n : Int) : Equal (.big n) (.big n)
  | text (t : String) : Equal (.text t) (.text t)
  | float {x : Binary64} (h : x.isNaN = false) : Equal (.float x) (.float x)
  | zero {x y : Binary64} (hx : x.isZero = true) (hy : y.isZero = true) :
    Equal (.float x) (.float y)
  | decimal {x y : Decimal} (h : x.toRat = y.toRat) : Equal (.decimal x) (.decimal y)

theorem same_iff (n m : Number) : n.same m = true ↔ n.Equal m := by
  constructor
  · intro h
    cases n <;> cases m <;> simp only [same, Bool.false_eq_true, beq_iff_eq] at h
    case int.int => exact h ▸ .int _
    case uint.uint => exact h ▸ .uint _
    case big.big => exact h ▸ .big _
    case text.text => exact h ▸ .text _
    case decimal.decimal => exact .decimal ((Decimal.same_iff _ _).mp h)
    case float.float =>
      rcases (Binary64.same_iff _ _).mp h with ⟨rfl, hx⟩ | ⟨hx, hy⟩
      · exact .float hx
      · exact .zero hx hy
  · intro h
    cases h with
    | int | uint | big | text => exact beq_self_eq_true _
    | float hx => exact (Binary64.same_iff _ _).mpr (Or.inl ⟨rfl, hx⟩)
    | zero hx hy => exact (Binary64.same_iff _ _).mpr (Or.inr ⟨hx, hy⟩)
    | decimal h => exact (Decimal.same_iff _ _).mpr h

theorem same_self_iff (n : Number) : n.same n = true ↔ n.isNaN = false := by
  cases n with
  | int | uint | big | text => simp [same, isNaN]
  | decimal d => simp [same, isNaN]
  | float x =>
    constructor
    · intro h
      simp only [same, Binary64.same, Bool.and_eq_true, Bool.not_eq_true'] at h
      exact h.1.1
    · exact fun h => (same_iff _ _).mpr (.float h)

end Number

namespace Value

def NotNaN : Value → Prop
  | number n => n.isNaN = false
  | _ => True

instance : DecidablePred NotNaN := fun v =>
  match v with
  | number n => inferInstanceAs (Decidable (n.isNaN = false))
  | null | bool _ | string _ | array _ | set _ | object _ => isTrue trivial

def NaNFree (v : Value) : Prop :=
  v.Each NotNaN

instance : DecidablePred NaNFree := fun v => decideEach NotNaN v

/-- Equality compares trees: objects as maps, arrays and sets member by member. -/
theorem same_iff {a b : Value} (ha : a.WellFormed) (hb : b.WellFormed) :
    a.same b = true ↔ a.Corresponds Number.Equal set b := by
  induction a using Value.induction generalizing b with
  | null =>
    cases b with
    | null => exact iff_of_true rfl .null
    | _ => exact iff_of_false Bool.false_ne_true (by rintro ⟨⟩)
  | bool x =>
    cases b with
    | bool y =>
      rw [same, beq_iff_eq]
      exact ⟨fun h => h ▸ .bool x, fun h => by cases h; rfl⟩
    | _ => exact iff_of_false Bool.false_ne_true (by rintro ⟨⟩)
  | string s =>
    cases b with
    | string t =>
      rw [same, beq_iff_eq]
      exact ⟨fun h => h ▸ .string s, fun h => by cases h; rfl⟩
    | _ => exact iff_of_false Bool.false_ne_true (by rintro ⟨⟩)
  | number n =>
    cases b with
    | number m =>
      rw [same, Number.same_iff]
      exact ⟨.number, fun h => by cases h; assumption⟩
    | _ => exact iff_of_false Bool.false_ne_true (by rintro ⟨⟩)
  | array items ih =>
    cases b with
    | array others =>
      have hitems := (eachOfList_iff _ _).mp ha.2
      have hothers := (eachOfList_iff _ _).mp hb.2
      rw [same, sameList_iff,
        forall₂_iff_of_mem _ fun v hv w hw => ih v hv (hitems v hv) (hothers w hw)]
      exact ⟨.array, fun h => by cases h; assumption⟩
    | _ => exact iff_of_false Bool.false_ne_true (by rintro ⟨⟩)
  | set members ih =>
    cases b with
    | set others =>
      have hmembers := (eachOfList_iff _ _).mp ha.2
      have hothers := (eachOfList_iff _ _).mp hb.2
      rw [same, sameList_iff,
        forall₂_iff_of_mem _ fun v hv w hw => ih v hv (hmembers v hv) (hothers w hw)]
      exact ⟨.set, fun h => by cases h; assumption⟩
    | _ => exact iff_of_false Bool.false_ne_true (by rintro ⟨⟩)
  | object entries ih =>
    cases b with
    | object others =>
      have hentries := (eachOfEntries_iff _ _).mp ha.2
      have hothers := (eachOfEntries_iff _ _).mp hb.2
      have hiff : ∀ name v w, (name, v) ∈ entries → (name, w) ∈ others →
          (v.same w = true ↔ v.Corresponds Number.Equal set w) :=
        fun _ _ _ hv hw => ih _ hv (hentries _ hv) (hothers _ hw)
      rw [same_object_iff_names ha.1 hb.1]
      constructor
      · rintro ⟨hnames, h⟩
        exact .object hnames fun name v w hv hw => (hiff name v w hv hw).mp (h name v w hv hw)
      · intro h
        cases h with
        | object hnames h =>
          exact ⟨hnames, fun name v w hv hw => (hiff name v w hv hw).mpr (h name v w hv hw)⟩
    | _ => exact iff_of_false Bool.false_ne_true (by rintro ⟨⟩)

theorem same_self_iff {v : Value} (hv : v.WellFormed) : v.same v = true ↔ v.NaNFree := by
  induction v using Value.induction with
  | null => exact iff_of_true rfl trivial
  | bool b => exact iff_of_true (beq_self_eq_true b) trivial
  | string s => exact iff_of_true (beq_self_eq_true s) trivial
  | number n => exact n.same_self_iff
  | array items ih | set items ih =>
    have hitems := (eachOfList_iff _ _).mp hv.2
    rw [same, sameList_iff, List.forall₂_same]
    constructor
    · intro h
      refine ⟨trivial, (eachOfList_iff _ _).mpr fun v hmem => ?_⟩
      exact (ih v hmem (hitems v hmem)).mp (h v hmem)
    · rintro ⟨-, h⟩ v hmem
      exact (ih v hmem (hitems v hmem)).mpr ((eachOfList_iff _ _).mp h v hmem)
  | object entries ih =>
    have hentries := (eachOfEntries_iff _ _).mp hv.2
    rw [same_object_iff_names hv.1 hv.1]
    constructor
    · rintro ⟨-, h⟩
      refine ⟨trivial, (eachOfEntries_iff _ _).mpr fun e he => ?_⟩
      exact (ih e he (hentries e he)).mp (h e.1 e.2 e.2 he he)
    · rintro ⟨-, h⟩
      refine ⟨List.Perm.refl _, fun name v w hv' hw' => ?_⟩
      have hget := Entries.get?_of_mem hv.1 hv'
      rw [Entries.get?_of_mem hv.1 hw'] at hget
      cases hget
      exact (ih _ hw' (hentries _ hw')).mpr ((eachOfEntries_iff _ _).mp h _ hw')

example : (number (.float ⟨0x7ff8000000000000⟩)).same (number (.float ⟨0x7ff8000000000000⟩))
    = false := by decide

def firsts (items : List Value) : List Value :=
  (items.zipIdx.filter fun entry => !(items.take entry.2).any (same · entry.1)).map Prod.fst

theorem firsts_concat (items : List Value) (item : Value) : firsts (items ++ [item]) =
    if items.any (same · item) then firsts items else firsts items ++ [item] := by
  -- what stands in front of an item does not change when one more comes behind it
  have hold : ∀ entry ∈ items.zipIdx, (items ++ [item]).take entry.2 = items.take entry.2 := by
    intro entry hmem
    exact List.take_append_of_le_length (by simpa using (List.snd_lt_of_mem_zipIdx hmem).le)
  have hfirsts : firsts items = (items.zipIdx.filter fun entry =>
      !((items ++ [item]).take entry.2).any (same · entry.1)).map Prod.fst :=
    congrArg (List.map Prod.fst)
      (List.filter_congr fun entry hmem => by rw [hold entry hmem])
  rw [hfirsts, firsts, List.zipIdx_append, List.filter_append, List.map_append]
  cases hany : items.any (same · item) <;> simp [hany]

theorem distinct_concat (items : List Value) (item : Value) : distinct (items ++ [item]) =
    if (distinct items).any (same · item) then distinct items else distinct items ++ [item] := by
  rw [distinct, List.foldl_append]
  rfl

theorem distinct_sublist (items : List Value) : (distinct items).Sublist items := by
  induction items using List.reverseRecOn with
  | nil => exact List.Sublist.slnil
  | append_singleton items item ih =>
    rw [distinct_concat]
    split
    · exact ih.trans (List.sublist_append_left items [item])
    · exact ih.append (List.Sublist.refl [item])

/-- A set of which the first items are built already comes out as if it were built at once. -/
theorem distinct_distinct_append (items others : List Value) :
    distinct (distinct items ++ others) = distinct (items ++ others) := by
  induction others using List.reverseRecOn with
  | nil =>
    rw [List.append_nil, List.append_nil]
    exact distinct_eq_self (distinct_spec items).2
  | append_singleton others item ih =>
    rw [← List.append_assoc, ← List.append_assoc, distinct_concat, distinct_concat, ih]

section Classes

variable {items : List Value}

theorem exists_mem_distinct (hself : ∀ v ∈ items, v.same v = true) :
    ∀ v ∈ items, ∃ member ∈ distinct items, member.same v = true := by
  induction items using List.reverseRecOn with
  | nil => exact fun v hv => absurd hv List.not_mem_nil
  | append_singleton items item ih =>
    intro v hv
    rw [distinct_concat]
    rcases List.mem_append.mp hv with hv | hv
    · obtain ⟨member, hmember, hsame⟩ := ih (fun v hv => hself v (List.mem_append_left _ hv)) v hv
      refine ⟨member, ?_, hsame⟩
      split
      · exact hmember
      · exact List.mem_append_left _ hmember
    · obtain rfl := List.mem_singleton.mp hv
      split
      · next hany => exact List.any_eq_true.mp hany
      · exact ⟨v, List.mem_append_right _ hv, hself v (List.mem_append_right _ hv)⟩

theorem any_distinct (hself : ∀ v ∈ items, v.same v = true) (item : Value) :
    (distinct items).any (same · item) = items.any (same · item) := by
  rw [Bool.eq_iff_iff, List.any_eq_true, List.any_eq_true]
  constructor
  · rintro ⟨member, hmember, hsame⟩
    exact ⟨member, (distinct_spec items).1 member hmember, hsame⟩
  · rintro ⟨v, hv, hsame⟩
    obtain ⟨member, hmember, hsame'⟩ := exists_mem_distinct hself v hv
    exact ⟨member, hmember, same_trans hsame' hsame⟩

theorem distinct_eq_firsts (hself : ∀ v ∈ items, v.same v = true) :
    distinct items = firsts items := by
  induction items using List.reverseRecOn with
  | nil => rfl
  | append_singleton items item ih =>
    have hitems : ∀ v ∈ items, v.same v = true :=
      fun v hv => hself v (List.mem_append_left _ hv)
    rw [distinct_concat, firsts_concat, any_distinct hitems, ih hitems]

theorem countP_same {members : List Value} (hdistinct : Distinct members)
    (hwell : ∀ member ∈ members, member.WellFormed) {v : Value} (hv : v.WellFormed)
    (h : ∃ member ∈ members, member.same v = true) : members.countP (same · v) = 1 := by
  obtain ⟨member, hmember, hsame⟩ := h
  have hback : v.same member = true := same_symm (hwell member hmember) hv hsame
  have hother : ∀ other : Value, other.same member = false → ¬ other.same v = true := by
    intro other hne hequal
    rw [same_trans hequal hback] at hne
    cases hne
  obtain ⟨before, behind, rfl⟩ := List.append_of_mem hmember
  obtain ⟨-, hbehind, hbefore⟩ := List.pairwise_append.mp hdistinct
  have hcons : (member :: behind).countP (same · v) = behind.countP (same · v) + 1 :=
    List.countP_cons_of_pos hsame
  rw [List.countP_append, hcons, List.countP_eq_zero.mpr, List.countP_eq_zero.mpr]
  · exact fun other hmem => hother other ((List.pairwise_cons.mp hbehind).1 other hmem).2
  · exact fun other hmem => hother other (hbefore other hmem member List.mem_cons_self).1

end Classes

/-- Values are equal when they are trees of one shape with equal numbers. Equality is symmetric and
transitive, and the values without a NaN are those that equal themselves. The members of a set of
such values are the first items of their kind: no two are equal, and each item equals one of them.
A set that is built in two stages is the set built at once. -/
theorem equality_and_sets :
    (∀ a b : Value, a.WellFormed → b.WellFormed →
      (a.same b = true ↔ a.Corresponds Number.Equal set b) ∧ a.same b = b.same a)
    ∧ (∀ a b c : Value, a.same b = true → b.same c = true → a.same c = true)
    ∧ (∀ v : Value, v.WellFormed → (v.same v = true ↔ v.NaNFree))
    ∧ ∀ items : List Value, (∀ v ∈ items, v.WellFormed ∧ v.NaNFree) →
      ∃ members, ofItems items = set members
        ∧ members.Sublist items
        ∧ members = firsts items
        ∧ Distinct members
        ∧ (∀ v ∈ items, members.countP (same · v) = 1)
        ∧ ∀ others, ofItems (members ++ others) = ofItems (items ++ others) := by
  refine ⟨fun a b ha hb => ⟨same_iff ha hb, ?_⟩, fun a b c => same_trans,
    fun v => same_self_iff, fun items h => ?_⟩
  · exact Bool.eq_iff_iff.mpr ⟨same_symm ha hb, same_symm hb ha⟩
  · have hwell : ∀ v ∈ items, v.WellFormed := fun v hv => (h v hv).1
    have hself : ∀ v ∈ items, v.same v = true :=
      fun v hv => (same_self_iff (hwell v hv)).mpr (h v hv).2
    have honce : Distinct (distinct items) := distinct_distinct hwell
    refine ⟨distinct items, rfl, distinct_sublist items, distinct_eq_firsts hself, honce,
      fun v hv => ?_, fun others => congrArg set (distinct_distinct_append items others)⟩
    exact countP_same honce (fun member hm => hwell member ((distinct_spec items).1 member hm))
      (hwell v hv) (exists_mem_distinct hself v hv)

/-- The first object and the third are equal: their entries come in another order, the decimals have
other scales and the zeros other signs. No other two are, an integer being no decimal. -/
def likes : List Value :=
  [object [("rate", number (.decimal ⟨150, 2⟩)), ("rest", number (.float (.zero false)))],
    number (.int 1),
    object [("rest", number (.float (.zero true))), ("rate", number (.decimal ⟨15, 1⟩))],
    number (.decimal ⟨1, 0⟩)]

theorem equality_and_sets_likes :
    (∀ v ∈ likes, v.WellFormed ∧ v.NaNFree)
    ∧ likes[0].Corresponds Number.Equal set likes[2]
    ∧ likes[0].same likes[0] = true
    ∧ likes[1].same likes[1] = true
    ∧ ∃ members, ofItems likes = set members
      ∧ members = [likes[0], likes[1], likes[3]]
      ∧ (∀ v ∈ likes, members.countP (same · v) = 1)
      ∧ ofItems (members ++ [likes[2], null]) = set (members ++ [null]) := by
  have hlikes : ∀ v ∈ likes, v.WellFormed ∧ v.NaNFree := by decide
  obtain ⟨hsymm, htrans, hrefl, hsets⟩ := equality_and_sets
  have hfirst := (hlikes likes[0] (by simp [likes])).1
  have hthird := (hlikes likes[2] (by simp [likes])).1
  have hback : likes[2].same likes[0] = true := (hsymm _ _ hfirst hthird).2.symm.trans rfl
  obtain ⟨members, hset, -, hfirsts, -, honce, hstages⟩ := hsets likes hlikes
  have hmembers : members = [likes[0], likes[1], likes[3]] := hfirsts.trans rfl
  refine ⟨hlikes, ((hsymm _ _ hfirst hthird).1).mp rfl, htrans _ _ _ rfl hback,
    (hrefl likes[1] (by decide)).mpr (by decide), members, hset, hmembers, honce, ?_⟩
  rw [hstages, hmembers]
  rfl

end Value

end DecisionService
