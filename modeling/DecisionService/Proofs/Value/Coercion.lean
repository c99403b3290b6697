import Mathlib
import DecisionService.Proofs.Value.DecimalForm
import DecisionService.Proofs.Value.Reordered
/-!
# What coercion makes of a value

Coercion goes through a value exactly when every number in it has a decimal. It then puts the decimal
in the place of the number, builds every set anew from its coerced members, and changes nothing else;
the order in which it visits the entries of objects does not matter. A second pass finds nothing left
to do.
-/
namespace DecisionService

namespace Value

/-- The second value is the first with the decimal of every number in its place and with every set
built anew, the inner sets first. -/
inductive CoercesTo : Value → Value → Prop
  | null : CoercesTo null null
  | bool (b : Bool) : CoercesTo (bool b) (bool b)
  | number {n : Number} {d : Decimal} (h : n.toDecimal = .ok d) :
    CoercesTo (number n) (number (.decimal d))
  | string (s : String) : CoercesTo (string s) (string s)
  | array {as bs : List Value} (h : List.Forall₂ CoercesTo as bs) : CoercesTo (array as) (array bs)
  | set {as bs : List Value} (h : List.Forall₂ CoercesTo as bs) : CoercesTo (set as) (ofItems bs)
  | object {as bs : Entries Value} (hnames : as.names = bs.names)
      (h : List.Forall₂ CoercesTo (as.map Prod.snd) (bs.map Prod.snd)) :
    CoercesTo (object as) (object bs)

def HasDecimal : Value → Prop
  | number n => ∃ d, n.toDecimal = .ok d
  | _ => True

/-! ## The pass and its outcome -/

theorem forall₂_entries_iff {R : Value → Value → Prop} {as bs : Entries Value} :
    as.names = bs.names ∧ List.Forall₂ R (as.map Prod.snd) (bs.map Prod.snd)
      ↔ List.Forall₂ (fun a b => a.1 = b.1 ∧ R a.2 b.2) as bs := by
  induction as generalizing bs with
  | nil => cases bs <;> simp [Entries.names]
  | cons a as ih =>
    cases bs with
    | nil => simp [Entries.names]
    | cons b bs =>
      rw [List.forall₂_cons, ← ih]
      simp only [Entries.names, List.map_cons, List.cons.injEq, List.forall₂_cons]
      tauto

theorem coercesTo_object_iff {as : Entries Value} {w : Value} : (object as).CoercesTo w
    ↔ ∃ bs, object bs = w ∧ List.Forall₂ (fun a b => a.1 = b.1 ∧ a.2.CoercesTo b.2) as bs := by
  simp only [← forall₂_entries_iff]
  constructor
  · rintro (_ | _ | _ | _ | _ | _ | ⟨hnames, h⟩)
    exact ⟨_, rfl, hnames, h⟩
  · rintro ⟨bs, rfl, hnames, h⟩
    exact .object hnames h

theorem coerce_set_eq_none_iff {members : List Value} {w : Value} :
    (set members).coerce = ⟨w, none⟩ ↔ ∃ left, coerceList members = ⟨left, none⟩ ∧ ofItems left = w := by
  rw [coerce]
  generalize coerceList members = c
  obtain ⟨left, _ | e⟩ := c <;> simp

/-- Coercion goes through a value with the outcome that belongs to it, and with no other. -/
theorem coerce_eq_iff {v w : Value} : v.coerce = ⟨w, none⟩ ↔ v.CoercesTo w := by
  induction v using Value.induction generalizing w with
  | null | bool | string =>
    constructor
    · intro h
      cases h
      constructor
    · intro h
      cases h
      rfl
  | number n =>
    rw [coerce, Coerced.map_eq_iff]
    simp only [number_coerce_eq_none_iff]
    constructor
    · rintro ⟨m, ⟨d, hd, rfl⟩, rfl⟩
      exact .number hd
    · rintro (_ | _ | hd)
      exact ⟨_, ⟨_, hd, rfl⟩, rfl⟩
  | array items ih =>
    have hparts := fun bs => forall₂_iff_of_mem bs fun v hmem w _ => ih v hmem (w := w)
    rw [coerce, Coerced.map_eq_iff]
    simp only [coerceList_eq_list, Coerced.list_eq_none_iff, hparts]
    constructor
    · rintro ⟨left, h, rfl⟩
      exact .array h
    · rintro (_ | _ | _ | _ | h)
      exact ⟨_, h, rfl⟩
  | set members ih =>
    have hparts := fun bs => forall₂_iff_of_mem bs fun v hmem w _ => ih v hmem (w := w)
    rw [coerce_set_eq_none_iff]
    simp only [coerceList_eq_list, Coerced.list_eq_none_iff, hparts]
    constructor
    · rintro ⟨left, h, rfl⟩
      exact .set h
    · rintro (_ | _ | _ | _ | _ | h)
      exact ⟨_, h, rfl⟩
  | object entries ih =>
    have hentry : ∀ e ∈ entries, ∀ e', coerceEntry e = ⟨e', none⟩
        ↔ e.1 = e'.1 ∧ e.2.CoercesTo e'.2 := by
      intro e he e'
      rw [coerceEntry_eq_none_iff, ih e he]
    have hparts := fun bs => forall₂_iff_of_mem bs fun e he e' _ => hentry e he e'
    rw [coerce, Coerced.map_eq_iff, coercesTo_object_iff]
    simp only [coerceEntries_eq_list, Coerced.list_eq_none_iff, hparts, and_comm]

theorem result_eq_ok_iff {v w : Value} : v.coerce.result = .ok w ↔ v.CoercesTo w := by
  rw [Coerced.result_eq_ok, coerce_eq_iff]

private theorem exists_coercesTo_list {items : List Value}
    (h : ∀ v ∈ items, (∃ w, v.CoercesTo w) ↔ v.Each HasDecimal) :
    (∃ bs, List.Forall₂ CoercesTo items bs) ↔ EachOfList HasDecimal items := by
  rw [exists_forall₂_iff, eachOfList_iff]
  exact forall₂_congr h

theorem exists_coercesTo_iff {v : Value} : (∃ w, v.CoercesTo w) ↔ v.Each HasDecimal := by
  induction v using Value.induction with
  | null => exact iff_of_true ⟨_, .null⟩ trivial
  | bool b => exact iff_of_true ⟨_, .bool b⟩ trivial
  | string s => exact iff_of_true ⟨_, .string s⟩ trivial
  | number n =>
    constructor
    · rintro ⟨_, _ | _ | hd⟩
      exact ⟨_, hd⟩
    · rintro ⟨d, hd⟩
      exact ⟨_, .number hd⟩
  | array items ih =>
    have hitems := exists_coercesTo_list ih
    constructor
    · rintro ⟨_, _ | _ | _ | _ | h⟩
      exact ⟨trivial, hitems.mp ⟨_, h⟩⟩
    · rintro ⟨-, h⟩
      obtain ⟨bs, hbs⟩ := hitems.mpr h
      exact ⟨_, .array hbs⟩
  | set members ih =>
    have hmembers := exists_coercesTo_list ih
    constructor
    · rintro ⟨_, _ | _ | _ | _ | _ | h⟩
      exact ⟨trivial, hmembers.mp ⟨_, h⟩⟩
    · rintro ⟨-, h⟩
      obtain ⟨bs, hbs⟩ := hmembers.mpr h
      exact ⟨_, .set hbs⟩
  | object entries ih =>
    have hentry : ∀ e ∈ entries, (∃ e' : String × Value, e.1 = e'.1 ∧ e.2.CoercesTo e'.2)
        ↔ e.2.Each HasDecimal := by
      intro e he
      rw [← ih e he]
      constructor
      · rintro ⟨e', -, h⟩
        exact ⟨_, h⟩
      · rintro ⟨w, h⟩
        exact ⟨(e.1, w), rfl, h⟩
    have hentries := (forall₂_congr hentry).trans (eachOfEntries_iff _ _).symm
    rw [← exists_forall₂_iff] at hentries
    constructor
    · rintro ⟨w, h⟩
      obtain ⟨bs, -, h⟩ := coercesTo_object_iff.mp h
      exact ⟨trivial, hentries.mp ⟨bs, h⟩⟩
    · rintro ⟨-, h⟩
      obtain ⟨bs, hbs⟩ := hentries.mpr h
      exact ⟨_, coercesTo_object_iff.mpr ⟨bs, rfl, hbs⟩⟩

/-! ## A second pass -/

theorem CoercesTo.again {v w : Value} (h : v.CoercesTo w) : w.CoercesTo w := by
  induction v using Value.induction generalizing w with
  | null | bool | string =>
    cases h
    constructor
  | number n =>
    cases h
    exact .number rfl
  | array items ih =>
    cases h with
    | array h => exact .array (forall₂_self_right (fun v hv w => ih v hv) h)
  | set members ih =>
    cases h with
    | @set _ left h =>
      have hleft := List.forall₂_same.mp (forall₂_self_right (fun v hv w => ih v hv) h)
      obtain ⟨hmem, honce⟩ := distinct_spec left
      have hagain : (Value.set (distinct left)).CoercesTo (ofItems (distinct left)) :=
        .set (List.forall₂_same.mpr fun v hv => hleft v (hmem v hv))
      -- building a set anew does not touch members that are distinct already
      rwa [ofItems, distinct_eq_self honce] at hagain
  | object entries ih =>
    obtain ⟨bs, rfl, hbs⟩ := coercesTo_object_iff.mp h
    refine coercesTo_object_iff.mpr ⟨bs, rfl, ?_⟩
    exact forall₂_self_right (fun e he e' he' => ⟨rfl, ih e he he'.2⟩) hbs

/-! ## The order of the entries -/

def IsDecimal : Value → Prop
  | number n => n.isDecimal = true
  | _ => True

theorem CoercesTo.each {v w : Value} (hv : v.WellFormed) (h : v.CoercesTo w) :
    w.Each fun u => u.NamesOnce ∧ u.IsDecimal := by
  induction v using Value.induction generalizing w with
  | null | bool | string =>
    cases h
    exact ⟨trivial, trivial⟩
  | number n =>
    cases h
    exact ⟨trivial, rfl⟩
  | array items ih =>
    have hitems := (eachOfList_iff _ _).mp hv.2
    cases h with
    | array h =>
      refine ⟨⟨trivial, trivial⟩, (eachOfList_iff _ _).mpr fun b hb => ?_⟩
      obtain ⟨a, ha, hab⟩ := exists_of_forall₂ h b hb
      exact ih a ha (hitems a ha) hab
  | set members ih =>
    have hmembers := (eachOfList_iff _ _).mp hv.2
    cases h with
    | @set _ left h =>
      refine ⟨⟨trivial, trivial⟩, (eachOfList_iff _ _).mpr fun b hb => ?_⟩
      obtain ⟨a, ha, hab⟩ := exists_of_forall₂ h b ((distinct_spec left).1 b hb)
      exact ih a ha (hmembers a ha) hab
  | object entries ih =>
    have hentries := (eachOfEntries_iff _ _).mp hv.2
    cases h with
    | @object _ bs hnames h =>
      have hparts := forall₂_entries_iff.mp ⟨hnames, h⟩
      have honce : bs.names.Nodup := hnames ▸ hv.1
      refine ⟨⟨honce, trivial⟩, (eachOfEntries_iff _ _).mpr fun e' he' => ?_⟩
      obtain ⟨e, he, -, hee⟩ := exists_of_forall₂ hparts e' he'
      exact ih e he (hentries e he) hee

theorem HasDecimal.reordered {v w : Value} (h : v.Reordered w) (hv : v.HasDecimal) :
    w.HasDecimal := by
  cases h with
  | number heq => exact heq ▸ hv
  | _ => trivial

namespace Reordered

theorem symm {v w : Value} (h : v.Reordered w) : w.Reordered v := by
  induction v using Value.induction generalizing w with
  | null | bool | string =>
    cases h
    constructor
  | number n =>
    cases h with
    | number heq => exact .number heq.symm
  | array items ih | set items ih =>
    cases h
    next hall =>
      constructor
      exact (forall₂_imp_of_mem (fun a ha b _ => ih a ha) hall).flip
  | object entries ih =>
    cases h with
    | object hnames hall =>
      exact .object hnames.symm fun name b a hb ha => ih _ ha (hall name a b ha hb)

theorem get? {as bs : Entries Value} (h : (object as).Reordered (object bs)) (name : String) :
    Option.Rel Reordered (as.get? name) (bs.get? name) := by
  cases h with
  | object hnames hall =>
    have hmem : name ∈ as.names ↔ name ∈ bs.names := hnames.mem_iff
    rw [← Entries.get?_isSome_iff, ← Entries.get?_isSome_iff] at hmem
    cases ha : as.get? name <;> cases hb : bs.get? name
    case none.none => exact .none
    case some.some a b =>
      exact .some (hall name a b (Entries.mem_of_get? ha) (Entries.mem_of_get? hb))
    all_goals simp [ha, hb] at hmem

theorem same {v w : Value} (hv : v.Each fun u => u.NamesOnce ∧ u.IsDecimal) (h : v.Reordered w) :
    v.same w = true := by
  induction v using Value.induction generalizing w with
  | null =>
    cases h
    rfl
  | bool | string =>
    cases h
    exact beq_self_eq_true _
  | number n =>
    cases h with
    | number heq =>
      subst heq
      cases n with
      | decimal d => exact Decimal.same_refl d
      | _ => cases hv.2
  | array items ih | set items ih =>
    have hitems := (eachOfList_iff _ _).mp hv.2
    cases h
    next hall =>
      refine (sameList_iff _ _).mpr ?_
      exact forall₂_imp_of_mem (fun a ha b _ => ih a ha (hitems a ha)) hall
  | object entries ih =>
    have hentries := (eachOfEntries_iff _ _).mp hv.2
    have hwell : w.WellFormed := h.wellFormed (hv.imp fun _ hu => hu.1)
    cases w with
    | object others =>
      rw [same_object_iff hv.1.1 hwell.1]
      intro name
      have hrel := h.get? name
      cases ha : entries.get? name <;> cases hb : Entries.get? name others <;> rw [ha, hb] at hrel
      case some.some a b =>
        have hmem := Entries.mem_of_get? ha
        cases hrel with
        | some hab => exact .some (ih _ hmem (hentries _ hmem) hab)
      all_goals cases hrel
      exact .none
    | _ => cases h

theorem same_eq {v v' w w' : Value} (hv : v.Each fun u => u.NamesOnce ∧ u.IsDecimal)
    (hw : w.Each fun u => u.NamesOnce ∧ u.IsDecimal) (hvv : v.Reordered v')
    (hww : w.Reordered w') : v.same w = v'.same w' := by
  have hv₁ : v.WellFormed := hv.imp fun _ hu => hu.1
  have hw₁ : w.WellFormed := hw.imp fun _ hu => hu.1
  have hvs := hvv.same hv
  have hws := hww.same hw
  rw [Bool.eq_iff_iff]
  constructor
  · intro h
    have hback := same_symm hv₁ (hvv.wellFormed hv₁) hvs
    exact same_trans hback (same_trans h hws)
  · intro h
    have hback := same_symm hw₁ (hww.wellFormed hw₁) hws
    exact same_trans hvs (same_trans h hback)

end Reordered

/-- Visited in another order, a value comes to the same. -/
theorem CoercesTo.reordered {v u w x : Value} (hv : v.WellFormed) (hu : v.Reordered u)
    (hw : v.CoercesTo w) (hx : u.CoercesTo x) : w.Reordered x := by
  induction v using Value.induction generalizing u w x with
  | null =>
    cases hu
    cases hw
    cases hx
    exact .null
  | bool b =>
    cases hu
    cases hw
    cases hx
    exact .bool b
  | string s =>
    cases hu
    cases hw
    cases hx
    exact .string s
  | number n =>
    cases hu with
    | number heq =>
      subst heq
      cases hw with
      | number hd =>
        cases hx with
        | number hd' =>
          cases hd.symm.trans hd'
          exact .number rfl
  | array items ih =>
    have hitems := (eachOfList_iff _ _).mp hv.2
    cases hu with
    | array hall =>
      cases hw with
      | array h =>
        cases hx with
        | array h' => exact .array (forall₂_square (fun a ha => ih a ha (hitems a ha)) hall h h')
  | set members ih =>
    have hmembers := (eachOfList_iff _ _).mp hv.2
    cases hu with
    | set hall =>
      cases hw with
      | @set _ left h =>
        cases hx with
        | @set _ left' h' =>
          have hleft : List.Forall₂
              (fun b b' => b.Reordered b' ∧ b.Each fun u => u.NamesOnce ∧ u.IsDecimal) left left' :=
            forall₂_square (fun a ha _ _ _ haa hab hab' =>
              ⟨ih a ha (hmembers a ha) haa hab hab', hab.each (hmembers a ha)⟩) hall h h'
          have hkept := forall₂_distinct
            (fun hb hc => Reordered.same_eq hb.2 hc.2 hb.1 hc.1) hleft
          exact .set (hkept.imp fun _ _ hb => hb.1)
  | object entries ih =>
    have hentries := (eachOfEntries_iff _ _).mp hv.2
    cases hu with
    | object hnames hall =>
      cases hw with
      | object hw h =>
        cases hx with
        | object hx h' =>
          have hparts := forall₂_entries_iff.mp ⟨hw, h⟩
          have hparts' := forall₂_entries_iff.mp ⟨hx, h'⟩
          refine .object (by rw [← hw, ← hx]; exact hnames) fun name b b' hb hb' => ?_
          obtain ⟨⟨_, a⟩, ha, rfl, hab⟩ := exists_of_forall₂ hparts _ hb
          obtain ⟨⟨_, a'⟩, ha', rfl, hab'⟩ := exists_of_forall₂ hparts' _ hb'
          exact ih _ ha (hentries _ ha) (hall _ _ _ ha ha') hab hab'

/-- In whatever order the entries of its objects are visited, coercion goes through a value exactly
when every number in it has a decimal, it then makes of it what belongs to it, and that is the same
value in any order. -/
theorem coerce_leafwise {v u : Value} (hv : v.WellFormed) (hu : v.Reordered u) :
    ((∃ x, u.coerce.result = .ok x) ↔ v.Each HasDecimal)
    ∧ (∀ x, u.coerce.result = .ok x ↔ u.CoercesTo x)
    ∧ ∀ w x, v.coerce.result = .ok w → u.coerce.result = .ok x → w.Reordered x := by
  have hsucceeds : (∃ x, u.coerce.result = .ok x) ↔ u.Each HasDecimal := by
    simp only [result_eq_ok_iff, exists_coercesTo_iff]
  refine ⟨?_, fun x => result_eq_ok_iff, fun w x hw hx => ?_⟩
  · rw [hsucceeds]
    exact ⟨hu.symm.each HasDecimal.reordered, hu.each HasDecimal.reordered⟩
  · exact (result_eq_ok_iff.mp hw).reordered hv hu (result_eq_ok_iff.mp hx)

def order : Value :=
  object [("tags", set [number (.int 1), number (.decimal ⟨10, 1⟩)]), ("amount", number (.uint 7))]

def orderBack : Value :=
  object [("amount", number (.uint 7)), ("tags", set [number (.int 1), number (.decimal ⟨10, 1⟩)])]

def orderCoerced : Value :=
  object [("tags", set [number (.decimal ⟨1, 0⟩)]), ("amount", number (.decimal ⟨7, 0⟩))]

theorem coerce_leafwise_order :
    let back := object [("amount", number (.decimal ⟨7, 0⟩)), ("tags", set [number (.decimal ⟨1, 0⟩)])]
    order.WellFormed ∧ order.Reordered orderBack
    ∧ order.Each HasDecimal ∧ orderBack.CoercesTo back ∧ orderCoerced.Reordered back := by
  have hwell : order.WellFormed := by decide
  have hback : order.Reordered orderBack := by
    refine Reordered.of_perm (List.Perm.swap _ _ _) hwell.1 fun e he => ?_
    exact Reordered.refl ((eachOfEntries_iff _ _).mp hwell.2 e he)
  have hw : order.coerce.result = .ok orderCoerced := rfl
  have hx : orderBack.coerce.result = .ok (object [("amount", number (.decimal ⟨7, 0⟩)),
    ("tags", set [number (.decimal ⟨1, 0⟩)])]) := rfl
  obtain ⟨hsucceeds, hiff, hsame⟩ := coerce_leafwise hwell hback
  exact ⟨hwell, hback, hsucceeds.mp ⟨_, hx⟩, (hiff _).mp hx, hsame _ _ hw hx⟩

/-- What coercion leaves when it goes through, a second pass leaves as it is. -/
theorem coerce_idempotent {v w : Value} (h : v.coerce.result = .ok w) : w.coerce = ⟨w, none⟩ :=
  coerce_eq_iff.mpr (result_eq_ok_iff.mp h).again

/-- Sets within lists and sets: two members become equal when the sets in them have shrunk. -/
theorem coerce_idempotent_nested :
    let v := array [order, set [order, orderBack, set [order, number (.uint 7)]]]
    let w := array [orderCoerced, set [orderCoerced, set [orderCoerced, number (.decimal ⟨7, 0⟩)]]]
    v.coerce.result = .ok w ∧ w.coerce = ⟨w, none⟩ := by
  intro v w
  have h : v.coerce.result = .ok w := rfl
  exact ⟨h, coerce_idempotent h⟩

end Value

end DecisionService
