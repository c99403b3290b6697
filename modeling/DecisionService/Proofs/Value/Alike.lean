import Mathlib
import DecisionService.Proofs.MessagePack.Lossless
import DecisionService.Proofs.Value.Same
/-!
# Values alike

Values that are alike differ in how decimals are written at most. Look-ups, comparisons and the
choice of distinct members cannot tell them apart, and what is put together of them is alike again.
-/
namespace DecisionService

namespace Number

theorem Alike.trans {l m n : Number} (h : l.Alike m) (h' : m.Alike n) : l.Alike n := by
  cases h with
  | exact => exact h'
  | decimal h =>
    cases h' with
    | exact => exact .decimal h
    | decimal h' => exact .decimal (Decimal.same_trans h h')

theorem Alike.same_eq {m m' n n' : Number} (hm : m.Alike m') (hn : n.Alike n') :
    m.same n = m'.same n' := by
  have hdecimal : ∀ {x x' y y' : Decimal}, x.same x' = true → y.same y' = true →
      x.same y = x'.same y' := by
    intro x x' y y' hx hy
    rw [Decimal.same_iff] at hx hy
    rw [Bool.eq_iff_iff, Decimal.same_iff, Decimal.same_iff, hx, hy]
  cases hm with
  | exact =>
    cases hn with
    | exact => rfl
    | decimal hy =>
      cases m <;> try rfl
      exact hdecimal (Decimal.same_refl _) hy
  | decimal hx =>
    cases hn with
    | exact =>
      cases n <;> try rfl
      exact hdecimal hx (Decimal.same_refl _)
    | decimal hy => exact hdecimal hx hy

end Number

namespace Value

theorem alikeList_iff (as bs : List Value) : AlikeList as bs ↔ List.Forall₂ Alike as bs := by
  induction as generalizing bs with
  | nil => cases bs <;> simp [AlikeList]
  | cons a as ih => cases bs <;> simp [AlikeList, ih]

theorem alikeEntries_iff (as bs : Entries Value) :
    AlikeEntries as bs ↔ List.Forall₂ (fun a b => a.1 = b.1 ∧ a.2.Alike b.2) as bs := by
  induction as generalizing bs with
  | nil => cases bs <;> simp [AlikeEntries]
  | cons a as ih => cases bs <;> simp [AlikeEntries, ih, and_assoc]

theorem alike_refl (v : Value) : v.Alike v := by
  induction v using Value.induction with
  | null => trivial
  | bool | string => rfl
  | number n => exact .exact n
  | array items ih | set items ih =>
    exact (alikeList_iff items items).mpr (List.forall₂_same.mpr ih)
  | object entries ih =>
    exact (alikeEntries_iff entries entries).mpr (List.forall₂_same.mpr fun e he => ⟨rfl, ih e he⟩)

section Entries

variable {as bs : Entries Value}

theorem names_alike (h : AlikeEntries as bs) : as.names = bs.names := by
  rw [alikeEntries_iff] at h
  induction h with
  | nil => rfl
  | cons hab _ ih => simp only [Entries.names, List.map_cons, hab.1] at ih ⊢; rw [ih]

theorem get?_alike (h : AlikeEntries as bs) (name : String) :
    Option.Rel Alike (as.get? name) (bs.get? name) := by
  rw [alikeEntries_iff] at h
  induction h with
  | nil => exact .none
  | @cons a b as bs hab _ ih =>
    obtain ⟨k, v⟩ := a
    obtain ⟨l, w⟩ := b
    obtain ⟨rfl, hvw⟩ := hab
    by_cases hk : k = name
    · simp only [Entries.get?, hk, if_true]
      exact .some hvw
    · simp only [Entries.get?, hk, if_false]
      exact ih

theorem put_alike (h : AlikeEntries as bs) (name : String) {v w : Value} (hvw : v.Alike w) :
    AlikeEntries (as.put name v) (bs.put name w) := by
  rw [alikeEntries_iff] at h ⊢
  induction h with
  | nil => exact .cons ⟨rfl, hvw⟩ .nil
  | @cons a b as bs hab hrest ih =>
    obtain ⟨k, x⟩ := a
    obtain ⟨l, y⟩ := b
    obtain ⟨rfl, hxy⟩ := hab
    by_cases hk : k = name
    · simp only [Entries.put, hk, if_true]
      exact .cons ⟨rfl, hvw⟩ hrest
    · simp only [Entries.put, hk, if_false]
      exact .cons ⟨rfl, hxy⟩ ih

end Entries

section Shapes

variable {w : Value}

theorem null_alike (h : null.Alike w) : w = null := by
  cases w with
  | null => rfl
  | _ => cases h

theorem bool_alike {b : Bool} (h : (bool b).Alike w) : w = bool b := by
  cases w with
  | bool c => exact congrArg bool (Eq.symm h)
  | _ => cases h

theorem string_alike {s : String} (h : (string s).Alike w) : w = string s := by
  cases w with
  | string t => exact congrArg string (Eq.symm h)
  | _ => cases h

theorem number_alike {m : Number} (h : (number m).Alike w) : ∃ n, w = number n ∧ m.Alike n := by
  cases w with
  | number n => exact ⟨n, rfl, h⟩
  | _ => cases h

theorem array_alike {as : List Value} (h : (array as).Alike w) :
    ∃ bs, w = array bs ∧ List.Forall₂ Alike as bs := by
  cases w with
  | array bs => exact ⟨bs, rfl, (alikeList_iff as bs).mp h⟩
  | _ => cases h

theorem set_alike {as : List Value} (h : (set as).Alike w) :
    ∃ bs, w = set bs ∧ List.Forall₂ Alike as bs := by
  cases w with
  | set bs => exact ⟨bs, rfl, (alikeList_iff as bs).mp h⟩
  | _ => cases h

theorem object_alike {as : Entries Value} (h : (object as).Alike w) :
    ∃ bs, w = object bs ∧ AlikeEntries as bs := by
  cases w with
  | object bs => exact ⟨bs, rfl, h⟩
  | _ => cases h

end Shapes

theorem Alike.trans {u v w : Value} (h : u.Alike v) (h' : v.Alike w) : u.Alike w := by
  induction u using Value.induction generalizing v w with
  | null => rwa [null_alike h] at h'
  | bool b => rwa [bool_alike h] at h'
  | string s => rwa [string_alike h] at h'
  | number l =>
    obtain ⟨m, rfl, hlm⟩ := number_alike h
    obtain ⟨n, rfl, hmn⟩ := number_alike h'
    exact hlm.trans hmn
  | array items ih =>
    obtain ⟨bs, rfl, hab⟩ := array_alike h
    obtain ⟨cs, rfl, hbc⟩ := array_alike h'
    exact (alikeList_iff _ _).mpr (forall₂_trans ih hab hbc)
  | set members ih =>
    obtain ⟨bs, rfl, hab⟩ := set_alike h
    obtain ⟨cs, rfl, hbc⟩ := set_alike h'
    exact (alikeList_iff _ _).mpr (forall₂_trans ih hab hbc)
  | object entries ih =>
    obtain ⟨bs, rfl, hab⟩ := object_alike h
    obtain ⟨cs, rfl, hbc⟩ := object_alike h'
    rw [alikeEntries_iff] at hab hbc
    refine (alikeEntries_iff _ _).mpr (forall₂_trans (fun e he => ?_) hab hbc)
    exact fun h h' => ⟨h.1.trans h'.1, ih e he h.2 h'.2⟩

private theorem sameList_eq {as as' bs bs' : List Value}
    (ih : ∀ a ∈ as, ∀ {a' b b' : Value}, a.Alike a' → b.Alike b' → a.same b = a'.same b')
    (ha : List.Forall₂ Alike as as') (hb : List.Forall₂ Alike bs bs') :
    sameList as bs = sameList as' bs' := by
  induction ha generalizing bs bs' with
  | nil => cases hb <;> rfl
  | cons haa _ rest =>
    cases hb with
    | nil => rfl
    | cons hbb hb =>
      rw [sameList, sameList, ih _ List.mem_cons_self haa hbb,
        rest (fun a ha => ih a (List.mem_cons_of_mem _ ha)) hb]

private theorem sameEntries_eq {as as' bs bs' : Entries Value}
    (ih : ∀ e ∈ as, ∀ {a' b b' : Value}, e.2.Alike a' → b.Alike b' → e.2.same b = a'.same b')
    (ha : AlikeEntries as as') (hb : AlikeEntries bs bs') :
    sameEntries as bs = sameEntries as' bs' := by
  rw [alikeEntries_iff] at ha
  induction ha with
  | nil => rfl
  | @cons a a' as as' haa _ rest =>
    obtain ⟨name, v⟩ := a
    obtain ⟨name', v'⟩ := a'
    obtain ⟨rfl, hvv⟩ := haa
    have hget := get?_alike hb name
    rw [sameEntries, sameEntries, rest fun e he => ih e (List.mem_cons_of_mem _ he)]
    generalize bs.get? name = x, bs'.get? name = y at hget
    cases hget with
    | none => rfl
    | @some x y hxy =>
      have hsame : v.same x = v'.same y := ih (name, v) List.mem_cons_self hvv hxy
      simp only [hsame]

/-- Comparisons cannot tell values apart that are alike. -/
theorem Alike.same_eq {v v' w w' : Value} (hv : v.Alike v') (hw : w.Alike w') :
    v.same w = v'.same w' := by
  induction v using Value.induction generalizing v' w w' with
  | null =>
    rw [null_alike hv]
    cases w <;> cases w' <;> first | rfl | cases hw
  | bool b =>
    rw [bool_alike hv]
    cases w <;> cases w' <;> first | rfl | cases hw
    rfl
  | string s =>
    rw [string_alike hv]
    cases w <;> cases w' <;> first | rfl | cases hw
    rfl
  | number m =>
    obtain ⟨m', rfl, hm⟩ := number_alike hv
    cases w <;> cases w' <;> first | rfl | exact hm.same_eq hw | cases hw
  | array items ih =>
    obtain ⟨items', rfl, hitems⟩ := array_alike hv
    cases w <;> cases w' <;> first | rfl | cases hw | skip
    exact sameList_eq ih hitems ((alikeList_iff _ _).mp hw)
  | set members ih =>
    obtain ⟨members', rfl, hmembers⟩ := set_alike hv
    cases w <;> cases w' <;> first | rfl | cases hw | skip
    exact sameList_eq ih hmembers ((alikeList_iff _ _).mp hw)
  | object entries ih =>
    obtain ⟨entries', rfl, hentries⟩ := object_alike hv
    cases w <;> cases w' <;> first | rfl | cases hw | skip
    next as as' =>
    have hlength : entries.length = entries'.length :=
      ((alikeEntries_iff _ _).mp hentries).length_eq
    have hlength' : as.length = as'.length := ((alikeEntries_iff _ _).mp hw).length_eq
    rw [same, same, hlength, hlength', sameEntries_eq ih hentries hw]

theorem distinct_alike {items items' : List Value} (h : List.Forall₂ Alike items items') :
    List.Forall₂ Alike (distinct items) (distinct items') :=
  forall₂_distinct Alike.same_eq h

theorem Alike.wellFormed {v w : Value} (h : v.Alike w) (hv : v.WellFormed) : w.WellFormed := by
  induction v using Value.induction generalizing w with
  | null => rwa [null_alike h]
  | bool b => rwa [bool_alike h]
  | string s => rwa [string_alike h]
  | number m =>
    obtain ⟨n, rfl, -⟩ := number_alike h
    trivial
  | array items ih =>
    obtain ⟨bs, rfl, hab⟩ := array_alike h
    have hitems := (eachOfList_iff _ _).mp hv.2
    refine ⟨trivial, (eachOfList_iff _ _).mpr fun w hw => ?_⟩
    obtain ⟨v, hmem, h⟩ := exists_of_forall₂ hab w hw
    exact ih v hmem h (hitems v hmem)
  | set members ih =>
    obtain ⟨bs, rfl, hab⟩ := set_alike h
    have hmembers := (eachOfList_iff _ _).mp hv.2
    refine ⟨trivial, (eachOfList_iff _ _).mpr fun w hw => ?_⟩
    obtain ⟨v, hmem, h⟩ := exists_of_forall₂ hab w hw
    exact ih v hmem h (hmembers v hmem)
  | object entries ih =>
    obtain ⟨bs, rfl, hab⟩ := object_alike h
    have hentries := (eachOfEntries_iff _ _).mp hv.2
    have hnames : (Entries.names bs).Nodup := by
      rw [← names_alike hab]
      exact hv.1
    rw [alikeEntries_iff] at hab
    refine ⟨hnames, (eachOfEntries_iff _ _).mpr fun e' he' => ?_⟩
    obtain ⟨e, he, -, h⟩ := exists_of_forall₂ hab e' he'
    exact ih e he h (hentries e he)

end Value

namespace Context

variable {a b : Context}

theorem Alike.get? (h : a.Alike b) (name : String) :
    Option.Rel Value.Alike (a.get? name) (b.get? name) :=
  Value.get?_alike h name

theorem Alike.contains (h : a.Alike b) (name : String) : a.contains name = b.contains name := by
  have hrel := h.get? name
  change (a.get? name).isSome = (b.get? name).isSome
  generalize a.get? name = x, b.get? name = y at hrel
  cases hrel <;> rfl

theorem Alike.set (h : a.Alike b) (name : String) {v w : Value} (hvw : v.Alike w) :
    (a.set name v).Alike (b.set name w) :=
  Value.put_alike h name hvw

theorem Alike.trans {c : Context} (h : a.Alike b) (h' : b.Alike c) : a.Alike c := by
  have hobject : (Value.object a.entries).Alike (.object c.entries) :=
    Value.Alike.trans (v := .object b.entries) h h'
  exact hobject

theorem Alike.wellFormed (h : a.Alike b) (ha : a.WellFormed) : b.WellFormed := by
  have hobject : (Value.object a.entries).Alike (.object b.entries) := h
  exact hobject.wellFormed ha

theorem WellFormed.get? (h : a.WellFormed) {name : String} {v : Value}
    (hv : a.get? name = some v) : v.WellFormed :=
  (Value.eachOfEntries_iff _ _).mp h.2 _ (Entries.mem_of_get? hv)

theorem WellFormed.set (h : a.WellFormed) (name : String) {v : Value} (hv : v.WellFormed) :
    (a.set name v).WellFormed := by
  refine ⟨Entries.nodup_put v h.1, (Value.eachOfEntries_iff _ _).mpr fun e he => ?_⟩
  rcases Entries.mem_put he with rfl | he
  · exact hv
  · exact (Value.eachOfEntries_iff _ _).mp h.2 e he

end Context

theorem DecisionResult.Alike.trans {a b c : DecisionResult} (h : a.Alike b) (h' : b.Alike c) :
    a.Alike c :=
  ⟨h.id.trans h'.id, h.name.trans h'.name, h.result.trans h'.result, h.status.trans h'.status⟩

theorem Report.Alike.trans {a b c : Report} (h : a.Alike b) (h' : b.Alike c) : a.Alike c := by
  have hdecisions : List.Forall₂ DecisionResult.Alike a.decisions c.decisions :=
    forall₂_trans (fun _ _ => DecisionResult.Alike.trans) h.decisions h'.decisions
  exact ⟨h.modelNamespace.trans h'.modelNamespace, h.modelName.trans h'.modelName,
    h.names.trans h'.names, h.context.trans h'.context, h.messages.trans h'.messages, hdecisions⟩

theorem Response.Alike.trans {a b c : Response Report} (h : a.Alike Report.Alike b)
    (h' : b.Alike Report.Alike c) : a.Alike Report.Alike c := by
  refine ⟨h.type.trans h'.type, h.text.trans h'.text, ?_⟩
  have hresult := h.result
  have hresult' := h'.result
  generalize a.result? = x, b.result? = y, c.result? = z at hresult hresult' ⊢
  cases hresult with
  | none => exact hresult'
  | some hxy =>
    cases hresult' with
    | some hyz => exact .some (hxy.trans hyz)

end DecisionService
