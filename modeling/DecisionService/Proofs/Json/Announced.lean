import Mathlib
import DecisionService.Proofs.Json.Integral
/-!
# Objects that announce a number

An object is read as a number when the name written first announces a literal. Every other object
is read back as an object, in whatever order its entries are written.
-/
namespace DecisionService.Json

namespace Doc

theorem mismatch_ne_ok {α : Type} (expected : String) (doc : Doc) (a : α) :
    doc.mismatch expected ≠ .ok a := by
  intro h
  obtain ⟨found, -, h⟩ := Outcome.bind_eq_ok.mp h
  cases h

theorem text_eq_ok {doc : Doc} {s : String} : doc.text = .ok s ↔ doc = string (.ok s) := by
  constructor
  · intro h
    cases doc with
    | string text =>
      cases text with
      | ok t => exact congrArg (fun t => string (.ok t)) (Except.ok.inj h)
      | error flaw => cases h
    | _ => exact absurd h (mismatch_ne_ok _ _ _)
  · rintro rfl
    rfl

theorem announced_eq_ok {expected : String} {literal : Doc}
    {rest : List (Except Flaw String × Doc)} {n : Number} :
    announced expected literal rest .closed = .ok n ↔
      ∃ s, literal = string (.ok s) ∧ Number.ofLiteral s.toList = some n ∧ rest = [] := by
  unfold announced
  simp only [Outcome.bind_eq_ok, text_eq_ok, untyped_eq_ok]
  constructor
  · rintro ⟨s, hs, m, hm, hend⟩
    cases rest with
    | nil =>
      cases hend
      exact ⟨s, hs, hm, rfl⟩
    | cons member rest => cases hend
  · rintro ⟨s, hs, hm, rfl⟩
    exact ⟨s, hs, n, hm, rfl⟩

theorem ofEntries_cons {name : String} {v : Value} {rest : Entries Value}
    {members : List (Except Flaw String × Doc)} (h : ofEntries ((name, v) :: rest) = .ok members) :
    ∃ doc others, ofValue v = .ok doc ∧ ofEntries rest = .ok others
      ∧ members = (.ok name, doc) :: others := by
  obtain ⟨doc, hdoc, h⟩ := Outcome.bind_eq_ok.mp h
  obtain ⟨others, hothers, h⟩ := Outcome.bind_eq_ok.mp h
  cases h
  exact ⟨doc, others, hdoc, hothers, rfl⟩

theorem ofEntries_eq_nil_iff {entries : Entries Value} {members : List (Except Flaw String × Doc)}
    (h : ofEntries entries = .ok members) : members = [] ↔ entries = [] := by
  cases entries with
  | nil =>
    cases h
    simp
  | cons e rest =>
    obtain ⟨doc, others, -, -, rfl⟩ := ofEntries_cons h
    simp

theorem value_announcing {depth : Nat} (h : 0 < depth) (literal : Doc)
    (rest : List (Except Flaw String × Doc)) (stop : Stop) :
    value depth (object ((.ok literalName, literal) :: rest) stop)
      = (announced valueWords literal rest stop).map .number := by
  obtain ⟨depth, rfl⟩ := Nat.exists_eq_succ_of_ne_zero h.ne'
  rw [value, announcement?, if_pos rfl]

end Doc

end DecisionService.Json

namespace DecisionService

namespace Value

def IsScalar : Value → Prop
  | null | bool _ | string _ => True
  | number n => ∃ i, n.Holds i
  | array _ | set _ | object _ => False

instance : DecidablePred IsScalar := fun v =>
  match v with
  | number n => decidable_of_iff (n.isPlain = true) n.isPlain_iff
  | null | bool _ | string _ => isTrue trivial
  | array _ | set _ | object _ => isFalse not_false

/-- What holds of an object of scalars and of every scalar holds all through the object. -/
theorem each_of_scalars {p : Value → Prop} {entries : Entries Value}
    (h : ∀ e ∈ entries, e.2.IsScalar) (hobject : p (object entries))
    (hp : ∀ v : Value, v.IsScalar → p v) : (object entries).Each p := by
  refine ⟨hobject, (eachOfEntries_iff _ _).mpr fun e he => ?_⟩
  have hscalar := h e he
  have hpart := hp e.2 hscalar
  generalize e.2 = v at hscalar hpart
  cases v with
  | array | set | object => exact hscalar.elim
  | _ => exact hpart

theorem IsScalar.namesOnce {v : Value} (h : v.IsScalar) : v.NamesOnce := by
  cases v with
  | object => exact h.elim
  | _ => trivial

theorem IsScalar.startsPlain {v : Value} (h : v.IsScalar) : Json.StartsPlain v := by
  cases v with
  | object => exact h.elim
  | _ => trivial

theorem IsScalar.isInteger {v : Value} (h : v.IsScalar) : v.IsInteger := by
  cases v with
  | number n => exact h
  | _ => trivial

theorem IsScalar.height_eq {v : Value} (h : v.IsScalar) : v.height = 0 := by
  cases v with
  | array | set | object => exact h.elim
  | _ => rfl

end Value

namespace Json

/-- The number of an object whose first name announces a literal: a text that is a literal stands
behind the name, and nothing else. -/
def announcedNumber? : Entries Value → Option Number
  | [(_, .string s)] => Number.ofLiteral s.toList
  | _ => none

theorem ofValue_eq_string {v : Value} (h : v.IsScalar) {doc : Doc} (hw : Doc.ofValue v = .ok doc)
    {s : String} : doc = .string (.ok s) ↔ v = .string s := by
  cases v with
  | null | bool =>
    cases hw
    simp
  | string t =>
    cases hw
    simp
  | number n =>
    obtain ⟨i, hi⟩ := h
    obtain ⟨doc', hdoc, hgives, -⟩ := Doc.ofNumber_gives n
    rw [Doc.ofValue, hdoc] at hw
    cases hw
    constructor
    · intro heq
      have hread := hgives.read 0
      rw [heq, arriving_of_holds hi, Doc.value.eq_def] at hread
      cases hread
    · intro heq
      cases heq
  | array | set | object => exact h.elim

theorem announcedNumber?_eq_some {name : String} {v : Value} {rest : Entries Value} {n : Number} :
    announcedNumber? ((name, v) :: rest) = some n ↔
      ∃ s, v = .string s ∧ Number.ofLiteral s.toList = some n ∧ rest = [] := by
  cases rest with
  | nil => cases v <;> simp [announcedNumber?]
  | cons e rest => simp [announcedNumber?]

private theorem value_of_startsPlain {entries written : Entries Value}
    (hnames : entries.names.Nodup) (hs : ∀ e ∈ entries, e.2.IsScalar) (hperm : entries.Perm written)
    (hplain : StartsPlain (.object written)) {doc : Doc}
    (hdoc : Doc.ofValue (.object written) = .ok doc) : ∃ back : Entries Value,
      Doc.value levels doc = .ok (.object back)
      ∧ (Value.object entries).Narrowed (.object back) := by
  have hall : ∀ e ∈ written, e.2.IsScalar := fun e he => hs e (hperm.mem_iff.mpr he)
  have hreadable : Readable (.object written) :=
    Value.each_of_scalars hall hplain fun _ => Value.IsScalar.startsPlain
  have hwell : (Value.object entries).WellFormed :=
    Value.each_of_scalars hs hnames fun _ => Value.IsScalar.namesOnce
  have hintegral : (Value.object entries).Integral :=
    Value.each_of_scalars hs trivial fun _ => Value.IsScalar.isInteger
  have hentries := (Value.eachOfEntries_iff _ _).mp hwell.2
  have hwritten : (Value.object entries).Reordered (.object written) :=
    .of_perm hperm hnames fun e he => .refl (hentries e he)
  have hflat : Value.heightOfEntries written ≤ 0 :=
    Value.heightOfEntries_le.mpr fun e he => (hall e he).height_eq.le
  have hheight : (Value.object written).height ≤ levels :=
    (Nat.succ_le_succ hflat).trans (by decide)
  refine ⟨_, ?_, narrowed_relay hwell hintegral hwritten⟩
  rw [Doc.value_ofValue hreadable hdoc, if_pos hheight, Value.relay]

private theorem value_eq_ok_of_announcing {literal : Value} {rest : Entries Value}
    (hs : literal.IsScalar) {doc : Doc}
    (hdoc : Doc.ofValue (.object ((literalName, literal) :: rest)) = .ok doc) (v : Value) :
    Doc.value levels doc = .ok v
      ↔ ∃ n, announcedNumber? ((literalName, literal) :: rest) = some n ∧ v = .number n := by
  obtain ⟨members, hmembers, hobject⟩ := Outcome.bind_eq_ok.mp hdoc
  obtain ⟨first, others, hfirst, hothers, rfl⟩ := Doc.ofEntries_cons hmembers
  cases hobject
  rw [Doc.value_announcing (by decide), Outcome.map_eq_ok]
  refine exists_congr fun n => and_congr_left fun _ => ?_
  rw [Doc.announced_eq_ok, announcedNumber?_eq_some, Doc.ofEntries_eq_nil_iff hothers]
  exact exists_congr fun s => and_congr_left fun _ => ofValue_eq_string hs hfirst

/-- An object of scalars comes back as an object in whatever order it is written, unless the name
written first announces a literal: then it comes back as that number, or not at all. -/
theorem unmarshal_marshal_object {entries written : Entries Value} (hnames : entries.names.Nodup)
    (hs : ∀ e ∈ entries, e.2.IsScalar) (hperm : entries.Perm written) : ∃ bytes,
      Format.json.marshal (Value.object written) = .ok bytes
      ∧ (written.names.head? ≠ some literalName → ∃ back : Entries Value,
        Format.json.unmarshal bytes = .ok (Value.object back)
        ∧ (Value.object entries).Narrowed (.object back))
      ∧ (written.names.head? = some literalName → ∀ v : Value,
        Format.json.unmarshal bytes = .ok v
          ↔ ∃ n, announcedNumber? written = some n ∧ v = .number n) := by
  obtain ⟨doc, hdoc, -⟩ := Doc.exists_ofValue (.object written)
  obtain ⟨hm, hu⟩ := unmarshal_value hdoc
  refine ⟨doc.render, hm, fun hhead => ?_, fun hhead v => ?_⟩
  · have hplain : StartsPlain (.object written) := by
      cases written with
      | nil => trivial
      | cons e rest => exact fun hname => hhead (congrArg some hname)
    obtain ⟨back, hvalue, hback⟩ := value_of_startsPlain hnames hs hperm hplain hdoc
    exact ⟨back, by rw [hu, hvalue]; rfl, hback⟩
  · cases written with
    | nil => cases hhead
    | cons e rest =>
      obtain ⟨name, literal⟩ := e
      obtain rfl : name = literalName := Option.some.inj hhead
      have hliteral : literal.IsScalar := hs _ (hperm.mem_iff.mpr List.mem_cons_self)
      rw [hu, Outcome.mapError_eq_ok, value_eq_ok_of_announcing hliteral hdoc]

def announcingEntries (first : Bool) : Entries Value :=
  let other := ("paid", .bool true)
  if first then [(literalName, .string "12"), other] else [other, (literalName, .string "12")]

theorem unmarshal_marshal_object_last : ∃ bytes,
    Format.json.marshal (Value.object (announcingEntries false)) = .ok bytes
    ∧ ∃ back : Entries Value, Format.json.unmarshal bytes = .ok (Value.object back)
      ∧ (Value.object (announcingEntries true)).Narrowed (.object back) := by
  have hperm : (announcingEntries true).Perm (announcingEntries false) := List.Perm.swap _ _ _
  obtain ⟨bytes, hm, hread, -⟩ := unmarshal_marshal_object (by decide) (by decide) hperm
  exact ⟨bytes, hm, hread (by decide)⟩

def ReadBackAs (v : Value) (back : Option Value) : Prop :=
  ∃ bytes, Format.json.marshal v = .ok bytes
    ∧ (Format.json.unmarshal bytes : Except FormatError Value).toOption = back

private theorem readBackAs {v : Value} {doc : Doc} {back : Option Value}
    (hdoc : Doc.ofValue v = .ok doc) (hback : (Doc.value levels doc).toOption = back) :
    ReadBackAs v back := by
  obtain ⟨hm, hu⟩ := unmarshal_value hdoc
  refine ⟨doc.render, hm, ?_⟩
  rw [hu, ← hback]
  cases Doc.value levels doc <;> rfl

private theorem readBackAs_relay {v : Value} (h : Readable v) (hd : v.height ≤ levels) :
    ReadBackAs v (some (v.relay medium)) := by
  obtain ⟨doc, hdoc, -⟩ := Doc.exists_ofValue v
  apply readBackAs hdoc
  rw [Doc.value_ofValue h hdoc, if_pos hd]
  rfl

theorem announcing_objects :
    ReadBackAs (.object [(literalName, .string "12")]) (some (.number (.int 12)))
    ∧ ReadBackAs (.object (announcingEntries true)) none
    ∧ ReadBackAs (.object (announcingEntries false)) (some (.object (announcingEntries false)))
    ∧ ReadBackAs (.object [("paid", .number (.big 5))])
      (some (.object [("paid", .number (.int 5))])) :=
  ⟨readBackAs rfl rfl, readBackAs rfl rfl, readBackAs_relay (by decide) (by decide),
    readBackAs_relay (by decide) (by decide)⟩

end Json

end DecisionService
