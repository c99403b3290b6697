import Mathlib
import DecisionService.Proofs.Json.Payload
import DecisionService.Proofs.Value.Equivalent
import DecisionService.Proofs.Value.Reordered
/-!
# Integers through JSON

JSON keeps an integer of any size and forgets in which form it was held: it comes back in the
narrowest one. A value whose numbers are all integers comes back as the same tree, with lists for
sets.
-/
namespace DecisionService

namespace Number

def Holds : Number → Int → Prop
  | .int n, i => n.toInt = i
  | .uint n, i => (n.toNat : Int) = i
  | .big n, i => n = i
  | .decimal d, i => d.toRat = i
  | .float _, _ | .text _, _ => False

/-- The second number is the integer of the first in its narrowest form, and both have the same
decimal. -/
structure Narrows (n m : Number) : Prop where
  narrowest : ∃ i, n.Holds i ∧ m = ofInt i
  decimal : ∃ d d', n.toDecimal = .ok d ∧ m.toDecimal = .ok d' ∧ d.same d' = true

theorem isPlain_iff (n : Number) : n.isPlain = true ↔ ∃ i, n.Holds i := by
  cases n with
  | int n | uint n | big n => simp [isPlain, Holds]
  | decimal d => exact d.isWhole_iff
  | float | text => simp [isPlain, Holds]

theorem Holds.toDecimal_eq {n : Number} {i : Int} (h : n.Holds i) :
    ∃ d, n.toDecimal = .ok d ∧ d.toRat = i := by
  cases n with
  | int n | uint n | big n => exact ⟨_, rfl, by rw [← show _ = i from h, Decimal.toRat_ofInt]⟩
  | decimal d => exact ⟨d, rfl, h⟩
  | float | text => cases h

theorem holds_ofInt (i : Int) : (ofInt i).Holds i := by
  unfold ofInt
  split_ifs with hword hlong
  · exact Int64.toInt_ofInt_of_le hword.1 hword.2
  · have hsmall : i.toNat < 2 ^ 64 := by omega
    rw [Holds, UInt64.toNat_ofNat_of_lt' hsmall]
    exact Int.toNat_of_nonneg hlong.1
  · rfl

theorem Holds.narrows {n : Number} {i : Int} (h : n.Holds i) : n.Narrows (ofInt i) := by
  refine ⟨⟨i, h, rfl⟩, ?_⟩
  obtain ⟨d, hd, hrat⟩ := h.toDecimal_eq
  obtain ⟨d', hd', hrat'⟩ := (holds_ofInt i).toDecimal_eq
  refine ⟨d, d', hd, hd', ?_⟩
  rw [Decimal.same_iff, hrat, hrat']

end Number

namespace Value

def IsInteger : Value → Prop
  | number n => ∃ i, n.Holds i
  | _ => True

instance : DecidablePred IsInteger := fun v =>
  match v with
  | number n => decidable_of_iff (n.isPlain = true) n.isPlain_iff
  | null | bool _ | string _ | array _ | set _ | object _ => isTrue trivial

def Integral (v : Value) : Prop :=
  v.Each IsInteger

instance : DecidablePred Integral := fun v => decideEach IsInteger v

/-- The same tree, with a list for every set and every integer in its narrowest form. -/
abbrev Narrowed : Value → Value → Prop :=
  Corresponds Number.Narrows array

end Value

namespace Json

def NamesPlain : Value → Prop
  | .object entries => literalName ∉ Entries.names entries
  | _ => True

instance : DecidablePred NamesPlain := fun v =>
  match v with
  | .object _ => inferInstanceAs (Decidable (_ ∉ _))
  | .null | .bool _ | .number _ | .string _ | .array _ | .set _ => isTrue trivial

theorem startsPlain_of_namesPlain {v : Value} (h : NamesPlain v) : StartsPlain v := by
  cases v with
  | object entries =>
    cases entries with
    | nil => trivial
    | cons e rest => exact fun hname => h (hname ▸ List.mem_cons_self)
  | _ => trivial

theorem readable_of_reordered {v w : Value} (hw : v.Reordered w) (h : v.Each NamesPlain) :
    Readable w := by
  refine (hw.each (fun hvw hv => ?_) h).imp fun _ => startsPlain_of_namesPlain
  cases hvw with
  | object hnames hall => exact fun hmem => hv (hnames.mem_iff.mpr hmem)
  | _ => trivial

theorem arriving_of_holds {n : Number} {i : Int} (h : n.Holds i) :
    arriving n = .number (.ofInt i) := by
  cases n with
  | int n | uint n | big n => exact congrArg (fun i => Value.number (.ofInt i)) h
  | decimal d =>
    obtain ⟨hwhole, htruncate⟩ := Decimal.truncate_eq h
    rw [arriving, if_pos hwhole, htruncate]
  | float | text => cases h

theorem ofNumber_of_holds {n : Number} {i : Int} (h : n.Holds i) :
    Doc.ofNumber n = .ok (.number (Literal.ofInteger i)) := by
  rw [← Doc.ofLiteral_integer]
  cases n with
  | int n | uint n | big n => exact congrArg (fun i => Doc.ofLiteral (Integer.text i)) h
  | decimal d =>
    obtain ⟨hwhole, htruncate⟩ := Decimal.truncate_eq h
    rw [Doc.ofNumber, if_pos hwhole, htruncate]
  | float | text => cases h

theorem narrowed_relay {v w : Value} (hv : v.WellFormed) (hi : v.Integral) (hw : v.Reordered w) :
    v.Narrowed (w.relay medium) := by
  have hleaf : ∀ n : Number, (Value.number n).IsInteger →
      ∃ n', medium.leaf n = .number n' ∧ n.Narrows n' := by
    rintro n ⟨i, hn⟩
    exact ⟨.ofInt i, arriving_of_holds hn, hn.narrows⟩
  exact hw.relay (m := medium) hleaf hv hi

/-- Integers come back from JSON, whatever their size and their form, and in whatever order the
objects are written. -/
theorem unmarshal_marshal_integral {v w : Value} (hv : v.WellFormed) (hi : v.Integral)
    (hn : v.Each NamesPlain) (hd : v.height ≤ levels) (hw : v.Reordered w) : ∃ bytes back,
      Format.json.marshal w = .ok bytes ∧ Format.json.unmarshal bytes = .ok back
      ∧ v.Narrowed back := by
  have hheight : w.height ≤ levels := hw.height_le.trans hd
  obtain ⟨bytes, hm, hu⟩ := unmarshal_marshal (a := w) (readable_of_reordered hw hn)
  exact ⟨bytes, w.relay medium, hm, hu.trans (if_pos hheight), narrowed_relay hv hi hw⟩

def integralSample (turned : Bool) : Value :=
  let entries := [("size \"\\\n\u00e9", Value.set [.number (.big (2 ^ 63)), .number (.int (-2))]),
    ("", .array [.number (.decimal ⟨1500, 2⟩), .number (.decimal ⟨-3, -30⟩), .string "\x00"])]
  .object (if turned then entries.reverse else entries)

theorem unmarshal_marshal_integral_turned : ∃ bytes back,
    Format.json.marshal (integralSample true) = .ok bytes
    ∧ Format.json.unmarshal bytes = .ok back ∧ (integralSample false).Narrowed back := by
  have hwell : (integralSample false).WellFormed := by decide
  have hentries := (Value.eachOfEntries_iff _ _).mp hwell.2
  refine unmarshal_marshal_integral hwell (by decide +kernel) (by decide) (by decide) ?_
  exact .of_perm (List.reverse_perm _).symm hwell.1 fun e he => .refl (hentries e he)

end Json

end DecisionService
