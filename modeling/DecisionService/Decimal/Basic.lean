import DecisionService.Bytes
/-!
# Decimal numbers

A decimal is an unscaled integer with a scale: it stands for `digits · 10 ^ (-scale)`. Trailing
zeros are kept, so one value has many decimals; `same` compares values. The scale is a 64-bit word.
-/
namespace DecisionService

/-- `digits · 10 ^ (-scale)`. -/
structure Decimal where
  digits : Int
  scale : Int64
deriving DecidableEq, Repr

namespace Decimal

def digitCount (n : Nat) : Nat :=
  (Nat.toDigits 10 n).length

def ofInt (n : Int) : Decimal :=
  ⟨n, 0⟩

def precision (d : Decimal) : Nat :=
  digitCount d.digits.natAbs

/-- `a · 10 ^ shift = b`, decided without writing out a power longer than `b`. -/
def shiftsTo (a : Int) (shift : Nat) (b : Int) : Bool :=
  if a = 0 then b == 0
  else shift < digitCount b.natAbs && a * 10 ^ shift == b

def same (x y : Decimal) : Bool :=
  if x.scale.toInt ≤ y.scale.toInt then
    shiftsTo x.digits (y.scale.toInt - x.scale.toInt).toNat y.digits
  else
    shiftsTo y.digits (x.scale.toInt - y.scale.toInt).toNat x.digits

def isWhole (d : Decimal) : Bool :=
  d.scale.toInt ≤ 0 || d.digits == 0
    || (d.scale.toInt < digitCount d.digits.natAbs
      && d.digits.tmod (10 ^ d.scale.toInt.toNat) == 0)

/-- A number with zeros put behind it. Zero stays zero, so nothing is written out for it. -/
def shift (a : Int) (places : Nat) : Int :=
  if a = 0 then 0 else a * 10 ^ places

def truncate (d : Decimal) : Int :=
  if d.scale.toInt ≤ 0 then shift d.digits (-d.scale.toInt).toNat
  else if d.scale.toInt < digitCount d.digits.natAbs then
    d.digits.tdiv (10 ^ d.scale.toInt.toNat)
  else 0

def digitsAt (d : Decimal) (scale : Int64) : Int :=
  shift d.digits (scale.toInt - d.scale.toInt).toNat

def add (x y : Decimal) : Decimal :=
  let scale := if x.scale.toInt ≤ y.scale.toInt then y.scale else x.scale
  ⟨x.digitsAt scale + y.digitsAt scale, scale⟩

/-- The product with an integer, at the same scale. A decimal that is written as plain one hands the
integer over as it is. -/
def times (d : Decimal) (n : Int) : Decimal :=
  if d = ofInt 1 then ofInt n
  else if n = 1 then d
  else ⟨d.digits * n, d.scale⟩

def decimal128Digits : Nat := 34

def dropped (limit : Nat) (d : Decimal) : Nat :=
  d.precision - limit

/-- Cut to `limit` digits. The digits cut off add one to the last digit kept when they are
positive and at least half of its unit; a negative number loses them without a trace. The scale
gets smaller by their number, and where no word holds it there is no result. -/
def roundTo (limit : Nat) (d : Decimal) : Option Decimal :=
  if d.precision ≤ limit then some d
  else
    let unit : Int := 10 ^ d.dropped limit
    let carry : Int := if unit ≤ 2 * d.digits.tmod unit then 1 else 0
    let scale := d.scale.toInt - d.dropped limit
    if -(2 ^ 63) ≤ scale then some ⟨d.digits.tdiv unit + carry, Int64.ofInt scale⟩ else none

def toDecimal128 (d : Decimal) : Option Decimal :=
  d.roundTo decimal128Digits

theorem shift_eq (a : Int) (places : Nat) : shift a places = a * 10 ^ places := by
  by_cases h : a = 0 <;> simp [shift, h]

@[simp] theorem roundTo_of_le {limit : Nat} {d : Decimal} (h : d.precision ≤ limit) :
    d.roundTo limit = some d := by
  simp [roundTo, h]

end Decimal

end DecisionService
