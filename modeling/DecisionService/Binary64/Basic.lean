import DecisionService.Decimal.Basic
/-!
# Binary floating point

A number of IEEE 754 binary64 is its 64 bits. A finite one stands for `±significand · 2 ^ exponent`,
and every other operation goes through that exact value.
-/
namespace DecisionService

/-- The bits of a binary64 number. -/
structure Binary64 where
  bits : UInt64
deriving DecidableEq, Repr

namespace Binary64

def isNegative (x : Binary64) : Bool :=
  2 ^ 63 ≤ x.bits.toNat

def exponentField (x : Binary64) : Nat :=
  x.bits.toNat / 2 ^ 52 % 2 ^ 11

def fractionField (x : Binary64) : Nat :=
  x.bits.toNat % 2 ^ 52

def isNaN (x : Binary64) : Bool :=
  x.exponentField == 2047 && x.fractionField != 0

def isInfinite (x : Binary64) : Bool :=
  x.exponentField == 2047 && x.fractionField == 0

def isFinite (x : Binary64) : Bool :=
  x.exponentField != 2047

def isZero (x : Binary64) : Bool :=
  x.exponentField == 0 && x.fractionField == 0

def isSubnormal (x : Binary64) : Bool :=
  x.exponentField == 0 && x.fractionField != 0

def significand (x : Binary64) : Nat :=
  if x.exponentField = 0 then x.fractionField else 2 ^ 52 + x.fractionField

def exponent (x : Binary64) : Int :=
  if x.exponentField = 0 then -1074 else (x.exponentField : Int) - 1075

/-- Equality of numbers: not a number equals nothing, and both zeros are equal. -/
def same (x y : Binary64) : Bool :=
  !x.isNaN && !y.isNaN && (x.bits == y.bits || (x.isZero && y.isZero))

def ofFields (negative : Bool) (exponentField fractionField : Nat) : Binary64 :=
  ⟨UInt64.ofNat ((if negative then 2 ^ 63 else 0) + exponentField * 2 ^ 52 + fractionField)⟩

def infinity (negative : Bool) : Binary64 :=
  ofFields negative 2047 0

def zero (negative : Bool) : Binary64 :=
  ofFields negative 0 0

def nan : Binary64 :=
  ofFields false 2047 (2 ^ 51)

/-- A quotient rounded to the nearest integer, a half to the even neighbour. -/
def roundDiv (num den : Nat) : Nat :=
  let q := num / den
  let r := num % den
  if 2 * r < den then q
  else if den < 2 * r then q + 1
  else if q % 2 = 0 then q else q + 1

def scaleDown (num den : Nat) (shift : Int) : Nat × Nat :=
  if 0 ≤ shift then (num, den * 2 ^ shift.toNat) else (num * 2 ^ (-shift).toNat, den)

/-- The power of two that leaves the quotient of two positive numbers 53 bits. -/
def tightExponent (num den : Nat) : Int :=
  -- the exponent that leaves a quotient of 53 bits, or one bit less
  let guess : Int := (Nat.log2 num : Int) - Nat.log2 den - 53
  let (n, d) := scaleDown num den (guess + 1)
  if n < d * 2 ^ 52 then guess else guess + 1

def assemble (negative : Bool) (m : Nat) (exponent : Int) : Binary64 :=
  let (m, exponent) := if m = 2 ^ 53 then (2 ^ 52, exponent + 1) else (m, exponent)
  if m < 2 ^ 52 then ofFields negative 0 m
  else if 971 < exponent then infinity negative
  else ofFields negative (exponent + 1075).toNat (m - 2 ^ 52)

/-- The number nearest to `±num / den`, a tie to the even significand, overflow to infinity. -/
def ofRatio (negative : Bool) (num den : Nat) : Binary64 :=
  if num = 0 || den = 0 then zero negative
  else
    let exponent := max (tightExponent num den) (-1074)
    let (n, d) := scaleDown num den exponent
    assemble negative (roundDiv n d) exponent

def ratio (x : Binary64) : Nat × Nat :=
  if 0 ≤ x.exponent then (x.significand * 2 ^ x.exponent.toNat, 1)
  else (x.significand, 2 ^ (-x.exponent).toNat)

def ofInt (n : Int) : Binary64 :=
  ofRatio (n < 0) n.natAbs 1

def mul (x y : Binary64) : Binary64 :=
  if x.isNaN || y.isNaN then nan
  else
    let negative := x.isNegative != y.isNegative
    if x.isInfinite || y.isInfinite then
      if x.isZero || y.isZero then nan else infinity negative
    else
      let (a, b) := x.ratio
      let (c, d) := y.ratio
      ofRatio negative (a * c) (b * d)

def div (x y : Binary64) : Binary64 :=
  if x.isNaN || y.isNaN || (x.isInfinite && y.isInfinite) then nan
  else
    let negative := x.isNegative != y.isNegative
    if x.isInfinite then infinity negative
    else if y.isInfinite then zero negative
    else
      let (a, b) := x.ratio
      let (c, d) := y.ratio
      ofRatio negative (a * d) (b * c)

def neg (x : Binary64) : Binary64 :=
  ⟨x.bits + UInt64.ofNat (2 ^ 63)⟩

def ofBinary32 (bits : UInt32) : Binary64 :=
  let n := bits.toNat
  let negative := 2 ^ 31 ≤ n
  let e := n / 2 ^ 23 % 2 ^ 8
  let f := n % 2 ^ 23
  if e = 255 then
    if f = 0 then infinity negative else ofFields negative 2047 (2 ^ 51 ||| f * 2 ^ 29)
  else if e = 0 then ofRatio negative f (2 ^ 149)
  else ofFields negative (e + 896) (f * 2 ^ 29)

def stripTwos : Nat → Nat → Nat × Nat
  | 0, m => (m, 0)
  | limit + 1, m =>
    if m % 2 = 0 then let (odd, count) := stripTwos limit (m / 2); (odd, count + 1) else (m, 0)

inductive DecimalError
  | notANumber
  | infinite
deriving DecidableEq, Repr

def DecimalError.message : DecimalError → String
  | .notANumber => "NAN"
  | .infinite => "Infinite"

/-- The exact decimal of a finite number: every fractional bit becomes a digit. The scale is as
small as the bits allow, except that a subnormal number keeps the scale 1074. -/
def toDecimal (x : Binary64) : Except DecimalError Decimal :=
  if x.isNaN then .error .notANumber
  else if x.isInfinite then .error .infinite
  else if x.isZero then .ok ⟨0, 0⟩
  else
    let signed (n : Nat) : Int := if x.isNegative then -(n : Int) else n
    if 0 ≤ x.exponent then .ok ⟨signed (x.significand * 2 ^ x.exponent.toNat), 0⟩
    else
      let places := (-x.exponent).toNat
      let (m, stripped) := if x.isSubnormal then (x.significand, 0)
        else stripTwos places x.significand
      .ok ⟨signed (m * 5 ^ (places - stripped)), Int64.ofNat (places - stripped)⟩

end Binary64

end DecisionService
