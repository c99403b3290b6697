import DecisionService.Binary64.Notation
import DecisionService.Json.Literal
/-!
# JSON literals as machine numbers

Where a machine word is expected, a literal without fraction and exponent is a word as long as it
fits one. Any other literal is a binary number. That number is found by one multiplication or
division by a power of ten, so it may differ from the nearest one in its last bits.
-/
namespace DecisionService.Json

inductive Word
  | integer (n : Int)
  | float (x : Binary64)
deriving DecidableEq, Repr

namespace Literal

def maxWord : Nat := 2 ^ 64 - 1

def maxExponent : Nat := 2 ^ 31 - 1

def fill : Nat → List Char → Nat × Nat × List Char
  | word, [] => (word, 0, [])
  | word, d :: rest =>
    let next := word * 10 + (d.toNat - 0x30)
    if maxWord < next then (word, 0, d :: rest)
    else
      let (word, taken, rest) := fill next rest
      (word, taken + 1, rest)

/-- A word times a power of ten. Exponents beyond the largest power are divided out first. -/
def scale : Nat → Binary64 → Int → Except Flaw Binary64
  | 0, x, _ => .ok x
  | steps + 1, x, exponent =>
    if exponent.natAbs ≤ 308 then
      let power := Binary64.ofInt (10 ^ exponent.natAbs)
      if 0 ≤ exponent then
        let product := x.mul power
        if product.isInfinite then .error .numberOutOfRange else .ok product
      else .ok (x.div power)
    else if x.isZero then .ok x
    else if 0 ≤ exponent then .error .numberOutOfRange
    else scale steps (x.div (Binary64.ofInt (10 ^ 308))) (exponent + 308)

def assemble (negative : Bool) (word : Nat) (exponent : Int) : Except Flaw Binary64 :=
  (scale 4 (Binary64.ofInt word) exponent).map fun x => if negative then x.neg else x

def writtenExponent (l : Literal) : Option Int :=
  match l.exponent with
  | none => some 0
  | some (negative, digits) =>
    let n := Integer.ofDigits digits
    if maxExponent < n then none else some (if negative then -(n : Int) else n)

def saturate (exponent : Int) : Int :=
  max (-(2 ^ 31)) (min exponent (2 ^ 31 - 1))

def toFloat (l : Literal) : Except Flaw Binary64 :=
  let (word, _, dropped) := fill 0 l.whole
  let (word, places, _) := fill word l.fraction
  match l.writtenExponent with
  | some exponent => assemble l.negative word (saturate (dropped.length - places + exponent))
  | none =>
    let shrinks := match l.exponent with
      | some (negative, _) => negative
      | none => false
    if word ≠ 0 && !shrinks then .error .numberOutOfRange
    else .ok (if l.negative then Binary64.zero true else Binary64.zero false)

/-- The word of a literal, or the binary number that it is instead. A negative zero is no word. -/
def toWord (l : Literal) : Except Flaw Word :=
  let n := Integer.ofDigits l.whole
  if l.fraction.isEmpty && l.exponent.isNone && n ≤ maxWord then
    if !l.negative then .ok (.integer n)
    else if n = 0 || 2 ^ 63 < n then .ok (.float (Binary64.ofInt n).neg)
    else .ok (.integer (-(n : Int)))
  else l.toFloat.map .float

end Literal

end DecisionService.Json
