import DecisionService.Binary64.Basic
/-!
# Shortest decimal digits

The fewest digits that read back as the same binary64 number and, of those, the nearest to it.
All arithmetic is on natural numbers: a finite number and the ends of the interval that rounds to
it are fractions over one denominator.
-/
namespace DecisionService.Binary64

structure Digits where
  digits : Nat
  exponent : Int
deriving DecidableEq, Repr

structure Interval where
  lower : Nat
  value : Nat
  upper : Nat
  denominator : Nat
  /-- Both ends belong to the interval. -/
  closed : Bool

/-- The reals that round to a finite number other than zero. Below a power of two the neighbours
are closer. -/
def interval (x : Binary64) : Interval :=
  let m := x.significand
  let low := if x.fractionField = 0 && 1 < x.exponentField then 4 * m - 1 else 4 * m - 2
  let (factor, denominator) :=
    if 0 ≤ x.exponent then (2 ^ x.exponent.toNat, 4) else (1, 4 * 2 ^ (-x.exponent).toNat)
  ⟨low * factor, 4 * m * factor, (4 * m + 2) * factor, denominator, m % 2 == 0⟩

def leadingExponent (num den : Nat) : Int :=
  let estimate : Int := (Decimal.digitCount num : Int) - Decimal.digitCount den
  let reaches := if 0 ≤ estimate then den * 10 ^ estimate.toNat ≤ num
    else den ≤ num * 10 ^ (-estimate).toNat
  if reaches then estimate else estimate - 1

def Interval.contains (i : Interval) (digits lift drop : Nat) : Bool :=
  let point := digits * 10 ^ lift * i.denominator
  if i.closed then i.lower * 10 ^ drop ≤ point && point ≤ i.upper * 10 ^ drop
  else i.lower * 10 ^ drop < point && point < i.upper * 10 ^ drop

/-- The neighbour of the value on the grid of one power of ten that lies in the interval; of two
such neighbours the nearer, of two equally near the even one. -/
def Interval.onGrid (i : Interval) (exponent : Int) : Option Digits :=
  let lift := exponent.toNat
  let drop := (-exponent).toNat
  let num := i.value * 10 ^ drop
  let den := i.denominator * 10 ^ lift
  let below := num / den
  let nearest := roundDiv num den
  let other := if nearest = below then below + 1 else below
  if nearest ≠ 0 && i.contains nearest lift drop then some ⟨nearest, exponent⟩
  else if other ≠ 0 && i.contains other lift drop then some ⟨other, exponent⟩
  else none

def Interval.coarsest (i : Interval) : Nat → Int → Option Digits
  | 0, _ => none
  | count + 1, exponent =>
    match i.onGrid exponent with
    | some d => some d
    | none => i.coarsest count (exponent - 1)

def Digits.trim : Nat → Digits → Digits
  | 0, d => d
  | limit + 1, d =>
    if d.digits % 10 = 0 then Digits.trim limit ⟨d.digits / 10, d.exponent + 1⟩ else d

/-- The shortest digits of a finite number other than zero; seventeen always suffice. -/
def shortest (x : Binary64) : Digits :=
  let i := x.interval
  match i.coarsest 17 (leadingExponent i.value i.denominator) with
  | some d => d.trim 17
  | none => ⟨0, 0⟩

end DecisionService.Binary64
