import DecisionService.Number.Basic
/-!
# Numbers as binary numbers

The nearest binary64 number of every form. Only a text that is no number has none.
-/
namespace DecisionService

namespace Binary64

def power : Nat → Binary64 → Nat → Binary64 → Binary64
  | 0, _, _, result => result
  | steps + 1, base, n, result =>
    let result := if n % 2 = 1 then result.mul base else result
    if n / 2 = 0 then result else power steps (base.mul base) (n / 2) result

def powerOfTen (n : Nat) : Binary64 :=
  power (Nat.log2 n + 1) (ofInt 10) n (ofInt 1)

end Binary64

namespace Decimal

/-- The digits that matter for a binary64 number, with the scale that belongs to them: while there
are more than 43 digits, nineteen of them are dropped. -/
def significantDigits : Nat → Nat → Int → Nat × Int
  | 0, digits, scale => (digits, scale)
  | rounds + 1, digits, scale =>
    if digitCount digits < 44 then (digits, scale)
    else significantDigits rounds (digits / 10 ^ 19) (scale - 19)

/-- The binary64 number of a decimal. Places behind the point are rounded once; zeros that a
negative scale stands for are multiplied on, which rounds the power and then the product. -/
def toBinary64 (d : Decimal) : Binary64 :=
  let scale := d.scale.toInt
  if d.digits = 0 then .zero false
  else if scale = 0 then .ofInt d.digits
  else if scale < 0 then (Binary64.ofInt d.digits).mul (Binary64.powerOfTen (-scale).toNat)
  else
    let (digits, scale) := significantDigits (digitCount d.digits.natAbs) d.digits.natAbs scale
    Binary64.ofDecimalDigits (d.digits < 0) digits (-scale)

end Decimal

def Number.toBinary64 : Number → Option Binary64
  | .int n => some (.ofInt n.toInt)
  | .uint n => some (.ofInt n.toNat)
  | .big n => some (.ofInt n)
  | .float x => some x
  | .text t => Binary64.read t.toList
  | .decimal d => some d.toBinary64

end DecisionService
