import DecisionService.Decimal.Basic
/-!
# Decimal notation

Writing: positional, unless more than five zeros would follow the point or more than fifteen would
end the number. Reading: one optional point, one optional exponent, digits that underscores may
group.
-/
namespace DecisionService

inductive IntegerError
  | empty
  | badDigit
  | tooLarge
  | tooSmall
deriving DecidableEq, Repr

def IntegerError.message : IntegerError → String
  | .empty => "cannot parse integer from empty string"
  | .badDigit => "invalid digit found in string"
  | .tooLarge => "number too large to fit in target type"
  | .tooSmall => "number too small to fit in target type"

namespace Integer

def text (n : Int) : List Char :=
  if n < 0 then '-' :: Nat.toDigits 10 n.natAbs else Nat.toDigits 10 n.natAbs

def ofDigits (digits : List Char) : Nat :=
  Nat.ofDigitChars 10 digits 0

/-- An unsigned integer of any size: one sign `+` at most, then a digit, then digits and `_`. -/
def readGrouped (text : List Char) : Except IntegerError Nat :=
  let text := match text with
    | '+' :: rest => if rest.head? = some '+' then text else rest
    | _ => text
  match text with
  | [] => .error .empty
  | '_' :: _ => .error .badDigit
  | _ =>
    let digits := text.filter (· ≠ '_')
    if digits.all Char.isDigit then .ok (ofDigits digits) else .error .badDigit

def readAny (text : List Char) : Except IntegerError Int :=
  match text with
  | '-' :: rest =>
    let rest := if rest.head? = some '+' then text else rest
    (readGrouped rest).map fun n => -(n : Int)
  | _ => (readGrouped text).map fun n => (n : Int)

/-- An integer between two bounds: an optional sign (`-` only below zero), then digits only. A run
of digits that leaves the bounds is told before a character behind it that is no digit. -/
def readBetween (least most : Int) (text : List Char) : Except IntegerError Int :=
  match text with
  | [] => .error .empty
  | c :: rest =>
    let negative := c == '-' && least < 0
    let digits := if negative || c == '+' then rest else text
    let run := digits.takeWhile Char.isDigit
    let n : Int := if negative then -(ofDigits run : Int) else ofDigits run
    if n < least then .error .tooSmall
    else if most < n then .error .tooLarge
    else if digits.isEmpty || run.length < digits.length then .error .badDigit
    else .ok n

end Integer

namespace Decimal

inductive Error
  | noDigits
  | integer (e : IntegerError)
  | exponentOverflow (text : String)
deriving DecidableEq, Repr

def Error.message : Error → String
  | .noDigits => "Failed to parse empty string"
  | .integer e => e.message
  | .exponentOverflow text => s!"Exponent overflow when parsing '{text}'"

def zeros (n : Nat) : List Char :=
  List.replicate n '0'

def exponentText (mark : Char) (exponent : Int) : List Char :=
  if exponent < 0 then mark :: Integer.text exponent else mark :: '+' :: Integer.text exponent

def positional (digits : List Char) (scale : Int) : List Char :=
  if scale ≤ 0 then digits ++ zeros (-scale).toNat
  else
    let places := scale.toNat
    if places < digits.length then
      digits.take (digits.length - places) ++ '.' :: digits.drop (digits.length - places)
    else '0' :: '.' :: zeros (places - digits.length) ++ digits

def scientific (digits : List Char) (scale : Int) : List Char :=
  let exponent := (digits.length : Int) - 1 - scale
  match digits with
  | d :: e :: rest => d :: '.' :: e :: rest ++ exponentText 'E' exponent
  | _ => digits ++ exponentText 'E' exponent

/-- More zeros behind the point than this, and the number is written with an exponent. -/
def leadingZeroLimit : Int := 5

/-- More zeros at the end than this, and they are written as an exponent. -/
def trailingZeroLimit : Int := 15

/-- The text of a decimal. All digits are kept; zero loses its scale. -/
def text (d : Decimal) : List Char :=
  let digits := Nat.toDigits 10 d.digits.natAbs
  let scale := if d.digits = 0 then 0 else d.scale.toInt
  let body :=
    if leadingZeroLimit < scale - digits.length then scientific digits scale
    else if trailingZeroLimit < -scale then digits ++ exponentText 'e' (-scale)
    else positional digits scale
  if d.digits < 0 then '-' :: body else body

def readExponent (text : List Char) : Except IntegerError Int :=
  Integer.readBetween (-(2 ^ 127)) (2 ^ 127 - 1) text

def splitPoint (base : List Char) : List Char × Nat :=
  match base.span (· ≠ '.') with
  | (lead, '.' :: trail) => (lead ++ trail, (trail.filter (· ≠ '_')).length)
  | _ => (base, 0)

def read (text : List Char) : Except Error Decimal := do
  let (base, exponent) ← match text.span (fun c => c ≠ 'e' ∧ c ≠ 'E') with
    | (base, _ :: digits) =>
      match readExponent digits with
      | .ok n => .ok (base, n)
      | .error e => .error (.integer e)
    | (base, []) => .ok (base, 0)
  if base.isEmpty then .error .noDigits
  else
    let (digits, places) := splitPoint base
    let scale := (places : Int) - exponent
    if scale < -(2 ^ 63) || 2 ^ 63 ≤ scale then
      .error (.exponentOverflow (String.ofList text))
    else
      match Integer.readAny digits with
      | .ok n => .ok ⟨n, Int64.ofInt scale⟩
      | .error e => .error (.integer e)

end Decimal

end DecisionService
