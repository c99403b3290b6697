import DecisionService.Binary64.Notation
/-!
# Numbers

A numeric leaf keeps the form it arrived in: a machine integer, an integer of any size, a binary
number, a text, or a decimal. Decimals are what decisions compute with. A malformed text and a binary
number that is not finite have none, and neither has a text of many digits at the very end of the
exponents.
-/
namespace DecisionService

inductive Number
  | int (n : Int64)
  /-- An unsigned integer that no signed word holds. -/
  | uint (n : UInt64)
  | big (n : Int)
  | float (x : Binary64)
  /-- A numeric literal that is still text. -/
  | text (t : String)
  | decimal (d : Decimal)
deriving DecidableEq, Repr

/-- Why a number has no decimal. The first two are reported to whoever asks for it. -/
inductive NumberError
  | float (x : Binary64) (e : Binary64.DecimalError)
  | text (t : String) (e : Decimal.Error)
  /-- The scale leaves its word while digits are cut off. This is not reported: whatever asks for the
  decimal ends there, without a result. -/
  | overflow
deriving DecidableEq, Repr

namespace Number

def ofUInt64 (n : UInt64) : Number :=
  if n.toNat < 2 ^ 63 then .int (Int64.ofNat n.toNat) else .uint n

def ofInt (n : Int) : Number :=
  if -(2 ^ 63) ≤ n ∧ n < 2 ^ 63 then .int (Int64.ofInt n)
  else if 0 ≤ n ∧ n < 2 ^ 64 then .uint (UInt64.ofNat n.toNat)
  else .big n

def isDecimal : Number → Bool
  | .decimal _ => true
  | _ => false

/-- Numbers of two forms differ. Decimals are equal as values, binary numbers as numbers. -/
def same : Number → Number → Bool
  | .int a, .int b => a == b
  | .uint a, .uint b => a == b
  | .big a, .big b => a == b
  | .float a, .float b => a.same b
  | .text a, .text b => a == b
  | .decimal a, .decimal b => a.same b
  | _, _ => false

def display : Number → List Char
  | .int n => Integer.text n.toInt
  | .uint n => Integer.text n.toNat
  | .big n => Integer.text n
  | .float x => x.text Binary64.plain
  | .text t => t.toList
  | .decimal d => d.text

/-- Zeros in front of a digit are dropped. In front of anything else one of them stays. -/
def stripZeros (text : List Char) : List Char :=
  let rest := text.dropWhile (· == '0')
  if rest.length = text.length then text
  else
    match rest with
    | c :: _ => if c.isDigit then rest else '0' :: rest
    | [] => ['0']

def limited (d : Decimal) : Except NumberError Decimal :=
  match d.toDecimal128 with
  | some r => .ok r
  | none => .error .overflow

theorem limited_eq_ok_iff {d r : Decimal} : limited d = .ok r ↔ d.toDecimal128 = some r := by
  rw [limited]
  split <;> simp_all

/-- The canonical decimal. Integers and decimals are kept exactly; texts and binary numbers are cut
to the precision of decimal128. Zeros in front of a text count for nothing. -/
def toDecimal : Number → Except NumberError Decimal
  | .int n => .ok (.ofInt n.toInt)
  | .uint n => .ok (.ofInt n.toNat)
  | .big n => .ok (.ofInt n)
  | .float x =>
    match x.toDecimal with
    | .ok d => limited d
    | .error e => .error (.float x e)
  | .text t =>
    match Decimal.read (stripZeros t.toList) with
    | .ok d => limited d
    | .error e => .error (.text t e)
  | .decimal d => .ok d

/-- A literal without a type: a point or an exponent makes it a binary number, anything else is an
integer in its narrowest form. -/
def ofLiteral (text : List Char) : Option Number :=
  if text.any fun c => c == '.' || c == 'e' || c == 'E' then (Binary64.read text).map .float
  else
    match Integer.readBetween (-(2 ^ 63)) (2 ^ 63 - 1) text with
    | .ok n => some (.int (Int64.ofInt n))
    | .error _ =>
      match Integer.readBetween 0 (2 ^ 64 - 1) text with
      | .ok n => some (.uint (UInt64.ofNat n.toNat))
      | .error _ =>
        match Integer.readAny text with
        | .ok n => some (.big n)
        | .error _ => none

end Number

def NumberError.message : NumberError → String
  | .float x e => s!"Invalid number: float {String.ofList (x.text Binary64.plain)}: {e.message}"
  | .text t e => s!"Invalid number: '{t}': {e.message}"
  | .overflow => "attempt to subtract with overflow"

end DecisionService
