import DecisionService.Bytes
import DecisionService.Json.Flaw
import DecisionService.Text.Utf8
/-!
# Number literals of JSON

A literal keeps its digits as they are written. Only the exponent has one spelling: a small `e` and
always a sign.
-/
namespace DecisionService.Json

/-- An optional minus, digits, an optional fraction and an optional exponent. -/
structure Literal where
  negative : Bool
  whole : List Char
  /-- The digits behind the point; none when there is no point. -/
  fraction : List Char
  /-- Whether the exponent is negative, with its digits. -/
  exponent : Option (Bool × List Char)
deriving DecidableEq, Repr

namespace Literal

def text (l : Literal) : List Char :=
  (if l.negative then ['-'] else []) ++ l.whole
    ++ (if l.fraction.isEmpty then [] else '.' :: l.fraction)
    ++ (match l.exponent with
      | none => []
      | some (negative, digits) => 'e' :: (if negative then '-' else '+') :: digits)

def isDigit (b : UInt8) : Bool :=
  0x30 ≤ b && b ≤ 0x39

def digits : Bytes → List Char × Bytes
  | [] => ([], [])
  | b :: rest =>
    if isDigit b then
      let (run, rest) := digits rest
      (Char.ofNat b.toNat :: run, rest)
    else ([], b :: rest)

def someDigits (bytes : Bytes) : Except Flaw (List Char × Bytes) :=
  match digits bytes with
  | ([], []) => .error .endInValue
  | ([], _) => .error .badNumber
  | found => .ok found

/-- The digits before the point: a zero stands alone. -/
def scanWhole (bytes : Bytes) : Except Flaw (List Char × Bytes) :=
  match bytes with
  | 0x30 :: rest =>
    match rest with
    | b :: _ => if isDigit b then .error .badNumber else .ok (['0'], rest)
    | [] => .ok (['0'], rest)
  | _ => someDigits bytes

def scanFraction (bytes : Bytes) : Except Flaw (List Char × Bytes) :=
  match bytes with
  | 0x2E :: rest => someDigits rest
  | _ => .ok ([], bytes)

def scanExponentDigits (bytes : Bytes) : Except Flaw (Option (Bool × List Char) × Bytes) :=
  match bytes with
  | 0x2B :: rest => do
    let (run, rest) ← someDigits rest
    return (some (false, run), rest)
  | 0x2D :: rest => do
    let (run, rest) ← someDigits rest
    return (some (true, run), rest)
  | _ => do
    let (run, rest) ← someDigits bytes
    return (some (false, run), rest)

def scanExponent (bytes : Bytes) : Except Flaw (Option (Bool × List Char) × Bytes) :=
  match bytes with
  | 0x65 :: rest => scanExponentDigits rest
  | 0x45 :: rest => scanExponentDigits rest
  | _ => .ok (none, bytes)

def scanUnsigned (negative : Bool) (bytes : Bytes) : Except Flaw (Literal × Bytes) := do
  let (whole, rest) ← scanWhole bytes
  let (fraction, rest) ← scanFraction rest
  let (exponent, rest) ← scanExponent rest
  return (⟨negative, whole, fraction, exponent⟩, rest)

def scan (bytes : Bytes) : Except Flaw (Literal × Bytes) :=
  match bytes with
  | 0x2D :: rest => scanUnsigned true rest
  | _ => scanUnsigned false bytes

def read (text : List Char) : Except Flaw Literal := do
  match ← scan (Utf8.encodeChars text) with
  | (l, []) => return l
  | _ => throw .badNumber

end Literal

end DecisionService.Json
