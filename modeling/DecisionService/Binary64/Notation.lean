import DecisionService.Binary64.Shortest
import DecisionService.Decimal.Notation
/-!
# Binary64 notation

Three ways to write the shortest digits, and the grammar that is read back.
-/
namespace DecisionService.Binary64

structure Style where
  /-- The leading exponents that are written without an exponent, both ends included. -/
  positional : Option (Int × Int)
  /-- Whole numbers end in `.0`. -/
  keepsPoint : Bool

def plain : Style := ⟨none, false⟩

def pointed : Style := ⟨none, true⟩

/-- The text of numbers in JSON: an exponent outside `1e-5 ≤ x < 1e16`, else a point. -/
def interchange : Style := ⟨some (-5, 15), true⟩

def positionalText (digits : List Char) (exponent : Int) (keepsPoint : Bool) : List Char :=
  if 0 ≤ exponent then
    digits ++ List.replicate exponent.toNat '0' ++ (if keepsPoint then ['.', '0'] else [])
  else
    let places := (-exponent).toNat
    if places < digits.length then
      digits.take (digits.length - places) ++ '.' :: digits.drop (digits.length - places)
    else '0' :: '.' :: List.replicate (places - digits.length) '0' ++ digits

def scientificText (digits : List Char) (leading : Int) : List Char :=
  let mark :=
    if leading < 0 then 'e' :: Integer.text leading else 'e' :: '+' :: Integer.text leading
  match digits with
  | d :: e :: rest => d :: '.' :: e :: rest ++ mark
  | _ => digits ++ mark

def Digits.text (d : Digits) (style : Style) : List Char :=
  let digits := Nat.toDigits 10 d.digits
  let leading := d.exponent + digits.length - 1
  match style.positional with
  | some (least, most) =>
    if least ≤ leading && leading ≤ most then positionalText digits d.exponent style.keepsPoint
    else scientificText digits leading
  | none => positionalText digits d.exponent style.keepsPoint

def text (x : Binary64) (style : Style) : List Char :=
  if x.isNaN then "NaN".toList
  else
    let sign := if x.isNegative then ['-'] else []
    if x.isInfinite then sign ++ "inf".toList
    else if x.isZero then sign ++ (if style.keepsPoint then "0.0".toList else ['0'])
    else sign ++ x.shortest.text style

/-- `digits · 10 ^ exponent` rounded to the nearest number. Exponents far outside the range of the
format are answered without computing the power. -/
def ofDecimalDigits (negative : Bool) (digits : Nat) (exponent : Int) : Binary64 :=
  let leading := exponent + Decimal.digitCount digits
  if digits = 0 then zero negative
  else if 400 < leading then infinity negative
  else if leading < -400 then zero negative
  else if 0 ≤ exponent then ofRatio negative (digits * 10 ^ exponent.toNat) 1
  else ofRatio negative digits (10 ^ (-exponent).toNat)

def readExponent (text : List Char) : Option Int :=
  match text with
  | [] => some 0
  | mark :: rest =>
    if mark ≠ 'e' ∧ mark ≠ 'E' then none
    else
      let digits := if rest.head? = some '-' ∨ rest.head? = some '+' then rest.tail else rest
      if digits.isEmpty || !digits.all Char.isDigit then none
      else if rest.head? = some '-' then some (-(Integer.ofDigits digits : Int))
      else some (Integer.ofDigits digits)

def readDigits (negative : Bool) (text : List Char) : Option Binary64 :=
  let (whole, rest) := text.span Char.isDigit
  let (fraction, rest) := match rest with
    | '.' :: rest => rest.span Char.isDigit
    | _ => ([], rest)
  if whole.isEmpty && fraction.isEmpty then none
  else
    (readExponent rest).map fun exponent =>
      ofDecimalDigits negative (Integer.ofDigits (whole ++ fraction)) (exponent - fraction.length)

/-- The number that a text stands for: an optional sign, then digits or a word for infinity or for
no number, in letters of either case. -/
def read (text : List Char) : Option Binary64 :=
  let (negative, body) := match text with
    | '-' :: rest => (true, rest)
    | '+' :: rest => (false, rest)
    | _ => (false, text)
  let word := String.ofList (body.map Char.toLower)
  if word = "inf" ∨ word = "infinity" then some (infinity negative)
  else if word = "nan" then some (if negative then nan.neg else nan)
  else readDigits negative body

end DecisionService.Binary64
