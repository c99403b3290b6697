import DecisionService.Text.Utf8
/-!
# Percent-encoding

Characters that may not stand in a part of a URL are written as the bytes of their UTF-8 form, each
as a percent sign and two hexadecimal digits. Which ones these are depends on the part.
-/
namespace DecisionService.Http.Percent

def digit (n : Nat) : Char :=
  if n < 10 then Char.ofNat (0x30 + n) else Char.ofNat (0x37 + n)

def digitValue (c : Char) : Option Nat :=
  let n := c.toNat
  if 0x30 ≤ n && n ≤ 0x39 then some (n - 0x30)
  else if 0x41 ≤ n && n ≤ 0x46 then some (n - 0x37)
  else if 0x61 ≤ n && n ≤ 0x66 then some (n - 0x57)
  else none

def encodeByte (b : UInt8) : List Char :=
  ['%', digit (b.toNat / 16), digit (b.toNat % 16)]

def encodeChar (barred : Char → Bool) (c : Char) : List Char :=
  if barred c then (Utf8.encodeChar c).flatMap encodeByte else [c]

def encode (barred : Char → Bool) (text : List Char) : List Char :=
  text.flatMap (encodeChar barred)

def pairValue (high low : UInt8) : Option UInt8 := do
  let high ← digitValue (Char.ofNat high.toNat)
  let low ← digitValue (Char.ofNat low.toNat)
  return UInt8.ofNat (high * 16 + low)

/-- Every encoded byte decoded. A percent sign without two digits stands for itself. -/
def decode : Bytes → Bytes
  | [] => []
  | [a] => [a]
  | [a, b] => [a, b]
  | a :: b :: c :: rest =>
    if a = 0x25 then
      match pairValue b c with
      | some byte => byte :: decode rest
      | none => a :: decode (b :: c :: rest)
    else a :: decode (b :: c :: rest)

def isControl (c : Char) : Bool :=
  c.toNat < 0x20 || 0x7F ≤ c.toNat

def barredInFragment (c : Char) : Bool :=
  isControl c || " \"<>\x60".contains c

def barredInQuery (c : Char) : Bool :=
  isControl c || " \"#<>".contains c

def barredInWebQuery (c : Char) : Bool :=
  barredInQuery c || c = '\''

def barredInPath (c : Char) : Bool :=
  barredInFragment c || "#?\x7b\x7d".contains c

def barredInSegment (c : Char) : Bool :=
  barredInPath c || c = '/' || c = '%'

/-- Web URLs take a backslash for a separator. -/
def barredInWebSegment (c : Char) : Bool :=
  barredInSegment c || c = '\\'

def barredInCredentials (c : Char) : Bool :=
  barredInPath c || "/:;=@[\\]^|".contains c

end DecisionService.Http.Percent
