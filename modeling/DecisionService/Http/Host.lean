import DecisionService.Http.Percent
import DecisionService.Text.Punycode
import DecisionService.Text.Split
/-!
# Hosts of URLs

A host is a name or an address. Names have one form, in small letters and ASCII; so have addresses,
however they are written.
-/
namespace DecisionService.Http

inductive UrlError
  | noScheme
  | emptyHost
  | badDomain
  | badIpv4
  | badIpv6
  | badHostCharacter
  | badPort
deriving DecidableEq, Repr

def UrlError.message : UrlError → String
  | noScheme => "relative URL without a base"
  | emptyHost => "empty host"
  | badDomain => "invalid international domain name"
  | badIpv4 => "invalid IPv4 address"
  | badIpv6 => "invalid IPv6 address"
  | badHostCharacter => "invalid domain character"
  | badPort => "invalid port number"

inductive Host
  | name (text : String)
  | ipv4 (address : Nat)
  | ipv6 (pieces : List Nat)
deriving DecidableEq, Repr

namespace Host

/-! ## Domain names -/

def isIgnored (c : Char) : Bool :=
  let n := c.toNat
  n == 0xAD || n == 0x200B || n == 0x2060 || n == 0xFEFF || (0xFE00 ≤ n && n ≤ 0xFE0F)

/-- The small form of a letter of the Latin, Greek or Cyrillic script, the narrow form of a wide
one, and the dot for other full stops. -/
def foldChar (c : Char) : Char :=
  let n := c.toNat
  if n < 0x80 then c.toLower
  else if (0xC0 ≤ n && n ≤ 0xDE && n != 0xD7) || (0x391 ≤ n && n ≤ 0x3AB)
      || (0x410 ≤ n && n ≤ 0x42F) then Char.ofNat (n + 0x20)
  else if 0x400 ≤ n && n ≤ 0x40F then Char.ofNat (n + 0x50)
  else if ((0x100 ≤ n && n ≤ 0x137 && n != 0x130) || (0x14A ≤ n && n ≤ 0x177)
      || (0x460 ≤ n && n ≤ 0x481) || (0x48A ≤ n && n ≤ 0x4BF)) && n % 2 == 0 then Char.ofNat (n + 1)
  else if ((0x139 ≤ n && n ≤ 0x148) || (0x179 ≤ n && n ≤ 0x17E)) && n % 2 == 1 then
    Char.ofNat (n + 1)
  else if n == 0x3002 || n == 0xFF0E || n == 0xFF61 then '.'
  else if 0xFF01 ≤ n && n ≤ 0xFF5E then (Char.ofNat (n - 0xFEE0)).toLower
  else c

def isBarredInName (c : Char) : Bool :=
  c.toNat ≤ 0x20 || c.toNat == 0x7F || c.toNat == 0xFFFD || "%#/:<>?@[\\]^|".contains c

def encodeLabel (label : List Char) : List Char :=
  if label.all Text.Punycode.isAscii then label
  else "xn--".toList ++ Text.Punycode.encode label

def foldName (text : List Char) : Except UrlError (List Char) :=
  let folded := (text.filter fun c => !isIgnored c).map foldChar
  if folded.any isBarredInName then .error .badDomain
  else .ok (Text.join '.' ((Text.split (· = '.') folded).map encodeLabel))

/-! ## Addresses of four bytes -/

def number? (base : Nat) (digits : List Char) : Option Nat :=
  digits.foldlM (fun n c => do
    let d ← Percent.digitValue c
    if d < base then some (n * base + d) else none) 0

/-- A part of an address: hexadecimal behind `0x`, octal behind `0`, else decimal. -/
def ipv4Number? : List Char → Option Nat
  | [] => none
  | ['0'] => some 0
  | '0' :: 'x' :: digits => number? 16 digits
  | '0' :: 'X' :: digits => number? 16 digits
  | '0' :: digits => number? 8 digits
  | digits => number? 10 digits

def parts (name : List Char) : List (List Char) :=
  let parts := Text.split (· = '.') name
  match parts.getLast? with
  | some [] => if parts.length = 1 then parts else parts.dropLast
  | _ => parts

def endsInNumber (name : List Char) : Bool :=
  match (parts name).getLast? with
  | some [] => false
  | some last => last.all Char.isDigit || (ipv4Number? last).isSome
  | none => false

/-- The value of the parts of an address: each but the last is a byte, the last fills the rest. -/
def ipv4Value : List Nat → Nat → Option Nat
  | [], _ => none
  | [last], room => if last < 256 ^ room then some last else none
  | part :: rest, room =>
    match ipv4Value rest (room - 1) with
    | some value => if part < 256 then some (part * 256 ^ (room - 1) + value) else none
    | none => none

def parseIpv4 (name : List Char) : Except UrlError Nat :=
  let parts := parts name
  match if parts.length ≤ 4 then parts.mapM ipv4Number? else none with
  | some numbers =>
    match ipv4Value numbers 4 with
    | some address => .ok address
    | none => .error .badIpv4
  | none => .error .badIpv4

def renderIpv4 (address : Nat) : String :=
  let byte (i : Nat) : String := toString (address / 256 ^ i % 256)
  s!"{byte 3}.{byte 2}.{byte 1}.{byte 0}"

/-! ## Addresses of eight pieces -/

def piece? (digits : List Char) : Option Nat :=
  if digits.isEmpty || 4 < digits.length then none else number? 16 digits

def byte? (digits : List Char) : Option Nat :=
  match digits with
  | [] => none
  | '0' :: _ :: _ => none
  | digits =>
    match number? 10 digits with
    | some n => if n < 256 then some n else none
    | none => none

def dottedPieces? (text : List Char) : Option (List Nat) := do
  match ← (Text.split (· = '.') text).mapM byte? with
  | [a, b, c, d] => some [a * 256 + b, c * 256 + d]
  | _ => none

def pieces? : List (List Char) → Option (List Nat)
  | [] => some []
  | [last] => if last.contains '.' then dottedPieces? last else (piece? last).map ([·])
  | part :: rest => do return (← piece? part) :: (← pieces? rest)

def pieceRun? (text : List Char) : Option (List Nat) :=
  if text.isEmpty then some [] else pieces? (Text.split (· = ':') text)

def splitAtGap : List Char → Option (List Char × List Char)
  | ':' :: ':' :: rest => some ([], rest)
  | c :: rest => (splitAtGap rest).map fun (front, back) => (c :: front, back)
  | [] => none

/-- Eight pieces. A pair of colons stands for zeros that are left out, one piece at least. -/
def parseIpv6 (text : List Char) : Except UrlError (List Nat) :=
  let pieces := match splitAtGap text with
    | some (front, back) => do
      let front ← if front.contains '.' then none else pieceRun? front
      let back ← pieceRun? back
      let missing := 8 - (front.length + back.length)
      if missing = 0 then none else some (front ++ List.replicate missing 0 ++ back)
    | none => pieceRun? text
  match pieces with
  | some pieces => if pieces.length = 8 then .ok pieces else .error .badIpv6
  | none => .error .badIpv6

def zeroRun (pieces : List Nat) : Nat :=
  (pieces.takeWhile (· = 0)).length

/-- The first of the longest runs of two zeros or more: where it starts and how long it is. -/
def longestGap : Nat → List Nat → Option (Nat × Nat)
  | _, [] => none
  | start, piece :: rest =>
    let here := zeroRun (piece :: rest)
    match longestGap (start + 1) rest with
    | some (later, length) => if here < length then some (later, length) else some (start, here)
    | none => if 2 ≤ here then some (start, here) else none

def renderPieces (pieces : List Nat) : List Char :=
  Text.join ':' (pieces.map (Nat.toDigits 16))

def renderIpv6 (pieces : List Nat) : String :=
  let text := match longestGap 0 pieces with
    | some (start, length) =>
      renderPieces (pieces.take start) ++ [':', ':'] ++ renderPieces (pieces.drop (start + length))
    | none => renderPieces pieces
  String.ofList ('[' :: text ++ [']'])

/-! ## Hosts -/

def bracketed? : List Char → Option (Option (List Char))
  | '[' :: rest =>
    match rest.getLast? with
    | some ']' => some (some rest.dropLast)
    | _ => some none
  | _ => none

def decoded (text : List Char) : Except UrlError (List Char) :=
  match Utf8.decode (Percent.decode (Utf8.encodeChars text)) with
  | .ok text => .ok text.toList
  | .error _ => .error .badDomain

def parse (text : List Char) : Except UrlError Host := do
  match bracketed? text with
  | some (some text) => return .ipv6 (← parseIpv6 text)
  | some none => throw .badIpv6
  | none =>
    let name ← foldName (← decoded text)
    if name.isEmpty then throw .emptyHost
    else if endsInNumber name then return .ipv4 (← parseIpv4 name)
    else return .name (String.ofList name)

def isBarred (c : Char) : Bool :=
  c = '\x00' || " #/:<>?@[\\]^|".contains c

def parseOther (text : List Char) : Except UrlError Host := do
  match bracketed? text with
  | some (some text) => return .ipv6 (← parseIpv6 text)
  | some none => throw .badIpv6
  | none =>
    if text.any isBarred then throw .badHostCharacter
    else return .name (String.ofList (Percent.encode Percent.isControl text))

def render : Host → String
  | name text => text
  | ipv4 address => renderIpv4 address
  | ipv6 pieces => renderIpv6 pieces

end Host

end DecisionService.Http
