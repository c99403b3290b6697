import DecisionService.Text.Utf8
/-!
# MessagePack markers

The first byte of an item says what the item is, and holds either a small number itself or the
width of the big-endian number that follows.
-/
namespace DecisionService.MessagePack

inductive Flaw
  | noMarker
  /-- The bytes end inside a number or a length. -/
  | shortNumber
  /-- The bytes end inside a text or a byte string. -/
  | shortText
  | wrongMarker (marker : UInt8)
  | wrongLength (length : Nat)
  | badText (flaw : Utf8.Flaw)
  | tooDeep
deriving DecidableEq, Repr

inductive Size
  | inline (n : Nat)
  | explicit (width : Nat)
deriving DecidableEq, Repr

inductive Kind
  | unsigned (size : Size)
  /-- A number in two's complement; one that is part of the marker is negative. -/
  | signed (size : Size)
  | single
  | double
  | nil
  | bool (b : Bool)
  | text (length : Size)
  | binary (length : Size)
  | array (length : Size)
  | map (length : Size)
  | extension (length : Size)
  | reserved
deriving DecidableEq, Repr

namespace Kind

def ofMarker (marker : UInt8) : Kind :=
  let n := marker.toNat
  if n < 0x80 then unsigned (.inline n)
  else if n < 0x90 then map (.inline (n - 0x80))
  else if n < 0xA0 then array (.inline (n - 0x90))
  else if n < 0xC0 then text (.inline (n - 0xA0))
  else if n = 0xC0 then nil
  else if n = 0xC1 then reserved
  else if n ≤ 0xC3 then bool (n == 0xC3)
  else if n ≤ 0xC6 then binary (.explicit (2 ^ (n - 0xC4)))
  else if n ≤ 0xC9 then extension (.explicit (2 ^ (n - 0xC7)))
  else if n = 0xCA then single
  else if n = 0xCB then double
  else if n ≤ 0xCF then unsigned (.explicit (2 ^ (n - 0xCC)))
  else if n ≤ 0xD3 then signed (.explicit (2 ^ (n - 0xD0)))
  else if n ≤ 0xD8 then extension (.inline (2 ^ (n - 0xD4)))
  else if n ≤ 0xDB then text (.explicit (2 ^ (n - 0xD9)))
  else if n ≤ 0xDD then array (.explicit (2 ^ (n - 0xDB)))
  else if n ≤ 0xDF then map (.explicit (2 ^ (n - 0xDD)))
  else signed (.inline (0x100 - n))

/-- A word, with a number behind it that is part of the marker or counts the bits of its width. -/
def sized (inlineWord word : String) : Size → String
  | .inline n => s!"{inlineWord}({n})"
  | .explicit width => s!"{word}{8 * width}"

def name : Kind → String
  | unsigned size => sized "FixPos" "U" size
  | signed (.inline n) => s!"FixNeg(-{n})"
  | signed (.explicit width) => s!"I{8 * width}"
  | single => "F32"
  | double => "F64"
  | nil => "Null"
  | bool true => "True"
  | bool false => "False"
  | text length => sized "FixStr" "Str" length
  | binary length => sized "FixBin" "Bin" length
  | array length => sized "FixArray" "Array" length
  | map length => sized "FixMap" "Map" length
  | extension (.inline n) => s!"FixExt{n}"
  | extension (.explicit width) => s!"Ext{8 * width}"
  | reserved => "Reserved"

def isPlain : Kind → Bool
  | unsigned _ | signed _ | single | double | nil | bool _ => true
  | _ => false

end Kind

def Flaw.message : Flaw → String
  | noMarker => "IO error while reading marker: failed to fill whole buffer"
  | shortNumber => "IO error while reading data: failed to fill whole buffer"
  | shortText => "IO error while reading data: unexpected end of file"
  | wrongMarker marker => s!"wrong msgpack marker {(Kind.ofMarker marker).name}"
  | wrongLength length => s!"array had incorrect length, expected {length}"
  | badText flaw => s!"string found to be invalid utf8: {flaw.message}"
  | tooDeep => "depth limit exceeded"

end DecisionService.MessagePack
