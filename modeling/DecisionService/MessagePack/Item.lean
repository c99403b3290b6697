import DecisionService.Binary64.Basic
import DecisionService.MessagePack.Marker
/-!
# MessagePack items

An item is a tree that may be cut short: where the bytes end, the tree holds the flaw instead of
what would follow. Each item keeps its marker, because one value has items of several widths.
-/
namespace DecisionService.MessagePack

inductive Item
  /-- The bytes end where an item should start. -/
  | missing
  /-- The bytes end inside an item. -/
  | cut (marker : UInt8) (flaw : Flaw)
  | reserved
  | nil
  | bool (b : Bool)
  | integer (marker : UInt8) (n : Int)
  | single (bits : UInt32)
  | double (x : Binary64)
  | text (marker : UInt8) (bytes : Bytes)
  | binary (marker : UInt8) (bytes : Bytes)
  | array (marker : UInt8) (items : List Item)
  | map (marker : UInt8) (length : Nat) (entries : List (Item × Item))
  /-- An item of a foreign type, with the flaw of its bytes if they are cut short. -/
  | extension (marker : UInt8) (body : Except Flaw Bytes)
  /-- One byte of a byte string that is taken as a list. -/
  | octet (b : UInt8)

namespace Item

instance : Inhabited Item := ⟨nil⟩

abbrev Scanned := Item × Option Bytes

def take (count : Nat) (bytes : Bytes) : Option (Bytes × Bytes) :=
  let first := bytes.take count
  if first.length = count then some (first, bytes.drop count) else none

def scanSize : Size → Bytes → Option (Nat × Bytes)
  | .inline n, bytes => some (n, bytes)
  | .explicit width, bytes => (take width bytes).map fun (number, rest) => (number.toNat, rest)

def toSigned (width n : Nat) : Int :=
  if n < 2 ^ (8 * width - 1) then n else (n : Int) - 2 ^ (8 * width)

def scanBytes (marker : UInt8) (length : Size) (wrap : Bytes → Item) (bytes : Bytes) : Scanned :=
  match scanSize length bytes with
  | none => (cut marker .shortNumber, none)
  | some (n, rest) =>
    match take n rest with
    | none => (cut marker .shortText, none)
    | some (content, rest) => (wrap content, some rest)

def scanWord (marker : UInt8) (width : Nat) (wrap : Nat → Item) (bytes : Bytes) : Scanned :=
  match take width bytes with
  | none => (cut marker .shortNumber, none)
  | some (number, rest) => (wrap number.toNat, some rest)

def scanExtension (marker : UInt8) (length : Size) (bytes : Bytes) : Scanned :=
  match scanSize length bytes with
  | none => (cut marker .shortNumber, none)
  | some (_, []) => (extension marker (.error .shortNumber), none)
  | some (n, kind :: rest) =>
    match take n rest with
    | none => (extension marker (.error .shortText), none)
    | some (content, rest) => (extension marker (.ok (kind :: content)), some rest)

mutual

/-- The item at the start of some bytes. Every item takes a byte, so `fuel` beyond twice the length
is never used up. -/
def scan : Nat → Bytes → Scanned
  | 0, _ => (missing, none)
  | _ + 1, [] => (missing, none)
  | fuel + 1, marker :: bytes =>
    match Kind.ofMarker marker with
    | .reserved => (reserved, some bytes)
    | .nil => (nil, some bytes)
    | .bool b => (bool b, some bytes)
    | .unsigned (.inline n) => (integer marker n, some bytes)
    | .unsigned (.explicit width) => scanWord marker width (fun n => integer marker n) bytes
    | .signed (.inline n) => (integer marker (-(n : Int)), some bytes)
    | .signed (.explicit width) =>
      scanWord marker width (fun n => integer marker (toSigned width n)) bytes
    | .single => scanWord marker 4 (fun n => single (UInt32.ofNat n)) bytes
    | .double => scanWord marker 8 (fun n => double ⟨UInt64.ofNat n⟩) bytes
    | .text length => scanBytes marker length (text marker) bytes
    | .binary length => scanBytes marker length (binary marker) bytes
    | .extension length => scanExtension marker length bytes
    | .array length =>
      match scanSize length bytes with
      | none => (cut marker .shortNumber, none)
      | some (n, rest) =>
        let (items, rest) := scanItems fuel n rest
        (array marker items, rest)
    | .map length =>
      match scanSize length bytes with
      | none => (cut marker .shortNumber, none)
      | some (n, rest) =>
        let (entries, rest) := scanEntries fuel n rest
        (map marker n entries, rest)

def scanItems : Nat → Nat → Bytes → List Item × Option Bytes
  | 0, _, _ => ([missing], none)
  | _ + 1, 0, bytes => ([], some bytes)
  | fuel + 1, count + 1, bytes =>
    match scan fuel bytes with
    | (item, none) => ([item], none)
    | (item, some rest) =>
      let (items, rest) := scanItems fuel count rest
      (item :: items, rest)

def scanEntries : Nat → Nat → Bytes → List (Item × Item) × Option Bytes
  | 0, _, _ => ([(missing, missing)], none)
  | _ + 1, 0, bytes => ([], some bytes)
  | fuel + 1, count + 1, bytes =>
    match scan fuel bytes with
    | (key, none) => ([(key, missing)], none)
    | (key, some rest) =>
      match scan fuel rest with
      | (item, none) => ([(key, item)], none)
      | (item, some rest) =>
        let (entries, rest) := scanEntries fuel count rest
        ((key, item) :: entries, rest)

end

def ofBytes (bytes : Bytes) : Scanned :=
  scan (2 * bytes.length + 2) bytes

def sizeBytes (size : Size) (n : Nat) : Bytes :=
  match size with
  | .inline _ => []
  | .explicit width => Bytes.bigEndian width n

def countBytes (marker : UInt8) (n : Nat) : Bytes :=
  match Kind.ofMarker marker with
  | .unsigned size | .signed size | .text size | .binary size | .array size | .map size
  | .extension size => sizeBytes size n
  | _ => []

/-- The bits of an integer in two's complement, as a natural number below `2 ^ 64`. -/
def wordBits (n : Int) : Nat :=
  (n % 2 ^ 64).toNat

mutual

def render : Item → Bytes
  | nil => [0xC0]
  | reserved => [0xC1]
  | bool false => [0xC2]
  | bool true => [0xC3]
  | integer marker n => marker :: countBytes marker (wordBits n)
  | single bits => 0xCA :: Bytes.bigEndian 4 bits.toNat
  | double x => 0xCB :: Bytes.bigEndian 8 x.bits.toNat
  | text marker bytes => marker :: countBytes marker bytes.length ++ bytes
  | binary marker bytes => marker :: countBytes marker bytes.length ++ bytes
  | array marker items => marker :: countBytes marker items.length ++ renderItems items
  | map marker _ entries => marker :: countBytes marker entries.length ++ renderEntries entries
  | extension marker (.ok body) => marker :: countBytes marker (body.length - 1) ++ body
  | extension _ (.error _) => []
  | octet b => [b]
  | missing => []
  | cut _ _ => []

def renderItems : List Item → Bytes
  | [] => []
  | item :: rest => render item ++ renderItems rest

def renderEntries : List (Item × Item) → Bytes
  | [] => []
  | (key, item) :: rest => render key ++ render item ++ renderEntries rest

end

def ofNat (n : Nat) : Item :=
  if n < 0x80 then integer (UInt8.ofNat n) n
  else if n < 2 ^ 8 then integer 0xCC n
  else if n < 2 ^ 16 then integer 0xCD n
  else if n < 2 ^ 32 then integer 0xCE n
  else integer 0xCF n

def ofInt (n : Int) : Item :=
  if 0 ≤ n then ofNat n.toNat
  else if -32 ≤ n then integer (UInt8.ofNat (n + 256).toNat) n
  else if -(2 ^ 7) ≤ n then integer 0xD0 n
  else if -(2 ^ 15) ≤ n then integer 0xD1 n
  else if -(2 ^ 31) ≤ n then integer 0xD2 n
  else integer 0xD3 n

def ofText (s : String) : Item :=
  let bytes := Utf8.encode s
  let n := bytes.length
  if n < 32 then text (UInt8.ofNat (0xA0 + n)) bytes
  else if n < 2 ^ 8 then text 0xD9 bytes
  else if n < 2 ^ 16 then text 0xDA bytes
  else text 0xDB bytes

def ofItems (items : List Item) : Item :=
  let n := items.length
  if n < 16 then array (UInt8.ofNat (0x90 + n)) items
  else if n < 2 ^ 16 then array 0xDC items
  else array 0xDD items

def ofEntries (entries : List (Item × Item)) : Item :=
  let n := entries.length
  if n < 16 then map (UInt8.ofNat (0x80 + n)) n entries
  else if n < 2 ^ 16 then map 0xDE n entries
  else map 0xDF n entries

def ofMembers (members : List (String × Item)) : Item :=
  ofEntries (members.map fun (name, item) => (ofText name, item))

end Item

end DecisionService.MessagePack
