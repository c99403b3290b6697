import DecisionService.Binary64.Notation
import DecisionService.MessagePack.Item
import DecisionService.Wire.Source
/-!
# MessagePack items as sources

Values carry their type: each is a map of one entry from the name of its type, or the position of
that name, to its content. A type without content is a bare name. The maps around contents use up
no levels; lists, maps and foreign items do.
-/
namespace DecisionService.MessagePack

open Wire

def levels : Nat := 1023

def literalName : String := "$serde_json::private::Number"

/-- A text in which what is no UTF-8 is replaced, piece by piece. -/
def replaceFlaws : Nat → Bytes → List Char
  | 0, _ => []
  | fuel + 1, bytes =>
    match Utf8.decode bytes with
    | .ok s => s.toList
    | .error flaw =>
      let sound := match Utf8.decode (bytes.take flaw.index) with
        | .ok s => s.toList
        | .error _ => []
      match flaw.badLength with
      | none => sound ++ ['\uFFFD']
      | some n => sound ++ '\uFFFD' :: replaceFlaws fuel (bytes.drop (flaw.index + n))

namespace Item

def foundFloat (x : Binary64) : Found :=
  .float (x.text Binary64.pointed)

def singleValue (bits : UInt32) : Binary64 :=
  Binary64.ofBinary32 bits

def enter (depth : Nat) : Except Problem Unit :=
  if depth = 0 then .error (.messagePack .tooDeep) else .ok ()

def found (depth : Nat) : Item → Except Problem Found
  | missing => .error (.messagePack .noMarker)
  | cut _ flaw => .error (.messagePack flaw)
  | reserved => .error (.messagePack (.wrongMarker 0xC1))
  | nil => .ok .unit
  | bool b => .ok (.bool b)
  | integer _ n => .ok (.integer n)
  | single bits => .ok (foundFloat (singleValue bits))
  | double x => .ok (foundFloat x)
  | text _ bytes =>
    match Utf8.decode bytes with
    | .ok s => .ok (.string s)
    | .error flaw => .error (.messagePack (.badText flaw))
  | binary _ _ => .ok .bytes
  | array _ _ => do
    enter depth
    return .sequence
  | map _ _ _ => do
    enter depth
    return .map
  | extension _ _ => do
    enter depth
    return .foreign
  | octet b => .ok (.integer b.toNat)

def mismatch {α : Type} (depth : Nat) (expected : String) (item : Item) : Except Problem α := do
  throw (.wrongType (← item.found depth) expected)

def marker? : Item → Option UInt8
  | cut marker _ | integer marker _ | text marker _ | binary marker _ | array marker _
  | map marker _ _ | extension marker _ => some marker
  | reserved => some 0xC1
  | nil => some 0xC0
  | bool false => some 0xC2
  | bool true => some 0xC3
  | single _ => some 0xCA
  | double _ => some 0xCB
  | missing | octet _ => none

def wrongMarker (item : Item) : Problem :=
  match item.marker? with
  | some marker => .messagePack (.wrongMarker marker)
  | none => .messagePack .noMarker

/-- What stands at a place where a number is expected. Only numbers, truth values and nothing can
be mistaken for one; any other marker is wrong before its data are looked at. -/
def plain (item : Item) : Except Problem Found :=
  match item with
  | nil | bool _ | integer _ _ | single _ | double _ | octet _ | missing => item.found 0
  | cut marker flaw =>
    if (Kind.ofMarker marker).isPlain then .error (.messagePack flaw) else .error item.wrongMarker
  | _ => .error item.wrongMarker

def textOf (depth : Nat) (item : Item) : Except Problem String :=
  match item with
  | text _ bytes =>
    match Utf8.decode bytes with
    | .ok s => .ok s
    | .error flaw => .error (.messagePack (.badText flaw))
  | binary _ bytes =>
    match Utf8.decode bytes with
    | .ok s => .ok s
    | .error _ => .error (.wrongValue .bytes "a string")
  | _ => item.mismatch depth "a string"

def isUnsigned (marker : UInt8) : Bool :=
  match Kind.ofMarker marker with
  | .unsigned _ => true
  | _ => false

def variant (depth : Nat) (known : List String) (item : Item) : Except Problem Nat :=
  match item with
  | text _ bytes =>
    match Utf8.decode bytes with
    | .ok s => position s
    | .error flaw => .error (.messagePack (.badText flaw))
  | binary _ bytes => position (String.ofList (replaceFlaws (bytes.length + 1) bytes))
  | integer marker n =>
    if isUnsigned marker then
      if n < known.length then .ok n.toNat
      else .error (.wrongValue (.integer n) s!"variant index 0 <= i < {known.length}")
    else item.mismatch depth "variant identifier"
  | _ => item.mismatch depth "variant identifier"
where
  position (name : String) : Except Problem Nat :=
    match known.findIdx? (· == name) with
    | some n => .ok n
    | none => .error (.unknownVariant name known)

def nothing (item : Item) : Except Problem Unit :=
  match item with
  | nil => .ok ()
  | _ => .error item.wrongMarker

def choiceOf (depth : Nat) (known : List String) (item : Item) : Except Problem Nat :=
  match item with
  | map _ 1 [(name, content)] => do
    let n ← variant depth known name
    content.nothing
    return n
  | map _ length _ => .error (.messagePack (.wrongLength length))
  | _ => variant depth known item

def floatOf (item : Item) : Except Problem Binary64 :=
  match item with
  | integer _ n => .ok (.ofInt n)
  | single bits => .ok (singleValue bits)
  | double x => .ok x
  | _ => do throw (.wrongType (← item.plain) "f64")

def integerOf (least most : Int) (expected : String) (item : Item) : Except Problem Int := do
  match ← item.plain with
  | .integer n =>
    if least ≤ n ∧ n ≤ most then return n else throw (.wrongValue (.integer n) expected)
  | found => throw (.wrongType found expected)

/-- The exact decimal of single precision bits; a subnormal number keeps all its places. -/
def singleDecimal (bits : UInt32) : Except Binary64.DecimalError Decimal :=
  let n := bits.toNat
  let fraction := n % 2 ^ 23
  if n / 2 ^ 23 % 2 ^ 8 = 0 && fraction ≠ 0 then
    let digits : Nat := fraction * 5 ^ 149
    .ok ⟨if 2 ^ 31 ≤ n then -(digits : Int) else digits, 149⟩
  else (Binary64.ofBinary32 bits).toDecimal

def decimalWords : String := "a number or formatted decimal string"

mutual

/-- A decimal as text, as a number or behind the name that announces it. -/
def decimalOf : Nat → Item → Except Problem Decimal
  | _, integer _ n => .ok (.ofInt n)
  | _, octet b => .ok (.ofInt b.toNat)
  | _, single bits =>
    match singleDecimal bits with
    | .ok d => .ok d
    | .error e => .error (.float e)
  | _, double x =>
    match x.toDecimal with
    | .ok d => .ok d
    | .error e => .error (.float e)
  | _, text _ bytes =>
    match Utf8.decode bytes with
    | .ok s =>
      match Decimal.read s.toList with
      | .ok d => .ok d
      | .error e => .error (.decimal e)
    | .error flaw => .error (.messagePack (.badText flaw))
  | 0, map _ _ _ => .error (.messagePack .tooDeep)
  | depth + 1, map _ length entries => announcedDecimal depth length entries
  | depth, item => item.mismatch depth decimalWords

def announcedDecimal : Nat → Nat → List (Item × Item) → Except Problem Decimal
  | depth, length, (name, content) :: _ =>
    match textOf depth name with
    | .ok s =>
      if s = literalName then do
        let d ← decimalOf depth content
        if length ≠ 1 then throw (.messagePack (.wrongLength 1))
        return d
      else .error (.wrongType .map decimalWords)
    | .error _ => .error (.wrongType .map decimalWords)
  | _, _, [] => .error (.wrongType .map decimalWords)

end

def numberNames : List String := ["Int", "UInt", "BigInt", "Float", "Text", "Decimal"]

def numberContent (depth : Nat) (position : Nat) (content : Item) : Except Problem Number :=
  match position with
  | 0 => do return .int (Int64.ofInt (← content.integerOf (-(2 ^ 63)) (2 ^ 63 - 1) "i64"))
  | 1 => do return .uint (UInt64.ofNat (← content.integerOf 0 (2 ^ 64 - 1) "u64").toNat)
  | 2 => do
    match Integer.readAny (← content.textOf depth).toList with
    | .ok n => return .big n
    | .error e => throw (.integer e)
  | 3 => do return .float (← content.floatOf)
  | 4 => do return .text (← content.textOf depth)
  | _ => do return .decimal (← content.decimalOf depth)

def bare (depth : Nat) (known : List String) (item : Item) : Problem :=
  match variant depth known item with
  | .ok _ => .wrongType .bareVariant "newtype variant"
  | .error problem => problem

def numberOf (depth : Nat) (item : Item) : Except Problem Number :=
  match item with
  | map _ 1 [(name, content)] => do
    numberContent depth (← variant depth numberNames name) content
  | map _ length _ => .error (.messagePack (.wrongLength length))
  | _ => .error (bare depth numberNames item)

def valueNames : List String := ["Null", "Bool", "Number", "String", "Array", "Set", "Object"]

def boolOf (item : Item) : Except Problem Bool :=
  match item with
  | bool b => .ok b
  | _ => do throw (.wrongType (← item.plain) "a boolean")

def octets (bytes : Bytes) : List Value :=
  bytes.map fun b => .number (.ofUInt64 b.toUInt64)

mutual

def value : Nat → Item → Except Problem Value
  | depth, map _ length entries => wrapped depth length entries
  | _, octet b => .ok (.number (.ofUInt64 b.toUInt64))
  | depth, item => do
    match ← variant depth valueNames item with
    | 0 => return .null
    | _ => throw (.wrongType .bareVariant "newtype variant")

def wrapped : Nat → Nat → List (Item × Item) → Except Problem Value
  | depth, 1, (name, content) :: _ => do
    let n ← variant depth valueNames name
    valueContent depth n content
  | _, length, _ => .error (.messagePack (.wrongLength length))

def valueContent : Nat → Nat → Item → Except Problem Value
  | _, 0, item => do
    item.nothing
    return .null
  | _, 1, item => do return .bool (← item.boolOf)
  | depth, 2, item => do return .number (← item.numberOf depth)
  | depth, 3, item => do return .string (← item.textOf depth)
  | depth, 4, array _ items => do
    enter depth
    return .array (← values (depth - 1) items)
  | _, 4, binary _ bytes => .ok (.array (octets bytes))
  | depth, 5, array _ items => do
    enter depth
    return .set (← values (depth - 1) items)
  | _, 5, binary _ bytes => .ok (.set (octets bytes))
  | depth, 6, map _ _ entries => do
    enter depth
    return .object (← members (depth - 1) entries [])
  | depth, 6, item => item.mismatch depth "a map"
  | depth, _, item => item.mismatch depth "a sequence"

def values : Nat → List Item → Except Problem (List Value)
  | _, [] => .ok []
  | depth, item :: rest => do
    let v ← value depth item
    return v :: (← values depth rest)

def members : Nat → List (Item × Item) → Entries Value → Except Problem (Entries Value)
  | _, [], entries => .ok entries
  | depth, (name, item) :: rest, entries => do
    let name ← name.textOf depth
    let v ← value depth item
    members depth rest (entries.put name v)

end

def entriesOf (depth : Nat) (item : Item) : Except Problem (Entries Value) :=
  match item with
  | map _ _ entries => do
    enter depth
    members (depth - 1) entries []
  | _ => item.mismatch depth "a map"

def naturalOf (limit : Nat) (typeName : String) (item : Item) : Except Problem Nat := do
  (← item.plain).toNatural limit typeName

def itemsOf (depth : Nat) (item : Item) : Except Problem (Items Item) :=
  match item with
  | array _ items => do
    enter depth
    return ⟨items, .ok ()⟩
  | binary _ bytes => .ok ⟨bytes.map octet, .ok ()⟩
  | _ => item.mismatch depth "a sequence"

def fieldName (depth : Nat) (item : Item) : Except Problem FieldName :=
  match item with
  | text _ bytes | binary _ bytes =>
    match Utf8.decode bytes with
    | .ok s => .ok (.name s)
    | .error _ => .ok .other
  | integer marker n =>
    if isUnsigned marker then .ok (.position n.toNat)
    else item.mismatch depth "field identifier"
  | _ => item.mismatch depth "field identifier"

def surplus (items : List Item) (count : Nat) : Except Problem Unit :=
  if count < items.length then .error (.messagePack (.wrongLength count)) else .ok ()

def fieldsOf (depth : Nat) (expected : String) (item : Item) : Except Problem (Fields Item) :=
  match item with
  | array _ items => do
    enter depth
    return .positional ⟨items, .ok ()⟩ (surplus items)
  | map _ _ entries => do
    enter depth
    return .named (entries.map fun (name, item) => (name.fieldName (depth - 1), item)) (.ok ())
  | _ => item.mismatch depth expected

mutual

def skip : Nat → Item → Except Problem Unit
  | 0, array _ _ => .error (.messagePack .tooDeep)
  | depth + 1, array _ items => skipItems depth items
  | 0, map _ _ _ => .error (.messagePack .tooDeep)
  | depth + 1, map _ _ entries => skipEntries depth entries
  | 0, extension _ _ => .error (.messagePack .tooDeep)
  | _ + 1, extension _ (.ok _) => .ok ()
  | _ + 1, extension _ (.error flaw) => .error (.messagePack flaw)
  | _, missing => .error (.messagePack .noMarker)
  | _, cut _ flaw => .error (.messagePack flaw)
  | _, reserved => .error (.messagePack (.wrongMarker 0xC1))
  | _, _ => .ok ()

def skipItems : Nat → List Item → Except Problem Unit
  | _, [] => .ok ()
  | depth, item :: rest => do
    skip depth item
    skipItems depth rest

def skipEntries : Nat → List (Item × Item) → Except Problem Unit
  | _, [] => .ok ()
  | depth, (name, item) :: rest => do
    skip depth name
    skip depth item
    skipEntries depth rest

end

instance : Source Item where
  levels := levels
  value := value
  number := numberOf
  entries := entriesOf
  text := textOf
  natural := naturalOf
  isNull
    | nil => true
    | _ => false
  choice := choiceOf
  items := itemsOf
  fields := fieldsOf
  skip := skip

end Item

end DecisionService.MessagePack
