import DecisionService.MessagePack.Source
import DecisionService.Wire.Target
/-!
# MessagePack items as targets

Values and numbers are written with the name of their type, so that each reads back as it was.
Integers of any size and decimals are written as text.
-/
namespace DecisionService.MessagePack

open Wire

namespace Item

def named (name : String) (content : Item) : Item :=
  ofEntries [(ofText name, content)]

def ofNumber : Number → Item
  | .int n => named "Int" (ofInt n.toInt)
  | .uint n => named "UInt" (ofNat n.toNat)
  | .big n => named "BigInt" (ofText (String.ofList (Integer.text n)))
  | .float x => named "Float" (double x)
  | .text t => named "Text" (ofText t)
  | .decimal d => named "Decimal" (ofText (String.ofList d.text))

mutual

def ofValue : Value → Item
  | .null => ofText "Null"
  | .bool b => named "Bool" (bool b)
  | .number n => named "Number" (ofNumber n)
  | .string s => named "String" (ofText s)
  | .array items => named "Array" (ofItems (ofValues items))
  | .set members => named "Set" (ofItems (ofValues members))
  | .object entries => named "Object" (ofEntries (ofMemberValues entries))

def ofValues : List Value → List Item
  | [] => []
  | v :: rest => ofValue v :: ofValues rest

def ofMemberValues : Entries Value → List (Item × Item)
  | [] => []
  | (name, v) :: rest => (ofText name, ofValue v) :: ofMemberValues rest

end

instance : Target Item where
  null := nil
  text := ofText
  natural := ofNat
  value v := .ok (ofValue v)
  number n := .ok (ofNumber n)
  entries entries := .ok (ofEntries (ofMemberValues entries))
  list := ofItems
  record := ofMembers

end Item

end DecisionService.MessagePack
