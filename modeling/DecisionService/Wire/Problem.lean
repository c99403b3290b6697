import DecisionService.Decimal.Notation
import DecisionService.Binary64.Basic
import DecisionService.Json.Flaw
import DecisionService.MessagePack.Marker
import DecisionService.Text.Printed
/-!
# Problems of a payload

Why a payload cannot be taken for what it should be: it is malformed, it has the wrong shape, or a
number in it has no value. Every problem has one wording.
-/
namespace DecisionService.Wire

inductive Found
  | null
  | unit
  | bool (b : Bool)
  | integer (n : Int)
  /-- A number too large for a word or with a fraction, and not looked at any further. -/
  | number
  | float (text : List Char)
  | string (text : String)
  | bytes
  | sequence
  | map
  | foreign
  /-- A name that should have something behind it. -/
  | bareVariant
deriving DecidableEq, Repr

def Found.description : Found → String
  | null => "null"
  | unit => "unit value"
  | bool b => s!"boolean `{b}`"
  | integer n => s!"integer `{String.ofList (Integer.text n)}`"
  | number => "number"
  | float text => s!"floating point `{String.ofList text}`"
  | string text => s!"string {Text.printed text}"
  | bytes => "byte array"
  | sequence => "sequence"
  | map => "map"
  | foreign => "newtype struct"
  | bareVariant => "unit variant"

inductive Problem
  | json (flaw : Json.Flaw)
  | messagePack (flaw : MessagePack.Flaw)
  | wrongType (found : Found) (expected : String)
  | wrongValue (found : Found) (expected : String)
  | wrongLength (length : Nat) (expected : String)
  | unknownVariant (name : String) (known : List String)
  | missingField (name : String)
  | duplicateField (name : String)
  | integer (e : IntegerError)
  | decimal (e : Decimal.Error)
  | float (e : Binary64.DecimalError)
deriving DecidableEq, Repr

def oneOf : List String → String
  | [] => "there are no variants"
  | [a] => s!"expected `{a}`"
  | [a, b] => s!"expected `{a}` or `{b}`"
  | names => "expected one of " ++ ", ".intercalate (names.map fun name => s!"`{name}`")

/-- What is said of a problem. The place in a JSON text, told behind this as a line and a column, is
left out. -/
def Problem.message : Problem → String
  | json flaw => flaw.message
  | messagePack flaw => flaw.message
  | wrongType found expected => s!"invalid type: {found.description}, expected {expected}"
  | wrongValue found expected => s!"invalid value: {found.description}, expected {expected}"
  | wrongLength length expected => s!"invalid length {length}, expected {expected}"
  | unknownVariant name known => s!"unknown variant `{name}`, {oneOf known}"
  | missingField name => s!"missing field `{name}`"
  | duplicateField name => s!"duplicate field `{name}`"
  | integer e => e.message
  | decimal e => e.message
  | float e => e.message

def Found.toNatural (limit : Nat) (expected : String) : Found → Except Problem Nat
  | integer n =>
    if 0 ≤ n ∧ n ≤ limit then .ok n.toNat else .error (.wrongValue (.integer n) expected)
  | found => .error (.wrongType found expected)

end DecisionService.Wire
