import DecisionService.Json.Doc
import DecisionService.Wire.Target
/-!
# JSON documents as targets

Numbers lose their form and sets become lists. A number is written as a literal: a text if it is
one literal apart from zeros in front, a whole decimal without point and exponent.
-/
namespace DecisionService.Json

open Wire

namespace Doc

def ofLiteral (text : List Char) : Except Problem Doc :=
  match Literal.read text with
  | .ok l => .ok (number l)
  | .error flaw => .error (.json flaw)

/-- The document of a number. A binary number that is not finite has no literal. -/
def ofNumber : Number → Except Problem Doc
  | .int n => ofLiteral (Integer.text n.toInt)
  | .uint n => ofLiteral (Integer.text n.toNat)
  | .big n => ofLiteral (Integer.text n)
  | .float x => if x.isFinite then ofLiteral (x.text Binary64.interchange) else .ok null
  | .text t =>
    match Literal.read (Number.stripZeros t.toList) with
    | .ok l => .ok (number l)
    | .error _ => .ok (string (.ok t))
  | .decimal d => ofLiteral (if d.isWhole then Integer.text d.truncate else d.text)

mutual

def ofValue : Value → Except Problem Doc
  | .null => .ok null
  | .bool b => .ok (bool b)
  | .number n => ofNumber n
  | .string s => .ok (string (.ok s))
  | .array items => do return array (← ofValues items) .closed
  | .set members => do return array (← ofValues members) .closed
  | .object entries => do return object (← ofEntries entries) .closed

def ofValues : List Value → Except Problem (List Doc)
  | [] => .ok []
  | v :: rest => do
    let doc ← ofValue v
    return doc :: (← ofValues rest)

def ofEntries : Entries Value → Except Problem (List (Except Flaw String × Doc))
  | [] => .ok []
  | (name, v) :: rest => do
    let doc ← ofValue v
    return (.ok name, doc) :: (← ofEntries rest)

end

def ofNat (n : Nat) : Doc :=
  number ⟨false, Nat.toDigits 10 n, [], none⟩

instance : Target Doc where
  null := null
  text s := string (.ok s)
  natural := ofNat
  value := ofValue
  number := ofNumber
  entries entries := do return object (← ofEntries entries) .closed
  list := ofItems
  record := ofMembers

end Doc

end DecisionService.Json
