import DecisionService.Entries
import DecisionService.Number.Basic
/-!
# Values

What a decision reads and writes: the shapes of JSON, with numbers that keep their form and with
sets beside arrays.
-/
namespace DecisionService

inductive Value
  | null
  | bool (b : Bool)
  | number (n : Number)
  | string (s : String)
  | array (items : List Value)
  /-- A collection of distinct members. The order they came in is kept. -/
  | set (members : List Value)
  | object (entries : List (String × Value))

namespace Value

instance : Inhabited Value := ⟨null⟩

mutual

/-- Equality of values. Numbers are compared as numbers, lists member by member, and objects by what
each name holds. -/
def same : Value → Value → Bool
  | null, null => true
  | bool a, bool b => a == b
  | number a, number b => a.same b
  | string a, string b => a == b
  | array a, array b => sameList a b
  | set a, set b => sameList a b
  | object a, object b => a.length == b.length && sameEntries a b
  | _, _ => false

def sameList : List Value → List Value → Bool
  | [], [] => true
  | a :: as, b :: bs => same a b && sameList as bs
  | _, _ => false

def sameEntries : Entries Value → Entries Value → Bool
  | [], _ => true
  | (name, a) :: rest, entries =>
    (match entries.get? name with
      | some b => same a b
      | none => false) && sameEntries rest entries

end

def distinct (items : List Value) : List Value :=
  items.foldl (fun members item => if members.any (same · item) then members else members ++ [item])
    []

def ofItems (items : List Value) : Value :=
  set (distinct items)

def isNull : Value → Bool
  | null => true
  | _ => false

def number? : Value → Option Number
  | number n => some n
  | _ => none

/-- The decimal of a number that has one. An overflow leaves no answer at all. -/
def decimal? (v : Value) : Except NumberError (Option Decimal) :=
  match v.number?.map Number.toDecimal with
  | some (.ok d) => .ok (some d)
  | some (.error .overflow) => .error .overflow
  | _ => .ok none

def string? : Value → Option String
  | string s => some s
  | _ => none

def object? : Value → Option (Entries Value)
  | object entries => some entries
  | _ => none

def get? (name : String) (v : Value) : Option Value :=
  v.object?.bind (Entries.get? name)

end Value

end DecisionService
