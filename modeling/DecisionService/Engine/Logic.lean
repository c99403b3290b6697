import DecisionService.Engine.Container
import DecisionService.Text.UpperCase
/-!
# Ready-made logic

Decision functions that need no code of their own, each described by what it does with the entries
of the context.
-/
namespace DecisionService

inductive Logic
  | const (v : Value)
  | fail (text : String)
  | copy (name : String)
  /-- The sum of numbers, from left to right. -/
  | sum (names : List String)
  | double (name : String)
  /-- An object that holds the sum of `a` and `b`. -/
  | math
  | greet (name : String)
  | upper (name : String)
  /-- The number of entries. -/
  | size
  /-- The set of the entries that are there. -/
  | collect (names : List String)

namespace Logic

/-- The decimal of an entry. At an overflow the function ends with nothing; here that is a failure
with the words of the overflow. -/
def decimal (c : Context) (name : String) : Except String Decimal :=
  match (c.get? name).map Value.decimal? with
  | some (.ok (some d)) => .ok d
  | some (.error e) => .error e.message
  | _ => .error s!"'{name}' is not a number"

def value (d : Decimal) : Value :=
  .number (.decimal d)

def text? (c : Context) (name : String) : Option String :=
  (c.get? name).bind Value.string?

def mathObject (c : Context) : Except String Value := do
  let a ← decimal c "a"
  let b ← decimal c "b"
  return .object [("Sum", value (a.add b))]

def run : Logic → Context → Except String Value
  | const v, _ => .ok v
  | fail text, _ => .error text
  | copy name, c =>
    match c.get? name with
    | some v => .ok v
    | none => .error s!"'{name}' is not in the context"
  | sum names, c => do
    let ds ← names.mapM (decimal c)
    return value (ds.foldl Decimal.add (.ofInt 0))
  | double name, c => do return value ((← decimal c name).times 2)
  | math, c => mathObject c
  | greet name, c => .ok (.string ("Hello " ++ (text? c name).getD ""))
  | upper name, c =>
    match text? c name with
    | some t => .ok (.string (Text.upperCase t))
    | none => .error s!"{name} is not a string"
  | size, c => .ok (.number (.int (Int64.ofNat c.size)))
  | collect names, c => .ok (.ofItems (names.filterMap c.get?))

def decision (id name : String) (requires : List String) (logic : Logic) : Decision :=
  ⟨id, name, requires, logic.run⟩

end Logic

def sampleContainer : Container :=
  .deployed "function-definition"
    [((Model.new "https://www.drools.org/kie-dmn/function-definition" "function-definition").withId
        "_5a4bdb64-f0ef-4978-9e03-6f1ae64a1f17").withDecision
      (Logic.decision "_6fa2a11f-6c40-4f36-a4c1-3f5b7a0bd5d4" "Math" ["a", "b"] .math)]

end DecisionService
