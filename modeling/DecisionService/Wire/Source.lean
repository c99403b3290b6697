import DecisionService.Value.Basic
import DecisionService.Wire.Problem
/-!
# Sources

What the two formats have in common for whoever reads a payload. A source is a node of a tree; it is
asked for what is expected there and answers with it or with a problem. Nested containers use up a
budget of levels.
-/
namespace DecisionService.Wire

inductive FieldName
  | name (s : String)
  | position (n : Nat)
  /-- No text and no number, but nothing wrong either. -/
  | other
deriving DecidableEq, Repr

structure Items (ν : Type) where
  nodes : List ν
  stop : Except Problem Unit

/-- A record is a list of values in the order of its fields, or a list of named values. -/
inductive Fields (ν : Type)
  /-- `surplus` says what ending the list after so many values amounts to. -/
  | positional (items : Items ν) (surplus : Nat → Except Problem Unit)
  | named (entries : List (Except Problem FieldName × ν)) (stop : Except Problem Unit)

class Source (ν : Type) where
  /-- The levels that a whole payload may have. -/
  levels : Nat
  value : Nat → ν → Except Problem Value
  number : Nat → ν → Except Problem Number
  /-- Named values without any order. -/
  entries : Nat → ν → Except Problem (Entries Value)
  text : Nat → ν → Except Problem String
  /-- A natural number up to a limit, with the words for what is expected. -/
  natural : Nat → String → ν → Except Problem Nat
  isNull : ν → Bool
  /-- The position of a name among those that are known. -/
  choice : Nat → List String → ν → Except Problem Nat
  items : Nat → ν → Except Problem (Items ν)
  /-- The fields of a record, with the words for what is expected. -/
  fields : Nat → String → ν → Except Problem (Fields ν)
  skip : Nat → ν → Except Problem Unit

end DecisionService.Wire
