import DecisionService.Decision.Result
/-!
# Coercion

The pass that makes every number a decimal, from the first to the last. Members of a set that become
equal collapse into one. The pass works on what it is given: when a number that has no decimal stops
it, the numbers before stay decimals, the ones behind stay as they were, and a set in which it stops
is left empty.
-/
namespace DecisionService

/-- What a pass leaves behind, and the number that stopped it. -/
structure Coerced (α : Type) where
  left : α
  fault? : Option NumberError

namespace Coerced

variable {α β : Type}

def result (c : Coerced α) : Except NumberError α :=
  match c.fault? with
  | none => .ok c.left
  | some e => .error e

def map (f : α → β) (c : Coerced α) : Coerced β :=
  ⟨f c.left, c.fault?⟩

def pair (first : Coerced α) (second : β) (coerce : β → Coerced β) : Coerced (α × β) :=
  match first.fault? with
  | some e => ⟨(first.left, second), some e⟩
  | none => (coerce second).map (first.left, ·)

def list (coerce : α → Coerced α) : List α → Coerced (List α)
  | [] => ⟨[], none⟩
  | a :: rest =>
    let c := coerce a
    match c.fault? with
    | some e => ⟨c.left :: rest, some e⟩
    | none => (list coerce rest).map (c.left :: ·)

end Coerced

namespace Number

def coerce (n : Number) : Coerced Number :=
  match n.toDecimal with
  | .ok d => ⟨.decimal d, none⟩
  | .error e => ⟨n, some e⟩

end Number

namespace Value

mutual

def coerce : Value → Coerced Value
  | null => ⟨null, none⟩
  | bool b => ⟨bool b, none⟩
  | string s => ⟨string s, none⟩
  | number n => n.coerce.map number
  | array items => (coerceList items).map array
  | set members =>
    let c := coerceList members
    match c.fault? with
    | none => ⟨ofItems c.left, none⟩
    | some e => ⟨set [], some e⟩
  | object entries => (coerceEntries entries).map object

def coerceList : List Value → Coerced (List Value)
  | [] => ⟨[], none⟩
  | v :: rest =>
    let c := coerce v
    match c.fault? with
    | some e => ⟨c.left :: rest, some e⟩
    | none => (coerceList rest).map (c.left :: ·)

def coerceEntries : Entries Value → Coerced (Entries Value)
  | [] => ⟨[], none⟩
  | (name, v) :: rest =>
    let c := coerce v
    match c.fault? with
    | some e => ⟨(name, c.left) :: rest, some e⟩
    | none => (coerceEntries rest).map ((name, c.left) :: ·)

end

end Value

namespace Context

def coerce (c : Context) : Coerced Context :=
  (Value.coerceEntries c.entries).map fun entries => ⟨entries⟩

end Context

namespace DecisionResult

def coerce (d : DecisionResult) : Coerced DecisionResult :=
  d.result.coerce.map fun v => { d with result := v }

end DecisionResult

namespace Report

def coerce (r : Report) : Coerced Report :=
  (r.context.coerce.pair r.decisions (Coerced.list DecisionResult.coerce)).map
    fun (context, decisions) => { r with context := context, decisions := decisions }

end Report

end DecisionService
