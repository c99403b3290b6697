import DecisionService.Wire.Schema
/-!
# Targets

What the two formats have in common for whoever writes a payload: a target builds its nodes from
contents. Writing follows the schema, and a record is always written with its fields named.
-/
namespace DecisionService.Wire

class Target (τ : Type) where
  null : τ
  text : String → τ
  natural : Nat → τ
  value : Value → Except Problem τ
  number : Number → Except Problem τ
  entries : Entries Value → Except Problem τ
  list : List τ → τ
  record : List (String × τ) → τ

variable {τ : Type} [Target τ]

def leftOut (presence : Presence) (schema : Schema) (content : schema.Content) : Bool :=
  presence == .omittable && schema.isEmpty content

mutual

def Schema.write : (schema : Schema) → schema.Content → Except Problem τ
  | .text _, s => .ok (Target.text s)
  | .natural _ _ _, n => .ok (Target.natural n)
  | .choice first others, n => .ok (Target.text ((first :: others).get n))
  | .value, v => Target.value v
  | .number, n => Target.number n
  | .entries, entries => Target.entries entries
  | .optional _, none => .ok Target.null
  | .optional schema, some content => schema.write content
  | .list schema, contents => do return Target.list (← contents.mapM fun c => schema.write c)
  | .record _ fields, contents => do return Target.record (← fields.writeAll contents)

def FieldSchemas.writeAll : (fields : FieldSchemas) → fields.Contents →
    Except Problem (List (String × τ))
  | .done, _ => .ok []
  | .field name schema presence rest, (content, contents) => do
    if leftOut presence schema content then rest.writeAll contents
    else return (name, ← schema.write content) :: (← rest.writeAll contents)

end

end DecisionService.Wire
