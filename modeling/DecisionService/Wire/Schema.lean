import DecisionService.Wire.Source
/-!
# Schemas

A schema says what a payload consists of, and `Content` is the type of what it then holds. Reading
follows the schema. A record may come with its fields named, in any order and among others, or as
a list in the order of the fields.
-/
namespace DecisionService.Wire

inductive Presence
  | required
  /-- The schema's own content stands in for it. -/
  | defaulted
  /-- Likewise, and an empty optional content is not written. -/
  | omittable
deriving DecidableEq, Repr

mutual

inductive Schema
  /-- A text, and the one that stands in for it. -/
  | text (standard : String)
  /-- A natural number up to a limit, and the one that stands in for it. -/
  | natural (limit : Nat) (typeName : String) (standard : Nat)
  /-- One of some names; the first stands in for it. -/
  | choice (first : String) (others : List String)
  | value
  | number
  /-- Named values without any order. -/
  | entries
  | optional (schema : Schema)
  | list (schema : Schema)
  | record (name : String) (fields : FieldSchemas)

inductive FieldSchemas
  | done
  | field (name : String) (schema : Schema) (presence : Presence) (rest : FieldSchemas)

end

mutual

/-- What a payload of a schema holds. -/
def Schema.Content : Schema → Type
  | .text _ => String
  | .natural _ _ _ => Nat
  | .choice _ others => Fin (others.length + 1)
  | .value => Value
  | .number => Number
  | .entries => Entries Value
  | .optional schema => Option schema.Content
  | .list schema => List schema.Content
  | .record _ fields => fields.Contents

def FieldSchemas.Contents : FieldSchemas → Type
  | .done => Unit
  | .field _ schema _ rest => schema.Content × rest.Contents

end

mutual

def Schema.standard : (schema : Schema) → schema.Content
  | .text standard => standard
  | .natural _ _ standard => standard
  | .choice _ _ => ⟨0, by omega⟩
  | .value => Value.null
  | .number => Number.int 0
  | .entries => []
  | .optional _ => none
  | .list _ => []
  | .record _ fields => fields.standards

def FieldSchemas.standards : (fields : FieldSchemas) → fields.Contents
  | .done => ()
  | .field _ schema _ rest => (schema.standard, rest.standards)

end

def Schema.isEmpty : (schema : Schema) → schema.Content → Bool
  | .optional _, none => true
  | _, _ => false

def FieldSchemas.names : FieldSchemas → List String
  | .done => []
  | .field name _ _ rest => name :: rest.names

def lengthWords (name : String) (fields : FieldSchemas) : String :=
  s!"struct {name} with {fields.names.length} elements"

def FieldSchemas.Draft : FieldSchemas → Type
  | .done => Unit
  | .field _ schema _ rest => Option schema.Content × rest.Draft

def FieldSchemas.emptyDraft : (fields : FieldSchemas) → fields.Draft
  | .done => ()
  | .field _ _ _ rest => (none, rest.emptyDraft)

/-- The record of a draft. The first field that is missing and cannot be is the problem. -/
def FieldSchemas.finish : (fields : FieldSchemas) → fields.Draft → Except Problem fields.Contents
  | .done, _ => .ok ()
  | .field name schema presence rest, (content, draft) => do
    let content ← match content with
      | some content => .ok content
      | none =>
        match presence with
        | .required => .error (.missingField name)
        | _ => .ok schema.standard
    return (content, ← rest.finish draft)

def FieldName.position? (names : List String) : FieldName → Option Nat
  | .name s => names.findIdx? (· == s)
  | .position n => if n < names.length then some n else none
  | .other => none

def Items.readAll {ν α : Type} (read : ν → Except Problem α) (items : Items ν) :
    Except Problem (List α) := do
  let contents ← items.nodes.mapM read
  items.stop
  return contents

section Reading

variable {ν : Type} [Source ν]

/-- Named values put into a draft one after the other. A name that no field has is passed over. -/
def readNamed {δ : Type} (names : List String) (depth : Nat)
    (readField : Nat → ν → δ → Except Problem δ) :
    List (Except Problem FieldName × ν) → δ → Except Problem δ
  | [], draft => .ok draft
  | (name, node) :: rest, draft => do
    let draft ← match (← name).position? names with
      | none => do
        Source.skip depth node
        pure draft
      | some n => readField n node draft
    readNamed names depth readField rest draft

mutual

def Schema.read : (schema : Schema) → Nat → ν → Except Problem schema.Content
  | .text _, depth, node => Source.text depth node
  | .natural limit typeName _, _, node => Source.natural limit typeName node
  | .choice first others, depth, node => do
    let n ← Source.choice depth (first :: others) node
    return if h : n < others.length + 1 then ⟨n, h⟩ else ⟨0, by omega⟩
  | .value, depth, node => Source.value depth node
  | .number, depth, node => Source.number depth node
  | .entries, depth, node => Source.entries depth node
  | .optional schema, depth, node =>
    if Source.isNull node then .ok none
    else
      match schema.read depth node with
      | .ok content => .ok (some content)
      | .error problem => .error problem
  | .list schema, depth, node => do
    let items ← Source.items depth node
    items.readAll fun node => schema.read (depth - 1) node
  | .record name fields, depth, node => do
    match ← Source.fields depth s!"struct {name}" node with
    | .positional items surplus =>
      let contents ← fields.readList (lengthWords name fields) (depth - 1) 0 items
      surplus (min fields.names.length items.nodes.length)
      return contents
    | .named entries stop =>
      let draft ← readNamed fields.names (depth - 1) (fields.readField (depth - 1)) entries
        fields.emptyDraft
      stop
      fields.finish draft

def FieldSchemas.readList : (fields : FieldSchemas) → String → Nat → Nat → Items ν →
    Except Problem fields.Contents
  | .done, _, _, _, _ => .ok ()
  | .field _ schema presence rest, words, depth, position, items =>
    match items.nodes with
    | node :: nodes => do
      let content ← schema.read depth node
      return (content, ← rest.readList words depth (position + 1) ⟨nodes, items.stop⟩)
    | [] => do
      items.stop
      match presence with
      | .required => .error (.wrongLength position words)
      | _ => return (schema.standard, ← rest.readList words depth (position + 1) items)

def FieldSchemas.readField : (fields : FieldSchemas) → Nat → Nat → ν → fields.Draft →
    Except Problem fields.Draft
  | .done, _, _, _, draft => .ok draft
  | .field name schema _ _, depth, 0, node, (content, draft) =>
    match content with
    | some _ => .error (.duplicateField name)
    | none =>
      match schema.read depth node with
      | .ok content => .ok (some content, draft)
      | .error problem => .error problem
  | .field _ _ _ rest, depth, n + 1, node, (content, draft) => do
    return (content, ← rest.readField depth n node draft)

termination_by structural fields => fields

end

end Reading

end DecisionService.Wire
