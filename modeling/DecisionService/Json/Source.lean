import DecisionService.Json.Doc
import DecisionService.Json.Natural
import DecisionService.Wire.Source
/-!
# JSON documents as sources

Numbers arrive without a type. A number can also arrive as an object whose first name announces a
numeric literal; everything behind that literal is then out of place.
-/
namespace DecisionService.Json

open Wire

/-- The name that announces a numeric literal in an object. -/
def literalName : String := "$serde_json::private::Number"

def levels : Nat := 127

namespace Stop

def read : Stop → Except Problem Unit
  | closed => .ok ()
  | broken breach => .error (.json breach.read)

def skip : Stop → Except Problem Unit
  | closed => .ok ()
  | broken breach => .error (.json breach.skip)

def endList : Stop → Except Problem Unit
  | closed => .ok ()
  | broken breach =>
    match breach.read with
    | .expectedListCommaOrEnd | .endInValue => .error (.json .trailingCharacters)
    | flaw => .error (.json flaw)

/-- What ending an object amounts to when all its members are taken: a comma is one too many. -/
def endObject : Stop → Except Problem Unit
  | closed => .ok ()
  | broken breach =>
    match breach.read with
    | .endInObject => .error (.json .endInObject)
    | .expectedObjectCommaOrEnd => .error (.json .trailingCharacters)
    | _ => .error (.json .trailingComma)

def endVariant : Stop → Except Problem Unit
  | closed => .ok ()
  | broken breach =>
    match breach.read with
    | .endInObject => .error (.json .endInObject)
    | _ => .error (.json .expectedValue)

end Stop

def readText (text : Except Flaw String) : Except Problem String :=
  match text with
  | .ok s => .ok s
  | .error flaw => .error (.json flaw)

namespace Literal

def found (l : Literal) : Found :=
  match Number.ofLiteral l.text with
  | some (.int n) => .integer n.toInt
  | some (.uint n) => .integer n.toNat
  | _ => .number

def foundWord (l : Literal) : Except Problem Found :=
  match l.toWord with
  | .ok (.integer n) => .ok (.integer n)
  | .ok (.float x) => .ok (.float (x.text Binary64.interchange))
  | .error flaw => .error (.json flaw)

end Literal

namespace Doc

def found : Doc → Except Problem Found
  | null => .ok .null
  | bool b => .ok (.bool b)
  | number l => .ok l.found
  | string text => (readText text).map .string
  | array _ _ => .ok .sequence
  | object _ _ => .ok .map
  | keyless _ => .ok .map
  | missing => .error (.json .endInValue)
  | broken breach => .error (.json breach.read)

def mismatch {α : Type} (expected : String) (doc : Doc) : Except Problem α := do
  throw (.wrongType (← doc.found) expected)

def text (doc : Doc) : Except Problem String :=
  match doc with
  | string text => readText text
  | _ => doc.mismatch "a string"

def untyped (expected : String) (text : List Char) : Except Problem Number :=
  match Number.ofLiteral text with
  | some n => .ok n
  | none => .error (.wrongValue (.string (String.ofList text)) expected)

def announced (expected : String) (literal : Doc) (rest : List (Except Flaw String × Doc))
    (stop : Stop) : Except Problem Number := do
  let n ← untyped expected (← literal.text).toList
  if rest.isEmpty then stop.endObject else throw (.json .trailingComma)
  return n

def announcement? : List (Except Flaw String × Doc) → Option (Doc × List (Except Flaw String × Doc))
  | (.ok name, literal) :: rest => if name = literalName then some (literal, rest) else none
  | _ => none

def valueWords : String := "any JSON value"

mutual

def value : Nat → Doc → Except Problem Value
  | _, null => .ok .null
  | _, bool b => .ok (.bool b)
  | _, number l => (untyped valueWords l.text).map .number
  | _, string text => (readText text).map .string
  | _, missing => .error (.json .endInValue)
  | _, broken breach => .error (.json breach.read)
  | 0, array _ _ => .error (.json .tooDeep)
  | depth + 1, array items stop => do
    let values ← values depth items
    stop.read
    return .array values
  | 0, object _ _ => .error (.json .tooDeep)
  | depth + 1, object given stop =>
    match announcement? given with
    | some (literal, rest) => (announced valueWords literal rest stop).map .number
    | none => do
      let entries ← members depth given []
      stop.read
      return .object entries
  | 0, keyless _ => .error (.json .tooDeep)
  | _ + 1, keyless _ => .error (.json .keyNotString)

def values : Nat → List Doc → Except Problem (List Value)
  | _, [] => .ok []
  | depth, item :: rest => do
    let v ← value depth item
    return v :: (← values depth rest)

def members : Nat → List (Except Flaw String × Doc) → Entries Value →
    Except Problem (Entries Value)
  | _, [], entries => .ok entries
  | depth, (name, item) :: rest, entries => do
    let name ← readText name
    let v ← value depth item
    members depth rest (entries.put name v)

end

def numberWords : String := "a number or a numeric literal"

/-- The number of a document. A text is taken for a numeric literal whatever it says. -/
def numberOf (depth : Nat) (doc : Doc) : Except Problem Number :=
  match doc with
  | number l => untyped numberWords l.text
  | string text => (readText text).map .text
  | array _ _ =>
    if depth = 0 then .error (.json .tooDeep) else .error (.wrongType .sequence numberWords)
  | object members stop =>
    if depth = 0 then .error (.json .tooDeep)
    else
      match members with
      | [] => do
        stop.read
        throw (.wrongType .map numberWords)
      | (name, literal) :: rest => do
        if (← readText name) = literalName then announced numberWords literal rest stop
        else throw (.wrongType .map numberWords)
  | keyless _ => if depth = 0 then .error (.json .tooDeep) else .error (.json .keyNotString)
  | _ => doc.mismatch numberWords

def entriesOf (depth : Nat) (doc : Doc) : Except Problem (Entries Value) :=
  match doc with
  | object members stop =>
    if depth = 0 then .error (.json .tooDeep)
    else do
      let entries ← Doc.members (depth - 1) members []
      stop.read
      return entries
  | keyless _ => if depth = 0 then .error (.json .tooDeep) else .error (.json .keyNotString)
  | _ => doc.mismatch "a map"

def naturalOf (limit : Nat) (typeName : String) (doc : Doc) : Except Problem Nat :=
  match doc with
  | number l => do (← l.foundWord).toNatural limit typeName
  | _ => doc.mismatch typeName

def position (known : List String) (name : String) : Except Problem Nat :=
  match known.findIdx? (· == name) with
  | some n => .ok n
  | none => .error (.unknownVariant name known)

def nothing (doc : Doc) : Except Problem Unit :=
  match doc with
  | null => .ok ()
  | _ => doc.mismatch "unit"

def choiceOf (depth : Nat) (known : List String) (doc : Doc) : Except Problem Nat :=
  match doc with
  | string text => do position known (← readText text)
  | object members stop =>
    if depth = 0 then .error (.json .tooDeep)
    else
      match members with
      | [] =>
        match stop with
        | .closed => .error (.json .expectedValue)
        | .broken breach =>
          .error (.json (if breach.read = .endInObject then .endInValue else breach.read))
      | (name, content) :: rest => do
        let n ← position known (← readText name)
        nothing content
        if rest.isEmpty then stop.endVariant else throw (.json .expectedValue)
        return n
  | keyless first =>
    if depth = 0 then .error (.json .tooDeep) else first.mismatch "variant identifier"
  | missing => .error (.json .endInValue)
  | broken breach =>
    match breach.read with
    | .endInValue | .expectedWord | .badNumber => .error (.json .expectedValue)
    | flaw => .error (.json flaw)
  | _ => .error (.json .expectedValue)

def itemsOf (depth : Nat) (doc : Doc) : Except Problem (Items Doc) :=
  match doc with
  | array items stop =>
    if depth = 0 then .error (.json .tooDeep) else .ok ⟨items, stop.read⟩
  | _ => doc.mismatch "a sequence"

def surplus (items : List Doc) (stop : Stop) (count : Nat) : Except Problem Unit :=
  if count < items.length then .error (.json .trailingCharacters) else stop.endList

def fieldsOf (depth : Nat) (expected : String) (doc : Doc) : Except Problem (Fields Doc) :=
  match doc with
  | array items stop =>
    if depth = 0 then .error (.json .tooDeep)
    else .ok (.positional ⟨items, stop.read⟩ (surplus items stop))
  | object members stop =>
    if depth = 0 then .error (.json .tooDeep)
    else .ok (.named (members.map fun (name, doc) => ((readText name).map .name, doc)) stop.read)
  | keyless _ =>
    if depth = 0 then .error (.json .tooDeep) else .ok (.named [] (.error (.json .keyNotString)))
  | _ => doc.mismatch expected

mutual

/-- Passing over a document: texts may say anything, and no level is counted. -/
def skip : Doc → Except Problem Unit
  | null | bool _ | number _ | string _ => .ok ()
  | array items stop => do
    skipItems items
    stop.skip
  | object members stop => do
    skipMembers members
    stop.skip
  | keyless _ => .error (.json .keyNotString)
  | missing => .error (.json .endInValue)
  | broken breach => .error (.json breach.skip)

def skipItems : List Doc → Except Problem Unit
  | [] => .ok ()
  | item :: rest => do
    skip item
    skipItems rest

def skipMembers : List (Except Flaw String × Doc) → Except Problem Unit
  | [] => .ok ()
  | (_, item) :: rest => do
    skip item
    skipMembers rest

end

instance : Source Doc where
  levels := levels
  value := value
  number := numberOf
  entries := entriesOf
  text _ := text
  natural := naturalOf
  isNull
    | null => true
    | _ => false
  choice := choiceOf
  items := itemsOf
  fields := fieldsOf
  skip _ := skip

end Doc

end DecisionService.Json
