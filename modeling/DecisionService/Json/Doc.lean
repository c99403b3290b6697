import DecisionService.Json.Literal
import DecisionService.Json.Quoted
/-!
# JSON documents

A document is a tree that may be cut short: where the text stops being JSON, the tree holds the
flaw instead of what would follow. There are two ways to come across a flaw. Reading takes a part
for what it says; skipping only looks for its end, and is easier on texts and stricter on commas.
-/
namespace DecisionService.Json

/-- What reading and what skipping says of a place where a document breaks off. -/
structure Breach where
  read : Flaw
  skip : Flaw
deriving DecidableEq, Repr

def Breach.same (flaw : Flaw) : Breach :=
  ⟨flaw, flaw⟩

inductive Stop
  | closed
  | broken (breach : Breach)
deriving DecidableEq, Repr

inductive Doc
  /-- The text ends where a document should start. -/
  | missing
  | null
  | bool (b : Bool)
  | number (l : Literal)
  /-- A text that can be skipped. Reading it may still fail. -/
  | string (text : Except Flaw String)
  | array (items : List Doc) (stop : Stop)
  | object (members : List (Except Flaw String × Doc)) (stop : Stop)
  /-- An object whose first member starts with something other than a quote. -/
  | keyless (first : Doc)
  | broken (breach : Breach)

namespace Doc

instance : Inhabited Doc := ⟨null⟩

abbrev Scanned := Doc × Option Bytes

def skipBlanks : Bytes → Bytes :=
  List.dropWhile fun b => b == 0x20 || b == 0x09 || b == 0x0A || b == 0x0D

def scanWord (doc : Doc) : List UInt8 → Bytes → Scanned
  | [], rest => (doc, some rest)
  | _ :: _, [] => (broken (.same .endInValue), none)
  | w :: word, b :: rest =>
    if b = w then scanWord doc word rest else (broken (.same .expectedWord), none)

/-- A number. Skipping does not tell an unfinished one from a malformed one. -/
def scanNumber (bytes : Bytes) : Scanned :=
  match Literal.scan bytes with
  | .ok (l, rest) => (number l, some rest)
  | .error flaw => (broken ⟨flaw, .badNumber⟩, none)

def textFlaw (bytes : Bytes) (skip : Flaw) : Flaw :=
  match Quoted.decode bytes with
  | .ok _ => skip
  | .error flaw => flaw

def scanText (bytes : Bytes) : Scanned :=
  match Quoted.skip bytes with
  | .ok rest => (string (Quoted.decode bytes), some rest)
  | .error flaw => (broken ⟨textFlaw bytes flaw, flaw⟩, none)

mutual

/-- The document at the start of a text. Every step takes from the text, so `fuel` beyond its
length is never used up. -/
def scan : Nat → Bytes → Scanned
  | 0, _ => (missing, none)
  | fuel + 1, bytes =>
    match skipBlanks bytes with
    | [] => (missing, none)
    | b :: rest =>
      if b = 0x6E then scanWord null [0x75, 0x6C, 0x6C] rest
      else if b = 0x74 then scanWord (bool true) [0x72, 0x75, 0x65] rest
      else if b = 0x66 then scanWord (bool false) [0x61, 0x6C, 0x73, 0x65] rest
      else if b = 0x2D || Literal.isDigit b then scanNumber (b :: rest)
      else if b = 0x22 then scanText rest
      else if b = 0x5B then
        match skipBlanks rest with
        | [] => (array [] (.broken (.same .endInList)), none)
        | c :: after =>
          if c = 0x5D then (array [] .closed, some after)
          else
            let (items, stop, rest) := scanItems fuel (c :: after)
            (array items stop, rest)
      else if b = 0x7B then
        match skipBlanks rest with
        | [] => (object [] (.broken (.same .endInObject)), none)
        | c :: after =>
          if c = 0x7D then (object [] .closed, some after)
          else if c = 0x22 then
            let (members, stop, rest) := scanMembers fuel after
            (object members stop, rest)
          else (keyless (scan fuel (c :: after)).1, none)
      else (broken (.same .expectedValue), none)

def scanItems : Nat → Bytes → List Doc × Stop × Option Bytes
  | 0, _ => ([], .broken (.same .endInList), none)
  | fuel + 1, bytes =>
    match scan fuel bytes with
    | (item, none) => ([item], .closed, none)
    | (item, some rest) =>
      match skipBlanks rest with
      | [] => ([item], .broken (.same .endInList), none)
      | b :: rest =>
        if b = 0x5D then ([item], .closed, some rest)
        else if b = 0x2C then
          match skipBlanks rest with
          | [] => ([item], .broken (.same .endInValue), none)
          | c :: after =>
            if c = 0x5D then ([item], .broken ⟨.trailingComma, .expectedValue⟩, none)
            else
              let (items, stop, rest) := scanItems fuel (c :: after)
              (item :: items, stop, rest)
        else ([item], .broken (.same .expectedListCommaOrEnd), none)

def scanValue : Nat → Bytes → Scanned
  | 0, _ => (broken (.same .endInObject), none)
  | fuel + 1, bytes =>
    match skipBlanks bytes with
    | [] => (broken (.same .endInObject), none)
    | b :: rest =>
      if b = 0x3A then scan fuel rest else (broken (.same .expectedColon), none)

def scanMembers : Nat → Bytes → List (Except Flaw String × Doc) × Stop × Option Bytes
  | 0, _ => ([], .broken (.same .endInObject), none)
  | fuel + 1, bytes =>
    match Quoted.skip bytes with
    | .error flaw => ([], .broken ⟨textFlaw bytes flaw, flaw⟩, none)
    | .ok rest =>
      let name := Quoted.decode bytes
      match scanValue fuel rest with
      | (value, none) => ([(name, value)], .closed, none)
      | (value, some rest) =>
        match skipBlanks rest with
        | [] => ([(name, value)], .broken (.same .endInObject), none)
        | b :: rest =>
          if b = 0x7D then ([(name, value)], .closed, some rest)
          else if b = 0x2C then
            match skipBlanks rest with
            | [] => ([(name, value)], .broken ⟨.endInValue, .endInObject⟩, none)
            | c :: after =>
              if c = 0x22 then
                let (members, stop, rest) := scanMembers fuel after
                ((name, value) :: members, stop, rest)
              else if c = 0x7D then
                ([(name, value)], .broken ⟨.trailingComma, .keyNotString⟩, none)
              else ([(name, value)], .broken (.same .keyNotString), none)
          else ([(name, value)], .broken (.same .expectedObjectCommaOrEnd), none)

end

def ofBytes (bytes : Bytes) : Scanned :=
  scan (2 * bytes.length + 2) bytes

mutual

/-- The text of a document, without blanks. Flaws have no text. -/
def render : Doc → Bytes
  | null => [0x6E, 0x75, 0x6C, 0x6C]
  | bool true => [0x74, 0x72, 0x75, 0x65]
  | bool false => [0x66, 0x61, 0x6C, 0x73, 0x65]
  | number l => Bytes.ofAscii l.text
  | string (.ok text) => Quoted.encode text
  | array items _ => 0x5B :: renderItems items ++ [0x5D]
  | object members _ => 0x7B :: renderMembers members ++ [0x7D]
  | string (.error _) => []
  | keyless _ => []
  | missing => []
  | broken _ => []

def renderItems : List Doc → Bytes
  | [] => []
  | item :: rest =>
    render item ++ (if rest.isEmpty then [] else 0x2C :: renderItems rest)

def renderMembers : List (Except Flaw String × Doc) → Bytes
  | [] => []
  | (.ok name, value) :: rest =>
    Quoted.encode name ++ 0x3A :: render value
      ++ (if rest.isEmpty then [] else 0x2C :: renderMembers rest)
  | (.error _, value) :: rest =>
    render value ++ (if rest.isEmpty then [] else 0x2C :: renderMembers rest)

end

def ofMembers (members : List (String × Doc)) : Doc :=
  object (members.map fun (name, value) => (.ok name, value)) .closed

def ofItems (items : List Doc) : Doc :=
  array items .closed

end Doc

end DecisionService.Json
