import DecisionService.Text.Utf8
/-!
# Requests and replies

What travels over HTTP, without the connection that it travels on.
-/
namespace DecisionService.Http

structure Header where
  name : String
  value : Bytes
deriving DecidableEq, Repr

structure Request where
  method : String
  /-- The path with the query. -/
  target : String
  headers : List Header
  body : Bytes
deriving DecidableEq, Repr

structure Reply where
  status : Nat
  headers : List Header
  body : Bytes
deriving DecidableEq, Repr

namespace Header

def text (name value : String) : Header :=
  ⟨name, Utf8.encode value⟩

def isNamed (name : String) (h : Header) : Bool :=
  h.name.toList.map Char.toLower == name.toList.map Char.toLower

def find? (name : String) (headers : List Header) : Option Bytes :=
  (headers.find? (isNamed name)).map Header.value

/-- A value of visible ASCII characters, blanks and tabs. -/
def text? (value : Bytes) : Option String :=
  if value.all fun b => (0x20 ≤ b && b < 0x7F) || b == 0x09 then
    some (String.ofList (value.map fun b => Char.ofNat b.toNat))
  else none

end Header

namespace Reply

def isSuccess (r : Reply) : Bool :=
  200 ≤ r.status && r.status < 300

end Reply

end DecisionService.Http
