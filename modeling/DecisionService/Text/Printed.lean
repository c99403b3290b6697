import DecisionService.Text.Shapeless
/-!
# Printed text

The form in which a message quotes a text: control characters, separators, marks that join the
character before them and characters without a shape are written by their number.
-/
namespace DecisionService.Text

def numberedEscape (c : Char) : List Char :=
  ['\\', 'u', '\x7b'] ++ Nat.toDigits 16 c.toNat ++ ['\x7d']

def printedChar (c : Char) : List Char :=
  match c with
  | '\x00' => ['\\', '0']
  | '\t' => ['\\', 't']
  | '\n' => ['\\', 'n']
  | '\r' => ['\\', 'r']
  | '"' => ['\\', '"']
  | '\\' => ['\\', '\\']
  | c => if c.toNat < 0x20 || isShapeless c then numberedEscape c else [c]

def printed (text : String) : String :=
  String.ofList ('"' :: text.toList.flatMap printedChar ++ ['"'])

end DecisionService.Text
