import DecisionService.Binary64.Notation
import DecisionService.Entries
import DecisionService.Wire.Format
/-!
# Settings

A setting is what a file or the environment gives under a name. Its form is taken lightly: numbers
may come as texts and the other way round, truth values as numbers, and a number with a fraction is
rounded.
-/
namespace DecisionService

inductive Setting
  | nothing
  | bool (b : Bool)
  | integer (n : Int)
  | real (x : Binary64)
  | text (t : String)
  | list (items : List Setting)
  | table (entries : List (String × Setting))

namespace Setting

def maxNatural : Nat := 2 ^ 64 - 1

/-- The nearest natural number within bounds, a half rounded up. What is below zero or no number
comes to zero. -/
def roundedNatural (x : Binary64) : Nat :=
  if x.isNaN || x.isNegative then 0
  else if x.isInfinite then maxNatural
  else
    let (num, den) := x.ratio
    min maxNatural ((2 * num + den) / (2 * den))

def naturalOfText (t : String) : Option Nat :=
  match Format.lowerCase t with
  | "true" => some 1
  | "on" => some 1
  | "yes" => some 1
  | "false" => some 0
  | "off" => some 0
  | "no" => some 0
  | _ => (Integer.readBetween 0 maxNatural t.toList).toOption.map Int.toNat

def natural? : Setting → Option Nat
  | bool b => some b.toNat
  | integer n => if 0 ≤ n then some n.toNat else none
  | real x => some (roundedNatural x)
  | text t => naturalOfText t
  | nothing => none
  | list _ => none
  | table _ => none

def text? : Setting → Option String
  | bool b => some (toString b)
  | integer n => some (String.ofList (Integer.text n))
  | real x => some (String.ofList (x.text Binary64.plain))
  | text t => some t
  | nothing => none
  | list _ => none
  | table _ => none

def formatOfName (name : String) : Option Format :=
  match Format.lowerCase name with
  | "json" => some .json
  | "msgpack" => some .msgpack
  | _ => none

/-- The format that a setting stands for. It may be a table of one entry, which then names it. -/
def format? : Setting → Option Format
  | text t => formatOfName t
  | table [(name, _)] => formatOfName name
  | _ => none

end Setting

abbrev Settings := Entries Setting

namespace Settings

def overlay (above below : Settings) : Settings :=
  above.foldl (fun settings (name, setting) => settings.put (Format.lowerCase name) setting) below

def variablePrefix : List Char := "kie_".toList

/-- The settings of an environment: what follows the mark in the name of a variable is the name of
the setting. Letters of either case are the same. -/
def ofEnvironment (environment : List (String × String)) : Settings :=
  environment.filterMap fun (name, content) =>
    let name := (Format.lowerCase name).toList
    if name.take variablePrefix.length = variablePrefix then
      some (String.ofList (name.drop variablePrefix.length), .text content)
    else none

end Settings

end DecisionService
