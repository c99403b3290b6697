import DecisionService.Number.Binary64
import DecisionService.Settings.Toml
import DecisionService.Settings.Yaml
/-!
# Files of settings

A file holds a table of settings in one of three languages.
-/
namespace DecisionService

inductive SettingsLanguage
  | toml
  | json
  | yaml
deriving DecidableEq, Repr

namespace Setting

/-- The setting of a number: an integer if it has 64 bits, and else the nearest real number. -/
def ofNumber (n : Number) : Setting :=
  match n with
  | .int n => integer n.toInt
  | n => (n.toBinary64.map real).getD nothing

mutual

def ofValue : Value → Setting
  | .null => nothing
  | .bool b => bool b
  | .number n => ofNumber n
  | .string t => text t
  | .array items => list (ofValues items)
  | .set members => list (ofValues members)
  | .object entries => table (ofEntries entries)

def ofValues : List Value → List Setting
  | [] => []
  | v :: rest => ofValue v :: ofValues rest

def ofEntries : List (String × Value) → List (String × Setting)
  | [] => []
  | (name, v) :: rest => (name, ofValue v) :: ofEntries rest

end

end Setting

namespace SettingsLanguage

def read? (text : String) : SettingsLanguage → Option Settings
  | toml => Toml.read? text
  | yaml => Yaml.read? text
  | json =>
    match (Format.json.unmarshal (Utf8.encode text) : Except FormatError Value) with
    | .ok (.object entries) => some (Setting.ofEntries entries)
    | _ => none

end SettingsLanguage

end DecisionService
