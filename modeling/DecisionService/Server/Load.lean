import DecisionService.Server.Config
import DecisionService.Settings.File
/-!
# Loading the server configuration

The settings of a file come first and those of the environment on top. What neither gives is
standard; what one of them gives must be of use.
-/
namespace DecisionService

inductive ConfigError
  | unreadable
  | unusable
deriving DecidableEq, Repr

def ConfigError.message : ConfigError → String
  | unreadable => "Failed to read config"
  | unusable => "Failed to deserialize config"

structure SettingsFile where
  language : SettingsLanguage
  text : String
deriving DecidableEq, Repr

namespace ServerConfig

def use {α : Type} (name : String) (convert : Setting → Option α) (standard : α)
    (settings : Settings) : Except ConfigError α :=
  match settings.get? name with
  | none => .ok standard
  | some setting =>
    match convert setting with
    | some a => .ok a
    | none => .error .unusable

def port? (setting : Setting) : Option Nat :=
  setting.natural?.filter (· ≤ maxPort)

def ofSettings (settings : Settings) : Except ConfigError ServerConfig := do
  return ⟨← use "host" Setting.text? standard.host settings,
    ← use "port" port? standard.port settings,
    ← use "log_level" Setting.text? standard.logLevel settings,
    ← use "default_format" Setting.format? standard.defaultFormat settings⟩

def fileSettings (file? : Option SettingsFile) : Except ConfigError Settings :=
  match file? with
  | none => .ok []
  | some file =>
    match file.language.read? file.text with
    | some settings => .ok settings
    | none => .error .unreadable

def load (file? : Option SettingsFile) (environment : List (String × String)) :
    Except ConfigError ServerConfig := do
  let settings := Settings.overlay (← fileSettings file?) []
  ofSettings (Settings.overlay (.ofEnvironment environment) settings)

end ServerConfig

end DecisionService
