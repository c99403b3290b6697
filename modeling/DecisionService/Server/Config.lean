import DecisionService.Client.Config
/-!
# Server configuration
-/
namespace DecisionService

open Wire

structure ServerConfig where
  host : String
  port : Nat
  logLevel : String
  defaultFormat : Format
deriving DecidableEq, Repr

namespace ServerConfig

def maxPort : Nat := 2 ^ 16 - 1

def standard : ServerConfig :=
  ⟨"127.0.0.1", 8080, "info", .json⟩

abbrev schema : Schema :=
  .record "ServerConfig"
    (.field "host" (.text standard.host) .defaulted
      (.field "port" (.natural maxPort "u16" standard.port) .defaulted
        (.field "log_level" (.text standard.logLevel) .defaulted
          (.field "default_format" Format.schema .defaulted .done))))

def content (c : ServerConfig) : schema.Content :=
  (c.host, c.port, c.logLevel, c.defaultFormat.toIndex, ())

def ofContent : schema.Content → ServerConfig
  | (host, port, logLevel, format, ()) => ⟨host, port, logLevel, Format.ofIndex format⟩

@[simp] theorem ofContent_content (c : ServerConfig) : ofContent c.content = c := by
  simp [ofContent, content]

instance : Payload ServerConfig := ⟨schema, content, ofContent, ofContent_content⟩

def address (c : ServerConfig) : String :=
  s!"{c.host}:{c.port}"

def logFilter (c : ServerConfig) : String :=
  s!"kie_server={c.logLevel},kie_dmn={c.logLevel},kie_client={c.logLevel},tower_http=debug"

end ServerConfig

end DecisionService
