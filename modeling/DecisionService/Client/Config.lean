import DecisionService.Wire.Format
/-!
# Client configuration
-/
namespace DecisionService

open Wire

structure ClientConfig where
  baseUrl : String
  format : Format
  timeoutMs : Nat
deriving DecidableEq, Repr

namespace ClientConfig

def localServer : String := "http://localhost:8080"

def standardTimeoutMs : Nat := 30000

def standard : ClientConfig :=
  ⟨localServer, .json, standardTimeoutMs⟩

def maxTimeoutMs : Nat := 2 ^ 64 - 1

abbrev schema : Schema :=
  .record "ClientConfig"
    (.field "base_url" (.text localServer) .defaulted
      (.field "marshalling_format" Format.schema .defaulted
        (.field "request_timeout_ms" (.natural maxTimeoutMs "u64" standardTimeoutMs) .defaulted
          .done)))

def content (c : ClientConfig) : schema.Content :=
  (c.baseUrl, c.format.toIndex, c.timeoutMs, ())

def ofContent : schema.Content → ClientConfig
  | (baseUrl, format, timeoutMs, ()) => ⟨baseUrl, Format.ofIndex format, timeoutMs⟩

@[simp] theorem ofContent_content (c : ClientConfig) : ofContent c.content = c := by
  simp [ofContent, content]

instance : Payload ClientConfig := ⟨schema, content, ofContent, ofContent_content⟩

def trimmedUrl (c : ClientConfig) : String :=
  String.ofList ((c.baseUrl.toList.reverse.dropWhile (· == '/')).reverse)

def timeoutSeconds (c : ClientConfig) : Nat :=
  c.timeoutMs / 1000

end ClientConfig

end DecisionService
