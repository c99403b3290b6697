import DecisionService.Decision.Coercion
/-!
# Client errors
-/
namespace DecisionService

inductive ClientError
  | invalidArgument (text : String)
  | transport (text : String)
  | marshalling (e : FormatError)
  | coercion (e : NumberError)

namespace ClientError

def message : ClientError → String
  | invalidArgument text => s!"Invalid argument: {text}"
  | transport text => s!"Transport error: {text}"
  | marshalling e => s!"Marshalling error: {e.message}"
  | coercion e => s!"Coercion error: {e.message}"

end ClientError

end DecisionService
