import DecisionService.Client.Error
import DecisionService.Engine.Exchange
/-!
# Transports

A transport carries one exchange at a time to a server and brings the bytes of the answer.
-/
namespace DecisionService

structure Transport (σ : Type) where
  send : Exchange → σ → Except ClientError Bytes × σ

namespace Transport

def direct (r : Registry) : Transport Unit where
  send e _ := ((Service.reply r e).mapError fun error => .transport error.message, ())

def prepared : Transport (List (Except ClientError Bytes)) where
  send _
    | [] => (.error (.transport "no more replies"), [])
    | reply :: rest => (reply, rest)

end Transport

end DecisionService
