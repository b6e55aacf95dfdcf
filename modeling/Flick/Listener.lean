import Flick.Listener.Address
import Flick.SystemError

/-!
# The development listener

A listener answers every connection with one fixed response, whatever it
is asked.  It starts if its address can be read and the system grants it.
-/

namespace Flick

/-- Why a listener does not start. -/
inductive ListenerError where
  /-- The text is no socket address. -/
  | address (text : String)
  /-- The system does not grant the address. -/
  | bind (target : Address) (reason : SystemError)
  deriving DecidableEq

/-- The words for a listener that does not start. -/
def ListenerError.message : ListenerError → String
  | .address text => "invalid bind address `" ++ text ++ "`: invalid socket address syntax"
  | .bind target reason => "failed to bind " ++ target.toText ++ ": " ++ reason.message

namespace Listener

/-- The body of every response. -/
def responseBody : String := "Hello"

/-- The response to every request, headers included. -/
def response : String :=
  "HTTP/1.1 200 OK\r\nContent-Type: text/plain\r\nContent-Length: " ++
    toString responseBody.utf8ByteSize ++ "\r\nConnection: close\r\n\r\n" ++ responseBody

/-- The reply on a connection.  One that was reset before its request
came gets none. -/
def reply (request : Option String) : Option String := request.map fun _ => response

/-- The address on which a listener starts, if the system lets it bind. -/
def start (bind : Address → Except SystemError Unit) (host : String) (port : Nat) :
    Except ListenerError Address :=
  let text := host ++ ":" ++ toString port
  match Address.ofString? text with
  | none => .error (.address text)
  | some address =>
    match bind address with
    | .error reason => .error (.bind address reason)
    | .ok () => .ok address

end Listener

end Flick
