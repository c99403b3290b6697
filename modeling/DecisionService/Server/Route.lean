import DecisionService.Http.Percent
import DecisionService.Text.Split
/-!
# Routes

The server has a resource that tells its health, and one for every container, whose id is a segment
of the path.
-/
namespace DecisionService

inductive Route
  | health
  /-- The resource of the container whose id a segment encodes. -/
  | container (segment : List Char)
deriving DecidableEq, Repr

namespace Route

def afterScheme? : List Char → Option (List Char)
  | ':' :: '/' :: '/' :: rest => some rest
  | _ :: rest => afterScheme? rest
  | [] => none

/-- The path of a target, which may name scheme and host before it and a query behind it. -/
def path (target : List Char) : List Char :=
  let front := target.takeWhile fun c => c ≠ '?' && c ≠ '#'
  match front with
  | '/' :: _ => front
  | _ =>
    match afterScheme? front with
    | some rest => rest.dropWhile (· ≠ '/')
    | none => []

def ofPath? (path : List Char) : Option Route :=
  match (Text.split (· = '/') path).map String.ofList with
  | ["", "health"] => some health
  | ["", "containers", segment, "dmn"] => some (container segment.toList)
  | _ => none

def ofTarget? (target : String) : Option Route :=
  ofPath? (path target.toList)

def methods : Route → List String
  | health => ["GET", "HEAD"]
  | container _ => ["GET", "HEAD", "POST"]

def containerId? (segment : List Char) : Option String :=
  (Utf8.decode (Http.Percent.decode (Utf8.encodeChars segment))).toOption

end Route

end DecisionService
