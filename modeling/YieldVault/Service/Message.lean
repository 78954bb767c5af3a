-- Requests and responses, as far as the service looks at them.
import YieldVault.Bytes
import YieldVault.Json
import YieldVault.Text.Numeral

namespace YieldVault

/-- A request. Names of headers have no case. -/
structure HttpRequest where
  method : String
  /-- The target: a path and perhaps a query, after a scheme and an authority if it is absolute. -/
  target : String
  headers : List (String × String)
  body : Bytes
  deriving DecidableEq, Repr

namespace HttpRequest

/-- The first value of a header. -/
def header? (request : HttpRequest) (name : String) : Option String :=
  (request.headers.find? fun h => h.1.toLower == name).map (·.2)

/-- Whether a value is made of characters that a header shows: visible ones, blanks and tabs. -/
def isReadable (value : String) : Bool :=
  value.toList.all fun c => c == '\t' || (32 ≤ c.toNat && c.toNat < 127)

/-- The first value of a header, if it can be read. -/
def readable? (request : HttpRequest) (name : String) : Option String :=
  (request.header? name).filter isReadable

/-- The part of a target after its scheme. Without a scheme, there is none. -/
def afterScheme : List Char → List Char
  | ':' :: '/' :: '/' :: rest => rest
  | _ :: rest => afterScheme rest
  | [] => []

/-- The part of a target from its path on. -/
def fromPath (target : List Char) : List Char :=
  if target.head? = some '/' then target
  else (afterScheme target).dropWhile fun c => c != '/' && c != '?' && c != '#'

/-- The path of the target. -/
def path (request : HttpRequest) : String :=
  String.ofList ((fromPath request.target.toList).takeWhile fun c => c != '?' && c != '#')

/-- The length that the headers declare. -/
def declaredLength? (request : HttpRequest) : Option Nat :=
  (request.readable? "content-length").bind (Text.unsigned? UInt64.size)

end HttpRequest

/-- What a response holds. -/
inductive Content
  | nothing
  | json (value : Json)
  /-- The JSON of an answer that was asked for without it. -/
  | withheld
  deriving Repr

structure HttpResponse where
  status : Nat
  content : Content
  /-- Headers that tell browsers who may call, and how. -/
  allowOrigin : Option String
  allowMethods : Option String
  allowHeaders : Option String
  deriving Repr

namespace HttpResponse

/-- A response without content. -/
def bare (status : Nat) : HttpResponse := ⟨status, .nothing, none, none, none⟩

/-- A response with JSON. -/
def ofJson (status : Nat) (value : Json) : HttpResponse := ⟨status, .json value, none, none, none⟩

/-- The response without its content. -/
def withhold (response : HttpResponse) : HttpResponse :=
  match response.content with
  | .json _ => { response with content := .withheld }
  | _ => response

end HttpResponse

end YieldVault
