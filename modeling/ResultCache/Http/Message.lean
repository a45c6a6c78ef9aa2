import ResultCache.Http.Form
import ResultCache.Json.Printer

/-!
# HTTP requests and responses

A request is what is left of it once it has been taken off the wire; a response is what is put on it.  Any response
may be read by pages of any origin.
-/

namespace ResultCache.Http

structure HttpRequest where
  method : String
  uri : String
  contentType : Option String
  body : Bytes

/-- What a response carries. -/
inductive Content where
  /-- Nothing that is JSON. -/
  | none
  /-- A JSON document that is announced and not sent. -/
  | withheld
  | json (v : Json)

structure Response where
  status : Nat
  content : Content
  /-- The methods that may be used instead. -/
  allow : Option String

namespace Response

/-- The origins whose pages may read a response. -/
def allowedOrigin : String :=
  "*"

/-- A response that says no more than its status. -/
def bare (status : Nat) : Response :=
  ⟨status, .none, none⟩

def document (status : Nat) (v : Json) : Response :=
  ⟨status, .json v, none⟩

/-- The response without its document. -/
def withheld (r : Response) : Response :=
  match r.content with
  | .json _ => { r with content := .withheld }
  | _ => r

end Response

/-- What a URI asks for. -/
structure Target where
  path : String
  query : List Char

namespace Target

/-- The part of a URI from the path on; what stands before it names a host. -/
def afterHost (cs : List Char) : List Char :=
  match cs with
  | '/' :: _ => cs
  | _ =>
    match cs.dropWhile (· != ':') with
    | ':' :: '/' :: '/' :: rest => rest.dropWhile fun c => c != '/' && c != '?'
    | _ => cs

/-- The path and the query of a URI; a fragment is left out. -/
def ofUri (uri : String) : Target :=
  let cs := afterHost (uri.toList.takeWhile (· != '#'))
  let path := cs.takeWhile (· != '?')
  { path := if path.isEmpty then "/" else String.ofList path
    query := (cs.dropWhile (· != '?')).drop 1 }

end Target

end ResultCache.Http
