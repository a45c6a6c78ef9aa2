import ResultCache.Request.Canonical
import ResultCache.Request.Resource
import ResultCache.Text.Numeral

/-!
# Requests and their keys

A request names a resource, may carry a payload, and may be confined to a scope, such as a tenant.  Its key is

    scope "::" resource "#" digest

with nothing for no scope, and the length of the scope in bytes and a colon before a given one, so that no text of a
scope is taken for another scope or for a resource.  A payload that is absent or null leaves the digest out.
-/

namespace ResultCache

/-- What a result is the result of. -/
structure Request where
  resource : String
  payload : Option Json
  scope : Option String

namespace Request

/-- The normal form of the resource. -/
def source (r : Request) : String :=
  Resource.normalize r.resource

/-- The beginning of a key: the scope with its length in bytes before it. -/
def scopeChars : Option String → List Char
  | none => []
  | some s => Text.decimal (Text.byteLength s) ++ ':' :: s.toList

/-- The payload, unless it is null. -/
def payload? (r : Request) : Option Json :=
  r.payload.filter fun v => !v.isNull

/-- The end of a key: the digest of the payload, if there is one. -/
def digestChars (volatileFields : List String) (r : Request) : List Char :=
  match r.payload? with
  | none => []
  | some v => '#' :: Payload.digest volatileFields v

def keyChars (volatileFields : List String) (r : Request) : List Char :=
  scopeChars r.scope ++ ':' :: ':' :: (Resource.normalizeChars r.resource.toList ++ r.digestChars volatileFields)

def key (volatileFields : List String) (r : Request) : String :=
  String.ofList (r.keyChars volatileFields)

end Request

end ResultCache
