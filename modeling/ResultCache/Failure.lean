import ResultCache.Json.Printer

/-!
# Failures

Why a call failed, what is said about it, and the HTTP status it is answered with.
-/

namespace ResultCache

inductive Failure where
  | notFound (key : String)
  | invalidRequest (detail : String)
  /-- A payload or value has no JSON form. -/
  | unserializable (detail : String)
  /-- An entry does not fit the memory budget. -/
  | exhausted (required budget : Nat)
  /-- There is no place for another entry. -/
  | full (detail : String)
  | compression (detail : String)
  | durable (detail : String)
  | internal (detail : String)
deriving DecidableEq

namespace Failure

def message : Failure → String
  | notFound key => "Entry not found: " ++ key
  | invalidRequest detail => "Invalid request: " ++ detail
  | unserializable detail => "Unserializable payload: " ++ detail
  | exhausted required budget =>
    "Entry of " ++ Text.decimalText required ++ " bytes cannot fit in a memory budget of " ++
      Text.decimalText budget ++ " bytes"
  | full detail => "Cache full: " ++ detail
  | compression detail => "Compression error: " ++ detail
  | durable detail => "Durable store error: " ++ detail
  | internal detail => "Internal error: " ++ detail

def status : Failure → Nat
  | notFound _ => 404
  | invalidRequest _ => 400
  | unserializable _ => 400
  | exhausted _ _ => 413
  | full _ => 503
  | compression _ => 500
  | durable _ => 500
  | internal _ => 500

def body (f : Failure) : Json :=
  .obj [("error", .str f.message)]

/-- The failure of a table of `count` entries in which none may be removed. -/
def noneEvictable (count : Nat) : Failure :=
  full (Text.decimalText count ++ " entries, none evictable")

/-- The failure of a payload or value with keys that are no texts. -/
def keyNotText : Failure :=
  unserializable "key must be a string"

end Failure

end ResultCache
