import ResultCache.Digest.Sha256
import ResultCache.Json.Printer

/-!
# Canonical payloads

Two payloads ask for the same if they differ only in volatile fields, at any depth, and in the order of array items.
The canonical form drops the volatile fields and sorts each array by the text of its canonical items; the fields of
an object are in order already.
-/

namespace ResultCache.Payload

/-- The fields that never make a difference unless other ones are named. -/
def defaultVolatile : List String :=
  ["timestamp", "ts", "requestId", "request_id", "sessionId", "session_id", "nonce", "traceId", "trace_id"]

/-- Sorts values by their texts; values of one text keep their order. -/
def sortByText (items : List Json) : List Json :=
  ((items.map fun v => (v.text, v)).mergeSort fun a b => a.1 ≤ b.1).map (·.2)

mutual

/-- The canonical form of a payload. -/
def canonical (volatileFields : List String) : Json → Json
  | .arr items => .arr (sortByText (canonicalItems volatileFields items))
  | .obj fields => .obj (canonicalFields volatileFields fields)
  | v => v

def canonicalItems (volatileFields : List String) : List Json → List Json
  | [] => []
  | v :: vs => canonical volatileFields v :: canonicalItems volatileFields vs

/-- The fields that count, with canonical values. -/
def canonicalFields (volatileFields : List String) : List (String × Json) → List (String × Json)
  | [] => []
  | (name, v) :: rest =>
    if volatileFields.contains name then canonicalFields volatileFields rest
    else (name, canonical volatileFields v) :: canonicalFields volatileFields rest

end

/-- The number of digits of a payload digest. -/
def digestLength : Nat :=
  16

/-- The first hexadecimal digits of the hash of the canonical text. -/
def digest (volatileFields : List String) (payload : Json) : List Char :=
  (Text.hexEncode (Digest.sha256 (canonical volatileFields payload).bytes)).take digestLength

/-- A digest always has the same length. -/
theorem length_digest (volatileFields : List String) (payload : Json) :
    (digest volatileFields payload).length = digestLength := by
  rw [digest, List.length_take, Text.length_hexEncode, Digest.length_sha256, digestLength]
  rfl

end ResultCache.Payload
