import ResultCache.Cache.Set
import ResultCache.Json.Record
import ResultCache.Text.Blank

/-!
# Bodies of HTTP requests

A lookup body names a request of the cache; a store body also brings the value and, perhaps, how long and how
stubbornly it is to be kept.  A body that reads well is refused all the same if its resource is blank or too long.
-/

namespace ResultCache.Http

/-- A body that names a request of the cache. -/
structure LookupBody where
  resource : String
  payload : Option Json
  scope : Option String

/-- A body that brings a value. -/
structure StoreBody where
  target : LookupBody
  value : Json
  ttlSeconds : Option Nat
  priority : Option Priority

/-- The most bytes that a resource may have. -/
def maxResourceLength : Nat :=
  2048

namespace LookupBody

/-- What is wrong with the resource, if anything. -/
def problem? (b : LookupBody) : Option String :=
  if (Text.trimChars b.resource.toList).isEmpty then some "Resource id cannot be empty"
  else if maxResourceLength < Text.byteLength b.resource then
    some ("Resource id exceeds maximum length of " ++ Text.decimalText maxResourceLength ++ " characters")
  else none

/-- The request that is named; an empty scope is no scope. -/
def request (b : LookupBody) : Request where
  resource := b.resource
  payload := b.payload
  scope := b.scope.filter fun s => !s.isEmpty

/-- The fields of a body that were read so far; for one that may be null, whether it was. -/
private structure Fields where
  resource : Option String := none
  payload : Option (Option Json) := none
  scope : Option (Option String) := none

private def resourceSlot : Json.Slot Fields :=
  .of "resource_id" true (·.resource) (fun d v => { d with resource := some v }) Json.readString

private def payloadSlot (levels : Nat) : Json.Slot Fields :=
  .of "payload" false (·.payload) (fun d v => { d with payload := some v }) (Json.readOption (Json.readValue levels))

private def scopeSlot : Json.Slot Fields :=
  .of "isolation" false (·.scope) (fun d v => { d with scope := some v }) (Json.readOption Json.readString)

private def Fields.finish? (d : Fields) : Option LookupBody := do
  return { resource := ← d.resource, payload := d.payload.getD none, scope := d.scope.getD none }

/-- Reads a body at the head of some bytes; also gives what is left of them. -/
def read (bs : Bytes) : Except Json.Fault (LookupBody × Bytes) :=
  Json.readWith [resourceSlot, payloadSlot (Json.maxDepth - 1), scopeSlot] {} Fields.finish? Json.maxDepth bs

end LookupBody

namespace StoreBody

/-- What is wrong with the resource, if anything. -/
def problem? (b : StoreBody) : Option String :=
  b.target.problem?

/-- The request that the value answers. -/
def request (b : StoreBody) : Request :=
  b.target.request

/-- How the value is to be kept. -/
def options (b : StoreBody) : SetOptions where
  ttl := b.ttlSeconds.map Span.ofSeconds
  priority := b.priority.getD .default

/-- The fields of a body that were read so far. -/
private structure Parts where
  target : LookupBody.Fields := {}
  value : Option Json := none
  ttlSeconds : Option (Option Nat) := none
  priority : Option (Option Priority) := none

/-- A slot of the part that names the request. -/
private def inTarget (s : Json.Slot LookupBody.Fields) : Json.Slot Parts where
  name := s.name
  needed := s.needed
  filled d := s.filled d.target
  read d bs :=
    match s.read d.target bs with
    | .error e => .error e
    | .ok (target, rest) => .ok ({ d with target }, rest)

private def ownSlots (levels : Nat) : List (Json.Slot Parts) :=
  [.of "value" true (·.value) (fun d v => { d with value := some v }) (Json.readValue levels),
   .of "ttl" false (·.ttlSeconds) (fun d v => { d with ttlSeconds := some v }) (Json.readOption Json.readUInt64),
   .of "priority" false (·.priority) (fun d v => { d with priority := some v })
     (Json.readOption (Priority.read levels))]

private def Parts.finish? (d : Parts) : Option StoreBody := do
  return { target := ← d.target.finish?, value := ← d.value, ttlSeconds := d.ttlSeconds.getD none
           priority := d.priority.getD none }

/-- Reads a body at the head of some bytes; also gives what is left of them. -/
def read (bs : Bytes) : Except Json.Fault (StoreBody × Bytes) :=
  let levels := Json.maxDepth - 1
  let slots := inTarget LookupBody.resourceSlot :: inTarget (LookupBody.payloadSlot levels) ::
    inTarget LookupBody.scopeSlot :: ownSlots levels
  Json.readWith slots {} Parts.finish? Json.maxDepth bs

end StoreBody

/-- What is wrong with a pattern, if anything. -/
def patternProblem? (pattern : String) : Option String :=
  if pattern.isEmpty then some "Pattern cannot be empty" else none

/-- Reads a record that has a pattern. -/
def readPattern (bs : Bytes) : Except Json.Fault (String × Bytes) :=
  Json.readWith [.of "pattern" true id (fun _ s => some s) Json.readString] none id Json.maxDepth bs

end ResultCache.Http
