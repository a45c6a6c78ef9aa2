import ResultCache.Json.Printer
import ResultCache.Json.Record
import ResultCache.Priority
import ResultCache.Time.Rfc3339

/-!
# Durable records

The record of an entry is a JSON object with its fields in a fixed order.  It is live while less than its time to
live has passed since the entry was made.
-/

namespace ResultCache

/-- What is recorded of an entry. -/
structure Snapshot where
  key : String
  source : String
  value : Json
  created : Instant
  ttlMillis : Nat
  priority : Priority

namespace Snapshot

def ttl (s : Snapshot) : Span :=
  Span.ofMillis s.ttlMillis

def isLive (s : Snapshot) (now : Instant) : Bool :=
  Instant.elapsed s.created now < s.ttl

/-- The record as a JSON object. -/
def toJson (s : Snapshot) : Json :=
  .obj [("key", .str s.key), ("source_identifier", .str s.source), ("value", s.value),
    ("created_at", .str (Time.instantText s.created)), ("ttl_ms", .nat s.ttlMillis),
    ("priority", .str s.priority.name)]

/-- The bytes of the record. -/
def record (s : Snapshot) : Bytes :=
  s.toJson.bytes

/-- The fields of a record that were read so far. -/
structure Draft where
  key : Option String := none
  source : Option String := none
  value : Option Json := none
  created : Option Instant := none
  ttlMillis : Option Nat := none
  priority : Option Priority := none

/-- Reads the text of an instant. -/
def readCreated (bs : Bytes) : Except Json.Fault (Instant × Bytes) :=
  match Json.readString bs with
  | .error e => .error e
  | .ok (s, rest) =>
    match Time.readInstant? s with
    | none => .error .mismatch
    | some t => .ok (t, rest)

/-- The fields of a record, in their order. -/
def slots (levels : Nat) : List (Json.Slot Draft) :=
  [.of "key" true (·.key) (fun d v => { d with key := some v }) Json.readString,
   .of "source_identifier" true (·.source) (fun d v => { d with source := some v }) Json.readString,
   .of "value" true (·.value) (fun d v => { d with value := some v }) (Json.readValue levels),
   .of "created_at" true (·.created) (fun d v => { d with created := some v }) readCreated,
   .of "ttl_ms" true (·.ttlMillis) (fun d v => { d with ttlMillis := some v }) Json.readUInt64,
   .of "priority" true (·.priority) (fun d v => { d with priority := some v }) (Priority.read levels)]

def Draft.finish? (d : Draft) : Option Snapshot := do
  return { key := ← d.key, source := ← d.source, value := ← d.value, created := ← d.created
           ttlMillis := ← d.ttlMillis, priority := ← d.priority }

/-- The snapshot that a record stands for. -/
def parse (record : Bytes) : Except Json.Fault Snapshot :=
  Json.complete (Json.readWith (slots (Json.maxDepth - 1)) {} Draft.finish? Json.maxDepth record)

def text (s : Snapshot) : String :=
  s.toJson.text

end Snapshot

end ResultCache
