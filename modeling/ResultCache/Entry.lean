import ResultCache.Json.Basic
import ResultCache.Priority
import ResultCache.Text.Hex
import ResultCache.Time.Instant

/-!
# Entries

An entry is a kept result with what decides how long it stays.  It is expired once more than its time to live has
passed since it was made; at that very span it is still fresh.
-/

namespace ResultCache

/-- A result as it is kept. -/
inductive Stored where
  | plain (v : Json)
  | compressed (bytes : Bytes)

/-- A kept result. -/
structure Entry where
  key : String
  value : Stored
  created : Instant
  ttl : Span
  priority : Priority
  /-- How often it was read. -/
  accessCount : Nat
  /-- When it was last read, or made. -/
  lastAccess : Instant
  /-- Its part of the memory in use. -/
  size : Nat
  /-- The normal form of its resource. -/
  source : String
  /-- Whether a durable copy was asked for. -/
  persisted : Bool

namespace Entry

def age (e : Entry) (now : Instant) : Span :=
  Instant.elapsed e.created now

/-- The time since the last read. -/
def idle (e : Entry) (now : Instant) : Span :=
  Instant.elapsed e.lastAccess now

def isExpired (e : Entry) (now : Instant) : Bool :=
  e.ttl < e.age now

/-- The time that is left; zero once expired. -/
def ttlLeft (e : Entry) (now : Instant) : Span :=
  e.ttl.beyond (e.age now)

/-- The entry after a read. -/
def touch (e : Entry) (now : Instant) : Entry :=
  { e with accessCount := e.accessCount + 1, lastAccess := now }

def isCompressed (e : Entry) : Bool :=
  match e.value with
  | .plain _ => false
  | .compressed _ => true

/-- Critical and fresh: nothing but an explicit call removes it. -/
def isProtected (e : Entry) (now : Instant) : Bool :=
  e.priority == .critical && !e.isExpired now

/-- An entry is fresh exactly up to its time to live. -/
theorem isExpired_eq_false_iff {e : Entry} {now : Instant} :
    e.isExpired now = false ↔ Instant.elapsed e.created now ≤ e.ttl := by
  unfold isExpired age
  rw [decide_eq_false_iff_not, Span.not_lt]

/-- No time is left of an expired entry. -/
theorem ttlLeft_of_isExpired {e : Entry} {now : Instant} (h : e.isExpired now = true) : e.ttlLeft now = .zero := by
  have h' : e.ttl < e.age now := by simpa [isExpired] using h
  rw [ttlLeft, Span.beyond, Nat.sub_eq_zero_of_le (Nat.le_of_lt h')]
  rfl

end Entry

end ResultCache
