import ResultCache.Json.Decode
import ResultCache.Json.Record

/-!
# Priorities

How much an entry resists removal.  Critical entries are removed by nothing but expiry and explicit calls.
-/

namespace ResultCache

inductive Priority where
  | low
  | medium
  | high
  | critical
deriving DecidableEq, Inhabited

namespace Priority

/-- The priority of entries for which none is given. -/
def default : Priority :=
  medium

/-- The place in the order, from zero. -/
def ordinal : Priority → Nat
  | low => 0
  | medium => 1
  | high => 2
  | critical => 3

def name : Priority → String
  | low => "low"
  | medium => "medium"
  | high => "high"
  | critical => "critical"

def named? (s : String) : Option Priority :=
  [low, medium, high, critical].find? fun p => p.name == s

@[simp] theorem named?_name (p : Priority) : named? p.name = some p := by
  cases p <;> decide

/-- The order of priorities. -/
def compare (a b : Priority) : Ordering :=
  Ord.compare a.ordinal b.ordinal

/-- The higher of two priorities. -/
def max (a b : Priority) : Priority :=
  if b.ordinal ≤ a.ordinal then a else b

/-- Reads a priority inside `levels` arrays and objects that may still be opened. -/
def read (levels : Nat) (bs : Bytes) : Except Json.Fault (Priority × Bytes) :=
  Json.readName named? levels bs

/-- The priority that a document stands for. -/
def parse (bs : Bytes) : Except Json.Fault Priority :=
  Json.complete (read Json.maxDepth bs)

/-- The priority that a JSON value stands for. -/
def ofJson? (v : Json) : Option Priority :=
  v.asName? named?

end Priority

end ResultCache
