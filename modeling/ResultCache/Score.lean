import ResultCache.Binary64.Basic
import ResultCache.Entry

/-!
# Usefulness

The score of an entry rises with its priority and with the number of its reads, and falls with its age as a part of
its time to live, with the time since its last read, and with its size.
-/

namespace ResultCache

/-- A count of 64 bits as a double. -/
def countAsFloat (n : Nat) : Float :=
  (UInt64.ofNat n).toFloat

/-- How much each part of the score counts. -/
structure Weights where
  priority : Float
  frequency : Float
  age : Float
  recency : Float
  size : Float
  /-- The bytes of one unit of size. -/
  sizeUnit : Nat

namespace Weights

/-- Priority counts most, then the last read, then the number of reads, then the size. -/
def default : Weights :=
  ⟨1000.0, 5.0, 20.0, 10.0, 1.0, 1024⟩

/-- Equality as numbers: a NaN equals nothing, and the zeros are equal. -/
def same (a b : Weights) : Bool :=
  a.priority == b.priority && a.frequency == b.frequency && a.age == b.age && a.recency == b.recency &&
    a.size == b.size && a.sizeUnit == b.sizeUnit

end Weights

/-- The usefulness of an entry; the least useful goes first. -/
def Entry.score (w : Weights) (e : Entry) (now : Instant) : Float :=
  let ttlSeconds := e.ttl.seconds
  -- without a time to live an entry is as old as can be
  let ageRatio := if ttlSeconds > 0.0 then (e.age now).seconds / ttlSeconds else 1.0
  let idleMinutes := (e.idle now).seconds / 60.0
  let sizeUnits := countAsFloat e.size / countAsFloat (max w.sizeUnit 1)
  countAsFloat e.priority.ordinal * w.priority + countAsFloat e.accessCount * w.frequency - ageRatio * w.age -
    idleMinutes * w.recency - sizeUnits * w.size

/-- The place of the score among all doubles.  A score that is no number, such as a difference of infinities, stands
before all others: that is the place of the NaN that such an operation gives on x86-64, whose sign is negative.  In the
total order a NaN of positive sign would stand behind all others. -/
def Entry.rank (w : Weights) (now : Instant) (e : Entry) : Int :=
  let x := Binary64.ofFloat (e.score w now)
  if x.isNaN then Binary64.leastRank else x.rank

end ResultCache
