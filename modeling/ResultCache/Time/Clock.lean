import ResultCache.Time.Instant

/-!
# A clock that is moved by hand

The clock holds a count of milliseconds as a signed word of 64 bits.  An advance is cut to whole milliseconds and to
the largest such word, and then added with wrap-around.
-/

namespace ResultCache

/-- A clock that stands still until it is moved. -/
structure ManualClock where
  millis : Int
deriving DecidableEq

namespace ManualClock

def showing (t : Instant) : ManualClock :=
  ⟨t.millis⟩

/-- What the clock shows; the epoch when the calendar does not have its count. -/
def now (c : ManualClock) : Instant :=
  Instant.ofMillis c.millis

/-- Moves the clock forward. -/
def advance (c : ManualClock) (s : Span) : ManualClock :=
  ⟨Int.bmod (c.millis + min s.wholeMillis (2 ^ 63 - 1) : Int) (2 ^ 64)⟩

/-- Sets the clock to an instant. -/
def set (_ : ManualClock) (t : Instant) : ManualClock :=
  .showing t

end ManualClock

end ResultCache
