import ResultCache.Cache.Removal

/-!
# Maintenance

Two tasks run each at its own interval: the sweep removes expired entries, and the pressure check removes entries when
too much memory is in use.  A tick runs the tasks that are due, the sweep first.
-/

namespace ResultCache

/-- When the tasks run next; a task that never ran is due. -/
structure Schedule where
  sweepInterval : Span
  pressureInterval : Span
  nextSweep : Option Instant
  nextPressure : Option Instant

/-- What a tick did; nothing is told of a task that was not due. -/
structure TickReport where
  swept : Option Nat
  evicted : Option Nat
deriving DecidableEq

namespace Schedule

/-- A schedule on which nothing has run. -/
def fresh (settings : Settings) : Schedule :=
  ⟨settings.sweepInterval, settings.pressureInterval, none, none⟩

/-- The shortest time between two looks at the schedule. -/
def minPoll : Span :=
  Span.ofMillis 10

/-- How often to look at the schedule. -/
def pollPeriod (s : Schedule) : Span :=
  (s.sweepInterval.min s.pressureInterval).max minPoll

def isDue (next : Option Instant) (at' : Instant) : Bool :=
  match next with
  | none => true
  | some t => t.le at'

/-- Removes the expired entries if the sweep is due.  The schedule goes by the time of the tick, the cache by that of
its clock. -/
def sweep (s : Schedule) (at' now : Instant) (c : Cache) : Option Nat × Schedule × Cache :=
  if isDue s.nextSweep at' then
    let (n, c) := c.purgeExpired now
    (some n, { s with nextSweep := some (at'.after s.sweepInterval) }, c)
  else (none, s, c)

/-- Relieves the pressure if the check is due. -/
def checkPressure (s : Schedule) (at' now : Instant) (c : Cache) : Option Nat × Schedule × Cache :=
  if isDue s.nextPressure at' then
    let (n, c) := c.relievePressure now
    (some n, { s with nextPressure := some (at'.after s.pressureInterval) }, c)
  else (none, s, c)

def tick (s : Schedule) (at' now : Instant) (c : Cache) : TickReport × Schedule × Cache :=
  let (swept, s, c) := s.sweep at' now c
  let (evicted, s, c) := s.checkPressure at' now c
  (⟨swept, evicted⟩, s, c)

end Schedule

end ResultCache
