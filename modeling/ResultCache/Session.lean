import ResultCache.Cache.Read
import ResultCache.Cache.Rehydrate
import ResultCache.Cache.Set
import ResultCache.Schedule
import ResultCache.Time.Clock

/-!
# Sessions

A cache at work: with its clock, its maintenance schedule, and the store behind its tier.  Commands are what callers,
the clock, the writer and a restart do to it; each has an outcome.  A session without a tier never touches the store.
-/

namespace ResultCache

structure Session (σ : Type) where
  cache : Cache
  clock : ManualClock
  schedule : Schedule
  contents : σ

/-- What may happen in a session. -/
inductive Command where
  | set (r : Request) (v : Json) (o : SetOptions)
  | get (r : Request)
  | getByKey (key : String)
  /-- Reads a result as a value of some kind, given as what it makes of a value. -/
  | getAs (r : Request) (kind : Json → Option Json)
  | has (r : Request)
  | invalidate (r : Request)
  | invalidatePattern (pattern : String)
  | clear
  | purge
  | relieve
  /-- The tasks of the schedule that are due are run, by the clock or by another time. -/
  | tick (at' : Option Instant)
  /-- All tasks are run, by the clock; the schedule stays. -/
  | maintain
  | rehydrate
  | advance (s : Span)
  | setClock (t : Instant)
  /-- The writer does the first operation that is queued. -/
  | writeNext
  /-- The writer does all that is queued. -/
  | write
  /-- A barrier is queued, and the writer does all that is queued. -/
  | barrier
  /-- The writer goes. -/
  | disconnect
  /-- The cache is lost with what is queued, and another one is opened over the store. -/
  | restart (settings : Settings) (codec : Codec)

/-- What came of a command. -/
inductive Outcome where
  | done
  | stored (r : Except Failure Unit)
  | value (v : Option Json)
  | flag (b : Bool)
  | count (n : Nat)
  | report (r : TickReport)
  /-- How many operations the writer did, if there was one. -/
  | written (n : Option Nat)
  /-- What came of a barrier; nothing without a tier. -/
  | reached (r : Option Tier.BarrierReport)

namespace Session

variable {σ : Type}

def now (s : Session σ) : Instant :=
  s.clock.now

/-- A session over a store, with a tier. -/
def openOver (store : Store σ) (settings : Settings) (codec : Codec) (clock : ManualClock) (contents : σ) :
    Session σ :=
  let (cache, contents) := Cache.openOver store settings codec clock.now contents
  ⟨cache, clock, .fresh settings, contents⟩

/-- A session without a tier. -/
def openAlone (settings : Settings) (codec : Codec) (clock : ManualClock) (contents : σ) : Session σ :=
  ⟨.empty settings codec, clock, .fresh settings, contents⟩

/-- Whether there is a tier and its writer is there. -/
def hasWriter (s : Session σ) : Bool :=
  s.cache.tier.any (·.connected)

def withCache (s : Session σ) (c : Cache) : Session σ :=
  { s with cache := c }

/-- Replaces the tier and what is in the store. -/
def withTier (s : Session σ) (t : Tier) (contents : σ) : Session σ :=
  { s with cache := { s.cache with tier := some t }, contents }

/-- The writer does the first operation that is queued, if there is one. -/
def writeNext (store : Store σ) (s : Session σ) : Session σ :=
  match s.cache.tier with
  | none => s
  | some t =>
    let (t, contents) := t.applyNext store s.contents
    s.withTier t contents

/-- The writer does all that is queued, if it is there. -/
def write (store : Store σ) (s : Session σ) : Option Nat × Session σ :=
  match s.cache.tier with
  | none => (none, s)
  | some t =>
    let (count, t, contents) := t.write store s.contents
    (count, s.withTier t contents)

/-- Queues a barrier and has the writer do all that is queued. -/
def writeToBarrier (store : Store σ) (s : Session σ) : Option Tier.BarrierReport × Session σ :=
  match s.cache.tier with
  | none => (none, s)
  | some t =>
    let (report, t, contents) := t.writeToBarrier store s.contents
    (some report, s.withTier t contents)

/-- Lets the writer go; tells whether it was there. -/
def disconnect (s : Session σ) : Bool × Session σ :=
  (s.hasWriter, s.withCache (s.cache.mapTier Tier.disconnect))

/-- Runs the tasks of a schedule that are due. -/
def runSchedule (s : Session σ) (schedule : Schedule) (at' : Instant) : TickReport × Schedule × Session σ :=
  let (report, schedule, cache) := schedule.tick at' s.now s.cache
  (report, schedule, s.withCache cache)

def step (store : Store σ) (s : Session σ) : Command → Outcome × Session σ
  | .set r v o =>
    let (result, c) := s.cache.set s.now r v o
    (.stored result, s.withCache c)
  | .get r =>
    let (v, c) := s.cache.get s.now r
    (.value v, s.withCache c)
  | .getByKey key =>
    let (v, c) := s.cache.getByKey s.now key
    (.value v, s.withCache c)
  | .getAs r kind =>
    let (v, c) := s.cache.getAs kind s.now r
    (.value v, s.withCache c)
  | .has r => (.flag (s.cache.has s.now r), s)
  | .invalidate r =>
    let (b, c) := s.cache.invalidate r
    (.flag b, s.withCache c)
  | .invalidatePattern pattern =>
    let (n, c) := s.cache.invalidatePattern pattern
    (.count n, s.withCache c)
  | .clear => (.done, s.withCache s.cache.clear)
  | .purge =>
    let (n, c) := s.cache.purgeExpired s.now
    (.count n, s.withCache c)
  | .relieve =>
    let (n, c) := s.cache.relievePressure s.now
    (.count n, s.withCache c)
  | .tick at' =>
    let (report, schedule, s) := s.runSchedule s.schedule (at'.getD s.now)
    (.report report, { s with schedule })
  | .maintain =>
    let (report, _, s) := s.runSchedule (.fresh s.cache.settings) s.now
    (.report report, s)
  | .rehydrate =>
    let (n, c, contents) := s.cache.rehydrate store s.now s.contents
    (.count n, { s with cache := c, contents })
  | .advance span => (.done, { s with clock := s.clock.advance span })
  | .setClock t => (.done, { s with clock := s.clock.set t })
  | .writeNext => (.done, s.writeNext store)
  | .write =>
    let (n, s) := s.write store
    (.written n, s)
  | .barrier =>
    let (r, s) := s.writeToBarrier store
    (.reached r, s)
  | .disconnect =>
    let (b, s) := s.disconnect
    (.flag b, s)
  | .restart settings codec =>
    let s :=
      if s.cache.tier.isSome then openOver store settings codec s.clock s.contents
      else openAlone settings codec s.clock s.contents
    (.count s.cache.table.size, s)

def run (store : Store σ) (commands : List Command) (s : Session σ) : Session σ :=
  commands.foldl (fun s command => (s.step store command).2) s

end Session

end ResultCache
