import ResultCache.Cache.Room

/-!
# Storing results

A result is stored under the key of its request, in place of an older one.  Small entries of high priority are also
queued for the durable store; an entry that takes the place of a persisted one without being so itself has the old
record removed.
-/

namespace ResultCache

/-- What a caller may ask for a result that is stored. -/
structure SetOptions where
  /-- The time to live, if not that of the class of the resource. -/
  ttl : Option Span
  priority : Priority

namespace SetOptions

def default : SetOptions :=
  ⟨none, .default⟩

end SetOptions

/-- What is recorded of an entry that keeps a value. -/
def Entry.snapshot (e : Entry) (v : Json) : Snapshot where
  key := e.key
  source := e.source
  value := v
  created := e.created
  ttlMillis := e.ttl.millis
  priority := e.priority

namespace Cache

/-- Whether an entry is copied to the durable store. -/
def persists (c : Cache) (priority : Priority) (size : Nat) : Bool :=
  c.tier.isSome && Priority.high.ordinal ≤ priority.ordinal && size < c.settings.persistBelow

/-- The span for which a result of a resource stays fresh. -/
def ttlFor (c : Cache) (source : String) (o : SetOptions) : Span :=
  o.ttl.getD (c.settings.ttlPolicy.spanFor source)

/-- Puts an entry in the place of an older one, once there is room, and queues what the durable store needs. -/
def replace (c : Cache) (e : Entry) (v : Json) : Cache :=
  let old := c.table.find? e.key
  let c := { c with table := c.table.detach e.key }
  -- a new record takes the place of the old one by itself
  let c := if old.any (·.persisted) && !e.persisted then c.deleteDurable e.key else c
  let c := if e.persisted then c.mapTier fun t => t.put (e.snapshot v) else c
  { c with table := c.table.attach e }

/-- The entry that is made for a request. -/
def entryFor (c : Cache) (now : Instant) (r : Request) (v : Json) (o : SetOptions) : Entry :=
  let (stored, length) := c.encode v
  let size := Text.byteLength (c.keyFor r) + length
  { key := c.keyFor r, value := stored, created := now, ttl := c.ttlFor r.source o, priority := o.priority
    accessCount := 0, lastAccess := now, size, source := r.source, persisted := c.persists o.priority size }

def set (c : Cache) (now : Instant) (r : Request) (v : Json) (o : SetOptions) : Except Failure Unit × Cache :=
  let e := c.entryFor now r v o
  if c.settings.maxMemory < e.size then (.error (c.doesNotFit e.size), c)
  else
    match c.makeRoom e.key e.size now with
    | (.error f, c) => (.error f, c)
    | (.ok _, c) => (.ok (), c.replace e v)

end Cache

end ResultCache
