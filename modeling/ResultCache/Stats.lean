import ResultCache.Cache.Basic

/-!
# Statistics

A view of a cache at one time: its counters and what there is to say about each entry, in the order of the keys.
-/

namespace ResultCache

/-- What there is to say about an entry. -/
structure EntryStats where
  key : String
  source : String
  priority : Priority
  size : Nat
  accessCount : Nat
  age : Span
  ttlLeft : Span
  compressed : Bool
  persisted : Bool
  score : Float

/-- What there is to say about a cache. -/
structure Stats where
  count : Nat
  memory : Nat
  capacity : Nat
  maxMemory : Nat
  hitRate : Float
  counters : Counters
  entries : List EntryStats

namespace EntryStats

def of (w : Weights) (now : Instant) (e : Entry) : EntryStats where
  key := e.key
  source := e.source
  priority := e.priority
  size := e.size
  accessCount := e.accessCount
  age := e.age now
  ttlLeft := e.ttlLeft now
  compressed := e.isCompressed
  persisted := e.persisted
  score := e.score w now

def toJson (s : EntryStats) : Json :=
  .ofFields
    [("key", .str s.key), ("source_identifier", .str s.source), ("priority", .str s.priority.name),
     ("size_bytes", .nat s.size), ("access_count", .nat s.accessCount), ("age_ms", .nat s.age.millis),
     ("ttl_remaining_ms", .nat s.ttlLeft.millis), ("compressed", .bool s.compressed),
     ("persisted", .bool s.persisted), ("score", .float (.ofFloat s.score))]

end EntryStats

namespace Cache

/-- The statistics of a cache. -/
def stats (c : Cache) (now : Instant) : Stats where
  count := c.table.size
  memory := c.table.memory
  capacity := c.settings.maxEntries
  maxMemory := c.settings.maxMemory
  hitRate := c.counters.hitRate
  counters := c.counters
  entries := (c.table.entries.map (EntryStats.of c.settings.weights now)).mergeSort fun a b => a.key ≤ b.key

end Cache

namespace Stats

def toJson (s : Stats) : Json :=
  .ofFields
    [("count", .nat s.count), ("memory_usage", .nat s.memory), ("capacity", .nat s.capacity),
     ("max_memory", .nat s.maxMemory), ("hit_rate", .float (.ofFloat s.hitRate)), ("hits", .nat s.counters.hits),
     ("misses", .nat s.counters.misses), ("evictions", .nat s.counters.evictions),
     ("expirations", .nat s.counters.expirations), ("corrupt_drops", .nat s.counters.corruptDrops),
     ("per_entry", .arr (s.entries.map EntryStats.toJson))]

end Stats

end ResultCache
