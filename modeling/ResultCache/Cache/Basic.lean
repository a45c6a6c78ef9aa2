import ResultCache.Codec
import ResultCache.Counters
import ResultCache.Failure
import ResultCache.Request.Key
import ResultCache.Settings
import ResultCache.Table
import ResultCache.Tier

/-!
# Caches

A cache is a table of entries with its settings, its codec, its counters, and perhaps a tier that copies entries to a
durable store.  An entry leaves the table for one of four reasons; three of them are counted, and a persisted entry
takes its durable record along.
-/

namespace ResultCache

structure Cache where
  settings : Settings
  codec : Codec
  table : Table
  counters : Counters
  tier : Option Tier

/-- Why an entry leaves the table. -/
inductive Removal where
  | expired
  | evicted
  /-- The kept bytes no longer stand for a value. -/
  | corrupt
  /-- Someone asked for it. -/
  | invalidated
deriving DecidableEq

/-- Counts an entry that left the table. -/
def Counters.removed (c : Counters) : Removal → Counters
  | .expired => c.expiration
  | .evicted => c.eviction
  | .corrupt => c.corruptDrop
  | .invalidated => c

namespace Cache

/-- An empty cache without a tier. -/
def empty (settings : Settings) (codec : Codec) : Cache :=
  ⟨settings, codec, .empty, .zero, none⟩

def keyFor (c : Cache) (r : Request) : String :=
  r.key c.settings.volatileFields

/-- Changes the tier, if there is one. -/
def mapTier (c : Cache) (f : Tier → Tier) : Cache :=
  { c with tier := c.tier.map f }

/-- Queues the removal of a durable record. -/
def deleteDurable (c : Cache) (key : String) : Cache :=
  c.mapTier fun t => t.delete key

/-- Takes the entry under a key out of the table, counts it, and has its durable record removed. -/
def removeEntry (c : Cache) (key : String) (e : Entry) (why : Removal) : Cache :=
  let c := { c with table := c.table.detach key, counters := c.counters.removed why }
  if e.persisted then c.deleteDurable key else c

def remove (c : Cache) (key : String) (why : Removal) : Cache :=
  match c.table.find? key with
  | none => c
  | some e => c.removeEntry key e why

def removeAll (c : Cache) (keys : List String) (why : Removal) : Cache :=
  keys.foldl (fun c key => c.remove key why) c

def expiredKeys (c : Cache) (now : Instant) : List String :=
  (c.table.entries.filter fun e => e.isExpired now).map Entry.key

/-- Removes all expired entries; tells how many they were. -/
def purgeExpired (c : Cache) (now : Instant) : Nat × Cache :=
  let keys := c.expiredKeys now
  (keys.length, c.removeAll keys .expired)

/-- A value as it is kept, with its length: one with a long text is compressed, if the codec can do that. -/
def encode (c : Cache) (v : Json) : Stored × Nat :=
  let raw := v.size
  if raw ≤ c.settings.compressionThreshold then (.plain v, raw)
  else
    match c.codec.compress v with
    | some bytes => (.compressed bytes, bytes.length)
    | none => (.plain v, raw)

/-- The value that is kept, unless it can no longer be unpacked. -/
def decode (c : Cache) : Stored → Option Json
  | .plain v => some v
  | .compressed bytes => c.codec.decompress bytes

def describe (c : Cache) : String :=
  let n := Text.decimalText
  let k := c.counters
  "CacheCore \x7b entries: " ++ n c.table.size ++ ", memory_usage: " ++ n c.table.memory ++
    ", counters: CacheCounters \x7b hits: " ++ n k.hits ++ ", misses: " ++ n k.misses ++ ", evictions: " ++
    n k.evictions ++ ", expirations: " ++ n k.expirations ++ ", corrupt_drops: " ++ n k.corruptDrops ++
    " \x7d, codec: " ++ Text.shown c.codec.name ++ ", durable: " ++
    (match c.tier with
      | none => "None"
      | some t => "Some(" ++ t.describe ++ ")") ++ " \x7d"

end Cache

end ResultCache
