import ResultCache.Cache.Basic

/-!
# Loading durable records

Live records become entries of medium priority that were never read.  A record is passed over if its key is in the
table, and removed from the store if it finds no room.
-/

namespace ResultCache.Cache

variable {σ : Type}

def entryOf (c : Cache) (now : Instant) (s : Snapshot) : Entry :=
  let (stored, length) := c.encode s.value
  { key := s.key, value := stored, created := s.created, ttl := s.ttl, priority := .medium, accessCount := 0
    lastAccess := now, size := Text.byteLength s.key + length, source := s.source, persisted := true }

def fitsBeside (c : Cache) (e : Entry) : Bool :=
  c.table.size < c.settings.maxEntries && c.table.memory + e.size ≤ c.settings.maxMemory

/-- Loads one record; tells whether it did. -/
def load (c : Cache) (now : Instant) (s : Snapshot) : Bool × Cache :=
  if (c.table.find? s.key).isSome then (false, c)
  else
    let e := c.entryOf now s
    if c.fitsBeside e then (true, { c with table := c.table.attach e })
    else (false, c.deleteDurable s.key)

/-- Loads some records one after the other; tells how many. -/
def loadAll (now : Instant) : List Snapshot → Cache → Nat × Cache
  | [], c => (0, c)
  | s :: rest, c =>
    let (loaded, c) := c.load now s
    let (count, c) := loadAll now rest c
    ((if loaded then 1 else 0) + count, c)

/-- Loads the live records of the store; tells how many. -/
def rehydrate (store : Store σ) (c : Cache) (now : Instant) (s : σ) : Nat × Cache × σ :=
  match c.tier with
  | none => (0, c, s)
  | some t =>
    let (found, s) := t.rehydrate store now s
    let (count, c) := loadAll now found.live c
    (count, c, s)

/-- A cache with a new tier over a store, with the live records loaded. -/
def openOver (store : Store σ) (settings : Settings) (codec : Codec) (now : Instant) (s : σ) : Cache × σ :=
  let c := { empty settings codec with tier := some (.ofSpace settings.durableNamespace) }
  let (_, c, s) := c.rehydrate store now s
  (c, s)

end ResultCache.Cache
