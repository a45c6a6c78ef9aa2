import ResultCache.Cache.Basic
import ResultCache.Victims

/-!
# Removing results

Entries are removed at a caller's wish, one, by a pattern, or all; and by a pressure pass when too much memory is in
use.
-/

namespace ResultCache.Cache

/-- Removes the entry of a request; tells whether there was one. -/
def invalidate (c : Cache) (r : Request) : Bool × Cache :=
  let key := c.keyFor r
  ((c.table.find? key).isSome, c.remove key .invalidated)

/-- Removes the entries in whose resources a pattern occurs; tells how many they were. -/
def invalidatePattern (c : Cache) (pattern : String) : Nat × Cache :=
  let keys := (c.table.entries.filter fun e => Text.contains e.source pattern).map Entry.key
  (keys.length, c.removeAll keys .invalidated)

/-- Removes all entries and all durable records. -/
def clear (c : Cache) : Cache :=
  { c with table := .empty }.mapTier Tier.clear

/-- A part of the memory budget, in whole bytes. -/
def watermark (c : Cache) (part : Float) : Nat :=
  (countAsFloat c.settings.maxMemory * part).toUInt64.toNat

/-- The memory in use above which a pressure pass removes entries. -/
def highMark (c : Cache) : Nat :=
  c.watermark c.settings.highWatermark

/-- The memory in use that a pressure pass aims at. -/
def lowMark (c : Cache) : Nat :=
  c.watermark c.settings.lowWatermark

def pressureVictims (c : Cache) (now : Instant) : List Entry :=
  Victims.select c.settings.weights c.settings.passLimits now ⟨c.table.memory - c.lowMark, 0⟩ c.table.entries

/-- Runs one pass if too much memory is in use; tells how many entries it removed. -/
def relievePressure (c : Cache) (now : Instant) : Nat × Cache :=
  if c.table.memory ≤ c.highMark then (0, c)
  else
    let keys := (c.pressureVictims now).map Entry.key
    (keys.length, c.removeAll keys .evicted)

end ResultCache.Cache
