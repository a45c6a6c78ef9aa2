import ResultCache.Score

/-!
# Counters

How often reads found something or nothing, and how many entries left for each reason.
-/

namespace ResultCache

structure Counters where
  hits : Nat
  misses : Nat
  evictions : Nat
  expirations : Nat
  corruptDrops : Nat
deriving DecidableEq

namespace Counters

def zero : Counters :=
  ⟨0, 0, 0, 0, 0⟩

def hit (c : Counters) : Counters :=
  { c with hits := c.hits + 1 }

def miss (c : Counters) : Counters :=
  { c with misses := c.misses + 1 }

def eviction (c : Counters) : Counters :=
  { c with evictions := c.evictions + 1 }

def expiration (c : Counters) : Counters :=
  { c with expirations := c.expirations + 1 }

def corruptDrop (c : Counters) : Counters :=
  { c with corruptDrops := c.corruptDrops + 1 }

/-- The part of the reads that found something; zero before the first read. -/
def hitRate (c : Counters) : Float :=
  if c.hits + c.misses = 0 then 0.0 else countAsFloat c.hits / countAsFloat (c.hits + c.misses)

end Counters

end ResultCache
