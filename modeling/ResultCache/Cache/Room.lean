import ResultCache.Cache.Basic
import ResultCache.Victims

/-!
# Making room

A new entry has to fit two ceilings, one for the memory in use and one for the number of entries.  Expired entries go
first.  If what is left to remove cannot suffice, nothing more is removed and the call fails; otherwise passes remove
the least useful entries until there is room.
-/

namespace ResultCache.Cache

/-- What has to go before an entry of a key and a size fits. -/
def roomNeeded (c : Cache) (key : String) (size : Nat) : Target :=
  match c.table.find? key with
  | some old => ⟨c.table.memory - old.size + size - c.settings.maxMemory, 0⟩
  | none => ⟨c.table.memory + size - c.settings.maxMemory, c.table.size + 1 - c.settings.maxEntries⟩

/-- The entries that may make room for a key. -/
def evictable (c : Cache) (key : String) : List Entry :=
  c.table.entries.filter fun e => e.key != key && e.priority != .critical

/-- The entries that one pass removes to make room for a key. -/
def passVictims (c : Cache) (key : String) (now : Instant) (needed : Target) : List Entry :=
  Victims.select c.settings.weights c.settings.passLimits now needed
    (c.table.entries.filter fun e => e.key != key)

/-- Removes entries, pass after pass, until there is room or a pass finds nothing to remove.  `fuel` bounds the number
of passes. -/
def evictPasses (key : String) (size : Nat) (now : Instant) : Nat → Cache → Cache
  | 0, c => c
  | fuel + 1, c =>
    let needed := c.roomNeeded key size
    if needed = .none then c
    else
      match c.passVictims key now needed with
      | [] => c
      | victims => evictPasses key size now fuel (c.removeAll (victims.map Entry.key) .evicted)

/-- The failure of an entry that does not fit. -/
def doesNotFit (c : Cache) (size : Nat) : Failure :=
  .exhausted size c.settings.maxMemory

/-- Makes room for an entry of a key and a size. -/
def makeRoom (c : Cache) (key : String) (size : Nat) (now : Instant) : Except Failure Unit × Cache :=
  if c.roomNeeded key size = .none then (.ok (), c)
  else
    let c := (c.purgeExpired now).2
    let needed := c.roomNeeded key size
    if needed = .none then (.ok (), c)
    else
      -- the call fails before anything is removed that is not expired
      let evictable := c.evictable key
      if Table.totalSize evictable < needed.bytes then (.error (c.doesNotFit size), c)
      else if evictable.length < needed.entries then (.error (.noneEvictable c.table.size), c)
      else
        let c := evictPasses key size now c.table.size c
        if c.roomNeeded key size = .none then (.ok (), c) else (.error (c.doesNotFit size), c)

end ResultCache.Cache
