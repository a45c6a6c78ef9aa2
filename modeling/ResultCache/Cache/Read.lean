import ResultCache.Cache.Basic

/-!
# Reading results

A read of a fresh entry gives its value and is noted in the entry.  An expired entry, and one that can no longer be
unpacked, is removed by the read that meets it and counts as a miss.
-/

namespace ResultCache.Cache

def getByKey (c : Cache) (now : Instant) (key : String) : Option Json × Cache :=
  match c.table.find? key with
  | none => (none, { c with counters := c.counters.miss })
  | some e =>
    if e.isExpired now then
      let c := c.removeEntry key e .expired
      (none, { c with counters := c.counters.miss })
    else
      match c.decode e.value with
      | none =>
        let c := c.removeEntry key e .corrupt
        (none, { c with counters := c.counters.miss })
      | some v =>
        (some v, { c with table := c.table.update key (·.touch now), counters := c.counters.hit })

def get (c : Cache) (now : Instant) (r : Request) : Option Json × Cache :=
  c.getByKey now (c.keyFor r)

/-- Reads the result of a request as a value of some kind; a value of another kind is none. -/
def getAs {α : Type} (kind : Json → Option α) (c : Cache) (now : Instant) (r : Request) : Option α × Cache :=
  let (v, c) := c.get now r
  (v.bind kind, c)

/-- Whether there is a fresh entry for a request.  This is no read, and what is kept is not unpacked. -/
def has (c : Cache) (now : Instant) (r : Request) : Bool :=
  (c.table.find? (c.keyFor r)).any fun e => !e.isExpired now

end ResultCache.Cache
