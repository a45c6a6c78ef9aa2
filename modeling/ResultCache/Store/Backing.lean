import ResultCache.Store.Directory
import ResultCache.Store.Memory

/-!
# Where records are kept

Either in memory or in a directory.
-/

namespace ResultCache

inductive Backing where
  | memory (m : MemoryStore)
  | directory (d : Directory)

namespace Backing

/-- The calls on whichever store it is. -/
def store : Store Backing where
  put key record b :=
    match b with
    | memory m =>
      let (r, m) := MemoryStore.store.put key record m
      (r, memory m)
    | directory d =>
      let (r, d) := Directory.store.put key record d
      (r, directory d)
  get key b :=
    match b with
    | memory m => MemoryStore.store.get key m
    | directory d => Directory.store.get key d
  delete key b :=
    match b with
    | memory m =>
      let (r, m) := MemoryStore.store.delete key m
      (r, memory m)
    | directory d =>
      let (r, d) := Directory.store.delete key d
      (r, directory d)
  list start b :=
    match b with
    | memory m => MemoryStore.store.list start m
    | directory d => Directory.store.list start d

end Backing

end ResultCache
