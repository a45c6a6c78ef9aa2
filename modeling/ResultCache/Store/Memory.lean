import ResultCache.Assoc
import ResultCache.Store.Basic

/-!
# A store in memory

Records in the order of their keys.  No call fails.
-/

namespace ResultCache

/-- The records of a store in memory. -/
structure MemoryStore where
  records : List (String × Bytes)

namespace MemoryStore

def empty : MemoryStore :=
  ⟨[]⟩

def put (m : MemoryStore) (key : String) (record : Bytes) : MemoryStore :=
  ⟨Assoc.insert key record m.records⟩

def get? (m : MemoryStore) (key : String) : Option Bytes :=
  m.records.lookup key

def delete (m : MemoryStore) (key : String) : MemoryStore :=
  ⟨Assoc.erase key m.records⟩

def keys (m : MemoryStore) (start : String) : List String :=
  (m.records.map (·.1)).filter (beginsWith start)

def size (m : MemoryStore) : Nat :=
  m.records.length

/-- The calls on a store in memory. -/
def store : Store MemoryStore where
  put key record m := (.ok (), m.put key record)
  get key m := .ok (m.get? key)
  delete key m := (.ok (), m.delete key)
  list start m := .ok (m.keys start)

@[simp] theorem get?_put {m : MemoryStore} {key x : String} {record : Bytes} :
    (m.put key record).get? x = if x = key then some record else m.get? x :=
  Assoc.lookup_insert

@[simp] theorem get?_delete {m : MemoryStore} {key x : String} :
    (m.delete key).get? x = if x = key then none else m.get? x :=
  Assoc.lookup_erase

end MemoryStore

end ResultCache
