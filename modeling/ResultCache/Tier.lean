import ResultCache.Snapshot
import ResultCache.Store.Basic
import ResultCache.Text.Shown

/-!
# The durable tier

The cache never waits for its store: it puts write operations into a queue, from which a writer takes them one by one.
A barrier is an operation that does nothing but tell that all before it are done.  Once the writer is gone, whatever
is queued is lost.  All records of a tier stand under keys that begin with its namespace and a colon.
-/

namespace ResultCache

/-- An operation that waits to be done on the store.  Keys are those of entries. -/
inductive WriteOp where
  | put (key : String) (record : Bytes)
  | delete (key : String)
  | clear
  /-- Tells, by its ticket, that all operations before it are done. -/
  | barrier (ticket : Nat)
deriving DecidableEq

/-- The queue between a cache and the store. -/
structure Tier where
  space : String
  pending : List WriteOp
  /-- Whether the writer is there. -/
  connected : Bool
  /-- How many barriers were queued. -/
  tickets : Nat
  /-- The tickets of the barriers that were reached. -/
  resolved : List Nat

/-- What was found in the store at a start. -/
structure Rehydrated where
  live : List Snapshot
  /-- How many records were no longer live. -/
  expired : Nat
  /-- How many records could not be read. -/
  corrupt : Nat

namespace WriteOp

variable {σ : Type}

/-- Deletes records until the first failure. -/
def deleteAll (store : Store σ) : List String → σ → σ
  | [], s => s
  | key :: keys, s =>
    match store.delete key s with
    | (.ok _, s) => deleteAll store keys s
    | (.error _, s) => s

/-- Does an operation on a store.  What fails is left as it is. -/
def apply (store : Store σ) (space : String) (op : WriteOp) (s : σ) : σ :=
  match op with
  | put key record => (store.put (space ++ ":" ++ key) record s).2
  | delete key => (store.delete (space ++ ":" ++ key) s).2
  | clear =>
    match store.list (space ++ ":") s with
    | .error _ => s
    | .ok keys => deleteAll store keys s
  | barrier _ => s

end WriteOp

namespace Tier

variable {σ : Type}

/-- A tier with an empty queue and a writer. -/
def ofSpace (space : String) : Tier :=
  ⟨space, [], true, 0, []⟩

/-- What the keys of the records begin with. -/
def start (t : Tier) : String :=
  t.space ++ ":"

/-- Queues an operation, if there is a writer. -/
def send (t : Tier) (op : WriteOp) : Tier :=
  if t.connected then { t with pending := t.pending ++ [op] } else t

def put (t : Tier) (s : Snapshot) : Tier :=
  t.send (.put s.key s.record)

def delete (t : Tier) (key : String) : Tier :=
  t.send (.delete key)

/-- Queues the removal of all records of the namespace. -/
def clear (t : Tier) : Tier :=
  t.send .clear

/-- Queues a barrier; gives its ticket. -/
def barrier (t : Tier) : Nat × Tier :=
  (t.tickets, { t.send (.barrier t.tickets) with tickets := t.tickets + 1 })

/-- Whether all that was queued before a barrier is done. -/
def isResolved (t : Tier) (ticket : Nat) : Bool :=
  t.resolved.contains ticket

/-- Does the first operation of the queue. -/
def applyNext (store : Store σ) (t : Tier) (s : σ) : Tier × σ :=
  match t.pending with
  | [] => (t, s)
  | op :: rest =>
    let resolved := match op with
      | .barrier ticket => ticket :: t.resolved
      | _ => t.resolved
    ({ t with pending := rest, resolved := resolved }, op.apply store t.space s)

/-- Does the first `count` operations of the queue. -/
def applyCount (store : Store σ) : Nat → Tier → σ → Tier × σ
  | 0, t, s => (t, s)
  | count + 1, t, s =>
    let (t, s) := applyNext store t s
    applyCount store count t s

/-- Does all operations of the queue; tells how many they were. -/
def applyAll (store : Store σ) (t : Tier) (s : σ) : Nat × Tier × σ :=
  (t.pending.length, applyCount store t.pending.length t s)

/-- The writer does all that is queued; tells how many operations, if there is a writer. -/
def write (store : Store σ) (t : Tier) (s : σ) : Option Nat × Tier × σ :=
  if t.connected then
    let (count, t, s) := applyAll store t s
    (some count, t, s)
  else (none, t, s)

/-- What came of a barrier that was queued right before the writer was at work. -/
structure BarrierReport where
  reachedBefore : Bool
  /-- How many operations the writer did, if there was one. -/
  written : Option Nat
  reachedAfter : Bool
deriving DecidableEq

/-- Queues a barrier and has the writer do all that is queued. -/
def writeToBarrier (store : Store σ) (t : Tier) (s : σ) : BarrierReport × Tier × σ :=
  let (ticket, t) := t.barrier
  let before := t.isResolved ticket
  let (count, t, s) := write store t s
  (⟨before, count, t.isResolved ticket⟩, t, s)

/-- The tier after its writer has gone, with what was queued. -/
def disconnect (t : Tier) : Tier :=
  { t with connected := false, pending := [] }

/-- Takes up one record: a live one is kept, one that is expired or is no record is deleted, and one that cannot be
got is counted only. -/
def rehydrateKey (store : Store σ) (now : Instant) (key : String) (found : Rehydrated) (s : σ) : Rehydrated × σ :=
  match store.get key s with
  | .error _ => ({ found with corrupt := found.corrupt + 1 }, s)
  | .ok none => (found, s)
  | .ok (some record) =>
    match Snapshot.parse record with
    | .error _ => ({ found with corrupt := found.corrupt + 1 }, (store.delete key s).2)
    | .ok snapshot =>
      if snapshot.isLive now then ({ found with live := found.live ++ [snapshot] }, s)
      else ({ found with expired := found.expired + 1 }, (store.delete key s).2)

def rehydrateKeys (store : Store σ) (now : Instant) : List String → Rehydrated → σ → Rehydrated × σ
  | [], found, s => (found, s)
  | key :: keys, found, s =>
    let (found, s) := rehydrateKey store now key found s
    rehydrateKeys store now keys found s

/-- Reads all records of the namespace; finds nothing if they cannot be listed. -/
def rehydrate (store : Store σ) (t : Tier) (now : Instant) (s : σ) : Rehydrated × σ :=
  match store.list t.start s with
  | .error _ => (⟨[], 0, 0⟩, s)
  | .ok keys => rehydrateKeys store now keys ⟨[], 0, 0⟩ s

def describe (t : Tier) : String :=
  "DurableTier \x7b namespace: " ++ Text.shown t.space ++ ", .. \x7d"

end Tier

end ResultCache
