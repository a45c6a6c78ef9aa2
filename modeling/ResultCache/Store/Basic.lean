import ResultCache.Text.Hex
import ResultCache.Text.Pattern

/-!
# Stores

A store keeps records under keys, outside the process.  Every call may fail, and a failed call may leave something
behind.  `Faults` are calls that are made to fail, and records that are hidden from reading, on top of any store.
-/

namespace ResultCache

/-- A call on a store failed. -/
inductive StoreError where
  | unavailable
deriving DecidableEq

/-- The calls on a store with contents of type `σ`. -/
structure Store (σ : Type) where
  /-- Keeps a record under a key, in place of an older one. -/
  put : String → Bytes → σ → Except StoreError Unit × σ
  /-- The record of a key, if there is one. -/
  get : String → σ → Except StoreError (Option Bytes)
  /-- Removes the record of a key; it is no failure if there is none. -/
  delete : String → σ → Except StoreError Unit × σ
  /-- The keys that begin with a text, in order. -/
  list : String → σ → Except StoreError (List String)

/-- Whether a key begins with a text. -/
def beginsWith (start key : String) : Bool :=
  start.toList.isPrefixOf key.toList

/-- The calls that a store knows. -/
inductive StoreCall where
  | put
  | get
  | delete
  | list
deriving DecidableEq

/-- What goes wrong with a store: the calls that fail, by their key, and the keys whose records are not found. -/
structure Faults where
  failing : StoreCall → String → Bool
  hidden : String → Bool

namespace Faults

/-- Nothing goes wrong. -/
def none : Faults :=
  ⟨fun _ _ => false, fun _ => false⟩

end Faults

namespace Store

variable {σ : Type}

/-- A store with faults. -/
def withFaults (store : Store σ) (f : Faults) : Store σ where
  put key record s := if f.failing .put key then (.error .unavailable, s) else store.put key record s
  get key s :=
    if f.failing .get key then .error .unavailable else if f.hidden key then .ok none else store.get key s
  delete key s := if f.failing .delete key then (.error .unavailable, s) else store.delete key s
  list start s := if f.failing .list start then .error .unavailable else store.list start s

/-- Without faults a store stays as it is. -/
@[simp] theorem withFaults_none (store : Store σ) : store.withFaults .none = store := by
  cases store
  simp [withFaults, Faults.none]

/-- All records with their keys, as far as they can be read. -/
def contents (store : Store σ) (s : σ) : List (String × Bytes) :=
  match store.list "" s with
  | .error _ => []
  | .ok keys =>
    keys.filterMap fun key =>
      match store.get key s with
      | .ok (some record) => some (key, record)
      | _ => none

end Store

end ResultCache
