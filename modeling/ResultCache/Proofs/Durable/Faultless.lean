import Mathlib.Data.List.Nodup
import ResultCache.Store.Memory

/-!
# Stores without faults

What a tier relies on in a store (`Store.Faultless`): every call on a key of its namespace goes well and does what it
says, as long as the contents are in good order, and they stay so.  A store in memory is such a store
(`MemoryStore.faultless`).
-/

namespace ResultCache

namespace Store

variable {σ : Type}

/-- The record that stands under a key after a beginning, as far as it can be got. -/
def record? (store : Store σ) (start : String) (s : σ) (key : String) : Option Bytes :=
  match store.get (start ++ key) s with
  | .ok r => r
  | .error _ => none

/-- On the keys with a certain beginning no call fails while the contents are good. -/
structure Faultless (store : Store σ) (start : String) (good : σ → Prop) : Prop where
  get_eq (s : σ) (key : String) : good s → store.get (start ++ key) s = .ok (store.record? start s key)
  good_put (s : σ) (key : String) (record : Bytes) : good s → good (store.put (start ++ key) record s).2
  record?_put (s : σ) (key : String) (record : Bytes) (x : String) : good s →
    store.record? start (store.put (start ++ key) record s).2 x =
      if x = key then some record else store.record? start s x
  delete_ok (s : σ) (key : String) : good s → (store.delete (start ++ key) s).1 = .ok ()
  good_delete (s : σ) (key : String) : good s → good (store.delete (start ++ key) s).2
  record?_delete (s : σ) (key x : String) : good s →
    store.record? start (store.delete (start ++ key) s).2 x = if x = key then none else store.record? start s x
  /-- The keys are listed, each once. -/
  list_eq (s : σ) : good s → ∃ keys : List String, store.list start s = .ok (keys.map (start ++ ·)) ∧ keys.Nodup ∧
    ∀ key, key ∈ keys ↔ (store.record? start s key).isSome = true

end Store

namespace MemoryStore

theorem beginsWith_iff {start key : String} : beginsWith start key = true ↔ ∃ rest, key = start ++ rest := by
  rw [beginsWith, List.isPrefixOf_iff_prefix]
  constructor
  · rintro ⟨cs, hcs⟩
    exact ⟨String.ofList cs, by rw [← String.toList_inj, String.toList_append, String.toList_ofList, hcs]⟩
  · rintro ⟨rest, rfl⟩
    rw [String.toList_append]
    exact List.prefix_append ..

/-- The keys that begin with a text are that text with the rest of each. -/
theorem exists_rests (start : String) (keys : List String) :
    ∃ rests : List String, keys.filter (beginsWith start) = rests.map (start ++ ·) := by
  induction keys with
  | nil => exact ⟨[], rfl⟩
  | cons key keys ih =>
    obtain ⟨rests, hrests⟩ := ih
    cases hkey : beginsWith start key with
    | false =>
      rw [List.filter_cons_of_neg (by simp [hkey])]
      exact ⟨rests, hrests⟩
    | true =>
      obtain ⟨rest, rfl⟩ := beginsWith_iff.1 hkey
      rw [List.filter_cons_of_pos hkey, hrests]
      exact ⟨rest :: rests, rfl⟩

/-- In memory no call fails, on any keys. -/
theorem faultless (start : String) : store.Faultless start fun m => Assoc.Sorted m.records where
  get_eq m key _ := rfl
  good_put m key record h := Assoc.sorted_insert h
  record?_put m key record x _ := by
    show (m.put (start ++ key) record).get? (start ++ x) = _
    rw [get?_put]
    simp only [String.append_right_inj]
    rfl
  delete_ok m key _ := rfl
  good_delete m key h := List.Pairwise.filter _ h
  record?_delete m key x _ := by
    show (m.delete (start ++ key)).get? (start ++ x) = _
    rw [get?_delete]
    simp only [String.append_right_inj]
    rfl
  list_eq m h := by
    obtain ⟨rests, hrests⟩ := exists_rests start (m.records.map (·.1))
    have hkeys : (m.records.map (·.1)).Nodup := Assoc.Sorted.nodup_keys h
    have hnodup : (rests.map (start ++ ·)).Nodup := hrests ▸ hkeys.filter _
    refine ⟨rests, congrArg Except.ok hrests, List.Nodup.of_map _ hnodup, fun key => ?_⟩
    show key ∈ rests ↔ (m.records.lookup (start ++ key)).isSome = true
    have hlookup : (m.records.lookup (start ++ key)).isSome = true ↔ start ++ key ∈ m.records.map (·.1) := by
      rw [← Decidable.not_iff_not, Bool.not_eq_true, Option.isSome_eq_false_iff, Option.isNone_iff_eq_none]
      exact Assoc.lookup_eq_none_iff
    have hfilter : start ++ key ∈ (m.records.map (·.1)).filter (beginsWith start) ↔
        start ++ key ∈ m.records.map (·.1) := by
      rw [List.mem_filter]
      exact and_iff_left (beginsWith_iff.2 ⟨key, rfl⟩)
    rw [hlookup, ← hfilter, hrests, List.mem_map]
    constructor
    · exact fun hkey => ⟨key, hkey, rfl⟩
    · rintro ⟨rest, hrest, heq⟩
      exact (String.append_right_inj start).1 heq ▸ hrest

end MemoryStore

end ResultCache
