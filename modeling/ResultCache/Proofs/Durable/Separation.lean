import ResultCache.Proofs.Durable.Faultless
import ResultCache.Store.Backing

/-!
# Stores keep their records apart

A call on one key of a store leaves the records of all others as they are, and only keys with the asked beginning are
listed, whether calls fail or not (`Store.Separate`).  Stores in memory and in a directory keep to that, and so do these
with faults: in a directory different keys have different files, and no temporary file has the name of a record.
-/

namespace ResultCache

namespace Store

variable {σ : Type}

/-- What a call on one key may not do to the others.  The calls may fail. -/
structure Separate (store : Store σ) : Prop where
  get_put (key x : String) (record : Bytes) (s : σ) : x ≠ key →
    store.get x (store.put key record s).2 = store.get x s
  get_delete (key x : String) (s : σ) : x ≠ key → store.get x (store.delete key s).2 = store.get x s
  beginsWith_of_list (start : String) (s : σ) (keys : List String) : store.list start s = .ok keys →
    ∀ key ∈ keys, beginsWith start key = true

/-- Faults add nothing that a call could do. -/
theorem Separate.withFaults {store : Store σ} (h : store.Separate) (f : Faults) : (store.withFaults f).Separate where
  get_put key x record s hx := by
    cases hfails : f.failing .put key with
    | true => simp only [Store.withFaults, hfails, if_true]
    | false => simp only [Store.withFaults, hfails, Bool.false_eq_true, if_false, h.get_put key x record s hx]
  get_delete key x s hx := by
    cases hfails : f.failing .delete key with
    | true => simp only [Store.withFaults, hfails, if_true]
    | false => simp only [Store.withFaults, hfails, Bool.false_eq_true, if_false, h.get_delete key x s hx]
  beginsWith_of_list start s keys hlist := by
    simp only [Store.withFaults] at hlist
    split at hlist
    · cases hlist
    · exact h.beginsWith_of_list start s keys hlist

end Store

namespace MemoryStore

theorem separate : store.Separate where
  get_put key x record m hx := congrArg Except.ok (get?_put.trans (if_neg hx))
  get_delete key x m hx := congrArg Except.ok (get?_delete.trans (if_neg hx))
  beginsWith_of_list start m keys hlist key hkey := by
    cases hlist
    exact (List.mem_filter.1 hkey).2

end MemoryStore

namespace Directory

theorem stem_injective {key x : String} (h : stem x = stem key) : x = key := by
  have hdigits := congrArg (fun s => Text.hexDecode? s.toList) h
  simp only [stem, String.toList_ofList, Text.hexDecode?_hexEncode, Option.some.injEq] at hdigits
  exact Text.utf8_injective hdigits

theorem recordName_ne {key x : String} (h : x ≠ key) : recordName x ≠ recordName key :=
  fun heq => h (stem_injective ((String.append_left_inj ".rec").1 heq))

/-- The names of records and of temporary files end in different ways. -/
theorem recordName_ne_temporaryName (key x : String) : recordName x ≠ temporaryName key := by
  have hrecord : (recordName x).toList.getLast? = some 'c' := by
    rw [recordName, String.toList_append]
    exact List.getLast?_append_of_ne_nil _ (by decide)
  have htemporary : (temporaryName key).toList.getLast? = some 'p' := by
    rw [temporaryName]
    split
    · rfl
    · rw [String.toList_append]
      exact List.getLast?_append_of_ne_nil _ (by decide)
  intro heq
  rw [heq, htemporary] at hrecord
  exact absurd hrecord (by decide)

/-- What is read under a key depends on nothing but what stands under its name. -/
theorem get_congr {x : String} {nodes nodes' : List (String × Node)} (nameLimit : Option Nat)
    (h : nodes'.lookup (recordName x) = nodes.lookup (recordName x)) :
    get x ⟨.folder nodes', nameLimit⟩ = get x ⟨.folder nodes, nameLimit⟩ := by
  simp only [get, h, allows]
  rfl

theorem get_put {key x : String} (record : Bytes) (d : Directory) (hx : x ≠ key) :
    get x (put key record d).2 = get x d := by
  obtain ⟨place, nameLimit⟩ := d
  cases place with
  | missing => rfl
  | occupied => rfl
  | folder nodes =>
    have hname := recordName_ne hx
    have htemporary := recordName_ne_temporaryName key x
    simp only [put]
    split
    · rfl
    · split
      · rfl
      · exact get_congr nameLimit (Assoc.lookup_insert.trans (if_neg htemporary))
      · refine get_congr nameLimit ?_
        rw [Assoc.lookup_insert, if_neg hname, Assoc.lookup_erase, if_neg htemporary]

theorem get_delete {key x : String} (d : Directory) (hx : x ≠ key) : get x (delete key d).2 = get x d := by
  obtain ⟨place, nameLimit⟩ := d
  cases place with
  | missing => rfl
  | occupied => rfl
  | folder nodes =>
    simp only [delete]
    split
    · rfl
    · split
      · rfl
      · exact get_congr nameLimit (Assoc.lookup_erase.trans (if_neg (recordName_ne hx)))
      · rfl

theorem separate : store.Separate where
  get_put _ _ record d hx := get_put record d hx
  get_delete _ _ d hx := get_delete d hx
  beginsWith_of_list start d keys hlist key hkey := by
    obtain ⟨place, nameLimit⟩ := d
    cases place with
    | missing => cases hlist
    | occupied => cases hlist
    | folder nodes =>
      cases hlist
      rw [List.mem_mergeSort] at hkey
      exact (List.mem_filter.1 hkey).2

end Directory

namespace Backing

theorem separate : store.Separate where
  get_put key x record b hx := by
    cases b with
    | memory m => exact MemoryStore.separate.get_put key x record m hx
    | directory d => exact Directory.separate.get_put key x record d hx
  get_delete key x b hx := by
    cases b with
    | memory m => exact MemoryStore.separate.get_delete key x m hx
    | directory d => exact Directory.separate.get_delete key x d hx
  beginsWith_of_list start b keys hlist := by
    cases b with
    | memory m => exact MemoryStore.separate.beginsWith_of_list start m keys hlist
    | directory d => exact Directory.separate.beginsWith_of_list start d keys hlist

end Backing

end ResultCache
