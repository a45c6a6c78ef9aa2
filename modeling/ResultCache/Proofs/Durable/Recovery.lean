import ResultCache.Proofs.Durable.Rehydration
import ResultCache.Proofs.Text.Order

/-!
# Taking up records in spite of faults

Records are taken up one by one, and what comes of one does not depend on the others: whether its reading or its
deletion fails, or it is not found, or it is no record, or no longer live (`Tier.rehydrateKey_withFaults`).  So the live
ones are found in the order of their keys, the others are counted, and exactly those that can be read, are not live and
can be deleted are gone afterwards (`Tier.rehydrate_withFaults`).
-/

namespace ResultCache

/-- Whether a record can be read and is no longer live. -/
def Snapshot.isLapsed (now : Instant) (record : Bytes) : Bool :=
  match parse record with
  | .ok snapshot => !snapshot.isLive now
  | .error _ => false

namespace Faults

/-- Whether the record of a key is got. -/
def gets (f : Faults) (key : String) : Bool :=
  !f.failing .get key && !f.hidden key

/-- Whether a record that is taken up is gone afterwards. -/
def drops (f : Faults) (now : Instant) (row : String × Bytes) : Bool :=
  f.gets row.1 && (Snapshot.isCorrupt row.2 || Snapshot.isLapsed now row.2) && !f.failing .delete row.1

end Faults

namespace Tier

variable {f : Faults} {now : Instant} {m : MemoryStore}

/-- What is found in one record, after what was found before. -/
def foundIn (f : Faults) (now : Instant) (found : Rehydrated) (row : String × Bytes) : Rehydrated where
  live := found.live ++ if f.gets row.1 then (Snapshot.live? now row.2).toList else []
  expired := found.expired + (f.gets row.1 && Snapshot.isLapsed now row.2).toNat
  corrupt := found.corrupt + (f.failing .get row.1 || f.gets row.1 && Snapshot.isCorrupt row.2).toNat

theorem rehydrateKey_withFaults (f : Faults) (now : Instant) (found : Rehydrated) {row : String × Bytes}
    (hrow : m.get? row.1 = some row.2) :
    rehydrateKey (MemoryStore.store.withFaults f) now row.1 found m =
      (foundIn f now found row, if f.drops now row then m.delete row.1 else m) := by
  have hget : (MemoryStore.store.withFaults f).get row.1 m =
      if f.failing .get row.1 then .error .unavailable else if f.hidden row.1 then .ok none else .ok (some row.2) := by
    rw [← hrow]
    rfl
  have hdelete : ((MemoryStore.store.withFaults f).delete row.1 m).2 =
      if f.failing .delete row.1 then m else m.delete row.1 := by
    simp only [Store.withFaults]
    split <;> rfl
  rw [rehydrateKey, hget, hdelete, foundIn, Faults.drops, Faults.gets]
  cases hfails : f.failing .get row.1 with
  | true => simp
  | false =>
    cases hhidden : f.hidden row.1 with
    | true => simp
    | false =>
      rw [Snapshot.isCorrupt, Snapshot.isLapsed, Snapshot.live?]
      cases hparse : Snapshot.parse row.2 with
      | error e => cases f.failing .delete row.1 <;> simp [hparse]
      | ok snapshot =>
        cases hlive : snapshot.isLive now <;> cases f.failing .delete row.1 <;> simp [hparse, hlive]

/-- Under the key of a record stands no other one. -/
theorem records_delete_if (hm : Assoc.Sorted m.records) {row : String × Bytes} (hrow : row ∈ m.records)
    (drop : String × Bytes → Bool) :
    (if drop row then m.delete row.1 else m).records = m.records.filter fun x => !(x.1 == row.1 && drop x) := by
  have hsame : ∀ x ∈ m.records, (x.1 == row.1 && drop x) = (x.1 == row.1 && drop row) := by
    intro x hx
    cases hkey : x.1 == row.1 with
    | false => rfl
    | true =>
      have hvalue := hm.value_unique (v := x.2) (w := row.2) (eq_of_beq hkey ▸ hx) hrow
      rw [show x = row from Prod.ext (eq_of_beq hkey) hvalue]
  rw [List.filter_congr fun x hx => congrArg not (hsame x hx)]
  cases drop row with
  | false => exact (List.filter_eq_self.2 fun x _ => by rw [Bool.and_false]; rfl).symm
  | true => exact List.filter_congr fun x _ => by rw [Bool.and_true]; rfl

/-- Of records with different keys each is taken up as it was at the start. -/
theorem rehydrateKeys_withFaults (f : Faults) (now : Instant) {rows : List (String × Bytes)}
    (hkeys : (rows.map (·.1)).Nodup) (found : Rehydrated) (hm : Assoc.Sorted m.records)
    (hrows : ∀ row ∈ rows, row ∈ m.records) :
    rehydrateKeys (MemoryStore.store.withFaults f) now (rows.map (·.1)) found m =
      (rows.foldl (foundIn f now) found,
        ⟨m.records.filter fun row => !((rows.map (·.1)).contains row.1 && f.drops now row)⟩) := by
  induction rows generalizing found m with
  | nil => exact congrArg _ (congrArg MemoryStore.mk (List.filter_eq_self.2 fun _ _ => rfl).symm)
  | cons row rest ih =>
    obtain ⟨hnew, hrest⟩ := List.nodup_cons.1 hkeys
    have hrow := hrows row List.mem_cons_self
    -- what is left of the store after the first record
    obtain ⟨m', hm'⟩ : ∃ m', (if f.drops now row then m.delete row.1 else m) = m' := ⟨_, rfl⟩
    have hrecords := records_delete_if hm hrow (f.drops now)
    rw [hm'] at hrecords
    have hget : m.get? row.1 = some row.2 := (Assoc.lookup_eq_some_iff hm.nodup_keys).2 hrow
    rw [List.map_cons, rehydrateKeys, rehydrateKey_withFaults f now found hget, hm']
    have hsorted : Assoc.Sorted m'.records := hrecords ▸ List.Pairwise.filter _ hm
    have hleft : ∀ x ∈ rest, x ∈ m'.records := fun x hx => by
      have hkey : x.1 ≠ row.1 := fun heq => hnew (List.mem_map.2 ⟨x, hx, heq⟩)
      rw [hrecords, List.mem_filter, beq_false_of_ne hkey]
      exact ⟨hrows x (List.mem_cons_of_mem _ hx), rfl⟩
    refine (ih hrest (foundIn f now found row) hsorted hleft).trans (congrArg _ (congrArg MemoryStore.mk ?_))
    rw [hrecords, List.filter_filter]
    refine List.filter_congr fun x _ => ?_
    rw [List.contains_cons]
    cases x.1 == row.1 <;> cases f.drops now x <;> simp

/-- All in all the live ones are found in their order, and the others are counted. -/
theorem foldl_foundIn (f : Faults) (now : Instant) (rows : List (String × Bytes)) (found : Rehydrated) :
    let got := rows.filter (f.gets ·.1)
    rows.foldl (foundIn f now) found =
      { live := found.live ++ got.filterMap (Snapshot.live? now ·.2)
        expired := found.expired + got.countP (Snapshot.isLapsed now ·.2)
        corrupt := found.corrupt + (got.countP (Snapshot.isCorrupt ·.2) + rows.countP (f.failing .get ·.1)) } := by
  induction rows generalizing found with
  | nil => simp
  | cons row rest ih =>
    simp only at ih ⊢
    rw [List.foldl_cons, ih, foundIn, List.countP_cons]
    cases hgets : f.gets row.1 with
    | false =>
      rw [List.filter_cons_of_neg (by simp [hgets])]
      cases f.failing .get row.1 with
      | false => simp
      | true =>
        simp only [Bool.false_eq_true, if_false, if_true, List.append_nil, Bool.false_and, Bool.or_false,
          Bool.toNat_false, Bool.toNat_true, Nat.add_zero, Rehydrated.mk.injEq, true_and]
        omega
    | true =>
      have hreads : f.failing .get row.1 = false := by
        rw [Faults.gets, Bool.and_eq_true] at hgets
        simpa using hgets.1
      have hgot : (row :: rest).filter (f.gets ·.1) = row :: rest.filter (f.gets ·.1) := List.filter_cons_of_pos hgets
      rw [hgot, List.filterMap_cons, List.countP_cons, List.countP_cons, hreads]
      cases Snapshot.live? now row.2 <;> cases Snapshot.isLapsed now row.2 <;> cases Snapshot.isCorrupt row.2 <;>
        simp <;> omega

theorem contains_keys {row : String × Bytes} (hrow : row ∈ m.records) (start : String) :
    (m.keys start).contains row.1 = beginsWith start row.1 := by
  rw [Bool.eq_iff_iff, List.contains_iff_mem, MemoryStore.keys, List.mem_filter]
  exact and_iff_right (List.mem_map_of_mem hrow)

/-- Whatever calls fail and whatever is hidden, taking up the records of a namespace finds the live ones of those that
are got, in the order of their keys, and counts those that are no longer live, and those that are no records or fail to
be read.  Gone are exactly the records that are got, not live or no records, and can be deleted.  If they cannot be
listed, nothing happens. -/
theorem rehydrate_withFaults (f : Faults) (t : Tier) (now : Instant) (hm : Assoc.Sorted m.records) :
    let listed := m.records.filter (beginsWith t.start ·.1)
    let got := listed.filter (f.gets ·.1)
    let result := t.rehydrate (MemoryStore.store.withFaults f) now m
    (f.failing .list t.start = true → result = (⟨[], 0, 0⟩, m)) ∧
      (f.failing .list t.start = false →
        listed.Pairwise (fun a b => Text.utf8 a.1 < Text.utf8 b.1) ∧
        result.1.live = got.filterMap (Snapshot.live? now ·.2) ∧
        result.1.expired = got.countP (Snapshot.isLapsed now ·.2) ∧
        result.1.corrupt = got.countP (Snapshot.isCorrupt ·.2) + listed.countP (f.failing .get ·.1) ∧
        result.2.records = m.records.filter fun row => !(beginsWith t.start row.1 && f.drops now row)) := by
  intro listed got result
  have hkeys : m.keys t.start = listed.map (·.1) := List.filter_map
  have hlist : (MemoryStore.store.withFaults f).list t.start m =
      if f.failing .list t.start then .error .unavailable else .ok (m.keys t.start) := rfl
  refine ⟨fun hfails => ?_, fun hlists => ?_⟩
  · show t.rehydrate (MemoryStore.store.withFaults f) now m = _
    rw [rehydrate, hlist, hfails]
    rfl
  · have hresult : result = rehydrateKeys (MemoryStore.store.withFaults f) now (m.keys t.start) ⟨[], 0, 0⟩ m := by
      show t.rehydrate (MemoryStore.store.withFaults f) now m = _
      rw [rehydrate, hlist, hlists]
      rfl
    have hsorted : Assoc.Sorted listed := List.Pairwise.filter _ hm
    rw [hkeys, rehydrateKeys_withFaults f now hsorted.nodup_keys _ hm fun row hrow => (List.mem_filter.1 hrow).1,
      foldl_foundIn, ← hkeys] at hresult
    rw [hresult]
    refine ⟨List.Pairwise.imp Text.utf8_lt_utf8_iff.2 hsorted, List.nil_append _, Nat.zero_add _, Nat.zero_add _, ?_⟩
    exact List.filter_congr fun row hrow => by rw [contains_keys hrow]

private def recordOf (key : String) (ttlMillis : Nat) : Bytes :=
  Snapshot.record ⟨key, "/", .int 1, .epoch, ttlMillis, .high⟩

/-- Two live records of a namespace, one that is no record, and one over its time, beside one of another
namespace. -/
private def damaged : MemoryStore :=
  ((((MemoryStore.empty.put "memo:a" (recordOf "a" 2000)).put "memo:b" [0]).put "memo:c" (recordOf "c" 1000)).put
    "memo:d" (recordOf "d" 2000)).put "other:e" [0]

/-- One record cannot be read, and another one cannot be deleted. -/
private def stubborn : Faults where
  failing call key := call == .get && key == "memo:d" || call == .delete && key == "memo:c"
  hidden _ := false

theorem rehydrate_withFaults_damaged :
    let result := rehydrate (MemoryStore.store.withFaults stubborn) (.ofSpace "memo") (.ofMillis 1000) damaged
    result.1.live.map Snapshot.key = ["a"] ∧ result.1.expired = 1 ∧ result.1.corrupt = 2 ∧
      result.2.records.map (·.1) = ["memo:a", "memo:c", "memo:d", "other:e"] := by
  have hsorted : Assoc.Sorted damaged.records := by
    repeat refine Assoc.sorted_insert ?_
    exact .nil
  obtain ⟨-, hlive, hexpired, hcorrupt, hrecords⟩ :=
    (rehydrate_withFaults stubborn (.ofSpace "memo") (.ofMillis 1000) hsorted).2 rfl
  intro result
  rw [hlive, hexpired, hcorrupt, hrecords]
  decide +kernel

end Tier

end ResultCache
