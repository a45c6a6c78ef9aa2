import ResultCache.Proofs.Durable.Coverage
import ResultCache.Proofs.Durable.Recovery
import ResultCache.Proofs.Ledger
import ResultCache.Proofs.Protection
import ResultCache.Proofs.Selection

/-!
# Loading beside what is there

Records are considered one after the other, and what becomes of each depends on the entries that are there at that
point (`Fate.beside`): those of the table and those that were loaded before it.  Nothing else changes
(`Cache.loadAll_eq_assign`).  What is not loaded once is not loaded beside more entries either, so that a second load at
the same time does nothing (`Session.rehydrate_adds_only`).
-/

namespace ResultCache

/-- What becomes of a record that is considered. -/
inductive Fate where
  /-- An entry of its key is there. -/
  | passed
  | loaded
  /-- There is no room for it. -/
  | refused
deriving DecidableEq

namespace Fate

/-- What becomes of an entry that is to stand beside others within the ceilings. -/
def beside (settings : Settings) (present : List Entry) (e : Entry) : Fate :=
  if e.key ∈ present.map Entry.key then .passed
  else if present.length + 1 ≤ settings.maxEntries ∧ Table.totalSize present + e.size ≤ settings.maxMemory then .loaded
  else .refused

variable {settings : Settings} {present : List Entry} {e : Entry}

theorem beside_eq_loaded_iff : beside settings present e = .loaded ↔ e.key ∉ present.map Entry.key ∧
    present.length + 1 ≤ settings.maxEntries ∧ Table.totalSize present + e.size ≤ settings.maxMemory := by
  rw [beside]
  split
  · simp_all
  · split <;> simp_all

/-- What does not fit beside some entries does not fit beside more of them. -/
theorem beside_append_ne_loaded (h : beside settings present e ≠ .loaded) (more : List Entry) :
    beside settings (more ++ present) e ≠ .loaded := by
  rw [ne_eq, beside_eq_loaded_iff, List.map_append, List.mem_append, List.length_append, Table.totalSize_append] at *
  rintro ⟨hkey, hlength, hsize⟩
  exact h ⟨fun hmem => hkey (.inr hmem), by omega, by omega⟩

theorem beside_cons_self_ne_loaded (settings : Settings) (present : List Entry) (e : Entry) :
    beside settings (e :: present) e ≠ .loaded := by
  rw [ne_eq, beside_eq_loaded_iff]
  exact fun h => h.1 List.mem_cons_self

/-- The entries that come of some records, the last one first. -/
def arrivals (make : Snapshot → Entry) (fates : List (Snapshot × Fate)) : List Entry :=
  ((fates.filter (·.2 = .loaded)).map fun p => make p.1).reverse

/-- The deletions of the records that are refused, in their order. -/
def refusals (fates : List (Snapshot × Fate)) : List WriteOp :=
  (fates.filter (·.2 = .refused)).map fun p => .delete p.1.key

/-- What becomes of some records one after the other, of which entries are made. -/
def assign (settings : Settings) (make : Snapshot → Entry) : List Entry → List Snapshot → List (Snapshot × Fate)
  | _, [] => []
  | present, s :: rest =>
    let fate := beside settings present (make s)
    (s, fate) :: assign settings make (if fate = .loaded then make s :: present else present) rest

variable {make : Snapshot → Entry}

theorem map_fst_assign (present : List Entry) (live : List Snapshot) :
    (assign settings make present live).map Prod.fst = live := by
  induction live generalizing present with
  | nil => rfl
  | cons s rest ih => exact congrArg (s :: ·) (ih _)

theorem arrivals_cons (p : Snapshot × Fate) (fates : List (Snapshot × Fate)) (present : List Entry) :
    arrivals make (p :: fates) ++ present =
      arrivals make fates ++ if p.2 = .loaded then make p.1 :: present else present := by
  rw [arrivals, arrivals, List.filter_cons]
  by_cases h : p.2 = .loaded <;> simp [h]

theorem length_arrivals_cons (p : Snapshot × Fate) (fates : List (Snapshot × Fate)) :
    (arrivals make (p :: fates)).length = (if p.2 = .loaded then 1 else 0) + (arrivals make fates).length := by
  rw [arrivals, arrivals, List.filter_cons]
  by_cases h : p.2 = .loaded <;> simp [h, Nat.add_comm]

theorem sendAll_refusals_cons (t : Tier) (p : Snapshot × Fate) (fates : List (Snapshot × Fate)) :
    t.sendAll (refusals (p :: fates)) = (if p.2 = .refused then t.delete p.1.key else t).sendAll (refusals fates) := by
  rw [refusals, List.filter_cons]
  by_cases h : p.2 = .refused
  · simp only [h, decide_true, if_true, List.map_cons]
    rfl
  · simp only [h, decide_false, Bool.false_eq_true, if_false]
    rfl

theorem mem_arrivals {fates : List (Snapshot × Fate)} (he : e ∈ arrivals make fates) :
    ∃ s ∈ fates.map Prod.fst, e = make s := by
  rw [arrivals, List.mem_reverse, List.mem_map] at he
  obtain ⟨p, hp, rfl⟩ := he
  exact ⟨p.1, List.mem_map_of_mem (List.mem_filter.1 hp).1, rfl⟩

/-- Each record meets the entries that were there and those that came of the records before it. -/
theorem eq_beside_of_mem_assign {live : List Snapshot} {before later : List (Snapshot × Fate)} {s : Snapshot}
    {fate : Fate} (h : assign settings make present live = before ++ (s, fate) :: later) :
    fate = beside settings (arrivals make before ++ present) (make s) := by
  induction live generalizing present before with
  | nil => simp [assign] at h
  | cons s' rest ih =>
    rw [assign] at h
    cases before with
    | nil =>
      rw [List.nil_append, List.cons.injEq, Prod.mk.injEq] at h
      obtain ⟨⟨rfl, rfl⟩, -⟩ := h
      rfl
    | cons p before =>
      rw [List.cons_append, List.cons.injEq] at h
      obtain ⟨rfl, h⟩ := h
      rw [arrivals_cons]
      exact ih h

/-- Afterwards none of the records would be loaded. -/
theorem beside_assign_ne_loaded (present : List Entry) {live : List Snapshot} {s : Snapshot} (hs : s ∈ live) :
    beside settings (arrivals make (assign settings make present live) ++ present) (make s) ≠ .loaded := by
  induction live generalizing present with
  | nil => cases hs
  | cons s' rest ih =>
    rw [assign, arrivals_cons]
    rcases List.mem_cons.1 hs with rfl | hs
    · refine beside_append_ne_loaded ?_ _
      split
      · exact beside_cons_self_ne_loaded settings present (make s)
      · assumption
    · exact ih _ hs

end Fate

theorem Table.Accurate.isSome_find?_iff {t : Table} (ht : t.Accurate) (key : String) :
    (t.find? key).isSome = true ↔ key ∈ t.entries.map Entry.key := by
  rw [Option.isSome_iff_exists, List.mem_map]
  constructor
  · rintro ⟨e, he⟩
    have hkey := ht.key_of_find? he
    exact ⟨e, ht.mem_entries_iff.2 (hkey ▸ he), hkey⟩
  · rintro ⟨e, he, rfl⟩
    exact ⟨e, ht.mem_entries_iff.1 he⟩

namespace Cache

variable {c : Cache} {now : Instant}

/-- What a load does is what becomes of the record beside the entries of the table. -/
theorem load_eq (hc : c.table.Accurate) (now : Instant) (s : Snapshot) :
    c.load now s =
      match Fate.beside c.settings c.table.entries (c.entryOf now s) with
      | .passed => (false, c)
      | .loaded => (true, { c with table := c.table.attach (c.entryOf now s) })
      | .refused => (false, c.deleteDurable s.key) := by
  have hkey : (c.entryOf now s).key = s.key := rfl
  have hfits : c.fitsBeside (c.entryOf now s) = true ↔ c.table.entries.length + 1 ≤ c.settings.maxEntries ∧
      Table.totalSize c.table.entries + (c.entryOf now s).size ≤ c.settings.maxMemory := by
    rw [fitsBeside, Bool.and_eq_true, decide_eq_true_eq, decide_eq_true_eq, hc.memory_eq, Table.length_entries]
    rfl
  rw [load, Fate.beside, hkey]
  dsimp only
  simp only [hc.isSome_find?_iff, hfits]
  split
  · rfl
  · split <;> rfl

theorem loadAll_cons (now : Instant) (s : Snapshot) (rest : List Snapshot) (c : Cache) :
    loadAll now (s :: rest) c = ((if (c.load now s).1 then 1 else 0) + (loadAll now rest (c.load now s).2).1,
      (loadAll now rest (c.load now s).2).2) :=
  rfl

/-- A load puts the entries in that come of the records, before those that are there, and queues what is refused. -/
theorem loadAll_eq_assign (hc : c.table.Accurate) (now : Instant) (live : List Snapshot) :
    let fates := Fate.assign c.settings (c.entryOf now) c.table.entries live
    (loadAll now live c).1 = (Fate.arrivals (c.entryOf now) fates).length ∧
      (loadAll now live c).2.table.entries = Fate.arrivals (c.entryOf now) fates ++ c.table.entries ∧
      (loadAll now live c).2.counters = c.counters ∧
      (loadAll now live c).2.tier = c.tier.map fun t => t.sendAll (Fate.refusals fates) := by
  induction live generalizing c with
  | nil => exact ⟨rfl, rfl, rfl, Option.map_id'.symm⟩
  | cons s rest ih =>
    rw [loadAll_cons, load_eq hc, Fate.assign]
    -- the record, and then the others beside what is there after it
    simp only [Fate.length_arrivals_cons, Fate.arrivals_cons, Fate.sendAll_refusals_cons]
    cases hfate : Fate.beside c.settings c.table.entries (c.entryOf now s) with
    | passed =>
      obtain ⟨hcount, hrest⟩ := ih hc
      exact ⟨congrArg (0 + ·) hcount, hrest⟩
    | loaded =>
      have hnew : c.table.find? (c.entryOf now s).key = none := by
        have hkey := (Fate.beside_eq_loaded_iff.1 hfate).1
        rwa [← hc.isSome_find?_iff, Bool.not_eq_true, Option.isSome_eq_false_iff, Option.isNone_iff_eq_none] at hkey
      have hentries : (c.table.attach (c.entryOf now s)).entries = c.entryOf now s :: c.table.entries :=
        entries_attach hnew
      have hrest := ih (c := { c with table := c.table.attach (c.entryOf now s) }) (hc.attach _)
      simp only [hentries] at hrest
      exact ⟨congrArg (1 + ·) hrest.1, hrest.2⟩
    | refused =>
      obtain ⟨hcount, hentries, hcounters, htier⟩ := ih (c := c.deleteDurable s.key) hc
      refine ⟨congrArg (0 + ·) hcount, hentries, hcounters, htier.trans ?_⟩
      exact Option.map_map ..

/-- Where nothing is loaded beside what is there, the table stays. -/
theorem loadAll_of_settled (hc : c.table.Accurate) {live : List Snapshot}
    (h : ∀ s ∈ live, Fate.beside c.settings c.table.entries (c.entryOf now s) ≠ .loaded) :
    (loadAll now live c).1 = 0 ∧ (loadAll now live c).2.table = c.table := by
  induction live generalizing c with
  | nil => exact ⟨rfl, rfl⟩
  | cons s rest ih =>
    obtain ⟨hs, hrest⟩ := List.forall_mem_cons.1 h
    rw [loadAll_cons, load_eq hc]
    cases hfate : Fate.beside c.settings c.table.entries (c.entryOf now s) with
    | passed =>
      obtain ⟨hcount, htable⟩ := ih hc hrest
      exact ⟨congrArg (0 + ·) hcount, htable⟩
    | loaded => exact absurd hfate hs
    | refused =>
      obtain ⟨hcount, htable⟩ := ih (c := c.deleteDurable s.key) hc hrest
      exact ⟨congrArg (0 + ·) hcount, htable⟩

theorem entryOf_loadAll (now : Instant) (live : List Snapshot) (c : Cache) (s : Snapshot) :
    (loadAll now live c).2.entryOf now s = c.entryOf now s := by
  induction live generalizing c with
  | nil => rfl
  | cons s' rest ih => exact (ih (c.load now s').2).trans (entryOf_load ..)

/-- What was considered in one load is not loaded in another one at the same time. -/
theorem loadAll_loadAll (hc : c.Sound) (now : Instant) (live : List Snapshot) :
    (loadAll now live (loadAll now live c).2).1 = 0 ∧
      (loadAll now live (loadAll now live c).2).2.table = (loadAll now live c).2.table := by
  obtain ⟨-, hentries, -⟩ := loadAll_eq_assign hc.accurate now live
  refine loadAll_of_settled (hc.loadAll now live).accurate fun s hs => ?_
  rw [hentries, loadAll_settings, entryOf_loadAll]
  exact Fate.beside_assign_ne_loaded _ hs

end Cache

namespace Tier

variable {f : Faults} {t : Tier} {now : Instant} {m : MemoryStore}

/-- The records of a namespace, as far as they are listed. -/
def listed (f : Faults) (t : Tier) (m : MemoryStore) : List (String × Bytes) :=
  if f.failing .list t.start then [] else m.records.filter (beginsWith t.start ·.1)

/-- The live ones of the records that are got, in the order of the store. -/
def considered (f : Faults) (t : Tier) (now : Instant) (m : MemoryStore) : List Snapshot :=
  ((listed f t m).filter (f.gets ·.1)).filterMap (Snapshot.live? now ·.2)

theorem live_of_drops {row : String × Bytes} (h : f.drops now row = true) : Snapshot.live? now row.2 = none := by
  rw [Faults.drops, Bool.and_eq_true, Bool.and_eq_true, Bool.or_eq_true, Snapshot.isCorrupt, Snapshot.isLapsed] at h
  rw [Snapshot.live?]
  cases hparse : Snapshot.parse row.2 with
  | error e => rfl
  | ok s =>
    simp only [hparse, Bool.false_eq_true, false_or, Bool.not_eq_true'] at h
    simp [h.1.2]

/-- The live records are found, and the records that are gone afterwards were not live. -/
theorem rehydrate_considered (f : Faults) (t : Tier) (now : Instant) (hm : Assoc.Sorted m.records) :
    (t.rehydrate (MemoryStore.store.withFaults f) now m).1.live = considered f t now m ∧
      Assoc.Sorted (t.rehydrate (MemoryStore.store.withFaults f) now m).2.records ∧
      listed f t (t.rehydrate (MemoryStore.store.withFaults f) now m).2 =
        (listed f t m).filter fun row => !f.drops now row := by
  have hlist : (MemoryStore.store.withFaults f).list t.start m =
      if f.failing .list t.start then .error .unavailable else .ok (m.keys t.start) := rfl
  rw [rehydrate, hlist, considered, listed, listed]
  cases hfails : f.failing .list t.start with
  | true => exact ⟨rfl, hm, rfl⟩
  | false =>
    have hkeys : m.keys t.start = (m.records.filter (beginsWith t.start ·.1)).map (·.1) := List.filter_map
    have hsorted : Assoc.Sorted (m.records.filter (beginsWith t.start ·.1)) := List.Pairwise.filter _ hm
    have hrun := rehydrateKeys_withFaults f now hsorted.nodup_keys ⟨[], 0, 0⟩ hm fun row hrow =>
      (List.mem_filter.1 hrow).1
    rw [foldl_foundIn, ← hkeys] at hrun
    simp only [Bool.false_eq_true, if_false, hrun]
    refine ⟨List.nil_append _, List.Pairwise.filter _ hm, ?_⟩
    rw [List.filter_filter, List.filter_filter]
    refine List.filter_congr fun row hrow => ?_
    rw [contains_keys hrow]
    cases beginsWith t.start row.1 <;> simp

/-- The same records are considered when they are taken up again. -/
theorem considered_rehydrate (f : Faults) (t : Tier) (now : Instant) (hm : Assoc.Sorted m.records) :
    considered f t now (t.rehydrate (MemoryStore.store.withFaults f) now m).2 = considered f t now m := by
  rw [considered, (rehydrate_considered f t now hm).2.2, considered, List.filter_filter, List.filterMap_filter,
    List.filterMap_filter]
  refine List.filterMap_congr fun row _ => ?_
  cases hdrops : f.drops now row with
  | true => simp [live_of_drops hdrops]
  | false => simp

theorem space_sendAll (t : Tier) (ops : List WriteOp) : (t.sendAll ops).space = t.space := by
  rw [sendAll_eq_queued]

/-- What is considered depends on a tier by its namespace only. -/
theorem considered_sendAll (f : Faults) (t : Tier) (ops : List WriteOp) (now : Instant) (m : MemoryStore) :
    considered f (t.sendAll ops) now m = considered f t now m := by
  rw [considered, listed, start, space_sendAll]
  rfl

/-- A record that is considered is live. -/
theorem isLive_of_mem_considered {s : Snapshot} (hs : s ∈ considered f t now m) : s.isLive now = true := by
  obtain ⟨row, -, hlive⟩ := List.mem_filterMap.1 hs
  exact (Snapshot.live?_eq_some_iff.1 hlive).2

end Tier

namespace Cache

variable {c : Cache} {t : Tier} {m : MemoryStore}

/-- Rehydration loads what is considered. -/
theorem rehydrate_eq (htier : c.tier = some t) (f : Faults) (now : Instant) (hm : Assoc.Sorted m.records) :
    c.rehydrate (MemoryStore.store.withFaults f) now m =
      ((loadAll now (t.considered f now m) c).1, (loadAll now (t.considered f now m) c).2,
        (t.rehydrate (MemoryStore.store.withFaults f) now m).2) := by
  rw [rehydrate, htier, ← (t.rehydrate_considered f now hm).1]

/-- A second rehydration finds the same records, and loads none. -/
theorem rehydrate_again (hc : c.Sound) (htier : c.tier = some t) (f : Faults) (now : Instant)
    (hm : Assoc.Sorted m.records) :
    let (_, after, left) := c.rehydrate (MemoryStore.store.withFaults f) now m
    (after.rehydrate (MemoryStore.store.withFaults f) now left).1 = 0 ∧
      (after.rehydrate (MemoryStore.store.withFaults f) now left).2.1.table = after.table := by
  obtain ⟨live, hlive⟩ : ∃ live, t.considered f now m = live := ⟨_, rfl⟩
  obtain ⟨-, -, -, hsent⟩ := loadAll_eq_assign hc.accurate now live
  rw [htier, Option.map_some] at hsent
  obtain ⟨-, hsorted, -⟩ := t.rehydrate_considered f now hm
  rw [rehydrate_eq htier f now hm, hlive]
  dsimp only
  -- the tier is over the same namespace as before
  rw [rehydrate_eq hsent f now hsorted, Tier.considered_sendAll, Tier.considered_rehydrate f t now hm, hlive]
  exact loadAll_loadAll hc now live

end Cache

namespace Session

variable {σ : Type} {store : Store σ} {s : Session σ}

/-- Rehydration adds entries to what is there, whatever is in the store and whatever calls on it fail: the entries of
the table and the counters stay.  The live records that are got are considered in the order of their keys in the store.
One is loaded if no entry of its key is there, of the table or of a record before it, and if both ceilings hold with it;
if its key is new and there is no room, it is refused.  What is loaded is fresh, of medium priority, persisted and never
read.  The deletions of those that are refused, and nothing else, are queued behind what was queued.  The number that is
told is by how many the table grows, and a second rehydration loads nothing. -/
theorem rehydrate_adds_only (h : s.Reachable store) (f : Faults) {m : MemoryStore} (hm : Assoc.Sorted m.records) :
    let c := s.cache
    let make := c.entryOf s.now
    let result := c.rehydrate (MemoryStore.store.withFaults f) s.now m
    let after := result.2.1
    let again := after.rehydrate (MemoryStore.store.withFaults f) s.now result.2.2
    (c.tier = none → result = (0, c, m)) ∧
      ∀ t, c.tier = some t →
        (t.listed f m).Pairwise (fun row next => Text.utf8 row.1 < Text.utf8 next.1) ∧
        ∃ fates : List (Snapshot × Fate),
          fates.map Prod.fst = t.considered f s.now m ∧
          (∀ front snapshot fate rest, fates = front ++ (snapshot, fate) :: rest →
            fate = Fate.beside c.settings (Fate.arrivals make front ++ c.table.entries) (make snapshot)) ∧
          after.table.entries = Fate.arrivals make fates ++ c.table.entries ∧
          (∀ e ∈ Fate.arrivals make fates,
            e.isExpired s.now = false ∧ e.priority = .medium ∧ e.persisted = true ∧ e.accessCount = 0) ∧
          after.counters = c.counters ∧
          after.tier =
            some { t with pending := if t.connected then t.pending ++ Fate.refusals fates else t.pending } ∧
          after.table.size = c.table.size + result.1 ∧ again.1 = 0 ∧ again.2.1.table = after.table := by
  intro c make result after again
  have hc : c.Sound := h.sound
  refine ⟨fun htier => ?_, fun t htier => ?_⟩
  · show c.rehydrate _ s.now m = _
    rw [Cache.rehydrate, htier]
  · obtain ⟨live, hlive⟩ : ∃ live, t.considered f s.now m = live := ⟨_, rfl⟩
    have hresult : result = ((Cache.loadAll s.now live c).1, (Cache.loadAll s.now live c).2,
        (t.rehydrate (MemoryStore.store.withFaults f) s.now m).2) := hlive ▸ Cache.rehydrate_eq htier f s.now hm
    have hafter : after = (Cache.loadAll s.now live c).2 := congrArg (·.2.1) hresult
    obtain ⟨hcount, hentries, hcounters, hsent⟩ := Cache.loadAll_eq_assign hc.accurate s.now live
    rw [← hafter] at hentries hcounters hsent
    rw [htier, Option.map_some, Tier.sendAll_eq_queued] at hsent
    refine ⟨List.Pairwise.imp Text.utf8_lt_utf8_iff.2 ?_, Fate.assign c.settings make c.table.entries live,
      (Fate.map_fst_assign ..).trans hlive.symm, fun front snapshot fate rest heq => Fate.eq_beside_of_mem_assign heq,
      hentries, fun e he => ?_, hcounters, hsent, ?_, Cache.rehydrate_again hc htier f s.now hm⟩
    · rw [Tier.listed]
      split
      · exact .nil
      · exact List.Pairwise.filter _ hm
    · obtain ⟨snapshot, hsnapshot, rfl⟩ := Fate.mem_arrivals he
      rw [Fate.map_fst_assign, ← hlive] at hsnapshot
      have hlt : Instant.elapsed snapshot.created s.now < snapshot.ttl :=
        of_decide_eq_true (Tier.isLive_of_mem_considered hsnapshot)
      exact ⟨Entry.isExpired_eq_false_iff.2 (Nat.le_of_lt hlt), rfl, rfl, rfl⟩
    · rw [← Table.length_entries, hentries, List.length_append, Table.length_entries, hresult, hcount, Nat.add_comm]

private def strayRecord (key : String) : Bytes :=
  Snapshot.record ⟨key, "/", .int 1, .epoch, 2000, .high⟩

/-- Three live records that do not stand under their own keys, two of them of one key, beside one that is no record. -/
private def strays : MemoryStore :=
  (((MemoryStore.empty.put "memo:a" (strayRecord "x")).put "memo:b" (strayRecord "x")).put
    "memo:c" (strayRecord "y")).put "memo:d" [0]

/-- A cache of at most two entries with one in it. -/
private def halfFilled : Session MemoryStore :=
  run MemoryStore.store [.set ⟨"/a", none, none⟩ .null ⟨none, .low⟩]
    (ofEmpty { Settings.default with maxEntries := 2 } .runLength (some (.ofSpace "memo")) ⟨1000⟩
      (.fresh .default) .empty)

/-- Three records are considered, and there is room for one; the deletion of one is queued, since an entry of the key of
the other is there by then. -/
theorem rehydrate_adds_only_strays :
    ∃ t, halfFilled.cache.tier = some t ∧ (t.considered .none halfFilled.now strays).length = 3 ∧ t.pending = [] ∧
      let (count, after, left) := halfFilled.cache.rehydrate (MemoryStore.store.withFaults .none) halfFilled.now strays
      count = 1 ∧ after.table.size = halfFilled.cache.table.size + 1 ∧
        after.tier.map Tier.pending = some [.delete "y"] ∧
        (after.rehydrate (MemoryStore.store.withFaults .none) halfFilled.now left).1 = 0 := by
  have hreachable : halfFilled.Reachable MemoryStore.store := (Reachable.ofEmpty ..).run _
  have hsorted : Assoc.Sorted strays.records := by
    repeat refine Assoc.sorted_insert ?_
    exact .nil
  have hone : (halfFilled.cache.rehydrate (MemoryStore.store.withFaults .none) halfFilled.now strays).1 = 1 := by
    decide +kernel
  have hthree : (halfFilled.cache.tier.any fun t =>
      (t.considered .none halfFilled.now strays).length == 3 && t.pending == []) = true := by
    decide +kernel
  obtain ⟨t, htier, hfound⟩ := (Option.any_eq_true _ _).1 hthree
  rw [Bool.and_eq_true, beq_iff_eq, beq_iff_eq] at hfound
  obtain ⟨-, hadds⟩ := rehydrate_adds_only hreachable .none hsorted
  obtain ⟨-, _, -, -, -, -, -, -, hsize, hagain, -⟩ := hadds t htier
  exact ⟨t, htier, hfound.1, hfound.2, hone, hone ▸ hsize, by decide +kernel, hagain⟩

end Session

end ResultCache
