import Mathlib.Order.Nat
import ResultCache.Proofs.Admission
import ResultCache.Proofs.Ledger
import ResultCache.Proofs.Selection

/-!
# Eviction is greedy

However the passes are bounded, together they remove a beginning of one order, the order of removal at the start: after
a pass the rest of the order is left (`Cache.ranked_cut`), and the room that is missing is what was missing before
without what was removed (`Cache.roomNeeded_cut`).  They stop at the first place where there is room, up to the least
number that a pass takes (`Cache.evictPasses_eq_cut`).
-/

namespace ResultCache

namespace Cache

variable {c : Cache} {now : Instant} {key : String} {size : Nat}

/-! ### The first entries of the order of removal -/

/-- The entries that may make room for a key, in the order of removal. -/
def ranked (c : Cache) (key : String) (now : Instant) : List Entry :=
  Victims.candidates c.settings.weights now (c.others key)

/-- What is left after the removal of the first `n` of them. -/
def cut (c : Cache) (key : String) (now : Instant) (n : Nat) : Cache :=
  c.removeAll (((c.ranked key now).take n).map Entry.key) .evicted

theorem ranking_ranked (hc : c.table.Accurate) (key : String) (now : Instant) :
    Victims.Ranking c.settings.weights now (c.others key) (c.ranked key now) :=
  Victims.ranking_candidates (hc.nodup_keys.sublist (List.filter_sublist.map Entry.key)) c.settings.weights now

theorem mem_of_mem_ranked (hc : c.table.Accurate) {e : Entry} (he : e ∈ c.ranked key now) :
    (e ∈ c.table.entries ∧ e.key ≠ key) ∧ e.isProtected now = false := by
  rw [(ranking_ranked hc key now).mem_iff, others, List.mem_filter, bne_iff_ne] at he
  exact he

theorem nodup_ranked (hc : c.table.Accurate) (key : String) (now : Instant) : (c.ranked key now).Nodup :=
  (ranking_ranked hc key now).perm.nodup_iff.2 ((hc.nodup_entries.filter _).filter _)

theorem cut_sheds (hc : c.table.Accurate) (key : String) (now : Instant) (n : Nat) :
    Sheds now c (((c.ranked key now).take n).map (·, .evicted)) (c.cut key now n) :=
  removeAll_map_sheds hc ((nodup_ranked hc key now).sublist (List.take_sublist ..))
    (fun _ he => (mem_of_mem_ranked hc (List.mem_of_mem_take he)).1.1)
    fun _ he => (mem_of_mem_ranked hc (List.mem_of_mem_take he)).2

theorem cut_accurate (hc : c.table.Accurate) (key : String) (now : Instant) (n : Nat) :
    (c.cut key now n).table.Accurate :=
  (cut_sheds hc key now n).trims.accurate hc

theorem cut_settings (hc : c.table.Accurate) (key : String) (now : Instant) (n : Nat) :
    (c.cut key now n).settings = c.settings :=
  (cut_sheds hc key now n).trims.settings_eq

/-- What is removed are entries of other keys, and with what is left of those it makes up all of them. -/
theorem others_cut_perm (hc : c.table.Accurate) (key : String) (now : Instant) (n : Nat) :
    ((c.ranked key now).take n ++ (c.cut key now n).others key).Perm (c.others key) := by
  have hother : ((c.ranked key now).take n).filter (fun e => e.key != key) = (c.ranked key now).take n := by
    refine List.filter_eq_self.2 fun e he => ?_
    simpa using (mem_of_mem_ranked hc (List.mem_of_mem_take he)).1.2
  have hfilter := ((cut_sheds hc key now n).perm_label hc).filter fun e => e.key != key
  rwa [List.filter_append, hother] at hfilter

/-- The order of removal of what is left is the rest of the order. -/
theorem ranked_cut (hc : c.table.Accurate) (key : String) (now : Instant) (n : Nat) :
    (c.cut key now n).ranked key now = (c.ranked key now).drop n := by
  have hranking := ranking_ranked (cut_accurate hc key now n) key now
  have hall := ranking_ranked hc key now
  rw [cut_settings hc] at hranking
  refine hranking.unique ⟨?_, hall.sorted.sublist (List.drop_sublist ..)⟩ (.refl _)
  -- none of the removed entries is protected
  have hloose : ((c.ranked key now).take n).filter (fun e => !(e.priority == .critical && !e.isExpired now)) =
      (c.ranked key now).take n := by
    refine List.filter_eq_self.2 fun e he => ?_
    rw [Bool.not_eq_true']
    exact (mem_of_mem_ranked hc (List.mem_of_mem_take he)).2
  have hrest := ((others_cut_perm hc key now n).filter _).trans hall.perm.symm
  rw [List.filter_append, hloose] at hrest
  rw [← List.perm_append_left_iff ((c.ranked key now).take n), List.take_append_drop]
  exact hrest.symm

theorem find?_cut (hc : c.table.Accurate) (key : String) (now : Instant) (n : Nat) :
    (c.cut key now n).table.find? key = c.table.find? key := by
  refine (find?_removeAll ..).trans (if_neg fun hkey => ?_)
  obtain ⟨e, he, heq⟩ := List.mem_map.1 hkey
  exact (mem_of_mem_ranked hc (List.mem_of_mem_take he)).1.2 heq

/-- What is left has to give what had to be given before, without what was removed. -/
theorem roomNeeded_cut (hc : c.table.Accurate) (key : String) (size : Nat) (now : Instant) (n : Nat) :
    (c.cut key now n).roomNeeded key size =
      ⟨(c.roomNeeded key size).bytes - Table.totalSize ((c.ranked key now).take n),
        (c.roomNeeded key size).entries - ((c.ranked key now).take n).length⟩ := by
  have hperm := others_cut_perm hc key now n
  have hsize := Table.totalSize_perm hperm
  have hlength := hperm.length_eq
  rw [Table.totalSize_append] at hsize
  rw [List.length_append] at hlength
  rw [roomNeeded_eq (cut_accurate hc key now n), roomNeeded_eq hc, find?_cut hc, cut_settings hc]
  dsimp only
  rw [Target.mk.injEq]
  refine ⟨by omega, ?_⟩
  split <;> omega

/-- There is room once the bytes and the entries that are missing were removed. -/
theorem roomNeeded_cut_eq_none_iff (hc : c.table.Accurate) {n : Nat} :
    (c.cut key now n).roomNeeded key size = .none ↔
      (c.roomNeeded key size).bytes ≤ Table.totalSize ((c.ranked key now).take n) ∧
        (c.roomNeeded key size).entries ≤ ((c.ranked key now).take n).length := by
  rw [roomNeeded_cut hc, Target.none, Target.mk.injEq]
  omega

/-- Where there is room there is still room after more removals. -/
theorem roomNeeded_cut_of_le (hc : c.table.Accurate) {i j : Nat} (hij : i ≤ j)
    (h : (c.cut key now i).roomNeeded key size = .none) : (c.cut key now j).roomNeeded key size = .none := by
  obtain ⟨hbytes, hentries⟩ := (roomNeeded_cut_eq_none_iff hc).1 h
  rw [List.length_take] at hentries
  refine (roomNeeded_cut_eq_none_iff hc).2 ⟨Nat.le_trans hbytes (Table.totalSize_take_le hij _), ?_⟩
  rw [List.length_take]
  omega

theorem cut_cut (hc : c.table.Accurate) (key : String) (now : Instant) (m n : Nat) :
    (c.cut key now m).cut key now n = c.cut key now (m + n) := by
  rw [cut, ranked_cut hc, cut, cut, List.take_add, List.map_append]
  exact List.foldl_append.symm

/-! ### Passes -/

/-- The victims of a pass are the first entries of the order, no more than any number with which there is room, but for
what a pass takes at least. -/
theorem passVictims_eq_take (hc : c.table.Accurate) (key : String) (size : Nat) (now : Instant) :
    ∃ k ≤ (c.ranked key now).length, c.passVictims key now (c.roomNeeded key size) = (c.ranked key now).take k ∧
      ∀ j, (c.cut key now j).roomNeeded key size = .none → k ≤ max c.settings.passLimits.minCount j := by
  obtain ⟨k, hk, hselect, -, -, hbefore⟩ := Victims.select_spec c.settings.weights c.settings.passLimits now
    (c.roomNeeded key size) (c.others key)
  refine ⟨k, hk, hselect, fun j hj => Nat.not_lt.1 fun hlt => ?_⟩
  obtain ⟨hbytes, hentries⟩ := (roomNeeded_cut_eq_none_iff hc).1 hj
  rw [List.length_take] at hentries
  refine hbefore _ hlt ⟨by omega, ?_⟩
  exact Nat.le_trans hbytes (Table.totalSize_take_le (Nat.le_max_right ..) _)

/-- The passes come to the removal of the first entries of the order, none if there is room.  They remove no more than
any number with which there is room, but for what a pass takes at least. -/
theorem evictPasses_eq_cut (hc : c.table.Accurate) (key : String) (size : Nat) (now : Instant) (fuel : Nat) :
    ∃ n ≤ (c.ranked key now).length, evictPasses key size now fuel c = c.cut key now n ∧
      (c.roomNeeded key size = .none → n = 0) ∧
      ∀ j, (c.cut key now j).roomNeeded key size = .none → n ≤ j + (c.settings.passLimits.minCount - 1) := by
  induction fuel generalizing c with
  | zero => exact ⟨0, Nat.zero_le _, rfl, fun _ => rfl, fun _ _ => Nat.zero_le _⟩
  | succ fuel ih =>
    rw [evictPasses]
    split
    · exact ⟨0, Nat.zero_le _, rfl, fun _ => rfl, fun _ _ => Nat.zero_le _⟩
    · rename_i hneeded
      obtain ⟨k, hk, hvictims, hfew⟩ := passVictims_eq_take hc key size now
      split
      · exact ⟨0, Nat.zero_le _, rfl, fun _ => rfl, fun _ _ => Nat.zero_le _⟩
      · obtain ⟨n, hn, heq, hroom, hleast⟩ := ih (cut_accurate hc key now k)
        rw [ranked_cut hc, List.length_drop] at hn
        rw [hvictims]
        refine ⟨k + n, by omega, heq.trans (cut_cut hc key now k n), fun h => absurd h hneeded, fun j hj => ?_⟩
        by_cases hjk : k ≤ j
        · -- the rest of the way is that of the passes to come
          obtain ⟨i, rfl⟩ := Nat.exists_eq_add_of_le hjk
          have := hleast i (by rw [cut_cut hc]; exact hj)
          rw [cut_settings hc] at this
          omega
        · -- this pass ends with room, and takes no more than is enough
          have hpos : j ≠ 0 := by
            rintro rfl
            exact hneeded hj
          have hdone : n = 0 := hroom (roomNeeded_cut_of_le hc (Nat.le_of_not_le hjk) hj)
          have := hfew j hj
          omega

theorem evictPasses_of_room (h : c.roomNeeded key size = .none) (now : Instant) (fuel : Nat) :
    evictPasses key size now fuel c = c := by
  cases fuel with
  | zero => rfl
  | succ fuel => exact if_pos h

/-- Where room is missing and is made, that was done by a purge and the passes after it. -/
theorem makeRoom_eq_of_ok (h : (c.makeRoom key size now).1 = .ok ()) (hfull : c.roomNeeded key size ≠ .none) :
    (c.makeRoom key size now).2 =
      evictPasses key size now (c.purgeExpired now).2.table.size (c.purgeExpired now).2 := by
  revert h
  rw [makeRoom, if_neg hfull]
  dsimp only
  split
  · rename_i hroom
    exact fun _ => (evictPasses_of_room hroom now _).symm
  · split
    · intro h
      cases h
    · split
      · intro h
        cases h
      · split
        · exact fun _ => rfl
        · intro h
          cases h

end Cache

/-! ### What a set evicts -/

/-- An entry of a size fits both ceilings beside some others. -/
structure Settings.RoomBeside (settings : Settings) (rest : List Entry) (size : Nat) : Prop where
  memory : Table.totalSize rest + size ≤ settings.maxMemory
  count : rest.length + 1 ≤ settings.maxEntries

theorem Settings.RoomBeside.filter {settings : Settings} {rest : List Entry} {size : Nat}
    (h : settings.RoomBeside rest size) (p : Entry → Bool) : settings.RoomBeside (rest.filter p) size where
  memory := by
    have hsum := Table.totalSize_filter_add rest p
    have hmemory := h.memory
    omega
  count := Nat.le_trans (Nat.succ_le_succ (List.length_filter_le ..)) h.count

namespace Cache

variable {c : Cache} {now : Instant} {key : String} {size : Nat}

theorem roomNeeded_eq_none_iff (hc : c.Sound) :
    c.roomNeeded key size = .none ↔ c.settings.RoomBeside (c.others key) size := by
  have hcount : (if (c.table.find? key).isSome then 0 else (c.others key).length + 1 - c.settings.maxEntries) = 0 ↔
      (c.others key).length + 1 ≤ c.settings.maxEntries := by
    split
    · rename_i hold
      exact iff_of_true rfl (length_others_lt hc hold)
    · omega
  rw [roomNeeded_eq hc.accurate, Target.none, Target.mk.injEq, hcount, Nat.sub_eq_zero_iff_le]
  exact ⟨fun h => ⟨h.1, h.2⟩, fun h => ⟨h.memory, h.count⟩⟩

theorem others_cut (hc : c.table.Accurate) (key : String) (now : Instant) (n : Nat) :
    (c.cut key now n).others key =
      (c.others key).filter fun e => !(((c.ranked key now).take n).map Entry.key).contains e.key := by
  rw [others, others, cut, entries_removeAll hc, List.filter_filter, List.filter_filter]
  exact List.filter_congr fun e _ => Bool.and_comm ..

/-- A new entry stands beside those of other keys. -/
theorem entries_replace (hc : c.table.Accurate) (e : Entry) (v : Json) :
    (c.replace e v).table.entries = e :: c.others e.key := by
  have hnone : (c.table.detach e.key).find? e.key = none := by simp
  rw [replace_table, entries_attach hnone, hc.entries_detach, others]

theorem others_replace (hc : c.table.Accurate) (e : Entry) (v : Json) :
    (c.replace e v).others e.key = c.others e.key := by
  rw [others, entries_replace hc, List.filter_cons_of_neg (by simp), others, List.filter_filter]
  exact List.filter_congr fun e' _ => Bool.and_self ..

/-- The entries under other keys that are not expired. -/
def freshOthers (c : Cache) (key : String) (now : Instant) : List Entry :=
  c.table.entries.filter fun e => e.key != key && !e.isExpired now

theorem freshOthers_eq_filter (c : Cache) (key : String) (now : Instant) :
    c.freshOthers key now = (c.others key).filter fun e => !e.isExpired now := by
  rw [freshOthers, others, List.filter_filter]
  exact List.filter_congr fun e _ => Bool.and_comm ..

theorem others_purgeExpired (hc : c.table.Accurate) (key : String) (now : Instant) :
    (c.purgeExpired now).2.others key = c.freshOthers key now := by
  rw [others, freshOthers, entries_purgeExpired hc, List.filter_filter]

theorem evictions_cut (hc : c.table.Accurate) {n : Nat} (hn : n ≤ (c.ranked key now).length) :
    (c.cut key now n).counters.evictions = c.counters.evictions + n := by
  rw [(cut_sheds hc key now n).counters_eq, Counters.foldl_removed, count_label, if_pos rfl, List.length_take,
    Nat.min_eq_left hn]

theorem isExpired_of_mem_cut_purgeExpired (hc : c.table.Accurate) {n : Nat} {e : Entry}
    (he : e ∈ ((c.purgeExpired now).2.cut key now n).table.entries) : e.isExpired now = false := by
  rw [cut, entries_removeAll ((purgeExpired_trims hc now).accurate hc), entries_purgeExpired hc] at he
  simpa using (List.mem_filter.1 (List.mem_filter.1 he).1).2

/-- A call that makes room evicts the first entries of the order: as few as give room, but for what a pass takes at
least. -/
theorem makeRoom_evicts (hc : c.Sound) (h : (c.makeRoom key size now).1 = .ok ()) :
    ∃ order, Victims.Ranking c.settings.weights now (c.freshOthers key now) order ∧
      let left := fun n => (c.freshOthers key now).filter fun e => !((order.take n).map Entry.key).contains e.key
      ∃ least n, IsLeast {i | c.settings.RoomBeside (left i) size} least ∧ least ≤ n ∧
        n ≤ least + (c.settings.passLimits.minCount - 1) ∧ n ≤ order.length ∧
        (c.makeRoom key size now).2.freshOthers key now = left n ∧
        (c.makeRoom key size now).2.counters.evictions = c.counters.evictions + n ∧
        (0 < n → ¬c.settings.RoomBeside (c.freshOthers key now) size ∧
          ∀ e ∈ (c.makeRoom key size now).2.table.entries, e.isExpired now = false) := by
  have purge := purgeExpired_trims hc.accurate now
  have hp := purge.sound hc
  have hranking := ranking_ranked hp.accurate key now
  rw [others_purgeExpired hc.accurate, purge.settings_eq] at hranking
  refine ⟨_, hranking, ?_⟩
  intro left
  have hleft : ∀ n, ((c.purgeExpired now).2.cut key now n).others key = left n := fun n => by
    rw [others_cut hp.accurate, others_purgeExpired hc.accurate]
  have hroom : ∀ n, ((c.purgeExpired now).2.cut key now n).roomNeeded key size = .none ↔
      c.settings.RoomBeside (left n) size := fun n => by
    rw [roomNeeded_eq_none_iff ((cut_sheds hp.accurate key now n).trims.sound hp), hleft, cut_settings hp.accurate,
      purge.settings_eq]
  have hnone : left 0 = c.freshOthers key now := List.filter_eq_self.2 fun _ _ => rfl
  by_cases hfree : c.roomNeeded key size = .none
  · -- with room for the entry beside all others there is room beside the fresh ones
    have heq : (c.makeRoom key size now).2 = c := by rw [makeRoom, if_pos hfree]
    have hroom0 : c.settings.RoomBeside (left 0) size := by
      rw [hnone, freshOthers_eq_filter]
      exact ((roomNeeded_eq_none_iff hc).1 hfree).filter _
    rw [heq]
    exact ⟨0, 0, ⟨hroom0, fun _ _ => Nat.zero_le _⟩, Nat.le_refl _, Nat.zero_le _, Nat.zero_le _, hnone.symm, rfl,
      fun h => absurd h (Nat.lt_irrefl 0)⟩
  · obtain ⟨n, hn, hcut, hdone, hleast⟩ :=
      evictPasses_eq_cut hp.accurate key size now (c.purgeExpired now).2.table.size
    have heq := (makeRoom_eq_of_ok h hfree).trans hcut
    rw [purge.settings_eq] at hleast
    have hend : c.settings.RoomBeside (left n) size := (hroom n).1 (heq ▸ roomNeeded_of_makeRoom h)
    obtain ⟨least, hisLeast⟩ : ∃ least, IsLeast {i | c.settings.RoomBeside (left i) size} least := by
      classical
      exact ⟨_, Set.Nonempty.isLeast_natFind ⟨n, hend⟩⟩
    rw [heq]
    refine ⟨least, n, hisLeast, hisLeast.2 hend, hleast least ((hroom least).2 hisLeast.1), hn, ?_, ?_, fun hpos => ?_⟩
    · rw [freshOthers_eq_filter, List.filter_eq_self.2 fun e he => ?_, hleft]
      simp [isExpired_of_mem_cut_purgeExpired hc.accurate (List.mem_filter.1 he).1]
    · rw [evictions_cut hp.accurate hn, evictions_purgeExpired]
    · refine ⟨fun hbeside => ?_, fun e he => isExpired_of_mem_cut_purgeExpired hc.accurate he⟩
      have := hdone ((hroom 0).2 (hnone.symm ▸ hbeside))
      omega

theorem freshOthers_replace (hc : c.table.Accurate) (e : Entry) (v : Json) (now : Instant) :
    (c.replace e v).freshOthers e.key now = c.freshOthers e.key now := by
  rw [freshOthers_eq_filter, others_replace hc, freshOthers_eq_filter]

/-- A call that stores an entry makes room for it and puts it in. -/
theorem set_of_ok {r : Request} {v : Json} {o : SetOptions} (h : (c.set now r v o).1 = .ok ()) :
    let e := c.entryFor now r v o
    (c.makeRoom e.key e.size now).1 = .ok () ∧ (c.set now r v o).2 = (c.makeRoom e.key e.size now).2.replace e v := by
  intro e
  rw [set] at h ⊢
  split at h
  · cases h
  · rename_i hfits
    rw [if_neg hfits]
    cases hmake : c.makeRoom e.key e.size now with
    | mk result c' =>
      cases result with
      | error f =>
        rw [hmake] at h
        cases h
      | ok u => exact ⟨rfl, rfl⟩

end Cache

namespace Session

/-- A set that succeeds evicts the first of the entries that may go in the order of removal, whatever part of the table
a pass may take.  They are the fewest without which the new entry fits both ceilings beside the fresh entries of other
keys, and up to `m - 1` more where a pass takes at least `m`.  None goes unless room is missing when all expired entries
are gone, and then these are gone. -/
theorem set_evicts_least {σ : Type} {store : Store σ} {s : Session σ} (h : s.Reachable store) (r : Request) (v : Json)
    (o : SetOptions) (hok : (s.cache.set s.now r v o).1 = .ok ()) :
    let c := s.cache
    let key := c.keyFor r
    let size := Text.byteLength key + (c.encode v).2
    let fresh := c.table.entries.filter fun e => e.key != key && !e.isExpired s.now
    let after := (c.set s.now r v o).2
    ∃ order, Victims.Ranking c.settings.weights s.now fresh order ∧
      let left := fun n => fresh.filter fun e => !((order.take n).map Entry.key).contains e.key
      ∃ least n, IsLeast {i | c.settings.RoomBeside (left i) size} least ∧ least ≤ n ∧
        n ≤ least + (c.settings.passLimits.minCount - 1) ∧ n ≤ order.length ∧
        (after.table.entries.filter fun e => e.key != key && !e.isExpired s.now) = left n ∧
        after.counters.evictions = c.counters.evictions + n ∧
        (0 < n → ¬c.settings.RoomBeside fresh size ∧ ∀ e ∈ after.table.entries, e.isExpired s.now = false) := by
  intro c key size fresh after
  have hc : c.Sound := h.sound
  obtain ⟨hmake, hset⟩ := Cache.set_of_ok hok
  obtain ⟨order, hranking, least, n, hleast, hle, hbound, hlength, hfresh, hevictions, hroom⟩ :=
    Cache.makeRoom_evicts hc hmake
  have hmade := Cache.makeRoom_trims hc.accurate s.now (c.entryFor s.now r v o).key (c.entryFor s.now r v o).size
  have haccurate := hmade.accurate hc.accurate
  refine ⟨order, hranking, least, n, hleast, hle, hbound, hlength, ?_, ?_, fun hpos => ⟨(hroom hpos).1, ?_⟩⟩
  · have hafter := Cache.freshOthers_replace haccurate (c.entryFor s.now r v o) v s.now
    rw [← hset] at hafter
    exact hafter.trans hfresh
  · rw [← hevictions]
    exact (congrArg (·.counters.evictions) hset).trans (by rw [Cache.replace_counters])
  · intro e he
    have he : e ∈ (c.set s.now r v o).2.table.entries := he
    rw [hset, Cache.entries_replace haccurate] at he
    rcases List.mem_cons.1 he with rfl | he
    · exact Entry.isExpired_eq_false_iff.2 ((Instant.elapsed_self s.now).symm ▸ Nat.zero_le _)
    · exact (hroom hpos).2 e (List.mem_filter.1 he).1

/-- A session with an expired entry, a critical one, and two others. -/
private def crowded : Session MemoryStore :=
  run MemoryStore.store
    [.set ⟨"/a", none, none⟩ (.int 1) ⟨some (.ofSeconds 1), .low⟩, .set ⟨"/b", none, none⟩ (.int 1) ⟨none, .critical⟩,
      .set ⟨"/c", none, none⟩ (.int 1) ⟨none, .low⟩, .set ⟨"/d", none, none⟩ (.int 1) ⟨none, .medium⟩,
      .advance (.ofSeconds 2)]
    (ofEmpty { Settings.default with maxMemory := 30 } .runLength none ⟨0⟩ (.fresh .default) .empty)

theorem set_evicts_least_crowded :
    let result := crowded.cache.set crowded.now ⟨"/e", none, none⟩ (.str "eighteen byte text") ⟨none, .low⟩
    result.1 = .ok () ∧ result.2.counters.evictions = 2 ∧
      ∀ e ∈ result.2.table.entries, e.isExpired crowded.now = false := by
  have hreachable : crowded.Reachable MemoryStore.store := (Reachable.ofEmpty ..).run _
  have hok := (Cache.set_outcome hreachable.sound crowded.now ⟨"/e", none, none⟩ (.str "eighteen byte text")
    ⟨none, .low⟩).1.2 ⟨by decide +kernel, by decide +kernel⟩
  obtain ⟨order, hranking, least, n, hleast, hle, -, hlength, -, hevictions, hroom⟩ :=
    set_evicts_least hreachable _ _ _ hok
  obtain ⟨x, y, rfl⟩ := List.length_eq_two.1 (hranking.perm.length_eq.trans (by decide +kernel))
  -- there is no room before both have gone
  have hfull : let key := crowded.cache.keyFor ⟨"/e", none, none⟩
      ∀ gone ∈ [] :: crowded.cache.table.entries.map (fun e => [e.key]), crowded.cache.settings.maxMemory <
        Table.totalSize ((crowded.cache.freshOthers key crowded.now).filter fun e => !gone.contains e.key) +
          (Text.byteLength key + (crowded.cache.encode (.str "eighteen byte text")).2) := by
    decide +kernel
  have hmemory := hleast.1.memory
  have hn : n = 2 := by
    rcases least with _ | _ | least
    · exact absurd hmemory (Nat.not_le.2 (hfull [] List.mem_cons_self))
    · have hx := (List.mem_filter.1 (hranking.mem_iff.1 List.mem_cons_self).1).1
      exact absurd hmemory (Nat.not_le.2 (hfull [x.key] (List.mem_cons_of_mem _ (List.mem_map_of_mem hx))))
    · exact Nat.le_antisymm hlength (by omega)
  subst hn
  exact ⟨hok, hevictions.trans (by decide +kernel), (hroom Nat.two_pos).2⟩

end Session

end ResultCache
