import ResultCache.Proofs.Admission
import ResultCache.Proofs.Durable.Coverage
import ResultCache.Proofs.Ledger
import ResultCache.Proofs.Selection

/-!
# Pressure passes

A pressure pass removes the first entries of the order of removal until the memory in use is down at the lower mark, or
it has removed as many as it may (`Cache.relievePressure_reaches`).  If the lower mark is not above the upper one, each
pass above the upper mark makes progress, so that some passes suffice (`Session.exists_relieves`).
-/

namespace ResultCache

namespace Cache

variable {c : Cache} {now : Instant}

theorem relievePressure_of_le (h : c.table.memory ≤ c.highMark) (now : Instant) : c.relievePressure now = (0, c) :=
  if_pos h

theorem relievePressure_of_lt (h : c.highMark < c.table.memory) (now : Instant) :
    c.relievePressure now =
      ((c.pressureVictims now).length, c.removeAll ((c.pressureVictims now).map Entry.key) .evicted) := by
  rw [relievePressure, if_neg (Nat.not_le.2 h)]
  dsimp only
  rw [List.length_map]

theorem pressureVictims_sheds (hc : c.table.Accurate) (h : c.highMark < c.table.memory) (now : Instant) :
    Sheds now c ((c.pressureVictims now).map (·, .evicted)) (c.relievePressure now).2 := by
  rw [relievePressure_of_lt h]
  exact removeAll_map_sheds hc (Victims.nodup_select hc.nodup_entries) (fun _ he => (Victims.mem_select he).1)
    fun _ he => (Victims.mem_select he).2

/-- The victims are the first entries of the order of removal, at most as many as may go.  Afterwards the memory in use
is at the lower mark, or as many went as may, or only protected entries are left. -/
theorem relievePressure_reaches (hc : c.table.Accurate) (h : c.highMark < c.table.memory) (now : Instant) :
    let order := Victims.candidates c.settings.weights now c.table.entries
    let count := (c.relievePressure now).1
    c.pressureVictims now = order.take count ∧ count ≤ order.length ∧
      count ≤ c.settings.passLimits.cap c.table.size ∧
      ((c.relievePressure now).2.table.memory ≤ c.lowMark ∨ count = c.settings.passLimits.cap c.table.size ∨
        ∀ e ∈ (c.relievePressure now).2.table.entries, e.isProtected now = true) := by
  obtain ⟨k, hk, hvictims, hcap, hstop, -⟩ := Victims.select_spec c.settings.weights c.settings.passLimits now
    ⟨c.table.memory - c.lowMark, 0⟩ c.table.entries
  have hvictims : c.pressureVictims now = _ := hvictims
  have hsheds := pressureVictims_sheds hc h now
  have hperm := hsheds.perm_label hc
  have hcount : (c.relievePressure now).1 = k := by
    rw [relievePressure_of_lt h, hvictims]
    exact List.length_take_of_le hk
  rw [hcount]
  rw [Table.length_entries] at hcap hstop
  refine ⟨hvictims, hk, hcap, ?_⟩
  rcases hstop with hall | hcapped | ⟨-, hbytes⟩
  · -- a candidate that were left would have been removed, since all were
    refine .inr (.inr fun e he => ?_)
    by_contra hfree
    rw [Bool.not_eq_true] at hfree
    rw [hall, List.take_length] at hvictims
    have hmem : e ∈ c.pressureVictims now := by
      rw [hvictims, (Victims.ranking_candidates hc.nodup_keys _ _).mem_iff]
      exact ⟨hperm.mem_iff.1 (List.mem_append_right _ he), hfree⟩
    exact List.disjoint_of_nodup_append (hperm.nodup_iff.2 hc.nodup_entries) hmem he
  · exact .inr (.inl hcapped)
  · -- what went is at least what the memory in use was too much
    refine .inl ?_
    have hsum := Table.totalSize_perm hperm
    rw [Table.totalSize_append, ← (hsheds.trims.accurate hc).memory_eq, ← hc.memory_eq, hvictims] at hsum
    dsimp only at hbytes
    omega

theorem highMark_relievePressure (hc : c.table.Accurate) (now : Instant) :
    (c.relievePressure now).2.highMark = c.highMark := by
  rw [highMark, highMark, watermark, watermark, (relievePressure_trims hc now).settings_eq]

theorem lowMark_relievePressure (hc : c.table.Accurate) (now : Instant) :
    (c.relievePressure now).2.lowMark = c.lowMark := by
  rw [lowMark, lowMark, watermark, watermark, (relievePressure_trims hc now).settings_eq]

/-- Above both marks a pass removes an entry if there is one that is not protected. -/
theorem relievePressure_pos (hmarks : c.lowMark ≤ c.highMark) (h : c.highMark < c.table.memory) {e : Entry}
    (he : e ∈ c.table.entries) (hfree : e.isProtected now = false) : 0 < (c.relievePressure now).1 := by
  rw [relievePressure_of_lt h]
  refine List.length_pos_iff.2 (Victims.select_ne_nil (fun hnone => ?_) he hfree)
  rw [Target.none, Target.mk.injEq] at hnone
  omega

/-- As many entries are gone as the pass tells. -/
theorem size_relievePressure (hc : c.table.Accurate) (now : Instant) :
    (c.relievePressure now).1 + (c.relievePressure now).2.table.size = c.table.size := by
  rcases Nat.lt_or_ge c.highMark c.table.memory with h | h
  · have hlength := ((pressureVictims_sheds hc h now).perm_label hc).length_eq
    rw [List.length_append, Table.length_entries, Table.length_entries] at hlength
    rwa [relievePressure_of_lt h] at hlength ⊢
  · rw [relievePressure_of_le h]
    exact Nat.zero_add _

end Cache

namespace Session

variable {σ : Type} {store : Store σ} {s : Session σ}

/-- At one time, as many passes as there are entries bring the memory in use down to the upper mark, or leave protected
entries only. -/
theorem exists_relieves (store : Store σ) (hs : s.cache.table.Accurate) (hmarks : s.cache.lowMark ≤ s.cache.highMark) :
    ∃ n ≤ s.cache.table.size,
      let s' := run store (List.replicate n .relieve) s
      s'.now = s.now ∧ (s'.cache.table.memory ≤ s.cache.highMark ∨
        ∀ e ∈ s'.cache.table.entries, e.isProtected s.now = true) := by
  obtain ⟨size, hsize⟩ : ∃ size, s.cache.table.size = size := ⟨_, rfl⟩
  induction size using Nat.strongRecOn generalizing s with
  | ind size ih =>
    by_cases hmemory : s.cache.table.memory ≤ s.cache.highMark
    · exact ⟨0, Nat.zero_le _, rfl, .inl hmemory⟩
    · by_cases hprotected : ∀ e ∈ s.cache.table.entries, e.isProtected s.now = true
      · exact ⟨0, Nat.zero_le _, rfl, .inr hprotected⟩
      · -- a pass leaves fewer entries, for which fewer passes suffice
        simp only [not_forall, Bool.not_eq_true] at hprotected
        obtain ⟨e, he, hfree⟩ := hprotected
        have hpos := Cache.relievePressure_pos hmarks (Nat.not_le.1 hmemory) he hfree
        have hsum := Cache.size_relievePressure hs s.now
        have haccurate := (Cache.relievePressure_trims hs s.now).accurate hs
        have hhigh := Cache.highMark_relievePressure hs s.now
        have hlow := Cache.lowMark_relievePressure hs s.now
        have hcache : (s.step store .relieve).2.cache = (s.cache.relievePressure s.now).2 := rfl
        obtain ⟨n, hn, hnow, hreached⟩ := ih (s.cache.relievePressure s.now).2.table.size (by omega)
          (s := (s.step store .relieve).2) haccurate (by rw [hcache, hhigh, hlow]; exact hmarks) rfl
        rw [hcache] at hn hreached
        rw [hhigh] at hreached
        exact ⟨n + 1, by omega, hnow, hreached⟩

/-- A pressure pass does nothing unless the memory in use is above the upper mark.  Above it the pass removes the first
of the entries that are not fresh critical ones, in the order of removal and at most as many as its cap; it tells their
number and counts it, queues one deletion for each persisted one behind what was queued, and ends at the lower mark, at
the cap, or with fresh critical entries only.  If the lower mark is not above the upper one, a pass with something to
remove removes some, and as many passes as there are entries reach the upper mark or leave fresh critical entries only. -/
theorem pressure_relieved (h : s.Reachable store) :
    let c := s.cache
    let count := (c.relievePressure s.now).1
    let after := (c.relievePressure s.now).2
    (c.table.memory ≤ c.highMark → c.relievePressure s.now = (0, c)) ∧
      (c.highMark < c.table.memory →
        ∃ order, Victims.Ranking c.settings.weights s.now c.table.entries order ∧
          let gone := order.take count
          let deletes := (gone.filter (·.persisted)).map fun e => WriteOp.delete e.key
          count ≤ order.length ∧ count ≤ c.settings.passLimits.cap c.table.size ∧
          after.table.entries = (c.table.entries.filter fun e => !(gone.map Entry.key).contains e.key) ∧
          after.counters = { c.counters with evictions := c.counters.evictions + count } ∧
          after.tier =
            (c.tier.map fun t => { t with pending := if t.connected then t.pending ++ deletes else t.pending }) ∧
          (after.table.memory ≤ c.lowMark ∨ count = c.settings.passLimits.cap c.table.size ∨
            ∀ e ∈ after.table.entries, e.priority = .critical ∧ e.isExpired s.now = false)) ∧
      (c.lowMark ≤ c.highMark →
        (c.highMark < c.table.memory →
          (∃ e ∈ c.table.entries, ¬(e.priority = .critical ∧ e.isExpired s.now = false)) → 0 < count) ∧
        ∃ n ≤ c.table.size,
          let s' := run store (List.replicate n .relieve) s
          s'.now = s.now ∧ (s'.cache.table.memory ≤ c.highMark ∨
            ∀ e ∈ s'.cache.table.entries, e.priority = .critical ∧ e.isExpired s.now = false)) := by
  intro c count after
  have hc : c.table.Accurate := h.sound.accurate
  have hprotected : ∀ {e : Entry}, e.isProtected s.now = true ↔ e.priority = .critical ∧ e.isExpired s.now = false :=
    fun {e} => by simp [Entry.isProtected]
  refine ⟨fun hle => Cache.relievePressure_of_le hle s.now, fun hlt => ?_, fun hmarks => ⟨fun hlt => ?_, ?_⟩⟩
  · obtain ⟨hvictims, hlength, hcap, hreached⟩ := Cache.relievePressure_reaches hc hlt s.now
    have hsheds := Cache.pressureVictims_sheds hc hlt s.now
    refine ⟨_, Victims.ranking_candidates hc.nodup_keys _ _, hlength, hcap, ?_, ?_, ?_, ?_⟩
    · show (s.cache.relievePressure s.now).2.table.entries = _
      rw [Cache.relievePressure_of_lt hlt, Cache.entries_removeAll hc, hvictims]
    · show (s.cache.relievePressure s.now).2.counters = _
      rw [hsheds.counters_eq, Counters.foldl_removed]
      simp only [Cache.count_label, hvictims, List.length_take_of_le hlength, reduceCtorEq, if_true, if_false,
        Nat.add_zero]
      rfl
    · show (s.cache.relievePressure s.now).2.tier = _
      rw [hsheds.queues hc, Cache.map_fst_label, hvictims]
    · exact hreached.imp_right fun h => h.imp_right fun h e he => hprotected.1 (h e he)
  · rintro ⟨e, he, hfree⟩
    rw [← hprotected, Bool.not_eq_true] at hfree
    exact Cache.relievePressure_pos hmarks hlt he hfree
  · obtain ⟨n, hn, hnow, hreached⟩ := exists_relieves store hc hmarks
    exact ⟨n, hn, hnow, hreached.imp_right fun h e he => hprotected.1 (h e he)⟩

/-- A session above its upper mark, with a critical entry that alone is above the lower one. -/
private def cornered : Session MemoryStore :=
  run MemoryStore.store
    [.set ⟨"/a", none, none⟩ (.int 1) ⟨none, .high⟩, .set ⟨"/b", none, none⟩ (.str "eightbyt") ⟨none, .critical⟩,
      .write]
    (ofEmpty { Settings.default with maxMemory := 20, highWatermark := 0.5, lowWatermark := 0.25 } .runLength
      (some (.ofSpace "memo")) ⟨0⟩ (.fresh .default) .empty)

/-- One entry goes, and the deletion of its record is all that is queued. -/
theorem pressure_relieved_cornered :
    (cornered.cache.highMark = 10 ∧ cornered.cache.lowMark = 5 ∧ cornered.cache.table.memory = 19) ∧
      cornered.cache.tier.map Tier.pending = some [] ∧
      (cornered.cache.relievePressure cornered.now).1 = 1 ∧
      (cornered.cache.relievePressure cornered.now).2.counters.evictions = 1 ∧
      (cornered.cache.relievePressure cornered.now).2.tier.map Tier.pending = some [.delete "::/a"] := by
  have hmarks : cornered.cache.highMark = 10 ∧ cornered.cache.lowMark = 5 ∧ cornered.cache.table.memory = 19 := by
    decide +kernel
  have hreachable : cornered.Reachable MemoryStore.store := (Reachable.ofEmpty ..).run _
  obtain ⟨-, hpass, hprogress⟩ := pressure_relieved hreachable
  have habove : cornered.cache.highMark < cornered.cache.table.memory := by decide +kernel
  have hpos := (hprogress (by decide +kernel)).1 habove (by decide +kernel)
  obtain ⟨order, hranking, hlength, -, -, hcounters, htier, -⟩ := hpass habove
  have hone : order.length = 1 := hranking.perm.length_eq.trans (by decide +kernel)
  have hcount : (cornered.cache.relievePressure cornered.now).1 = 1 := Nat.le_antisymm (hone ▸ hlength) hpos
  -- there is one candidate, so that its place in the order need not be computed
  have hdeletes : ((order.take 1).filter (·.persisted)).map (fun e => WriteOp.delete e.key) = [.delete "::/a"] := by
    rw [List.take_of_length_le (Nat.le_of_eq hone), ← List.perm_singleton]
    refine ((hranking.perm.filter _).map _).trans (.of_eq ?_)
    decide +kernel
  refine ⟨hmarks, by decide +kernel, hcount, ?_, ?_⟩
  · rw [hcounters, hcount]
    decide +kernel
  · rw [htier, hcount, hdeletes]
    decide +kernel

end Session

end ResultCache
