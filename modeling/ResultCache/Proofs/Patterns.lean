import ResultCache.Proofs.Admission
import ResultCache.Proofs.Durable.Coverage
import ResultCache.Proofs.Ledger
import ResultCache.Proofs.Selection

/-!
# Removal by a pattern

The entries with a pattern in their resources are removed, and no others, whatever their keys
(`Cache.invalidatePattern_sheds`).  What is left has the pattern nowhere, so that removing it again does nothing
(`Session.invalidatePattern_exact`).
-/

namespace ResultCache

/-- A text occurs in another one if that is something before it, the text, and something after it. -/
theorem Text.contains_iff {s p : String} : contains s p = true ↔ ∃ before after, s = before ++ p ++ after := by
  rw [contains, occursIn_iff]
  constructor
  · rintro ⟨before, after, h⟩
    refine ⟨String.ofList before, String.ofList after, ?_⟩
    rw [← String.toList_inj, String.toList_append, String.toList_append, String.toList_ofList, String.toList_ofList, h]
  · rintro ⟨before, after, rfl⟩
    rw [String.toList_append, String.toList_append]
    exact List.infix_append ..

namespace Cache

variable {c : Cache}

/-- The entries in whose resources a pattern occurs. -/
def matched (c : Cache) (pattern : String) : List Entry :=
  c.table.entries.filter fun e => Text.contains e.source pattern

theorem mem_matched_iff {pattern : String} {e : Entry} :
    e ∈ c.matched pattern ↔ e ∈ c.table.entries ∧ Text.contains e.source pattern = true :=
  List.mem_filter

theorem invalidatePattern_fst (c : Cache) (pattern : String) :
    (c.invalidatePattern pattern).1 = (c.matched pattern).length :=
  List.length_map _

/-- A pattern that occurs nowhere removes nothing. -/
theorem invalidatePattern_of_matched_eq_nil {pattern : String} (h : c.matched pattern = []) :
    c.invalidatePattern pattern = (0, c) := by
  rw [matched] at h
  simp only [invalidatePattern, h]
  rfl

/-- The entries that are left have the pattern nowhere. -/
theorem entries_invalidatePattern (hc : c.table.Accurate) (pattern : String) :
    (c.invalidatePattern pattern).2.table.entries =
      c.table.entries.filter fun e => !Text.contains e.source pattern := by
  refine (entries_removeAll hc ((c.matched pattern).map Entry.key) .invalidated).trans ?_
  refine List.filter_congr fun e he => ?_
  refine congrArg not (Bool.eq_iff_iff.2 ?_)
  rw [contains_key_iff hc (fun e' he' => (mem_matched_iff.1 he').1) he, mem_matched_iff]
  exact and_iff_right he

theorem matched_invalidatePattern (hc : c.table.Accurate) (pattern : String) :
    (c.invalidatePattern pattern).2.matched pattern = [] := by
  rw [matched, entries_invalidatePattern hc, List.filter_filter]
  exact List.filter_eq_nil_iff.2 fun e _ => by simp

end Cache

namespace Session

variable {σ : Type} {store : Store σ} {s : Session σ}

/-- The removal by a pattern takes out of the table exactly the entries in whose resources the pattern occurs, and tells
their number.  Behind what was queued it queues one deletion for each of them that is persisted, and nothing else.  The
memory in use goes down by their sizes, and the counters stay.  Doing it again does nothing. -/
theorem invalidatePattern_exact (h : s.Reachable store) (pattern : String) :
    let c := s.cache
    let count := (c.invalidatePattern pattern).1
    let after := (c.invalidatePattern pattern).2
    ∃ gone : List Entry,
      let deletes := (gone.filter (·.persisted)).map fun e => WriteOp.delete e.key
      (gone ++ after.table.entries).Perm c.table.entries ∧ (gone.map Entry.key).Nodup ∧
      (∀ e ∈ gone, ∃ front back, e.source = front ++ pattern ++ back) ∧
      (∀ e ∈ after.table.entries, ¬∃ front back, e.source = front ++ pattern ++ back) ∧
      count = gone.length ∧ after.counters = c.counters ∧
      after.table.memory + Table.totalSize gone = c.table.memory ∧
      after.tier =
        (c.tier.map fun t => { t with pending := if t.connected then t.pending ++ deletes else t.pending }) ∧
      after.invalidatePattern pattern = (0, after) := by
  intro c count after
  have hc : c.table.Accurate := h.sound.accurate
  have hsheds := Cache.invalidatePattern_sheds hc s.now pattern
  have hperm : (c.matched pattern ++ after.table.entries).Perm c.table.entries := hsheds.perm_label hc
  refine ⟨c.matched pattern, hperm, ?_, fun e he => ?_, fun e he => ?_, c.invalidatePattern_fst pattern, ?_, ?_, ?_, ?_⟩
  · exact hc.nodup_keys.sublist (List.filter_sublist.map Entry.key)
  · exact Text.contains_iff.1 (Cache.mem_matched_iff.1 he).2
  · rw [Cache.entries_invalidatePattern hc] at he
    rw [← Text.contains_iff, Bool.not_eq_true, ← Bool.not_eq_true']
    exact (List.mem_filter.1 he).2
  · show (c.invalidatePattern pattern).2.counters = _
    rw [hsheds.counters_eq, Counters.foldl_removed]
    simp only [Cache.count_label, reduceCtorEq, if_false, Nat.add_zero]
  · have hsum := Table.totalSize_perm hperm
    rw [Table.totalSize_append, ← (hsheds.trims.accurate hc).memory_eq, ← hc.memory_eq] at hsum
    exact (Nat.add_comm ..).trans hsum
  · show (c.invalidatePattern pattern).2.tier = _
    rw [hsheds.queues hc, Cache.map_fst_label]
    rfl
  · exact Cache.invalidatePattern_of_matched_eq_nil (Cache.matched_invalidatePattern hc pattern)

/-- Results of one resource for two tenants, one of them persisted, and one of another resource. -/
private def tenants : Session MemoryStore :=
  run MemoryStore.store
    [.set ⟨"/api/a", none, some "x"⟩ (.int 1) ⟨none, .high⟩, .set ⟨"/api/a", none, some "y"⟩ .null ⟨none, .low⟩,
      .set ⟨"/other", none, none⟩ (.bool true) ⟨none, .critical⟩]
    (ofEmpty .default .runLength (some (.ofSpace "memo")) ⟨0⟩ (.fresh .default) .empty)

/-- Two entries go, and the deletion of the persisted one is queued behind the two records that wait there. -/
theorem invalidatePattern_exact_tenants :
    let after := (tenants.cache.invalidatePattern "api").2
    (∃ gone : List Entry, gone.length = 2 ∧ (gone ++ after.table.entries).Perm tenants.cache.table.entries) ∧
      (tenants.cache.tier.map fun t => t.pending.length) = some 2 ∧
      after.tier.map Tier.pending = (tenants.cache.tier.map fun t => t.pending ++ [.delete "1:x::/api/a"]) ∧
      after.invalidatePattern "api" = (0, after) := by
  intro after
  have hreachable : tenants.Reachable MemoryStore.store := (Reachable.ofEmpty ..).run _
  obtain ⟨gone, hperm, -, -, -, hcount, -, -, htier, hagain⟩ := invalidatePattern_exact hreachable "api"
  have htwo : (tenants.cache.invalidatePattern "api").1 = 2 := by decide +kernel
  -- what is persisted is what went and what is left of it
  have hdeletes : (gone.filter (·.persisted)).map (fun e => WriteOp.delete e.key) = [.delete "1:x::/api/a"] := by
    have hpersisted := (hperm.filter (·.persisted)).map fun e => WriteOp.delete e.key
    rw [List.filter_append, List.map_append] at hpersisted
    rw [← List.perm_singleton, ← List.perm_append_right_iff
      ((after.table.entries.filter (·.persisted)).map fun e => WriteOp.delete e.key)]
    refine hpersisted.trans (List.isPerm_iff.1 ?_)
    decide +kernel
  refine ⟨⟨gone, hcount.symm.trans htwo, hperm⟩, by decide +kernel, ?_, hagain⟩
  show (tenants.cache.invalidatePattern "api").2.tier.map Tier.pending = _
  rw [htier, hdeletes]
  decide +kernel

end Session

end ResultCache
