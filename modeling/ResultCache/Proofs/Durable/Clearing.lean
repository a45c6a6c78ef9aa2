import ResultCache.Proofs.Durable.Recovery

/-!
# Clearing in spite of faults

The keys of a namespace are deleted in their order up to the first one that cannot be deleted
(`WriteOp.deleteAll_withFaults`).  So a clear leaves the records of the namespace from that key on, whether or not they
could be deleted themselves (`WriteOp.clear_withFaults`).
-/

namespace ResultCache.WriteOp

variable {m : MemoryStore}

/-- The keys before the first one that cannot be deleted are gone. -/
theorem deleteAll_withFaults (f : Faults) (keys : List String) (m : MemoryStore) :
    (deleteAll (MemoryStore.store.withFaults f) keys m).records =
      m.records.filter fun row => !(keys.takeWhile fun key => !f.failing .delete key).contains row.1 := by
  induction keys generalizing m with
  | nil => exact (List.filter_eq_self.2 fun _ _ => rfl).symm
  | cons key keys ih =>
    have hdelete : (MemoryStore.store.withFaults f).delete key m =
        if f.failing .delete key then (.error .unavailable, m) else (.ok (), m.delete key) := rfl
    rw [deleteAll, hdelete, List.takeWhile_cons]
    cases f.failing .delete key with
    | true => exact (List.filter_eq_self.2 fun _ _ => rfl).symm
    | false =>
      refine (ih (m.delete key)).trans ?_
      rw [MemoryStore.delete, Assoc.erase, List.filter_filter]
      refine List.filter_congr fun row _ => ?_
      simp only [Bool.not_false, if_true, List.contains_cons, Bool.not_or, bne, Bool.and_comm]

/-- In a sorted list those before the first failure are those with no failure up to them. -/
theorem mem_takeWhile_iff {keys : List String} (h : keys.Pairwise (· < ·)) {p : String → Bool} {key : String} :
    key ∈ keys.takeWhile p ↔ key ∈ keys ∧ ∀ x ∈ keys, x ≤ key → p x = true := by
  induction keys with
  | nil => simp
  | cons k keys ih =>
    obtain ⟨hk, hkeys⟩ := List.pairwise_cons.1 h
    rw [List.takeWhile_cons]
    cases hp : p k with
    | false =>
      -- nothing in the list is smaller than its first key
      refine iff_of_false List.not_mem_nil fun ⟨hmem, hall⟩ => ?_
      have hle : k ≤ key := by
        rcases List.mem_cons.1 hmem with rfl | hmem
        · exact String.le_refl _
        · exact String.not_lt.1 (String.lt_asymm (hk key hmem))
      rw [hall k List.mem_cons_self hle] at hp
      cases hp
    | true =>
      rw [if_pos rfl, List.mem_cons, ih hkeys, List.mem_cons, List.forall_mem_cons]
      constructor
      · rintro (rfl | ⟨hmem, hall⟩)
        · exact ⟨.inl rfl, fun _ => hp, fun x hx hle => absurd (hk x hx) (String.not_lt.2 hle)⟩
        · exact ⟨.inr hmem, fun _ => hp, hall⟩
      · rintro ⟨rfl | hmem, -, hall⟩
        · exact .inl rfl
        · exact .inr ⟨hmem, hall⟩

/-- A clear deletes the records of a namespace in the order of their keys up to the first one that cannot be deleted.
What is left of them are that one and all after it; so all that is left could not be deleted itself only if no key that
can be deleted comes after one that cannot.  Other records stay, and if the keys cannot be listed all stay. -/
theorem clear_withFaults (f : Faults) (space : String) (hm : Assoc.Sorted m.records) :
    let listed := m.records.filter (beginsWith (space ++ ":") ·.1)
    let left := (clear.apply (MemoryStore.store.withFaults f) space m).records
    (f.failing .list (space ++ ":") = true → left = m.records) ∧
      (f.failing .list (space ++ ":") = false →
        (∀ row, row ∈ left ↔ row ∈ m.records ∧
          (row ∈ listed → ∃ stuck ∈ listed, f.failing .delete stuck.1 = true ∧ stuck.1 ≤ row.1)) ∧
        left.Sublist m.records ∧
        ((∀ row ∈ left, row ∈ listed → f.failing .delete row.1 = true) ↔
          ∀ stuck ∈ listed, ∀ row ∈ listed, f.failing .delete stuck.1 = true → stuck.1 ≤ row.1 →
            f.failing .delete row.1 = true)) := by
  intro listed left
  have hlist : (MemoryStore.store.withFaults f).list (space ++ ":") m =
      if f.failing .list (space ++ ":") then .error .unavailable else .ok (m.keys (space ++ ":")) := rfl
  refine ⟨fun hfails => ?_, fun hlists => ?_⟩
  · show (clear.apply (MemoryStore.store.withFaults f) space m).records = _
    rw [apply, hlist, hfails]
    rfl
  · have hkeys : m.keys (space ++ ":") = listed.map (·.1) := List.filter_map
    have hsorted : (listed.map (·.1)).Pairwise (· < ·) := List.pairwise_map.2 (List.Pairwise.filter _ hm)
    have hleft : left = m.records.filter fun row =>
        !((listed.map (·.1)).takeWhile fun key => !f.failing .delete key).contains row.1 := by
      show (clear.apply (MemoryStore.store.withFaults f) space m).records = _
      rw [apply, hlist, hlists, ← hkeys]
      exact deleteAll_withFaults f _ m
    have hmem : ∀ row, row ∈ left ↔ row ∈ m.records ∧
        (row ∈ listed → ∃ stuck ∈ listed, f.failing .delete stuck.1 = true ∧ stuck.1 ≤ row.1) := by
      intro row
      rw [hleft, List.mem_filter, Bool.not_eq_true', ← Bool.not_eq_true, List.contains_iff_mem,
        mem_takeWhile_iff hsorted]
      refine and_congr_right fun hrow => ?_
      have hlisted : row.1 ∈ listed.map (·.1) ↔ row ∈ listed := by
        rw [← hkeys, ← List.contains_iff_mem, Tier.contains_keys hrow, List.mem_filter]
        exact (and_iff_right hrow).symm
      rw [hlisted, not_and, List.forall_mem_map]
      simp only [Bool.not_eq_true', not_forall, Bool.not_eq_false, exists_prop, and_comm]
    refine ⟨hmem, hleft ▸ List.filter_sublist, fun hall stuck hstuck row hrow hfails hle => ?_,
      fun hall row hrow hin => ?_⟩
    · exact hall row ((hmem row).2 ⟨(List.mem_filter.1 hrow).1, fun _ => ⟨stuck, hstuck, hfails, hle⟩⟩) hrow
    · obtain ⟨stuck, hstuck, hfails, hle⟩ := ((hmem row).1 hrow).2 hin
      exact hall stuck hstuck row hin hfails hle

/-- Two records of a namespace, beside one of another namespace. -/
private def twoRecords : MemoryStore :=
  ((MemoryStore.empty.put "memo:a" [1]).put "memo:b" [2]).put "other:c" [3]

/-- The first record of the namespace cannot be deleted. -/
private def firstStuck : Faults where
  failing call key := call == .delete && key == "memo:a"
  hidden _ := false

private theorem sorted_twoRecords : Assoc.Sorted twoRecords.records := by
  repeat refine Assoc.sorted_insert ?_
  exact .nil

theorem clear_withFaults_firstStuck :
    firstStuck.failing .list "memo:" = false ∧
      ("memo:b", [2]) ∈ (clear.apply (MemoryStore.store.withFaults firstStuck) "memo" twoRecords).records := by
  have hlists : firstStuck.failing .list ("memo" ++ ":") = false := rfl
  obtain ⟨hmem, -⟩ := (clear_withFaults firstStuck "memo" sorted_twoRecords).2 hlists
  exact ⟨rfl, (hmem ("memo:b", [2])).2 ⟨by decide, fun _ => ⟨("memo:a", [1]), by decide, rfl, by decide⟩⟩⟩

/-- A key that cannot be deleted shields another one after it, which could be deleted. -/
theorem not_only_stuck_left :
    ¬∀ (f : Faults) (space : String) (m : MemoryStore), Assoc.Sorted m.records →
      f.failing .list (space ++ ":") = false →
        ∀ row ∈ (clear.apply (MemoryStore.store.withFaults f) space m).records,
          beginsWith (space ++ ":") row.1 = true → f.failing .delete row.1 = true := by
  intro h
  have hleft : ("memo:b", [2]) ∈ (clear.apply (MemoryStore.store.withFaults firstStuck) "memo" twoRecords).records := by
    decide +kernel
  have hstuck := h firstStuck "memo" twoRecords sorted_twoRecords rfl _ hleft (by decide +kernel)
  exact absurd hstuck (by decide)

end ResultCache.WriteOp
