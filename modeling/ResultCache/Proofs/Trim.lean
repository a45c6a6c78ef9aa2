import Mathlib.Data.List.Nodup
import Mathlib.Data.List.Perm.Subperm
import Mathlib.Logic.Relation
import ResultCache.Cache.Read
import ResultCache.Cache.Removal
import ResultCache.Cache.Room
import ResultCache.Schedule

/-!
# Trimming a cache

Every operation of a cache except storing, clearing and loading is a sequence of small steps.  A step takes one entry
out of the table for a reason that holds at that moment, notes a read of an entry that stays, or counts a miss
(`Trim`).  What these steps keep, the operations keep.  All operations but reads only take entries out, and
`purgeExpired_sheds`, `makeRoom_sheds` and the like tell which ones and why, taking each operation apart once and for
all.
-/

namespace ResultCache

namespace Table.Accurate

variable {t : Table}

theorem nodup_keys (h : t.Accurate) : (t.entries.map Entry.key).Nodup := by
  have hkeys : t.entries.map Entry.key = t.rows.map (·.1) := by
    rw [entries, List.map_map]
    exact List.map_congr_left fun row hrow => (h.keyed row hrow).symm
  exact hkeys ▸ h.nodup

theorem nodup_entries (h : t.Accurate) : t.entries.Nodup :=
  List.Nodup.of_map Entry.key h.nodup_keys

/-- An entry is what its removal takes away. -/
theorem cons_detach_perm (h : t.Accurate) {key : String} {e : Entry} (he : t.find? key = some e) :
    (e :: (t.detach key).entries).Perm t.entries := by
  have hkey := h.key_of_find? he
  have hother : ∀ e', e' ∈ (t.detach key).entries ↔ e' ∈ t.entries ∧ e' ≠ e := by
    intro e'
    rw [h.entries_detach, List.mem_filter, bne_iff_ne]
    refine and_congr_right fun he' => not_congr ⟨fun heq => ?_, fun heq => heq ▸ hkey⟩
    rw [h.mem_entries_iff, heq, he] at he'
    exact (Option.some.inj he').symm
  have hnodup : (e :: (t.detach key).entries).Nodup :=
    List.nodup_cons.2 ⟨fun hmem => ((hother e).1 hmem).2 rfl, (h.detach key).nodup_entries⟩
  refine (List.perm_ext_iff_of_nodup hnodup h.nodup_entries).2 fun e' => ?_
  rw [List.mem_cons, hother]
  by_cases heq : e' = e
  · rw [heq]
    exact iff_of_true (.inl rfl) (h.mem_entries_iff.2 (hkey ▸ he))
  · simp [heq]

end Table.Accurate

namespace Victims

theorem nodup_select {w : Weights} {limits : PassLimits} {now : Instant} {target : Target} {entries : List Entry}
    (h : entries.Nodup) : (select w limits now target entries).Nodup := by
  refine ((takeFrom_isPrefix ..).sublist).nodup ?_
  rw [candidates, List.nodup_mergeSort]
  exact h.filter _

end Victims

namespace Cache

variable {c : Cache} {now : Instant}

/-! ### What the removal of one entry does -/

@[simp] theorem removeEntry_table (c : Cache) (key : String) (e : Entry) (why : Removal) :
    (c.removeEntry key e why).table = c.table.detach key := by
  rw [removeEntry]
  split <;> rfl

@[simp] theorem removeEntry_counters (c : Cache) (key : String) (e : Entry) (why : Removal) :
    (c.removeEntry key e why).counters = c.counters.removed why := by
  rw [removeEntry]
  split <;> rfl

@[simp] theorem removeEntry_settings (c : Cache) (key : String) (e : Entry) (why : Removal) :
    (c.removeEntry key e why).settings = c.settings := by
  rw [removeEntry]
  split <;> rfl

@[simp] theorem removeEntry_codec (c : Cache) (key : String) (e : Entry) (why : Removal) :
    (c.removeEntry key e why).codec = c.codec := by
  rw [removeEntry]
  split <;> rfl

theorem removeEntry_tier (c : Cache) (key : String) (e : Entry) (why : Removal) :
    (c.removeEntry key e why).tier = if e.persisted then c.tier.map (·.delete key) else c.tier := by
  rw [removeEntry]
  split <;> rfl

theorem remove_eq_removeEntry {key : String} {e : Entry} (h : c.table.find? key = some e) (why : Removal) :
    c.remove key why = c.removeEntry key e why := by
  rw [remove, h]

theorem remove_eq_self {key : String} (h : c.table.find? key = none) (why : Removal) : c.remove key why = c := by
  rw [remove, h]

@[simp] theorem remove_table (c : Cache) (key : String) (why : Removal) :
    (c.remove key why).table = c.table.detach key := by
  cases h : c.table.find? key with
  | none => rw [remove_eq_self h, Table.detach, h]
  | some e => rw [remove_eq_removeEntry h, removeEntry_table]

theorem removeAll_nil (c : Cache) (why : Removal) : c.removeAll [] why = c :=
  rfl

theorem removeAll_cons (c : Cache) (key : String) (keys : List String) (why : Removal) :
    c.removeAll (key :: keys) why = (c.remove key why).removeAll keys why :=
  rfl

/-- After the removal of some keys the other entries are found as before. -/
theorem find?_removeAll (c : Cache) (keys : List String) (why : Removal) (x : String) :
    (c.removeAll keys why).table.find? x = if x ∈ keys then none else c.table.find? x := by
  induction keys generalizing c with
  | nil => simp [removeAll_nil]
  | cons key keys ih =>
    rw [removeAll_cons, ih, remove_table, Table.find?_detach]
    by_cases hx : x = key <;> by_cases hk : x ∈ keys <;> simp [hx, hk]

/-- The removal of some keys takes their rows away and leaves the others in their order. -/
theorem rows_removeAll (c : Cache) (keys : List String) (why : Removal) :
    (c.removeAll keys why).table.rows = c.table.rows.filter fun row => !keys.contains row.1 := by
  induction keys generalizing c with
  | nil => exact (List.filter_eq_self.2 fun _ _ => rfl).symm
  | cons key keys ih =>
    rw [removeAll_cons, ih, remove_table, Table.rows_detach, Assoc.erase, List.filter_filter]
    refine List.filter_congr fun row _ => ?_
    rw [List.contains_cons, Bool.not_or, Bool.and_comm]
    rfl

/-! ### Steps -/

/-- Whether an entry may leave the table for a reason. -/
def Warrants (c : Cache) (now : Instant) (e : Entry) : Removal → Prop
  | .expired => e.isExpired now = true
  | .evicted => e.isProtected now = false
  | .corrupt => e.isExpired now = false ∧ c.decode e.value = none
  | .invalidated => True

/-- A step that adds nothing to the table. -/
inductive Trim (now : Instant) : Cache → Cache → Prop where
  | remove {c : Cache} {key : String} {e : Entry} (why : Removal) (found : c.table.find? key = some e)
      (warranted : c.Warrants now e why) : Trim now c (c.removeEntry key e why)
  | read {c : Cache} {key : String} {e : Entry} (found : c.table.find? key = some e)
      (fresh : e.isExpired now = false) :
      Trim now c { c with table := c.table.update key (·.touch now), counters := c.counters.hit }
  | miss {c : Cache} : Trim now c { c with counters := c.counters.miss }

/-- Some steps that add nothing to the table. -/
abbrev Trims (now : Instant) : Cache → Cache → Prop :=
  Relation.ReflTransGen (Trim now)

theorem Warrants.congr {c' : Cache} (h : c'.codec = c.codec) {e : Entry} {why : Removal}
    (hw : c.Warrants now e why) : c'.Warrants now e why := by
  cases why <;> simp_all [Warrants, decode]

/-- The removal of some entries one after the other, each for a reason that holds at that moment. -/
inductive Sheds (now : Instant) : Cache → List (Entry × Removal) → Cache → Prop where
  | nil (c : Cache) : Sheds now c [] c
  | cons {c c' : Cache} {key : String} {e : Entry} {why : Removal} {gone : List (Entry × Removal)}
      (found : c.table.find? key = some e) (warranted : c.Warrants now e why)
      (rest : Sheds now (c.removeEntry key e why) gone c') : Sheds now c ((e, why) :: gone) c'

theorem Sheds.trims {c' : Cache} {gone : List (Entry × Removal)} (h : Sheds now c gone c') : Trims now c c' := by
  induction h with
  | nil => exact .refl
  | cons found warranted _ ih => exact .head (.remove _ found warranted) ih

theorem Sheds.append {c' c'' : Cache} {gone more : List (Entry × Removal)} (h : Sheds now c gone c')
    (h' : Sheds now c' more c'') : Sheds now c (gone ++ more) c'' := by
  induction h with
  | nil => exact h'
  | cons found warranted _ ih => exact .cons found warranted (ih h')

/-- Removing the keys of different entries of an accurate table removes these, if each may leave. -/
theorem removeAll_map_sheds (hc : c.table.Accurate) {entries : List Entry} {why : Removal} (hnodup : entries.Nodup)
    (hsub : ∀ e ∈ entries, e ∈ c.table.entries) (h : ∀ e ∈ entries, c.Warrants now e why) :
    Sheds now c (entries.map (·, why)) (c.removeAll (entries.map Entry.key) why) := by
  induction entries generalizing c with
  | nil => exact .nil c
  | cons e entries ih =>
    have hfind : c.table.find? e.key = some e := hc.mem_entries_iff.1 (hsub e List.mem_cons_self)
    rw [List.nodup_cons] at hnodup
    rw [List.map_cons, List.map_cons, removeAll_cons, remove_eq_removeEntry hfind]
    refine .cons hfind (h e List.mem_cons_self) (ih ?_ hnodup.2 (fun e' he' => ?_) fun e' he' => ?_)
    · exact removeEntry_table .. ▸ hc.detach e.key
    · rw [removeEntry_table, hc.entries_detach, List.mem_filter, bne_iff_ne]
      have he := hsub e' (List.mem_cons_of_mem _ he')
      refine ⟨he, fun heq => hnodup.1 ?_⟩
      -- under one key there is only one entry
      rw [hc.mem_entries_iff, heq, hfind] at he
      exact Option.some.inj he ▸ he'
    · exact (h e' (List.mem_cons_of_mem _ he')).congr (removeEntry_codec ..)

/-- An invariant of the steps is an invariant of their sequences. -/
theorem Trims.preserves {P : Cache → Prop} (hP : ∀ {c c'}, Trim now c c' → P c → P c') {c c' : Cache}
    (h : Trims now c c') (hc : P c) : P c' := by
  induction h with
  | refl => exact hc
  | tail _ step ih => exact hP step ih

theorem Trims.accurate {c' : Cache} (h : Trims now c c') (hc : c.table.Accurate) : c'.table.Accurate := by
  refine h.preserves (P := fun c => c.table.Accurate) (fun step hc => ?_) hc
  cases step with
  | remove why => exact removeEntry_table .. ▸ hc.detach _
  | read => exact hc.update (f := (·.touch now)) _ (fun _ => rfl) fun _ => rfl
  | miss => exact hc

theorem Trims.settings_eq {c' : Cache} (h : Trims now c c') : c'.settings = c.settings := by
  refine h.preserves (P := fun c' => c'.settings = c.settings) (fun step hc => ?_) rfl
  cases step with
  | remove => exact (removeEntry_settings ..).trans hc
  | read => exact hc
  | miss => exact hc

theorem Trims.codec_eq {c' : Cache} (h : Trims now c c') : c'.codec = c.codec := by
  refine h.preserves (P := fun c' => c'.codec = c.codec) (fun step hc => ?_) rfl
  cases step with
  | remove => exact (removeEntry_codec ..).trans hc
  | read => exact hc
  | miss => exact hc

/-- All that is queued by the way are removals of durable records. -/
theorem Trims.tier_eq {c' : Cache} (h : Trims now c c') :
    ∃ deleted : List String, c'.tier = c.tier.map fun t => deleted.foldl Tier.delete t := by
  induction h with
  | refl => exact ⟨[], Option.map_id'.symm⟩
  | tail _ step ih =>
    obtain ⟨deleted, h⟩ := ih
    cases step with
    | @remove key e why =>
      rw [removeEntry_tier, h, Option.map_map]
      split
      · exact ⟨deleted ++ [key], by simp only [List.foldl_append]; rfl⟩
      · exact ⟨deleted, rfl⟩
    | read => exact ⟨deleted, h⟩
    | miss => exact ⟨deleted, h⟩

/-! ### Operations -/

theorem purgeExpired_sheds (hc : c.table.Accurate) (now : Instant) :
    Sheds now c ((c.table.entries.filter fun e => e.isExpired now).map (·, .expired)) (c.purgeExpired now).2 :=
  removeAll_map_sheds hc (hc.nodup_entries.filter _) (fun _ he => (List.mem_filter.1 he).1)
    fun _ he => (List.mem_filter.1 he).2

theorem purgeExpired_trims (hc : c.table.Accurate) (now : Instant) : Trims now c (c.purgeExpired now).2 :=
  (purgeExpired_sheds hc now).trims

/-- After a purge what is not expired is found as before. -/
theorem find?_purgeExpired (hc : c.table.Accurate) (now : Instant) (x : String) :
    (c.purgeExpired now).2.table.find? x = (c.table.find? x).filter fun e => !e.isExpired now := by
  show (c.removeAll (c.expiredKeys now) .expired).table.find? x = _
  have hmem : x ∈ c.expiredKeys now ↔ ∃ e, c.table.find? x = some e ∧ e.isExpired now = true := by
    simp only [expiredKeys, List.mem_map, List.mem_filter]
    constructor
    · rintro ⟨e, ⟨he, hexp⟩, rfl⟩
      exact ⟨e, hc.mem_entries_iff.1 he, hexp⟩
    · rintro ⟨e, he, hexp⟩
      have hkey := hc.key_of_find? he
      exact ⟨e, ⟨hc.mem_entries_iff.2 (hkey ▸ he), hexp⟩, hkey⟩
  rw [find?_removeAll]
  cases hfind : c.table.find? x with
  | none => simp
  | some e => cases hexp : e.isExpired now <;> simp [hmem, hfind, hexp, Option.filter]

/-- A purge counts expirations only. -/
theorem evictions_purgeExpired (c : Cache) (now : Instant) :
    (c.purgeExpired now).2.counters.evictions = c.counters.evictions := by
  show (c.removeAll (c.expiredKeys now) .expired).counters.evictions = _
  induction c.expiredKeys now generalizing c with
  | nil => rfl
  | cons key keys ih =>
    rw [removeAll_cons, ih]
    cases h : c.table.find? key with
    | none => rw [remove_eq_self h]
    | some e => rw [remove_eq_removeEntry h, removeEntry_counters]; rfl

theorem invalidatePattern_sheds (hc : c.table.Accurate) (now : Instant) (pattern : String) :
    Sheds now c ((c.table.entries.filter fun e => Text.contains e.source pattern).map (·, .invalidated))
      (c.invalidatePattern pattern).2 :=
  removeAll_map_sheds hc (hc.nodup_entries.filter _) (fun _ he => (List.mem_filter.1 he).1) fun _ _ => trivial

theorem invalidatePattern_trims (hc : c.table.Accurate) (now : Instant) (pattern : String) :
    Trims now c (c.invalidatePattern pattern).2 :=
  (invalidatePattern_sheds hc now pattern).trims

theorem remove_sheds (c : Cache) (now : Instant) (key : String) :
    Sheds now c ((c.table.find? key).toList.map (·, .invalidated)) (c.remove key .invalidated) := by
  cases h : c.table.find? key with
  | none =>
    rw [remove_eq_self h]
    exact .nil c
  | some e =>
    rw [remove_eq_removeEntry h]
    exact .cons h trivial (.nil _)

theorem remove_trims (c : Cache) (now : Instant) (key : String) : Trims now c (c.remove key .invalidated) :=
  (remove_sheds c now key).trims

/-- A pressure pass evicts as many entries as it tells. -/
theorem relievePressure_sheds (hc : c.table.Accurate) (now : Instant) :
    ∃ victims : List Entry, victims.length = (c.relievePressure now).1 ∧
      Sheds now c (victims.map (·, .evicted)) (c.relievePressure now).2 := by
  rw [relievePressure]
  split
  · exact ⟨[], rfl, .nil c⟩
  · exact ⟨c.pressureVictims now, (List.length_map _).symm,
      removeAll_map_sheds hc (Victims.nodup_select hc.nodup_entries) (fun _ he => (Victims.mem_select he).1)
        fun _ he => (Victims.mem_select he).2⟩

theorem relievePressure_trims (hc : c.table.Accurate) (now : Instant) : Trims now c (c.relievePressure now).2 := by
  obtain ⟨victims, -, h⟩ := relievePressure_sheds hc now
  exact h.trims

theorem pass_sheds (hc : c.table.Accurate) (now : Instant) (key : String) (needed : Target) :
    Sheds now c ((c.passVictims key now needed).map (·, .evicted))
      (c.removeAll ((c.passVictims key now needed).map Entry.key) .evicted) :=
  removeAll_map_sheds hc (Victims.nodup_select (hc.nodup_entries.filter _))
    (fun _ he => (List.mem_filter.1 (Victims.mem_select he).1).1) fun _ he => (Victims.mem_select he).2

theorem pass_trims (hc : c.table.Accurate) (now : Instant) (key : String) (needed : Target) :
    Trims now c (c.removeAll ((c.passVictims key now needed).map Entry.key) .evicted) :=
  (pass_sheds hc now key needed).trims

theorem evictPasses_sheds (hc : c.table.Accurate) (now : Instant) (key : String) (size fuel : Nat) :
    ∃ victims : List Entry, Sheds now c (victims.map (·, .evicted)) (evictPasses key size now fuel c) := by
  induction fuel generalizing c with
  | zero => exact ⟨[], .nil c⟩
  | succ fuel ih =>
    rw [evictPasses]
    split
    · exact ⟨[], .nil c⟩
    · split
      · exact ⟨[], .nil c⟩
      · have pass := pass_sheds hc now key (c.roomNeeded key size)
        obtain ⟨victims, more⟩ := ih (pass.trims.accurate hc)
        exact ⟨c.passVictims key now (c.roomNeeded key size) ++ victims, List.map_append ▸ pass.append more⟩

/-- What a purge removes, and then evictions. -/
def relief (expired victims : List Entry) : List (Entry × Removal) :=
  expired.map (·, .expired) ++ victims.map (·, .evicted)

theorem makeRoom_sheds (hc : c.table.Accurate) (now : Instant) (key : String) (size : Nat) :
    ∃ expired victims : List Entry, Sheds now c (relief expired victims) (c.makeRoom key size now).2 := by
  have purge := purgeExpired_sheds hc now
  have purged := purge.append (.nil _)
  rw [makeRoom]
  dsimp only
  split
  · exact ⟨[], [], .nil c⟩
  · split
    · exact ⟨_, [], purged⟩
    · split
      · exact ⟨_, [], purged⟩
      · split
        · exact ⟨_, [], purged⟩
        · obtain ⟨victims, evict⟩ :=
            evictPasses_sheds (purge.trims.accurate hc) now key size (c.purgeExpired now).2.table.size
          split <;> exact ⟨_, victims, purge.append evict⟩

theorem makeRoom_trims (hc : c.table.Accurate) (now : Instant) (key : String) (size : Nat) :
    Trims now c (c.makeRoom key size now).2 := by
  obtain ⟨expired, victims, h⟩ := makeRoom_sheds hc now key size
  exact h.trims

theorem getByKey_trims (c : Cache) (now : Instant) (key : String) : Trims now c (c.getByKey now key).2 := by
  rw [getByKey]
  split
  · exact .single .miss
  · rename_i e he
    split
    · rename_i hexp
      exact .head (.remove .expired he hexp) (.single .miss)
    · rename_i hfresh
      rw [Bool.not_eq_true] at hfresh
      split
      · rename_i hdec
        exact .head (.remove .corrupt he ⟨hfresh, hdec⟩) (.single .miss)
      · exact .single (.read he hfresh)

end Cache

namespace Schedule

theorem sweep_sheds {c : Cache} (hc : c.table.Accurate) (s : Schedule) (at' now : Instant) :
    ∃ expired : List Entry, Cache.Sheds now c (expired.map (·, .expired)) (s.sweep at' now c).2.2 := by
  rw [sweep]
  split
  · exact ⟨_, Cache.purgeExpired_sheds hc now⟩
  · exact ⟨[], .nil c⟩

theorem sweep_trims {c : Cache} (hc : c.table.Accurate) (s : Schedule) (at' now : Instant) :
    Cache.Trims now c (s.sweep at' now c).2.2 := by
  obtain ⟨expired, h⟩ := sweep_sheds hc s at' now
  exact h.trims

theorem tick_sheds {c : Cache} (hc : c.table.Accurate) (s : Schedule) (at' now : Instant) :
    ∃ expired victims : List Entry, Cache.Sheds now c (Cache.relief expired victims) (s.tick at' now c).2.2 := by
  obtain ⟨expired, swept⟩ := sweep_sheds hc s at' now
  obtain ⟨victims, checked⟩ : ∃ victims : List Entry, Cache.Sheds now (s.sweep at' now c).2.2
      (victims.map (·, .evicted)) (s.tick at' now c).2.2 := by
    show ∃ victims : List Entry, Cache.Sheds now _ _ (checkPressure (s.sweep at' now c).2.1 at' now _).2.2
    rw [checkPressure]
    split
    · obtain ⟨victims, -, h⟩ := Cache.relievePressure_sheds (swept.trims.accurate hc) now
      exact ⟨victims, h⟩
    · exact ⟨[], .nil _⟩
  exact ⟨expired, victims, swept.append checked⟩

theorem tick_trims {c : Cache} (hc : c.table.Accurate) (s : Schedule) (at' now : Instant) :
    Cache.Trims now c (s.tick at' now c).2.2 := by
  obtain ⟨expired, victims, h⟩ := tick_sheds hc s at' now
  exact h.trims

end Schedule

end ResultCache
