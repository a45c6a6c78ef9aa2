import ResultCache.Proofs.Trim
import ResultCache.Session

/-!
# The budget

A cache never uses more memory than it may, nor holds more entries, and the memory in use is at any time what the
entries take (`Cache.Sound`).  A stored entry finds room because `makeRoom` only succeeds when there is some, and a
loaded one because it is loaded only if it fits.
-/

namespace ResultCache

namespace Cache

variable {c : Cache} {now : Instant}

/-- The table is accurate, and both ceilings hold. -/
structure Sound (c : Cache) : Prop where
  accurate : c.table.Accurate
  memory_le : c.table.memory ≤ c.settings.maxMemory
  size_le : c.table.size ≤ c.settings.maxEntries

theorem sound_of_table_eq_empty (h : c.table = .empty) : c.Sound :=
  ⟨h ▸ Table.accurate_empty, h ▸ Nat.zero_le _, h ▸ Nat.zero_le _⟩

theorem Trims.sound {c' : Cache} (h : Trims now c c') (hc : c.Sound) : c'.Sound := by
  refine ⟨h.accurate hc.accurate, ?_, ?_⟩
  · refine h.preserves (P := fun c => c.table.memory ≤ c.settings.maxMemory) (fun step hle => ?_) hc.memory_le
    cases step with
    | remove => exact Nat.le_trans (by simpa using Table.memory_detach_le ..) (by simpa using hle)
    | read => exact hle
    | miss => exact hle
  · refine h.preserves (P := fun c => c.table.size ≤ c.settings.maxEntries) (fun step hle => ?_) hc.size_le
    cases step with
    | remove => exact Nat.le_trans (by simpa using Table.size_detach_le ..) (by simpa using hle)
    | read => simpa [Table.size, Table.update] using hle
    | miss => exact hle

/-! ### Storing -/

theorem replace_table (c : Cache) (e : Entry) (v : Json) :
    (c.replace e v).table = (c.table.detach e.key).attach e := by
  simp only [replace]
  split <;> split <;> rfl

@[simp] theorem replace_settings (c : Cache) (e : Entry) (v : Json) : (c.replace e v).settings = c.settings := by
  simp only [replace]
  split <;> split <;> rfl

@[simp] theorem replace_codec (c : Cache) (e : Entry) (v : Json) : (c.replace e v).codec = c.codec := by
  simp only [replace]
  split <;> split <;> rfl

/-- A value that was encoded is decoded again, if the codec restores it. -/
theorem decode_encode {c' : Cache} {v : Json} (h : c.codec.Restores v) (hcodec : c'.codec = c.codec) :
    c'.decode (c.encode v).1 = some v := by
  rw [encode]
  split
  · rfl
  · split
    · rename_i bytes hbytes
      rw [decode, hcodec]
      exact h bytes hbytes
    · rfl

/-- Room that was made is there. -/
theorem roomNeeded_of_makeRoom {key : String} {size : Nat} (h : (c.makeRoom key size now).1 = .ok ()) :
    (c.makeRoom key size now).2.roomNeeded key size = .none := by
  revert h
  rw [makeRoom]
  dsimp only
  split
  · exact fun _ => ‹_›
  · split
    · exact fun _ => ‹_›
    · split
      · intro h
        cases h
      · split
        · intro h
          cases h
        · split
          · exact fun _ => ‹_›
          · intro h
            cases h

/-- A call that stores a value fails and only trims the table, or it trims the table until there is room and puts the
new entry in. -/
theorem set_cases (hc : c.table.Accurate) (now : Instant) (r : Request) (v : Json) (o : SetOptions) :
    (∃ f c', c.set now r v o = (.error f, c') ∧ Trims now c c') ∨
      ∃ c', c.set now r v o = (.ok (), c'.replace (c.entryFor now r v o) v) ∧ Trims now c c' ∧
        c'.roomNeeded (c.entryFor now r v o).key (c.entryFor now r v o).size = .none := by
  have trims := makeRoom_trims hc now (c.entryFor now r v o).key (c.entryFor now r v o).size
  have room := @roomNeeded_of_makeRoom c now (c.entryFor now r v o).key (c.entryFor now r v o).size
  rw [set]
  split
  · exact .inl ⟨_, _, rfl, .refl⟩
  · split
    · rename_i f c' heq
      rw [heq] at trims
      exact .inl ⟨_, _, rfl, trims⟩
    · rename_i c' heq
      rw [heq] at trims room
      exact .inr ⟨_, rfl, trims, room rfl⟩

/-- With room for it, an entry is put in within both ceilings. -/
theorem Sound.replace (hc : c.Sound) {e : Entry} (h : c.roomNeeded e.key e.size = .none) (v : Json) :
    (c.replace e v).Sound := by
  have haccurate := hc.accurate.detach e.key
  have hnone : (c.table.detach e.key).find? e.key = none := by simp
  have hmem := hc.memory_le
  have hsize := hc.size_le
  refine ⟨replace_table c e v ▸ haccurate.attach e, ?_, ?_⟩
  · rw [replace_table, Table.memory_attach hnone, replace_settings]
    rw [roomNeeded] at h
    split at h
    · -- the room of an older entry counts as free, and it is taken out first
      rename_i old hold
      have := hc.accurate.size_le hold
      rw [Table.memory_detach hold]
      simp only [Target.none, Target.mk.injEq] at h
      omega
    · rename_i hfree
      rw [Table.detach_eq_self hfree]
      simp only [Target.none, Target.mk.injEq] at h
      omega
  · rw [replace_table, Table.size_attach hnone, replace_settings]
    rw [roomNeeded] at h
    split at h
    · rename_i old hold
      have := hc.accurate.length_detach hold
      rw [Table.length_entries] at this
      omega
    · rename_i hfree
      rw [Table.detach_eq_self hfree]
      simp only [Target.none, Target.mk.injEq] at h
      omega

/-! ### Loading -/

theorem Sound.load (hc : c.Sound) (now : Instant) (s : Snapshot) : (c.load now s).2.Sound := by
  rw [Cache.load]
  split
  · exact hc
  · rename_i hfree
    rw [Bool.not_eq_true, Option.isSome_eq_false_iff, Option.isNone_iff_eq_none] at hfree
    dsimp only
    split
    · rename_i hfit
      have hfree' : c.table.find? (c.entryOf now s).key = none := hfree
      simp only [fitsBeside, Bool.and_eq_true, decide_eq_true_eq] at hfit
      refine ⟨hc.accurate.attach _, ?_, ?_⟩
      · exact Table.memory_attach hfree' ▸ hfit.2
      · exact Table.size_attach hfree' ▸ hfit.1
    · exact ⟨hc.accurate, hc.memory_le, hc.size_le⟩

theorem Sound.loadAll (hc : c.Sound) (now : Instant) (live : List Snapshot) : (Cache.loadAll now live c).2.Sound := by
  induction live generalizing c with
  | nil => exact hc
  | cons s rest ih => exact ih (hc.load now s)

end Cache

end ResultCache
