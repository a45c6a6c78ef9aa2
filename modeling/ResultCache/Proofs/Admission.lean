import Mathlib.Data.List.Basic
import ResultCache.Proofs.Transition
import ResultCache.Store.Memory

/-!
# Admission

A new entry is stored exactly if it fits both ceilings beside the rivals, the protected entries under other keys
(`set_admission`).  If it does, the eviction passes make room in any case, however they are bounded: each removes an
entry, and once no entry is left that may go, only the rivals and an older entry of the key remain
(`roomNeeded_evictPasses`).  A call that fails has removed expired entries at most (`set_frame`).
-/

namespace ResultCache

namespace Table

theorem totalSize_filter_add (entries : List Entry) (p : Entry → Bool) :
    totalSize (entries.filter p) + totalSize (entries.filter fun e => !p e) = totalSize entries := by
  induction entries with
  | nil => rfl
  | cons e rest ih =>
    simp only [totalSize] at ih
    cases h : p e <;> simp [totalSize, h] <;> omega

end Table

namespace Cache

variable {c : Cache} {now : Instant}

/-- The entries under other keys. -/
def others (c : Cache) (key : String) : List Entry :=
  c.table.entries.filter fun e => e.key != key

/-- The entries under other keys that are protected. -/
def rivals (c : Cache) (key : String) (now : Instant) : List Entry :=
  c.table.entries.filter fun e => e.key != key && e.isProtected now

/-- The entries under other keys that are not protected. -/
def loose (c : Cache) (key : String) (now : Instant) : List Entry :=
  c.table.entries.filter fun e => e.key != key && !e.isProtected now

theorem rivals_eq_filter (c : Cache) (key : String) (now : Instant) :
    c.rivals key now = (c.others key).filter fun e => e.isProtected now := by
  rw [others, rivals, List.filter_filter]
  exact List.filter_congr fun e _ => Bool.and_comm ..

theorem loose_eq_filter (c : Cache) (key : String) (now : Instant) :
    c.loose key now = (c.others key).filter fun e => !e.isProtected now := by
  rw [others, loose, List.filter_filter]
  exact List.filter_congr fun e _ => Bool.and_comm ..

theorem totalSize_others (c : Cache) (key : String) (now : Instant) :
    Table.totalSize (c.others key) = Table.totalSize (c.rivals key now) + Table.totalSize (c.loose key now) := by
  rw [rivals_eq_filter, loose_eq_filter, Table.totalSize_filter_add]

theorem length_others (c : Cache) (key : String) (now : Instant) :
    (c.others key).length = (c.rivals key now).length + (c.loose key now).length := by
  rw [rivals_eq_filter, loose_eq_filter, List.length_eq_length_filter_add fun e => e.isProtected now]

/-- The entries that are left after the removal of some keys. -/
theorem entries_removeAll (hc : c.table.Accurate) (keys : List String) (why : Removal) :
    (c.removeAll keys why).table.entries = c.table.entries.filter fun e => !keys.contains e.key := by
  rw [Table.entries, rows_removeAll, Table.entries, List.filter_map]
  congr 1
  refine List.filter_congr fun row hrow => ?_
  rw [hc.keyed row hrow]
  rfl

/-- Whether an entry is found tells whether it is one of some entries of the table. -/
theorem contains_key_iff (hc : c.table.Accurate) {entries : List Entry} (hsub : ∀ e ∈ entries, e ∈ c.table.entries)
    {e : Entry} (he : e ∈ c.table.entries) : (entries.map Entry.key).contains e.key = true ↔ e ∈ entries := by
  rw [List.contains_iff_mem, List.mem_map]
  refine ⟨fun ⟨e', he', hkey⟩ => ?_, fun h => ⟨e, h, rfl⟩⟩
  have hfound := hc.mem_entries_iff.1 (hsub e' he')
  rw [hkey, hc.mem_entries_iff.1 he] at hfound
  exact Option.some.inj hfound ▸ he'

/-- A purge leaves the entries that are not expired. -/
theorem entries_purgeExpired (hc : c.table.Accurate) (now : Instant) :
    (c.purgeExpired now).2.table.entries = c.table.entries.filter fun e => !e.isExpired now := by
  show (c.removeAll (c.expiredKeys now) .expired).table.entries = _
  rw [entries_removeAll hc]
  refine List.filter_congr fun e he => congrArg (!·) (Bool.eq_iff_iff.2 ?_)
  rw [expiredKeys, contains_key_iff hc (fun e he => (List.mem_filter.1 he).1) he]
  simp [he]

/-! ### Room -/

/-- What has to go depends on the other entries only, and on whether there is an older entry of the key. -/
theorem roomNeeded_eq (hc : c.table.Accurate) (key : String) (size : Nat) :
    c.roomNeeded key size =
      ⟨Table.totalSize (c.others key) + size - c.settings.maxMemory,
        if (c.table.find? key).isSome then 0 else (c.others key).length + 1 - c.settings.maxEntries⟩ := by
  have hothers : c.others key = (c.table.detach key).entries := (hc.entries_detach key).symm
  have hmem := (hc.detach key).memory_eq
  rw [hothers, ← hmem, Table.length_entries]
  cases h : c.table.find? key with
  | none => rw [roomNeeded, h, Table.detach_eq_self h]; rfl
  | some old => rw [roomNeeded, h, Table.memory_detach h]; rfl

/-- Beside an older entry of the key the others are fewer than may be held. -/
theorem length_others_lt (hc : c.Sound) {key : String} (h : (c.table.find? key).isSome = true) :
    (c.others key).length + 1 ≤ c.settings.maxEntries := by
  obtain ⟨old, hold⟩ := Option.isSome_iff_exists.1 h
  rw [others, ← hc.accurate.entries_detach, hc.accurate.length_detach hold]
  exact hc.size_le

/-- An entry of a key and a size fits beside the rivals. -/
structure Fits (c : Cache) (key : String) (size : Nat) (now : Instant) : Prop where
  memory : Table.totalSize (c.rivals key now) + size ≤ c.settings.maxMemory
  count : (c.rivals key now).length + 1 ≤ c.settings.maxEntries

theorem length_loose_le (c : Cache) (key : String) (now : Instant) : (c.loose key now).length ≤ c.table.size :=
  Table.length_entries c.table ▸ List.length_filter_le ..

theorem Fits.congr {c' : Cache} {key : String} {size : Nat} (h : c.Fits key size now)
    (hrivals : c'.rivals key now = c.rivals key now) (hsettings : c'.settings = c.settings) :
    c'.Fits key size now :=
  ⟨by rw [hrivals, hsettings]; exact h.memory, by rw [hrivals, hsettings]; exact h.count⟩

/-- Where there is room, an entry fits. -/
theorem fits_of_roomNeeded (hc : c.Sound) {key : String} {size : Nat} (h : c.roomNeeded key size = .none)
    (now : Instant) : c.Fits key size now := by
  have hsum := totalSize_others c key now
  have hlen := length_others c key now
  rw [roomNeeded_eq hc.accurate] at h
  simp only [Target.none, Target.mk.injEq] at h
  refine ⟨by omega, ?_⟩
  by_cases hold : (c.table.find? key).isSome = true
  · have := length_others_lt hc hold
    omega
  · rw [if_neg hold] at h
    omega

/-- Where an entry fits and no entry is left that may go, there is room. -/
theorem roomNeeded_of_loose_eq_nil (hc : c.table.Accurate) {key : String} {size : Nat} (hfits : c.Fits key size now)
    (hloose : c.loose key now = []) : c.roomNeeded key size = .none := by
  have hsum := totalSize_others c key now
  have hlen := length_others c key now
  have hmem := hfits.memory
  have hcount := hfits.count
  rw [hloose] at hsum hlen
  rw [roomNeeded_eq hc]
  simp only [Target.none, Target.mk.injEq]
  simp only [Table.totalSize, List.map_nil, List.sum_nil, List.length_nil, Nat.add_zero] at hsum hlen hmem
  refine ⟨by simp only [Table.totalSize]; omega, ?_⟩
  split <;> omega

/-! ### Passes -/

/-- A pass leaves the rivals and removes at least one of the entries that may go. -/
private theorem pass_progress (hc : c.table.Accurate) {key : String} {target : Target} {victims : List Entry}
    (hv : c.passVictims key now target = victims) (hne : victims ≠ []) :
    (c.removeAll (victims.map Entry.key) .evicted).rivals key now = c.rivals key now ∧
      ((c.removeAll (victims.map Entry.key) .evicted).loose key now).length < (c.loose key now).length := by
  have hmem : ∀ e ∈ victims, e ∈ c.table.entries ∧ e.key ≠ key ∧ e.isProtected now = false := by
    intro e he
    obtain ⟨he, hfree⟩ := Victims.mem_select (hv ▸ he)
    simp only [List.mem_filter, bne_iff_ne] at he
    exact ⟨he.1, he.2, hfree⟩
  have hgone := fun e he => @contains_key_iff c hc victims (fun e he => (hmem e he).1) e he
  rw [rivals, rivals, loose, loose, entries_removeAll hc, List.filter_filter, List.filter_filter]
  constructor
  · -- a victim is not protected, so no rival is one
    refine List.filter_congr fun e he => ?_
    cases hgone' : (victims.map Entry.key).contains e.key with
    | false => simp
    | true => simp [(hmem e ((hgone e he).1 hgone')).2.2]
  · -- the first victim is one that may go and is gone
    obtain ⟨e, he⟩ := List.exists_mem_of_ne_nil victims hne
    obtain ⟨hin, hkey, hfree⟩ := hmem e he
    have hsplit : (c.table.entries.filter fun e =>
          (e.key != key && !e.isProtected now) && !(victims.map Entry.key).contains e.key) =
        (c.table.entries.filter fun e => e.key != key && !e.isProtected now).filter
          fun e => !(victims.map Entry.key).contains e.key := by
      rw [List.filter_filter]
      exact List.filter_congr fun e _ => Bool.and_comm ..
    rw [hsplit]
    refine List.length_filter_lt_length_iff_exists.2 ⟨e, List.mem_filter.2 ⟨hin, by simp [hkey, hfree]⟩, ?_⟩
    simpa using (hgone e hin).2 he

/-- A pass that has something to free finds a victim if an entry is left that may go. -/
private theorem passVictims_ne_nil {key : String} {target : Target} (ht : target ≠ .none)
    (hloose : c.loose key now ≠ []) : c.passVictims key now target ≠ [] := by
  obtain ⟨e, he⟩ := List.exists_mem_of_ne_nil _ hloose
  simp only [loose, List.mem_filter, Bool.and_eq_true, Bool.not_eq_true'] at he
  exact Victims.select_ne_nil ht (List.mem_filter.2 ⟨he.1, he.2.1⟩) he.2.2

/-- If the entry fits, the passes end with room for it, once they are as many as there are entries that may go. -/
theorem roomNeeded_evictPasses (hc : c.table.Accurate) {key : String} {size fuel : Nat} (hfits : c.Fits key size now)
    (hfuel : (c.loose key now).length ≤ fuel) : (evictPasses key size now fuel c).roomNeeded key size = .none := by
  induction fuel generalizing c with
  | zero =>
    have hnil : c.loose key now = [] := List.eq_nil_of_length_eq_zero (by omega)
    exact roomNeeded_of_loose_eq_nil hc hfits hnil
  | succ fuel ih =>
    rw [evictPasses]
    split
    · assumption
    · rename_i hneeded
      have hloose : c.loose key now ≠ [] := fun h => hneeded (roomNeeded_of_loose_eq_nil hc hfits h)
      split
      · rename_i hv
        exact absurd hv (passVictims_ne_nil hneeded hloose)
      · rename_i victims hne
        -- the rivals stay, so the entry still fits, with fewer passes to come
        obtain ⟨hrivals, hless⟩ := @pass_progress c now hc key _ _ rfl (passVictims_ne_nil hneeded hloose)
        have pass := pass_trims hc now key (c.roomNeeded key size)
        exact ih (pass.accurate hc) (hfits.congr hrivals pass.settings_eq) (by omega)

/-! ### The criterion -/

/-- The rivals are there after a purge as before. -/
theorem rivals_purgeExpired (hc : c.table.Accurate) (key : String) (now : Instant) :
    (c.purgeExpired now).2.rivals key now = c.rivals key now := by
  rw [rivals, rivals, entries_purgeExpired hc, List.filter_filter]
  refine List.filter_congr fun e _ => ?_
  cases h : e.isExpired now <;> simp [Entry.isProtected, h]

/-- After a purge the entries that may go are those that are not critical. -/
theorem evictable_purgeExpired (hc : c.table.Accurate) (key : String) (now : Instant) :
    (c.purgeExpired now).2.evictable key = (c.purgeExpired now).2.loose key now := by
  rw [evictable, loose]
  refine List.filter_congr fun e he => ?_
  rw [entries_purgeExpired hc, List.mem_filter, Bool.not_eq_true'] at he
  simp [Entry.isProtected, he.2, bne]

/-- What may go does not give the bytes that are needed exactly if the rivals leave too little memory. -/
theorem lt_bytes_roomNeeded_iff (hc : c.table.Accurate) (key : String) (size : Nat) (now : Instant) :
    Table.totalSize (c.loose key now) < (c.roomNeeded key size).bytes ↔
      c.settings.maxMemory < Table.totalSize (c.rivals key now) + size := by
  have := totalSize_others c key now
  rw [roomNeeded_eq hc]
  dsimp only
  omega

/-- What may go does not give the entries that are needed exactly if the rivals leave no place. -/
theorem lt_entries_roomNeeded_iff (hc : c.Sound) (key : String) (size : Nat) (now : Instant) :
    (c.loose key now).length < (c.roomNeeded key size).entries ↔
      c.settings.maxEntries < (c.rivals key now).length + 1 := by
  have hlen := length_others c key now
  rw [roomNeeded_eq hc.accurate]
  dsimp only
  split
  · rename_i hold
    have := length_others_lt hc hold
    omega
  · omega

/-- Whether room is made is decided by the rivals alone.  Where it is not, expired entries are removed and no others:
the passes, once begun, end with room. -/
theorem makeRoom_cases (hc : c.Sound) (key : String) (size : Nat) (now : Instant) :
    (c.settings.maxMemory < Table.totalSize (c.rivals key now) + size ∧
        c.makeRoom key size now = (.error (c.doesNotFit size), (c.purgeExpired now).2)) ∨
      (Table.totalSize (c.rivals key now) + size ≤ c.settings.maxMemory ∧
        c.settings.maxEntries < (c.rivals key now).length + 1 ∧
        c.makeRoom key size now =
          (.error (.noneEvictable (c.purgeExpired now).2.table.size), (c.purgeExpired now).2)) ∨
      (c.Fits key size now ∧ (c.makeRoom key size now).1 = .ok ()) := by
  have purge := purgeExpired_trims hc.accurate now
  have hp := purge.sound hc
  have hsettings := purge.settings_eq
  have hrivals := rivals_purgeExpired hc.accurate key now
  have hbytes := lt_bytes_roomNeeded_iff hp.accurate key size now
  have hcount := lt_entries_roomNeeded_iff hp key size now
  rw [hrivals, hsettings] at hbytes hcount
  rw [makeRoom]
  split
  · rename_i hroom
    exact .inr (.inr ⟨fits_of_roomNeeded hc hroom now, rfl⟩)
  · simp only [evictable_purgeExpired hc.accurate, hbytes, hcount, doesNotFit, hsettings]
    split
    · rename_i hroom
      exact .inr (.inr ⟨(fits_of_roomNeeded hp hroom now).congr hrivals.symm hsettings.symm, rfl⟩)
    · split
      · rename_i hmem
        exact .inl ⟨hmem, rfl⟩
      · rename_i hmem
        rw [Nat.not_lt] at hmem
        split
        · rename_i hn
          exact .inr (.inl ⟨hmem, hn, rfl⟩)
        · rename_i hn
          have hfits : c.Fits key size now := ⟨hmem, Nat.not_lt.1 hn⟩
          rw [if_pos (roomNeeded_evictPasses hp.accurate (hfits.congr hrivals hsettings) (length_loose_le _ key now))]
          exact .inr (.inr ⟨hfits, rfl⟩)

/-- Whether a value is stored is decided by the entry that is made for it and by the rivals.  Where it is not, expired
entries are removed at most. -/
theorem set_admission (hc : c.Sound) (now : Instant) (r : Request) (v : Json) (o : SetOptions) :
    (c.settings.maxMemory < Table.totalSize (c.rivals (c.keyFor r) now) + (c.entryFor now r v o).size ∧
        (c.set now r v o).1 = .error (c.doesNotFit (c.entryFor now r v o).size) ∧
        ((c.set now r v o).2 = c ∨ (c.set now r v o).2 = (c.purgeExpired now).2)) ∨
      (Table.totalSize (c.rivals (c.keyFor r) now) + (c.entryFor now r v o).size ≤ c.settings.maxMemory ∧
        c.settings.maxEntries < (c.rivals (c.keyFor r) now).length + 1 ∧
        c.set now r v o = (.error (.noneEvictable (c.purgeExpired now).2.table.size), (c.purgeExpired now).2)) ∨
      (c.Fits (c.keyFor r) (c.entryFor now r v o).size now ∧ (c.set now r v o).1 = .ok ()) := by
  have hkey : (c.entryFor now r v o).key = c.keyFor r := rfl
  rw [set, hkey]
  split
  · exact .inl ⟨by omega, rfl, .inl rfl⟩
  · rcases makeRoom_cases hc (c.keyFor r) (c.entryFor now r v o).size now with ⟨h, eq⟩ | ⟨h, h', eq⟩ | ⟨h, eq⟩
    · rw [eq]
      exact .inl ⟨h, rfl, .inr rfl⟩
    · rw [eq]
      exact .inr (.inl ⟨h, h', rfl⟩)
    · refine .inr (.inr ⟨h, ?_⟩)
      split
      · rename_i heq
        rw [heq] at eq
        cases eq
      · rfl

/-- What comes of a call is told by the memory and the places that the rivals leave. -/
theorem set_outcome (hc : c.Sound) (now : Instant) (r : Request) (v : Json) (o : SetOptions) :
    ((c.set now r v o).1 = .ok () ↔ c.Fits (c.keyFor r) (c.entryFor now r v o).size now) ∧
      ((c.set now r v o).1 = .error (c.doesNotFit (c.entryFor now r v o).size) ↔
        c.settings.maxMemory < Table.totalSize (c.rivals (c.keyFor r) now) + (c.entryFor now r v o).size) ∧
      ((∃ detail, (c.set now r v o).1 = .error (.full detail)) ↔
        Table.totalSize (c.rivals (c.keyFor r) now) + (c.entryFor now r v o).size ≤ c.settings.maxMemory ∧
          c.settings.maxEntries < (c.rivals (c.keyFor r) now).length + 1) := by
  rcases set_admission hc now r v o with ⟨hmem, heq, _⟩ | ⟨hmem, hcount, heq⟩ | ⟨hfits, heq⟩
  · rw [heq]
    refine ⟨iff_of_false nofun fun h => ?_, iff_of_true rfl hmem, iff_of_false nofun fun h => ?_⟩
    · exact Nat.not_lt.2 h.memory hmem
    · exact Nat.not_lt.2 h.1 hmem
  · rw [heq]
    refine ⟨iff_of_false nofun fun h => ?_, iff_of_false nofun (Nat.not_lt.2 hmem), iff_of_true ⟨_, rfl⟩ ⟨hmem, hcount⟩⟩
    exact Nat.not_lt.2 h.count hcount
  · rw [heq]
    refine ⟨iff_of_true rfl hfits, iff_of_false nofun ?_, iff_of_false nofun fun h => ?_⟩
    · exact Nat.not_lt.2 hfits.memory
    · exact Nat.not_lt.2 hfits.count h.2

/-- A call that fails leaves what is not expired as it is, adds nothing, evicts nothing, and queues nothing but
removals of durable records. -/
theorem set_frame (hc : c.Sound) {now : Instant} {r : Request} {v : Json} {o : SetOptions}
    (h : (c.set now r v o).1 ≠ .ok ()) :
    (∀ key e, c.table.find? key = some e → e.isExpired now = false →
        (c.set now r v o).2.table.find? key = some e) ∧
      (∀ key e, (c.set now r v o).2.table.find? key = some e → c.table.find? key = some e) ∧
      (c.set now r v o).2.counters.evictions = c.counters.evictions ∧
      ∃ deleted : List String, (c.set now r v o).2.tier = c.tier.map fun t => deleted.foldl Tier.delete t := by
  have hsnd : (c.set now r v o).2 = c ∨ (c.set now r v o).2 = (c.purgeExpired now).2 := by
    rcases set_admission hc now r v o with ⟨_, _, h'⟩ | ⟨_, _, h'⟩ | ⟨_, h'⟩
    · exact h'
    · rw [h']
      exact .inr rfl
    · exact absurd h' h
  rcases hsnd with h' | h' <;> rw [h']
  · exact ⟨fun _ _ he _ => he, fun _ _ he => he, rfl, [], Option.map_id'.symm⟩
  · refine ⟨fun key e he hfresh => ?_, fun key e he => ?_, evictions_purgeExpired c now,
      (purgeExpired_trims hc.accurate now).tier_eq⟩
    · rw [find?_purgeExpired hc.accurate, he]
      simp [Option.filter, hfresh]
    · rw [find?_purgeExpired hc.accurate] at he
      exact (Option.filter_eq_some_iff.1 he).1

/-- A purge leaves a cache as it is exactly if no entry is expired. -/
theorem purgeExpired_eq_self_iff (hc : c.table.Accurate) (now : Instant) :
    (c.purgeExpired now).2 = c ↔ ∀ e ∈ c.table.entries, e.isExpired now = false := by
  constructor
  · intro h e he
    have hleft := entries_purgeExpired hc now
    rw [h] at hleft
    rw [hleft, List.mem_filter] at he
    simpa using he.2
  · intro hfresh
    have hnone : c.expiredKeys now = [] := by
      unfold expiredKeys
      rw [List.map_eq_nil_iff, List.filter_eq_nil_iff]
      intro e he
      simp [hfresh e he]
    unfold purgeExpired
    rw [hnone]
    rfl

/-- A call that fails for want of memory leaves everything if the entry alone is too large, and else what a purge
leaves. -/
theorem set_of_exhausted (hc : c.Sound) {now : Instant} {r : Request} {v : Json} {o : SetOptions}
    {required budget : Nat} (h : (c.set now r v o).1 = .error (.exhausted required budget)) :
    (c.set now r v o).2 =
      if c.settings.maxMemory < (c.entryFor now r v o).size then c else (c.purgeExpired now).2 := by
  unfold set at h ⊢
  by_cases hlarge : c.settings.maxMemory < (c.entryFor now r v o).size
  · simp only [if_pos hlarge]
  · simp only [if_neg hlarge] at h ⊢
    rcases makeRoom_cases hc (c.entryFor now r v o).key (c.entryFor now r v o).size now with
      ⟨-, hroom⟩ | ⟨-, -, hroom⟩ | ⟨-, hroom⟩
    · rw [hroom]
    · rw [hroom]
    · -- where there is room the call does not fail
      cases hmake : c.makeRoom (c.entryFor now r v o).key (c.entryFor now r v o).size now with
      | mk result c' =>
        rw [hmake] at h hroom
        dsimp only at hroom
        subst hroom
        cases h

end Cache

namespace Session

/-- In every reachable session, a value is stored exactly if its entry fits both ceilings beside the critical entries
under other keys that are not expired; the memory is looked at first.  Once what may go suffices, the passes end with
room, however they are bounded, and a call that fails leaves everything that is not expired in place. -/
theorem set_ok_iff_fits {σ : Type} {store : Store σ} {s : Session σ} (h : s.Reachable store) (r : Request) (v : Json)
    (o : SetOptions) :
    let c := s.cache
    let key := c.keyFor r
    let size := Text.byteLength key + (c.encode v).2
    let critical := c.table.entries.filter fun e => e.key != key && (e.priority == .critical && !e.isExpired s.now)
    let purged := (c.purgeExpired s.now).2
    let needed := purged.roomNeeded key size
    let result := c.set s.now r v o
    (result.1 = .ok () ↔
        Table.totalSize critical + size ≤ c.settings.maxMemory ∧ critical.length + 1 ≤ c.settings.maxEntries) ∧
      (result.1 = .error (.exhausted size c.settings.maxMemory) ↔
        c.settings.maxMemory < Table.totalSize critical + size) ∧
      ((∃ detail, result.1 = .error (.full detail)) ↔
        Table.totalSize critical + size ≤ c.settings.maxMemory ∧ c.settings.maxEntries < critical.length + 1) ∧
      (needed.bytes ≤ Table.totalSize (purged.evictable key) → needed.entries ≤ (purged.evictable key).length →
        ∀ passes, purged.table.size ≤ passes →
          (Cache.evictPasses key size s.now passes purged).roomNeeded key size = .none) ∧
      (result.1 ≠ .ok () →
        (∀ x e, c.table.find? x = some e → e.isExpired s.now = false → result.2.table.find? x = some e) ∧
          (∀ x e, result.2.table.find? x = some e → c.table.find? x = some e) ∧
          result.2.counters.evictions = c.counters.evictions ∧
          ∃ deleted : List String, result.2.tier = c.tier.map fun t => deleted.foldl Tier.delete t) := by
  intro c key size critical purged needed result
  have hc : c.Sound := h.sound
  have hp : purged.Sound := (Cache.purgeExpired_trims hc.accurate s.now).sound hc
  obtain ⟨hok, hmemory, hfull⟩ := Cache.set_outcome hc s.now r v o
  refine ⟨?_, hmemory, hfull, fun hbytes hcount passes hpasses => ?_, Cache.set_frame hc⟩
  · exact hok.trans ⟨fun hfits => ⟨hfits.memory, hfits.count⟩, fun hfits => ⟨hfits.1, hfits.2⟩⟩
  · -- what the check before the passes asks for is that the entry fits
    rw [Cache.evictable_purgeExpired hc.accurate] at hbytes hcount
    have hfits : purged.Fits key size s.now :=
      ⟨Nat.not_lt.1 fun h' => Nat.not_lt.2 hbytes ((Cache.lt_bytes_roomNeeded_iff hp.accurate key size s.now).2 h'),
        Nat.not_lt.1 fun h' => Nat.not_lt.2 hcount ((Cache.lt_entries_roomNeeded_iff hp key size s.now).2 h')⟩
    exact Cache.roomNeeded_evictPasses hp.accurate hfits
      (Nat.le_trans (Cache.length_loose_le purged key s.now) hpasses)

/-- A session whose one place is taken by a critical entry. -/
private def taken : Session MemoryStore :=
  (step MemoryStore.store
    (ofEmpty { Settings.default with maxEntries := 1 } .runLength none ⟨0⟩ (.fresh .default) .empty)
    (.set ⟨"/a", none, none⟩ (.int 1) ⟨none, .critical⟩)).2

theorem set_ok_iff_fits_taken :
    ∃ detail, (taken.cache.set taken.now ⟨"/b", none, none⟩ (.int 2) ⟨none, .low⟩).1 = .error (.full detail) :=
  (set_ok_iff_fits (.step (.ofEmpty ..) _) ⟨"/b", none, none⟩ (.int 2) ⟨none, .low⟩).2.2.1.2 (by decide +kernel)

/-- What a set that fails for want of memory leaves behind in a reachable session: everything, if the entry alone is
larger than the budget, and otherwise exactly what a purge leaves.  So nothing has changed only if the entry was too
large by itself, or no entry was expired. -/
theorem exhausted_set_leaves_purged {σ : Type} {store : Store σ} {s : Session σ} (h : s.Reachable store) (r : Request)
    (v : Json) (o : SetOptions) {required budget : Nat}
    (hfail : (s.cache.set s.now r v o).1 = .error (.exhausted required budget)) :
    let c := s.cache
    let size := Text.byteLength (c.keyFor r) + (c.encode v).2
    let left := (c.set s.now r v o).2
    left = (if c.settings.maxMemory < size then c else (c.purgeExpired s.now).2) ∧
      (left = c ↔ c.settings.maxMemory < size ∨ ∀ e ∈ c.table.entries, e.isExpired s.now = false) := by
  intro c size left
  have hleft : left = if c.settings.maxMemory < size then c else (c.purgeExpired s.now).2 :=
    Cache.set_of_exhausted h.sound hfail
  refine ⟨hleft, ?_⟩
  by_cases hlarge : c.settings.maxMemory < size
  · rw [hleft, if_pos hlarge]
    exact iff_of_true rfl (.inl hlarge)
  · rw [hleft, if_neg hlarge, Cache.purgeExpired_eq_self_iff h.sound.accurate]
    exact ⟨.inr, fun h => h.resolve_left hlarge⟩

/-- A session with little memory, of which a critical entry takes most, beside one with a durable copy that is over its
time. -/
private def lapsed : Session MemoryStore :=
  run MemoryStore.store
    [.set ⟨"/a", none, none⟩ (.int 1) ⟨some (.ofSeconds 1), .high⟩,
      .set ⟨"/c", none, none⟩ (.str "eightbyt") ⟨none, .critical⟩, .write, .advance (.ofSeconds 2)]
    (ofEmpty { Settings.default with maxMemory := 20 } .runLength (some (.ofSpace "memo")) ⟨0⟩ (.fresh .default) .empty)

theorem exhausted_set_leaves_purged_lapsed :
    (lapsed.cache.set lapsed.now ⟨"/b", none, none⟩ (.str "eightbyt") ⟨none, .low⟩).2 =
      (lapsed.cache.purgeExpired lapsed.now).2 := by
  have hreachable : lapsed.Reachable MemoryStore.store := (Reachable.ofEmpty ..).run _
  have hfail : (lapsed.cache.set lapsed.now ⟨"/b", none, none⟩ (.str "eightbyt") ⟨none, .low⟩).1 =
      .error (.exhausted 14 20) := by
    decide +kernel
  have hleft := (exhausted_set_leaves_purged hreachable ⟨"/b", none, none⟩ (.str "eightbyt") ⟨none, .low⟩ hfail).1
  exact hleft.trans (if_neg (by decide +kernel))

/-- A set that fails for want of memory may remove an entry, count it, and queue the removal of its record. -/
theorem exhausted_set_changes_lapsed :
    let result := lapsed.cache.set lapsed.now ⟨"/b", none, none⟩ (.str "eightbyt") ⟨none, .low⟩
    result.1 = .error (.exhausted 14 20) ∧
      (lapsed.cache.table.entries.map Entry.key = ["::/c", "::/a"] ∧ lapsed.cache.table.memory = 19 ∧
        lapsed.cache.counters = ⟨0, 0, 0, 0, 0⟩ ∧ lapsed.cache.tier.map (·.pending.length) = some 0) ∧
      result.2.table.entries.map Entry.key = ["::/c"] ∧ result.2.table.memory = 14 ∧
        result.2.counters = ⟨0, 0, 0, 1, 0⟩ ∧ result.2.tier.map (·.pending.length) = some 1 := by
  decide +kernel

end Session

end ResultCache
