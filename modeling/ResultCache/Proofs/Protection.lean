import ResultCache.Proofs.Freshness

/-!
# Critical entries stay

As long as a critical entry is fresh, nothing takes it out of the table but a caller who asks for that, a new result
under its key, or a read that can no longer unpack it (`Session.critical_entry_stays`).  Every removal that makes room
or sweeps picks its victims by a rule of its own, and none of the rules picks a protected entry (`Cache.Spares`);
loading adds entries and replaces none.
-/

namespace ResultCache

namespace Cache

variable {c c' : Cache} {now : Instant}

/-- Each protected entry is found as it was. -/
def Spares (now : Instant) (c c' : Cache) : Prop :=
  ∀ key e, c.table.find? key = some e → e.isProtected now = true → c'.table.find? key = some e

theorem Spares.refl (now : Instant) (c : Cache) : Spares now c c :=
  fun _ _ he _ => he

theorem Spares.trans {c'' : Cache} (h : Spares now c c') (h' : Spares now c' c'') : Spares now c c'' :=
  fun key e he hp => h' key e (h key e he hp) hp

/-- An entry that is none of those that are removed is found as before. -/
theorem find?_removeAll_map (hc : c.table.Accurate) {entries : List Entry} (hsub : ∀ e ∈ entries, e ∈ c.table.entries)
    (why : Removal) {key : String} {e : Entry} (he : c.table.find? key = some e) (hne : e ∉ entries) :
    (c.removeAll (entries.map Entry.key) why).table.find? key = some e := by
  have hkey : key ∉ entries.map Entry.key := by
    intro hmem
    obtain ⟨e', he', rfl⟩ := List.mem_map.1 hmem
    have hfound := hc.mem_entries_iff.1 (hsub e' he')
    rw [he, Option.some.injEq] at hfound
    exact hne (hfound ▸ he')
  rw [find?_removeAll, if_neg hkey, he]

/-- A removal of entries that are not protected. -/
theorem removeAll_spares (hc : c.table.Accurate) {entries : List Entry} (hsub : ∀ e ∈ entries, e ∈ c.table.entries)
    (hfree : ∀ e ∈ entries, e.isProtected now = false) (why : Removal) :
    Spares now c (c.removeAll (entries.map Entry.key) why) := by
  intro key e he hp
  refine find?_removeAll_map hc hsub why he fun hmem => ?_
  rw [hfree e hmem] at hp
  cases hp

/-! ### Sweeps, pressure and room -/

theorem purgeExpired_spares (hc : c.table.Accurate) (now : Instant) : Spares now c (c.purgeExpired now).2 := by
  refine removeAll_spares hc (fun e he => (List.mem_filter.1 he).1) (fun e he => ?_) _
  have hexpired := (List.mem_filter.1 he).2
  rw [Entry.isProtected, hexpired]
  exact Bool.and_false _

theorem relievePressure_spares (hc : c.table.Accurate) (now : Instant) : Spares now c (c.relievePressure now).2 := by
  rw [relievePressure]
  split
  · exact .refl now c
  · exact removeAll_spares hc (fun e he => (Victims.mem_select he).1) (fun e he => (Victims.mem_select he).2) _

theorem evictPasses_spares (hc : c.table.Accurate) (now : Instant) (key : String) (size fuel : Nat) :
    Spares now c (evictPasses key size now fuel c) := by
  induction fuel generalizing c with
  | zero => exact .refl now c
  | succ fuel ih =>
    rw [evictPasses]
    split
    · exact .refl now c
    · split
      · exact .refl now c
      · -- one pass leaves the protected entries, and so do those after it
        have pass :
            Spares now c (c.removeAll ((c.passVictims key now (c.roomNeeded key size)).map Entry.key) .evicted) :=
          removeAll_spares hc (fun e he => (List.mem_filter.1 (Victims.mem_select he).1).1)
            (fun e he => (Victims.mem_select he).2) _
        exact pass.trans (ih ((pass_trims hc now key _).accurate hc))

theorem makeRoom_spares (hc : c.table.Accurate) (now : Instant) (key : String) (size : Nat) :
    Spares now c (c.makeRoom key size now).2 := by
  have purge := purgeExpired_spares hc now
  have passes := evictPasses_spares ((purgeExpired_trims hc now).accurate hc) now key size
    (c.purgeExpired now).2.table.size
  rw [makeRoom]
  dsimp only
  split
  · exact .refl now c
  · split
    · exact purge
    · split
      · exact purge
      · split
        · exact purge
        · split
          · exact purge.trans passes
          · exact purge.trans passes

/-! ### Storing, reading and loading -/

/-- A call that stores a value leaves a protected entry, unless it succeeds under the key of the entry. -/
theorem find?_set_of_isProtected (hc : c.table.Accurate) {r : Request} {v : Json} {o : SetOptions} {key : String}
    {e : Entry} (he : c.table.find? key = some e) (hp : e.isProtected now = true)
    (hkey : ¬ (c.keyFor r = key ∧ (c.set now r v o).1 = .ok ())) :
    (c.set now r v o).2.table.find? key = some e := by
  have spares := makeRoom_spares hc now (c.entryFor now r v o).key (c.entryFor now r v o).size
  rw [set] at hkey ⊢
  split
  · exact he
  · split
    · rename_i f c' heq
      rw [heq] at spares
      exact spares key e he hp
    · rename_i c' heq
      rw [heq] at spares
      have hother : key ≠ (c.entryFor now r v o).key := by
        intro hsame
        refine hkey ⟨hsame.symm, ?_⟩
        simp only [*, if_false]
      rw [replace_table, Table.find?_attach, if_neg hother, Table.find?_detach, if_neg hother]
      exact spares key e he hp

/-- A read leaves a fresh entry, with a note of the read perhaps, unless it is of the entry and cannot unpack it. -/
theorem find?_getByKey_of_fresh {x key : String} {e : Entry} (he : c.table.find? key = some e)
    (hfresh : e.isExpired now = false) (hread : ¬ (x = key ∧ c.decode e.value = none)) :
    ∃ e', (c.getByKey now x).2.table.find? key = some e' ∧ e'.asMade = e.asMade := by
  by_cases hx : x = key
  · subst hx
    have hdecode : c.decode e.value ≠ none := fun h => hread ⟨rfl, h⟩
    obtain ⟨v, hv⟩ := Option.ne_none_iff_exists'.1 hdecode
    refine ⟨e.touch now, ?_, rfl⟩
    simp [getByKey, he, hfresh, hv]
  · refine ⟨e, ?_, rfl⟩
    have hx' : key ≠ x := Ne.symm hx
    rw [getByKey]
    split
    · exact he
    · split
      · rw [removeEntry_table, Table.find?_detach, if_neg hx', he]
      · split
        · rw [removeEntry_table, Table.find?_detach, if_neg hx', he]
        · rw [Table.find?_update, if_neg hx', he]

/-- Loading a record leaves the entries that are there. -/
theorem find?_load {now : Instant} {s : Snapshot} {key : String} {e : Entry} (he : c.table.find? key = some e) :
    (c.load now s).2.table.find? key = some e := by
  rw [load]
  split
  · exact he
  · rename_i hfree
    dsimp only
    split
    · have hne : key ≠ (c.entryOf now s).key := by
        intro hkey
        have hkey : key = s.key := hkey
        rw [hkey] at he
        simp [he] at hfree
      rw [Table.find?_attach, if_neg hne, he]
    · exact he

theorem find?_loadAll (now : Instant) (live : List Snapshot) {key : String} {e : Entry}
    (he : c.table.find? key = some e) : (loadAll now live c).2.table.find? key = some e := by
  induction live generalizing c with
  | nil => exact he
  | cons s rest ih => exact ih (find?_load he)

/-- The entry of a snapshot is the same before and after a record was loaded. -/
theorem entryOf_load (c : Cache) (now : Instant) (loaded s : Snapshot) :
    (c.load now loaded).2.entryOf now s = c.entryOf now s := by
  rw [load]
  split
  · rfl
  · dsimp only
    split <;> rfl

/-- An entry that is found after a record was loaded was there, or none was and it is the entry of the record. -/
theorem find?_load_cases {now : Instant} {s : Snapshot} {key : String} {e : Entry}
    (he : (c.load now s).2.table.find? key = some e) :
    c.table.find? key = some e ∨ c.table.find? key = none ∧ s.key = key ∧ e = c.entryOf now s := by
  rw [load] at he
  split at he
  · exact .inl he
  · rename_i hfree
    dsimp only at he
    split at he
    · rw [Table.find?_attach] at he
      split at he
      · rename_i hkey
        have hkey : key = s.key := hkey
        exact .inr ⟨by simpa [hkey] using hfree, hkey.symm, (Option.some.inj he).symm⟩
      · exact .inl he
    · exact .inl he

theorem find?_loadAll_cases (now : Instant) (live : List Snapshot) {key : String} {e : Entry}
    (he : (loadAll now live c).2.table.find? key = some e) :
    c.table.find? key = some e ∨
      c.table.find? key = none ∧ ∃ s ∈ live, s.key = key ∧ e = c.entryOf now s := by
  induction live generalizing c with
  | nil => exact .inl he
  | cons s rest ih =>
    rcases ih he with hfound | ⟨hnone, s', hs', hkey, heq⟩
    · rcases find?_load_cases hfound with hfound | ⟨hnone, hkey, heq⟩
      · exact .inl hfound
      · exact .inr ⟨hnone, s, List.mem_cons_self, hkey, heq⟩
    · refine .inr ⟨?_, s', List.mem_cons_of_mem _ hs', hkey, heq.trans (entryOf_load ..)⟩
      -- what is there is not lost by loading
      cases hfind : c.table.find? key with
      | none => rfl
      | some old =>
        have hsome : (c.load now s).2.table.find? key = some old := find?_load hfind
        exact hsome.symm.trans hnone

end Cache

namespace Schedule

theorem tick_spares {c : Cache} (hc : c.table.Accurate) (s : Schedule) (at' now : Instant) :
    Cache.Spares now c (s.tick at' now c).2.2 := by
  have sweep : Cache.Spares now c (s.sweep at' now c).2.2 := by
    rw [Schedule.sweep]
    split
    · exact Cache.purgeExpired_spares hc now
    · exact .refl now c
  have check : ∀ {c : Cache}, c.table.Accurate → ∀ s : Schedule,
      Cache.Spares now c (s.checkPressure at' now c).2.2 := by
    intro c hc s
    rw [checkPressure]
    split
    · exact Cache.relievePressure_spares hc now
    · exact .refl now c
  exact sweep.trans (check ((sweep_trims hc s at' now).accurate hc) _)

end Schedule

namespace Session

variable {σ : Type} {store : Store σ} {s : Session σ}

/-- Whether a command may take a fresh critical entry out of the table: a read of it that cannot unpack it, what
supersedes it, or a restart, with which the table is lost. -/
def MayDrop (s : Session σ) (e : Entry) : Command → Prop
  | .get r => s.cache.keyFor r = e.key ∧ s.cache.decode e.value = none
  | .getAs r _ => s.cache.keyFor r = e.key ∧ s.cache.decode e.value = none
  | .getByKey key => key = e.key ∧ s.cache.decode e.value = none
  | .restart _ _ => True
  | command => s.Supersedes e.key e.source command

/-- In a run an entry is fresh at each command, and no command may drop it. -/
def LeavesAlone (store : Store σ) (e : Entry) : Session σ → List Command → Prop
  | _, [] => True
  | s, command :: rest =>
    (e.isExpired s.now = false ∧ ¬ s.MayDrop e command) ∧ LeavesAlone store e (s.step store command).2 rest

theorem MayDrop.congr {e e' : Entry} (h : e'.asMade = e.asMade) {command : Command} (hc : s.MayDrop e' command) :
    s.MayDrop e command := by
  have hkey : e'.key = e.key := (congrArg Entry.key h :)
  have hvalue : e'.value = e.value := (congrArg Entry.value h :)
  have hsource : e'.source = e.source := (congrArg Entry.source h :)
  have hsame : s.MayDrop e' command = s.MayDrop e command := by
    cases command <;> simp only [MayDrop, hkey, hvalue, hsource]
  exact hsame ▸ hc

theorem LeavesAlone.congr {e e' : Entry} (h : e'.asMade = e.asMade) {commands : List Command}
    (hleft : LeavesAlone store e s commands) : LeavesAlone store e' s commands := by
  have hcreated : e'.created = e.created := (congrArg Entry.created h :)
  have httl : e'.ttl = e.ttl := (congrArg Entry.ttl h :)
  induction commands generalizing s with
  | nil => trivial
  | cons command rest ih =>
    obtain ⟨⟨hfresh, hkept⟩, hrest⟩ := hleft
    refine ⟨⟨?_, fun hdrop => hkept (hdrop.congr h)⟩, ih hrest⟩
    rw [Entry.isExpired, Entry.age, hcreated, httl]
    exact hfresh

/-- A command that may not drop a fresh critical entry leaves it under its key. -/
theorem find?_step_of_critical (store : Store σ) (hs : s.cache.Sound) {key : String} {e : Entry}
    (he : s.cache.table.find? key = some e) (hcritical : e.priority = .critical) (hfresh : e.isExpired s.now = false)
    {command : Command} (hkept : ¬ s.MayDrop e command) :
    ∃ e', (s.step store command).2.cache.table.find? key = some e' ∧ e'.asMade = e.asMade := by
  have hkey : e.key = key := hs.accurate.key_of_find? he
  have hp : e.isProtected s.now = true := by
    rw [Entry.isProtected, hcritical, hfresh]
    rfl
  have spared : ∀ {c : Cache}, Cache.Spares s.now s.cache c →
      ∃ e', c.table.find? key = some e' ∧ e'.asMade = e.asMade :=
    fun h => ⟨e, h key e he hp, rfl⟩
  have untouched : ∃ e', s.cache.table.find? key = some e' ∧ e'.asMade = e.asMade := ⟨e, he, rfl⟩
  cases command with
  | set r v o =>
    have hset : ¬ (s.cache.keyFor r = key ∧ (s.cache.set s.now r v o).1 = .ok ()) := hkey ▸ hkept
    exact ⟨e, Cache.find?_set_of_isProtected hs.accurate he hp hset, rfl⟩
  | get r => exact Cache.find?_getByKey_of_fresh he hfresh (hkey ▸ hkept)
  | getByKey x => exact Cache.find?_getByKey_of_fresh he hfresh (hkey ▸ hkept)
  | getAs r kind => exact Cache.find?_getByKey_of_fresh he hfresh (hkey ▸ hkept)
  | has r => exact untouched
  | invalidate r =>
    have hne : key ≠ s.cache.keyFor r := fun h => hkept (hkey.trans h).symm
    have hfound : (s.cache.remove (s.cache.keyFor r) .invalidated).table.find? key = some e := by
      rw [Cache.remove_table, Table.find?_detach, if_neg hne, he]
    exact ⟨e, hfound, rfl⟩
  | invalidatePattern pattern =>
    have hne : e ∉ s.cache.table.entries.filter fun e => Text.contains e.source pattern :=
      fun hmem => hkept (List.mem_filter.1 hmem).2
    exact ⟨e, Cache.find?_removeAll_map hs.accurate (fun _ he => (List.mem_filter.1 he).1) _ he hne, rfl⟩
  | clear => exact absurd trivial hkept
  | purge => exact spared (Cache.purgeExpired_spares hs.accurate _)
  | relieve => exact spared (Cache.relievePressure_spares hs.accurate _)
  | tick at' => exact spared (Schedule.tick_spares hs.accurate s.schedule (at'.getD s.now) s.now)
  | maintain => exact spared (Schedule.tick_spares hs.accurate (.fresh s.cache.settings) s.now s.now)
  | rehydrate =>
    obtain ⟨live, hload⟩ := rehydrate_eq_loadAll store s.cache s.now s.contents
    have hcache : (s.step store .rehydrate).2.cache = (Cache.loadAll s.now live s.cache).2 := hload
    exact ⟨e, hcache ▸ Cache.find?_loadAll s.now live he, rfl⟩
  | advance span => exact untouched
  | setClock t => exact untouched
  | writeNext =>
    simp only [step, writeNext]
    split <;> exact untouched
  | write =>
    simp only [step, write]
    split <;> exact untouched
  | barrier =>
    simp only [step, writeToBarrier]
    split <;> exact untouched
  | disconnect => exact untouched
  | restart settings codec => exact absurd trivial hkept

/-- From every reachable session on, a critical entry stays in the table as long as it is fresh, whatever the weights,
the bounds of a pass and the watermarks: through every set of another key and every failed one, every sweep, pass and
tick, and every loading of records.  Only what reads note of it changes. -/
theorem critical_entry_stays (h : s.Reachable store) {e : Entry} (he : e ∈ s.cache.table.entries)
    (hcritical : e.priority = .critical) {commands : List Command} (hleft : LeavesAlone store e s commands) :
    ∃ e' ∈ (run store commands s).cache.table.entries,
      e' = { e with accessCount := e'.accessCount, lastAccess := e'.lastAccess } := by
  induction commands generalizing s e with
  | nil => exact ⟨e, he, rfl⟩
  | cons command rest ih =>
    obtain ⟨⟨hfresh, hkept⟩, hrest⟩ := hleft
    have hfound := h.sound.accurate.mem_entries_iff.1 he
    obtain ⟨e₁, hfound₁, hmade⟩ := find?_step_of_critical store h.sound hfound hcritical hfresh hkept
    have hkey : e₁.key = e.key := (congrArg Entry.key hmade :)
    have he₁ : e₁ ∈ (s.step store command).2.cache.table.entries :=
      (h.step command).sound.accurate.mem_entries_iff.2 (hkey ▸ hfound₁)
    have hcritical₁ : e₁.priority = .critical := (congrArg Entry.priority hmade :).trans hcritical
    obtain ⟨e', he', heq⟩ := ih (h.step command) he₁ hcritical₁ (hrest.congr hmade)
    refine ⟨e', he', ?_⟩
    rw [heq]
    obtain ⟨⟩ := e
    obtain ⟨⟩ := e₁
    simp only [Entry.asMade, Entry.mk.injEq] at hmade ⊢
    simp [hmade]

/-- A session without a tier, with one place, where any memory in use is too much. -/
private def cramped : Session MemoryStore :=
  ofEmpty { Settings.default with maxEntries := 1, highWatermark := 0.0, lowWatermark := 0.0 } .runLength none ⟨0⟩
    (.fresh .default) .empty

/-- The entry that takes the place. -/
private def tenant : Entry :=
  cramped.cache.entryFor cramped.now ⟨"/a", none, none⟩ (.int 1) ⟨none, .critical⟩

private def occupied : Session MemoryStore :=
  (cramped.step MemoryStore.store (.set ⟨"/a", none, none⟩ (.int 1) ⟨none, .critical⟩)).2

/-- Another critical entry is refused, memory is short, and the last moment of the time to live comes. -/
private def pressing : List Command :=
  [.set ⟨"/b", none, none⟩ (.int 2) ⟨none, .critical⟩, .relieve, .getByKey "::/a", .advance (.ofSeconds 300),
   .tick none, .purge, .rehydrate]

theorem critical_entry_stays_pressed :
    ∃ e' ∈ (run MemoryStore.store pressing occupied).cache.table.entries,
      e' = { tenant with accessCount := e'.accessCount, lastAccess := e'.lastAccess } := by
  have hok : (cramped.cache.set cramped.now ⟨"/a", none, none⟩ (.int 1) ⟨none, .critical⟩).1.isOk = true := by
    decide +kernel
  have hstored : (cramped.cache.set cramped.now ⟨"/a", none, none⟩ (.int 1) ⟨none, .critical⟩).1 = .ok () := by
    cases hresult : (cramped.cache.set cramped.now ⟨"/a", none, none⟩ (.int 1) ⟨none, .critical⟩).1 with
    | ok => rfl
    | error f =>
      rw [hresult] at hok
      cases hok
  have hfound := Cache.find?_set Table.accurate_empty hstored
  have hreachable : occupied.Reachable MemoryStore.store := .step (.ofEmpty ..) _
  have htenant : tenant ∈ occupied.cache.table.entries := hreachable.sound.accurate.mem_entries_iff.2 hfound
  refine critical_entry_stays hreachable htenant rfl ?_
  refine ⟨⟨by decide +kernel, fun h => absurd h.1 (by decide +kernel)⟩, ⟨by decide +kernel, id⟩,
    ⟨by decide +kernel, fun h => absurd (congrArg Option.isNone h.2) (by decide +kernel)⟩,
    ⟨by decide +kernel, id⟩, ⟨by decide +kernel, id⟩,
    ⟨by decide +kernel, id⟩, ⟨by decide +kernel, id⟩, trivial⟩

end Session

end ResultCache
