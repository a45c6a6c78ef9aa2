import ResultCache.Proofs.Freshness

/-!
# The tier does not show

What callers see of a cache does not depend on its tier: an entry bears a mark of its durable copy, and nothing but
the queue of the tier ever looks at that mark.  `Cache.bare` forgets the tier and the marks; every operation of the
cache commutes with it and gives the same answer (`Cache.set_bare`, `Cache.getByKey_bare` and the like).  So a run with
a tier, whatever its writer and its store do, is a run without one (`Session.run_bare`).
-/

namespace ResultCache

/-- The entry without the mark of a durable copy. -/
def Entry.bare (e : Entry) : Entry :=
  { e with persisted := false }

@[simp] theorem Entry.key_bare (e : Entry) : e.bare.key = e.key :=
  rfl

@[simp] theorem Entry.size_bare (e : Entry) : e.bare.size = e.size :=
  rfl

theorem map_key_bare (entries : List Entry) : (entries.map Entry.bare).map Entry.key = entries.map Entry.key := by
  rw [List.map_map]
  rfl

namespace Table

/-- The table without the marks of durable copies. -/
def bare (t : Table) : Table :=
  ⟨t.rows.map fun row => (row.1, row.2.bare), t.memory⟩

@[simp] theorem find?_bare (t : Table) (key : String) : t.bare.find? key = (t.find? key).map Entry.bare := by
  unfold find? bare
  induction t.rows with
  | nil => rfl
  | cons row rows ih =>
    obtain ⟨k, e⟩ := row
    by_cases hk : key = k
    · simp [hk]
    · simp [List.lookup_cons, beq_false_of_ne hk, ih]

@[simp] theorem entries_bare (t : Table) : t.bare.entries = t.entries.map Entry.bare := by
  simp [entries, bare]

@[simp] theorem size_bare (t : Table) : t.bare.size = t.size :=
  List.length_map _

/-- The removal of a key does not look at the marks. -/
private theorem erase_bare (rows : List (String × Entry)) (key : String) :
    Assoc.erase key (rows.map fun row => (row.1, row.2.bare)) =
      (Assoc.erase key rows).map fun row => (row.1, row.2.bare) := by
  unfold Assoc.erase
  rw [List.filter_map]
  rfl

theorem detach_bare (t : Table) (key : String) : t.bare.detach key = (t.detach key).bare := by
  unfold detach
  rw [find?_bare]
  cases t.find? key with
  | none => rfl
  | some e => simp [bare, erase_bare]

theorem attach_bare (t : Table) (e : Entry) : t.bare.attach e.bare = (t.attach e).bare := by
  unfold attach
  rw [Entry.key_bare, find?_bare]
  cases t.find? e.key with
  | none => rfl
  | some old => simp [bare, erase_bare]

theorem update_touch_bare (t : Table) (key : String) (now : Instant) :
    t.bare.update key (·.touch now) = (t.update key (·.touch now)).bare := by
  simp only [update, bare, List.map_map, Table.mk.injEq, and_true]
  refine List.map_congr_left fun row _ => ?_
  by_cases hk : row.1 = key
  · simp [hk, Entry.bare, Entry.touch]
  · simp [hk]

/-- Filtering by what is no mark. -/
theorem filter_bare (entries : List Entry) (p : Entry → Bool) (hp : ∀ e : Entry, p e.bare = p e) :
    (entries.map Entry.bare).filter p = (entries.filter p).map Entry.bare := by
  rw [List.filter_map]
  congr 1
  exact List.filter_congr fun e _ => hp e

end Table

namespace Victims

theorem takeFrom_bare (cap least bytes taken freed : Nat) (entries : List Entry) :
    takeFrom cap least bytes taken freed (entries.map Entry.bare) =
      (takeFrom cap least bytes taken freed entries).map Entry.bare := by
  induction entries generalizing taken freed with
  | nil => rfl
  | cons e rest ih =>
    simp only [List.map_cons, takeFrom, Entry.size_bare, ih]
    split
    · rfl
    · split <;> rfl

theorem candidates_bare (w : Weights) (now : Instant) (entries : List Entry) :
    candidates w now (entries.map Entry.bare) = (candidates w now entries).map Entry.bare := by
  unfold candidates
  rw [Table.filter_bare entries _ fun _ => rfl]
  exact (List.map_mergeSort (f := Entry.bare) (r := goesBefore w now) fun _ _ _ _ => rfl).symm

/-- Which entries a pass selects does not hang on the marks. -/
theorem select_bare (w : Weights) (limits : PassLimits) (now : Instant) (target : Target) (entries : List Entry) :
    select w limits now target (entries.map Entry.bare) = (select w limits now target entries).map Entry.bare := by
  unfold select
  rw [candidates_bare, takeFrom_bare, List.length_map]

end Victims

namespace Cache

/-- The cache without its tier and without the marks of durable copies. -/
def bare (c : Cache) : Cache :=
  { c with table := c.table.bare, tier := none }

@[simp] theorem table_bare (c : Cache) : c.bare.table = c.table.bare :=
  rfl

@[simp] theorem mapTier_bare (c : Cache) (f : Tier → Tier) : (c.mapTier f).bare = c.bare :=
  rfl

/-! ### Removals -/

theorem removeEntry_bare (c : Cache) (key : String) (e : Entry) (why : Removal) :
    c.bare.removeEntry key e.bare why = (c.removeEntry key e why).bare := by
  unfold removeEntry
  have hunmarked : e.bare.persisted = false := rfl
  rw [hunmarked, table_bare, Table.detach_bare]
  by_cases hmarked : e.persisted = true
  · rw [if_pos hmarked]
    rfl
  · rw [if_neg hmarked]
    rfl

theorem remove_bare (c : Cache) (key : String) (why : Removal) : c.bare.remove key why = (c.remove key why).bare := by
  unfold remove
  rw [table_bare, Table.find?_bare]
  cases c.table.find? key with
  | none => rfl
  | some e => exact removeEntry_bare c key e why

theorem removeAll_bare (c : Cache) (keys : List String) (why : Removal) :
    c.bare.removeAll keys why = (c.removeAll keys why).bare := by
  induction keys generalizing c with
  | nil => rfl
  | cons key keys ih => rw [removeAll_cons, removeAll_cons, remove_bare, ih]

/-- The removal of some entries that were picked without a look at the marks. -/
theorem removeAll_map_bare (c : Cache) (entries : List Entry) (why : Removal) :
    c.bare.removeAll ((entries.map Entry.bare).map Entry.key) why =
      (c.removeAll (entries.map Entry.key) why).bare := by
  rw [map_key_bare, removeAll_bare]

theorem purgeExpired_bare (c : Cache) (now : Instant) :
    c.bare.purgeExpired now = ((c.purgeExpired now).1, (c.purgeExpired now).2.bare) := by
  have hkeys : c.bare.expiredKeys now = c.expiredKeys now := by
    unfold expiredKeys
    rw [table_bare, Table.entries_bare, Table.filter_bare c.table.entries _ fun _ => rfl, map_key_bare]
  unfold purgeExpired
  dsimp only
  rw [hkeys, removeAll_bare]

theorem invalidate_bare (c : Cache) (r : Request) :
    c.bare.invalidate r = ((c.invalidate r).1, (c.invalidate r).2.bare) := by
  have hkey : c.bare.keyFor r = c.keyFor r := rfl
  unfold invalidate
  dsimp only
  rw [hkey, remove_bare, table_bare, Table.find?_bare, Option.isSome_map]

theorem invalidatePattern_bare (c : Cache) (pattern : String) :
    c.bare.invalidatePattern pattern = ((c.invalidatePattern pattern).1, (c.invalidatePattern pattern).2.bare) := by
  unfold invalidatePattern
  dsimp only
  rw [table_bare, Table.entries_bare, Table.filter_bare c.table.entries _ fun _ => rfl, removeAll_map_bare,
    map_key_bare]

theorem relievePressure_bare (c : Cache) (now : Instant) :
    c.bare.relievePressure now = ((c.relievePressure now).1, (c.relievePressure now).2.bare) := by
  have hvictims : c.bare.pressureVictims now = (c.pressureVictims now).map Entry.bare := by
    unfold pressureVictims
    rw [table_bare, Table.entries_bare]
    exact Victims.select_bare ..
  have hmark : c.bare.highMark = c.highMark := rfl
  have hmemory : c.bare.table.memory = c.table.memory := rfl
  unfold relievePressure
  rw [hmark, hmemory, hvictims, map_key_bare]
  by_cases hlow : c.table.memory ≤ c.highMark
  · rw [if_pos hlow, if_pos hlow]
  · rw [if_neg hlow, if_neg hlow]
    dsimp only
    rw [removeAll_bare]

/-! ### Room -/

theorem roomNeeded_bare (c : Cache) (key : String) (size : Nat) :
    c.bare.roomNeeded key size = c.roomNeeded key size := by
  unfold roomNeeded
  rw [table_bare, Table.find?_bare, Table.size_bare]
  cases c.table.find? key <;> rfl

theorem evictable_bare (c : Cache) (key : String) : c.bare.evictable key = (c.evictable key).map Entry.bare := by
  unfold evictable
  rw [table_bare, Table.entries_bare]
  exact Table.filter_bare c.table.entries _ fun _ => rfl

theorem passVictims_bare (c : Cache) (key : String) (now : Instant) (needed : Target) :
    c.bare.passVictims key now needed = (c.passVictims key now needed).map Entry.bare := by
  unfold passVictims
  rw [table_bare, Table.entries_bare, Table.filter_bare c.table.entries _ fun _ => rfl]
  exact Victims.select_bare ..

theorem evictPasses_bare (key : String) (size : Nat) (now : Instant) (fuel : Nat) (c : Cache) :
    evictPasses key size now fuel c.bare = (evictPasses key size now fuel c).bare := by
  induction fuel generalizing c with
  | zero => rfl
  | succ fuel ih =>
    unfold evictPasses
    dsimp only
    rw [roomNeeded_bare, passVictims_bare]
    by_cases hroom : c.roomNeeded key size = .none
    · rw [if_pos hroom, if_pos hroom]
    · rw [if_neg hroom, if_neg hroom]
      cases c.passVictims key now (c.roomNeeded key size) with
      | nil => rfl
      | cons e victims => exact (congrArg _ (removeAll_map_bare c (e :: victims) .evicted)).trans (ih _)

theorem totalSize_bare (entries : List Entry) : Table.totalSize (entries.map Entry.bare) = Table.totalSize entries := by
  unfold Table.totalSize
  rw [List.map_map]
  rfl

theorem makeRoom_bare (c : Cache) (key : String) (size : Nat) (now : Instant) :
    c.bare.makeRoom key size now = ((c.makeRoom key size now).1, (c.makeRoom key size now).2.bare) := by
  unfold makeRoom
  rw [roomNeeded_bare, purgeExpired_bare]
  simp only [roomNeeded_bare, evictable_bare, totalSize_bare, List.length_map, evictPasses_bare, table_bare,
    Table.size_bare]
  split
  · rfl
  · split
    · rfl
    · split
      · rfl
      · split
        · rfl
        · split <;> rfl

/-! ### Storing and reading -/

/-- Without marks nothing is queued for the store, and without a tier there is no queue. -/
theorem replace_bare (c : Cache) (e : Entry) (v : Json) : c.bare.replace e.bare v = (c.replace e v).bare := by
  have hbare : c.bare.replace e.bare v = { c.bare with table := (c.bare.table.detach e.key).attach e.bare } := by
    unfold replace
    dsimp only
    split <;> split <;> rfl
  have hfull : (c.replace e v).bare = { c.bare with table := ((c.table.detach e.key).attach e).bare } := by
    unfold replace
    dsimp only
    split <;> split <;> rfl
  rw [hbare, hfull, table_bare, Table.detach_bare, Table.attach_bare]

theorem entryFor_bare (c : Cache) (now : Instant) (r : Request) (v : Json) (o : SetOptions) :
    c.bare.entryFor now r v o = (c.entryFor now r v o).bare :=
  rfl

theorem set_bare (c : Cache) (now : Instant) (r : Request) (v : Json) (o : SetOptions) :
    c.bare.set now r v o = ((c.set now r v o).1, (c.set now r v o).2.bare) := by
  have hmax : c.bare.settings.maxMemory = c.settings.maxMemory := rfl
  unfold set
  dsimp only
  rw [entryFor_bare, Entry.size_bare, Entry.key_bare, hmax]
  by_cases hlarge : c.settings.maxMemory < (c.entryFor now r v o).size
  · rw [if_pos hlarge, if_pos hlarge]
    rfl
  · rw [if_neg hlarge, if_neg hlarge, makeRoom_bare]
    cases hroom : c.makeRoom (c.entryFor now r v o).key (c.entryFor now r v o).size now with
    | mk result c' =>
      cases result with
      | error f => rfl
      | ok u => exact Prod.ext rfl (replace_bare c' (c.entryFor now r v o) v)

theorem getByKey_bare (c : Cache) (now : Instant) (key : String) :
    c.bare.getByKey now key = ((c.getByKey now key).1, (c.getByKey now key).2.bare) := by
  unfold getByKey
  rw [table_bare, Table.find?_bare]
  cases c.table.find? key with
  | none => rfl
  | some e =>
    have hexpired : e.bare.isExpired now = e.isExpired now := rfl
    have hdecode : c.bare.decode e.bare.value = c.decode e.value := rfl
    simp only [Option.map_some, hexpired, hdecode, removeEntry_bare, Table.update_touch_bare]
    split
    · rfl
    · split <;> rfl

theorem get_bare (c : Cache) (now : Instant) (r : Request) :
    c.bare.get now r = ((c.get now r).1, (c.get now r).2.bare) :=
  getByKey_bare c now (c.keyFor r)

theorem getAs_bare {α : Type} (kind : Json → Option α) (c : Cache) (now : Instant) (r : Request) :
    c.bare.getAs kind now r = ((c.getAs kind now r).1, (c.getAs kind now r).2.bare) := by
  unfold getAs
  rw [get_bare]

theorem has_bare (c : Cache) (now : Instant) (r : Request) : c.bare.has now r = c.has now r := by
  have hkey : c.bare.keyFor r = c.keyFor r := rfl
  unfold has
  rw [hkey, table_bare, Table.find?_bare]
  cases c.table.find? (c.keyFor r) <;> rfl

/-- Two caches keep and count the same, the marks of durable copies apart. -/
structure Alike (c c' : Cache) : Prop where
  rows_eq : c.table.rows.map (fun row => (row.1, { row.2 with persisted := false })) =
    c'.table.rows.map fun row => (row.1, { row.2 with persisted := false })
  memory_eq : c.table.memory = c'.table.memory
  counters_eq : c.counters = c'.counters

theorem alike_of_bare_eq {c c' : Cache} (h : c.bare = c'.bare) : c.Alike c' :=
  ⟨(congrArg (·.table.rows) h :), (congrArg (·.table.memory) h :), (congrArg Cache.counters h :)⟩

end Cache

namespace Schedule

theorem sweep_bare (s : Schedule) (at' now : Instant) (c : Cache) :
    s.sweep at' now c.bare = ((s.sweep at' now c).1, (s.sweep at' now c).2.1, (s.sweep at' now c).2.2.bare) := by
  unfold sweep
  rw [Cache.purgeExpired_bare]
  split <;> rfl

theorem checkPressure_bare (s : Schedule) (at' now : Instant) (c : Cache) :
    s.checkPressure at' now c.bare =
      ((s.checkPressure at' now c).1, (s.checkPressure at' now c).2.1, (s.checkPressure at' now c).2.2.bare) := by
  unfold checkPressure
  rw [Cache.relievePressure_bare]
  split <;> rfl

theorem tick_bare (s : Schedule) (at' now : Instant) (c : Cache) :
    s.tick at' now c.bare = ((s.tick at' now c).1, (s.tick at' now c).2.1, (s.tick at' now c).2.2.bare) := by
  unfold tick
  rw [sweep_bare]
  dsimp only
  rw [checkPressure_bare]

end Schedule

namespace Session

variable {σ τ : Type}

/-- The session without its tier, over any contents. -/
def bare (contents : τ) (s : Session σ) : Session τ :=
  ⟨s.cache.bare, s.clock, s.schedule, contents⟩

/-- A command for the writer leaves the session without its tier as it is. -/
theorem bare_step_of_isForWriter (store : Store σ) (contents : τ) (s : Session σ) {command : Command}
    (h : command.isForWriter = true) : (s.step store command).2.bare contents = s.bare contents := by
  cases command with
  | writeNext =>
    simp only [step, writeNext]
    split <;> rfl
  | write =>
    simp only [step, write]
    split <;> rfl
  | barrier =>
    simp only [step, writeToBarrier]
    split <;> rfl
  | disconnect => rfl
  | _ => cases h

/-- Any other command that loads nothing has the same outcome without the tier, and does the same. -/
theorem step_bare (store : Store σ) (store' : Store τ) (contents : τ) (s : Session σ) {command : Command}
    (hwriter : command.isForWriter = false) (hloads : command.loads = false) :
    (s.bare contents).step store' command = ((s.step store command).1, (s.step store command).2.bare contents) := by
  have hcache : (s.bare contents).cache = s.cache.bare := rfl
  have hnow : (s.bare contents).now = s.now := rfl
  cases command with
  | set r v o =>
    simp only [step, hcache, hnow, Cache.set_bare]
    rfl
  | get r =>
    simp only [step, hcache, hnow, Cache.get_bare]
    rfl
  | getByKey key =>
    simp only [step, hcache, hnow, Cache.getByKey_bare]
    rfl
  | getAs r kind =>
    simp only [step, hcache, hnow, Cache.getAs_bare]
    rfl
  | has r =>
    simp only [step, hcache, hnow, Cache.has_bare]
  | invalidate r =>
    simp only [step, hcache, Cache.invalidate_bare]
    rfl
  | invalidatePattern pattern =>
    simp only [step, hcache, Cache.invalidatePattern_bare]
    rfl
  | clear => rfl
  | purge =>
    simp only [step, hcache, hnow, Cache.purgeExpired_bare]
    rfl
  | relieve =>
    simp only [step, hcache, hnow, Cache.relievePressure_bare]
    rfl
  | tick at' =>
    have hschedule : (s.bare contents).schedule = s.schedule := rfl
    simp only [step, runSchedule, hcache, hnow, hschedule, Schedule.tick_bare]
    rfl
  | maintain =>
    have hsettings : s.cache.bare.settings = s.cache.settings := rfl
    simp only [step, runSchedule, hcache, hnow, hsettings, Schedule.tick_bare]
    rfl
  | advance span => rfl
  | setClock t => rfl
  | _ => first | cases hwriter; done | cases hloads

/-- What came of the commands of a run that are not for the writer. -/
def answers (store : Store σ) : List Command → Session σ → List Outcome
  | [], _ => []
  | command :: rest, s =>
    if command.isForWriter then answers store rest (s.step store command).2
    else (s.step store command).1 :: answers store rest (s.step store command).2

/-- A run that loads nothing is, tier and marks apart, the run of its other commands without a tier. -/
theorem run_bare (store : Store σ) (store' : Store τ) (contents : τ) {commands : List Command}
    (hq : ∀ command ∈ commands, command.loads = false) (s : Session σ) :
    answers store' (commands.filter fun command => !command.isForWriter) (s.bare contents) = answers store commands s ∧
      run store' (commands.filter fun command => !command.isForWriter) (s.bare contents) =
        (run store commands s).bare contents := by
  induction commands generalizing s with
  | nil => exact ⟨rfl, rfl⟩
  | cons command rest ih =>
    have hrest := ih (fun c hc => hq c (List.mem_cons_of_mem _ hc)) (s.step store command).2
    cases hwriter : command.isForWriter with
    | true =>
      rw [bare_step_of_isForWriter store contents s hwriter] at hrest
      rw [List.filter_cons_of_neg (by simp [hwriter]), answers, if_pos hwriter]
      exact hrest
    | false =>
      have hstep := step_bare store store' contents s hwriter (hq command List.mem_cons_self)
      rw [List.filter_cons_of_pos (by simp [hwriter]), answers, answers, hwriter, if_neg Bool.false_ne_true,
        if_neg Bool.false_ne_true, hstep, hrest.1]
      refine ⟨rfl, ?_⟩
      have hrun : run store' (command :: rest.filter fun command => !command.isForWriter) (s.bare contents) =
          run store' (rest.filter fun command => !command.isForWriter)
            ((s.bare contents).step store' command).2 := rfl
      rw [hrun, hstep]
      exact hrest.2

/-- What a cache finds in a namespace that lists no keys, or cannot be listed, is nothing. -/
theorem openOver_bare (store : Store σ) (settings : Settings) (codec : Codec) (clock : ManualClock) {contents : σ}
    (hempty : ∀ keys, store.list (settings.durableNamespace ++ ":") contents = .ok keys → keys = []) :
    (openOver store settings codec clock contents).bare contents = openAlone settings codec clock contents := by
  have hstart : (Tier.ofSpace settings.durableNamespace).start = settings.durableNamespace ++ ":" := rfl
  cases hlist : store.list (settings.durableNamespace ++ ":") contents with
  | error f =>
    simp only [openOver, Cache.openOver, Cache.rehydrate, Tier.rehydrate, hstart, hlist]
    rfl
  | ok keys =>
    simp only [openOver, Cache.openOver, Cache.rehydrate, Tier.rehydrate, hstart, hlist, hempty keys hlist]
    rfl

/-- A cache with a tier over a namespace without records gives the same answers as one without a tier, and keeps and
counts the same, the marks of durable copies apart: whether its writer has gone, or does its steps between the calls in
any way, over a store of which any call may fail. -/
theorem answers_eq_without_tier (settings : Settings) (codec : Codec) (clock : ManualClock) (store : Store σ)
    {contents : σ} (hempty : ∀ keys, store.list (settings.durableNamespace ++ ":") contents = .ok keys → keys = [])
    {commands : List Command} (hq : ∀ command ∈ commands, command.loads = false) :
    let calls := commands.filter fun command => !command.isForWriter
    let alone := openAlone settings codec clock contents
    let served := openOver store settings codec clock contents
    let dropped := served.disconnect.2
    (answers store commands served = answers store calls alone ∧
        (run store commands served).cache.Alike (run store calls alone).cache) ∧
      answers store calls dropped = answers store calls alone ∧
        (run store calls dropped).cache.Alike (run store calls alone).cache := by
  intro calls alone served dropped
  have hcalls : ∀ command ∈ calls, command.loads = false := fun command h => hq command (List.mem_filter.1 h).1
  have hsame : calls.filter (fun command => !command.isForWriter) = calls := by
    rw [List.filter_filter]
    simp only [Bool.and_self]
    rfl
  have halone : alone.bare contents = alone := rfl
  have hserved : served.bare contents = alone := openOver_bare store settings codec clock hempty
  have hdropped : dropped.bare contents = alone := hserved
  obtain ⟨ha, ra⟩ := run_bare store store contents hcalls alone
  obtain ⟨hs, rs⟩ := run_bare store store contents hq served
  obtain ⟨hd, rd⟩ := run_bare store store contents hcalls dropped
  rw [hserved] at hs rs
  rw [hsame, halone] at ra
  rw [hsame, hdropped] at hd rd
  have alike : ∀ s : Session σ, run store calls alone = s.bare contents →
      s.cache.Alike (run store calls alone).cache := by
    intro s h
    exact Cache.alike_of_bare_eq (congrArg Session.cache (h.symm.trans ra))
  exact ⟨⟨hs.symm, alike _ rs⟩, hd.symm, alike _ rd⟩

/-- A store of which every call fails. -/
private def failing : Store MemoryStore :=
  MemoryStore.store.withFaults ⟨fun _ _ => true, fun _ => false⟩

/-- A result is set with a durable copy, then without one, and then removed, while the writer fails and goes. -/
private def marking : List Command :=
  [.set ⟨"/a", none, none⟩ (.int 1) ⟨none, .high⟩, .writeNext, .set ⟨"/a", none, none⟩ (.int 2) ⟨none, .low⟩, .write,
   .disconnect, .invalidate ⟨"/a", none, none⟩, .getByKey "::/a"]

theorem answers_eq_over_failing_store :
    answers failing marking (openOver failing .default .runLength ⟨0⟩ .empty) =
      answers failing [.set ⟨"/a", none, none⟩ (.int 1) ⟨none, .high⟩,
        .set ⟨"/a", none, none⟩ (.int 2) ⟨none, .low⟩, .invalidate ⟨"/a", none, none⟩, .getByKey "::/a"]
        (openAlone .default .runLength ⟨0⟩ .empty) := by
  have hempty : ∀ keys, failing.list (Settings.default.durableNamespace ++ ":") .empty = .ok keys → keys = [] := by
    intro keys h
    cases h
  have hq : ∀ command ∈ marking, command.loads = false := by
    decide +kernel
  exact (answers_eq_without_tier .default .runLength ⟨0⟩ failing hempty hq).1.1

end Session

end ResultCache
