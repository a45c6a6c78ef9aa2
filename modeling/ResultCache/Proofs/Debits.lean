import ResultCache.Proofs.Transition

/-!
# Subtractions from the memory in use

The memory in use is a word without sign in which no subtraction may ask for more than is there.  `Session.debits`
lists the subtractions that a command comes to, in their order, as `detach`, `attach` and `roomNeeded` do them.  They
are those of the operations by which the command leads from its table to the next one (`Session.step_spends`), and such
operations keep an accurate table accurate and their subtractions `Covered` (`Table.Spends.covered`).
-/

namespace ResultCache

/-- A subtraction of an amount from a balance. -/
structure Debit where
  balance : Nat
  amount : Nat

namespace Debit

/-- The balance is large enough. -/
def Covered (d : Debit) : Prop :=
  d.amount ≤ d.balance

end Debit

/-! ### The subtractions of each operation, in the order in which it does them -/

namespace Table

def detachDebits (t : Table) (key : String) : List Debit :=
  match t.find? key with
  | none => []
  | some e => [⟨t.memory, e.size⟩]

def attachDebits (t : Table) (e : Entry) : List Debit :=
  match t.find? e.key with
  | none => []
  | some old => [⟨t.memory + e.size, old.size⟩]

/-- The memory in use after `detach` is what its subtraction leaves. -/
theorem memory_detach_eq (t : Table) (key : String) :
    (t.detach key).memory = (t.detachDebits key).foldl (fun _ d => d.balance - d.amount) t.memory := by
  cases h : t.find? key <;> simp [detach, detachDebits, h]

/-- The memory in use after `attach` is what its subtraction leaves of the sum. -/
theorem memory_attach_eq (t : Table) (e : Entry) :
    (t.attach e).memory = (t.attachDebits e).foldl (fun _ d => d.balance - d.amount) (t.memory + e.size) := by
  cases h : t.find? e.key <;> simp [attach, attachDebits, h]

/-- The subtraction of the room that an entry under a key would need. -/
def roomDebits (t : Table) (key : String) : List Debit :=
  match t.find? key with
  | none => [⟨t.memory, 0⟩]
  | some old => [⟨t.memory, old.size⟩]

/-- Operations on a table, and the subtractions that they do in their order. -/
inductive Spends : Table → List Debit → Table → Prop where
  | refl {t : Table} : Spends t [] t
  | trans {t t' t'' : Table} {ds ds' : List Debit} (first : Spends t ds t') (rest : Spends t' ds' t'') :
      Spends t (ds ++ ds') t''
  | detach (t : Table) (key : String) : Spends t (t.detachDebits key) (t.detach key)
  | attach (t : Table) (e : Entry) : Spends t (t.attachDebits e) (t.attach e)
  /-- The room that is needed is computed, and the table stays. -/
  | weigh (t : Table) (key : String) : Spends t (t.roomDebits key) t
  | touch (t : Table) (key : String) (now : Instant) : Spends t [] (t.update key (·.touch now))
  /-- All is dropped at once, which subtracts nothing. -/
  | drop (t : Table) : Spends t [] .empty

/-- Operations on an accurate table leave an accurate one, and subtract no more than there is. -/
theorem Spends.covered {t t' : Table} {ds : List Debit} (h : Spends t ds t') (ht : t.Accurate) :
    t'.Accurate ∧ ∀ d ∈ ds, d.Covered := by
  induction h with
  | refl => exact ⟨ht, List.forall_mem_nil _⟩
  | trans _ _ ih ih' =>
    obtain ⟨ht', hds⟩ := ih ht
    obtain ⟨ht'', hds'⟩ := ih' ht'
    exact ⟨ht'', List.forall_mem_append.2 ⟨hds, hds'⟩⟩
  | detach t key =>
    refine ⟨ht.detach key, ?_⟩
    rw [detachDebits]
    split
    · exact List.forall_mem_nil _
    · rename_i e he
      exact List.forall_mem_singleton.2 (ht.size_le he)
  | attach t e =>
    refine ⟨ht.attach e, ?_⟩
    rw [attachDebits]
    split
    · exact List.forall_mem_nil _
    · rename_i old hold
      exact List.forall_mem_singleton.2 (Nat.le_add_right_of_le (ht.size_le hold))
  | weigh t key =>
    refine ⟨ht, ?_⟩
    rw [roomDebits]
    split
    · exact List.forall_mem_singleton.2 (Nat.zero_le _)
    · rename_i old hold
      exact List.forall_mem_singleton.2 (ht.size_le hold)
  | touch t key now => exact ⟨ht.update key (fun _ => rfl) fun _ => rfl, List.forall_mem_nil _⟩
  | drop => exact ⟨accurate_empty, List.forall_mem_nil _⟩

end Table

namespace Cache

/-- The bytes that have to go are those by which the sum of what the subtraction leaves and the size is too much. -/
theorem bytes_roomNeeded_eq (c : Cache) (key : String) (size : Nat) :
    (c.roomNeeded key size).bytes =
      (c.table.roomDebits key).foldl (fun _ d => d.balance - d.amount) c.table.memory + size -
        c.settings.maxMemory := by
  cases h : c.table.find? key <;> simp [roomNeeded, Table.roomDebits, h]

def removeAllDebits (why : Removal) : List String → Cache → List Debit
  | [], _ => []
  | key :: keys, c => c.table.detachDebits key ++ removeAllDebits why keys (c.remove key why)

def passDebits (key : String) (size : Nat) (now : Instant) : Nat → Cache → List Debit
  | 0, _ => []
  | fuel + 1, c =>
    c.table.roomDebits key ++
      if c.roomNeeded key size = .none then []
      else
        match c.passVictims key now (c.roomNeeded key size) with
        | [] => []
        | victims =>
          removeAllDebits .evicted (victims.map Entry.key) c ++
            passDebits key size now fuel (c.removeAll (victims.map Entry.key) .evicted)

def makeRoomDebits (c : Cache) (key : String) (size : Nat) (now : Instant) : List Debit :=
  c.table.roomDebits key ++
    if c.roomNeeded key size = .none then []
    else
      let purged := (c.purgeExpired now).2
      let needed := purged.roomNeeded key size
      removeAllDebits .expired (c.expiredKeys now) c ++ purged.table.roomDebits key ++
        if needed = .none then []
        else if Table.totalSize (purged.evictable key) < needed.bytes then []
        else if (purged.evictable key).length < needed.entries then []
        else
          passDebits key size now purged.table.size purged ++
            (evictPasses key size now purged.table.size purged).table.roomDebits key

def setDebits (c : Cache) (now : Instant) (r : Request) (v : Json) (o : SetOptions) : List Debit :=
  let e := c.entryFor now r v o
  if c.settings.maxMemory < e.size then []
  else
    c.makeRoomDebits e.key e.size now ++
      match c.makeRoom e.key e.size now with
      | (.error _, _) => []
      | (.ok _, c) => c.table.detachDebits e.key ++ (c.table.detach e.key).attachDebits e

def readDebits (c : Cache) (now : Instant) (key : String) : List Debit :=
  match c.table.find? key with
  | none => []
  | some e =>
    if e.isExpired now then c.table.detachDebits key
    else
      match c.decode e.value with
      | none => c.table.detachDebits key
      | some _ => []

def pressureDebits (c : Cache) (now : Instant) : List Debit :=
  if c.table.memory ≤ c.highMark then []
  else removeAllDebits .evicted ((c.pressureVictims now).map Entry.key) c

def loadDebits (now : Instant) (s : Snapshot) (c : Cache) : List Debit :=
  if (c.table.find? s.key).isSome then []
  else if c.fitsBeside (c.entryOf now s) then c.table.attachDebits (c.entryOf now s)
  else []

def loadAllDebits (now : Instant) : List Snapshot → Cache → List Debit
  | [], _ => []
  | s :: rest, c => loadDebits now s c ++ loadAllDebits now rest (c.load now s).2

def rehydrateDebits {σ : Type} (store : Store σ) (c : Cache) (now : Instant) (contents : σ) : List Debit :=
  match c.tier with
  | none => []
  | some t => loadAllDebits now (t.rehydrate store now contents).1.live c

end Cache

namespace Schedule

def sweepDebits (s : Schedule) (at' now : Instant) (c : Cache) : List Debit :=
  if isDue s.nextSweep at' then Cache.removeAllDebits .expired (c.expiredKeys now) c else []

def checkDebits (s : Schedule) (at' now : Instant) (c : Cache) : List Debit :=
  if isDue s.nextPressure at' then c.pressureDebits now else []

/-- The subtractions of the tasks that are due. -/
def tickDebits (s : Schedule) (at' now : Instant) (c : Cache) : List Debit :=
  let (_, s', c') := s.sweep at' now c
  s.sweepDebits at' now c ++ s'.checkDebits at' now c'

end Schedule

/-- The subtractions that a command comes to. -/
def Session.debits {σ : Type} (store : Store σ) (s : Session σ) : Command → List Debit
  | .set r v o => s.cache.setDebits s.now r v o
  | .get r => s.cache.readDebits s.now (s.cache.keyFor r)
  | .getByKey key => s.cache.readDebits s.now key
  | .getAs r _ => s.cache.readDebits s.now (s.cache.keyFor r)
  | .invalidate r => s.cache.table.detachDebits (s.cache.keyFor r)
  | .invalidatePattern pattern =>
    Cache.removeAllDebits .invalidated
      ((s.cache.table.entries.filter fun e => Text.contains e.source pattern).map Entry.key) s.cache
  | .purge => Cache.removeAllDebits .expired (s.cache.expiredKeys s.now) s.cache
  | .relieve => s.cache.pressureDebits s.now
  | .tick at' => s.schedule.tickDebits (at'.getD s.now) s.now s.cache
  | .maintain => (Schedule.fresh s.cache.settings).tickDebits s.now s.now s.cache
  | .rehydrate => s.cache.rehydrateDebits store s.now s.contents
  | .restart settings codec =>
    if s.cache.tier.isSome then
      { Cache.empty settings codec with tier := some (.ofSpace settings.durableNamespace) }.rehydrateDebits store s.now
        s.contents
    else []
  | _ => []

/-! ### They are what the operations do -/

namespace Cache

theorem remove_spends (c : Cache) (key : String) (why : Removal) :
    c.table.Spends (c.table.detachDebits key) (c.remove key why).table :=
  remove_table c key why ▸ .detach c.table key

theorem removeAll_spends (c : Cache) (keys : List String) (why : Removal) :
    c.table.Spends (removeAllDebits why keys c) (c.removeAll keys why).table := by
  induction keys generalizing c with
  | nil => exact .refl
  | cons key keys ih => exact (remove_spends c key why).trans (ih (c.remove key why))

theorem evictPasses_spends (c : Cache) (key : String) (size : Nat) (now : Instant) (fuel : Nat) :
    c.table.Spends (passDebits key size now fuel c) (evictPasses key size now fuel c).table := by
  induction fuel generalizing c with
  | zero => exact .refl
  | succ fuel ih =>
    rw [passDebits, evictPasses]
    refine (Table.Spends.weigh c.table key).trans ?_
    split
    · exact .refl
    · cases c.passVictims key now (c.roomNeeded key size) with
      | nil => exact .refl
      | cons e rest => exact (removeAll_spends c _ .evicted).trans (ih _)

theorem makeRoom_spends (c : Cache) (key : String) (size : Nat) (now : Instant) :
    c.table.Spends (c.makeRoomDebits key size now) (c.makeRoom key size now).2.table := by
  rw [makeRoomDebits, makeRoom]
  refine (Table.Spends.weigh c.table key).trans ?_
  split
  · exact .refl
  · refine ((removeAll_spends c (c.expiredKeys now) .expired).trans (.weigh _ key)).trans ?_
    dsimp only
    split
    · exact .refl
    · split
      · exact .refl
      · split
        · exact .refl
        · -- the last look at the room decides on the result only
          refine (evictPasses_spends (c.purgeExpired now).2 key size now _).trans ?_
          split <;> exact .weigh _ key

theorem set_spends (c : Cache) (now : Instant) (r : Request) (v : Json) (o : SetOptions) :
    c.table.Spends (c.setDebits now r v o) (c.set now r v o).2.table := by
  rw [setDebits, set]
  split
  · exact .refl
  · refine (makeRoom_spends c _ _ now).trans ?_
    cases c.makeRoom (c.entryFor now r v o).key (c.entryFor now r v o).size now with
    | mk result c' =>
      cases result with
      | error f => exact .refl
      | ok => exact replace_table c' _ v ▸ (Table.Spends.detach c'.table _).trans (.attach _ _)

theorem getByKey_spends (c : Cache) (now : Instant) (key : String) :
    c.table.Spends (c.readDebits now key) (c.getByKey now key).2.table := by
  rw [readDebits, getByKey]
  cases c.table.find? key with
  | none => exact .refl
  | some e =>
    dsimp only
    split
    · exact removeEntry_table c key e .expired ▸ .detach c.table key
    · cases c.decode e.value with
      | none => exact removeEntry_table c key e .corrupt ▸ .detach c.table key
      | some v => exact .touch c.table key now

theorem relievePressure_spends (c : Cache) (now : Instant) :
    c.table.Spends (c.pressureDebits now) (c.relievePressure now).2.table := by
  rw [pressureDebits, relievePressure]
  split
  · exact .refl
  · exact removeAll_spends c _ .evicted

theorem load_spends (c : Cache) (now : Instant) (s : Snapshot) :
    c.table.Spends (loadDebits now s c) (c.load now s).2.table := by
  rw [loadDebits, load]
  split
  · exact .refl
  · dsimp only
    split
    · exact .attach c.table _
    · exact .refl

theorem loadAll_spends (c : Cache) (now : Instant) (live : List Snapshot) :
    c.table.Spends (loadAllDebits now live c) (loadAll now live c).2.table := by
  induction live generalizing c with
  | nil => exact .refl
  | cons s rest ih => exact (load_spends c now s).trans (ih (c.load now s).2)

theorem rehydrate_spends {σ : Type} (store : Store σ) (c : Cache) (now : Instant) (contents : σ) :
    c.table.Spends (c.rehydrateDebits store now contents) (c.rehydrate store now contents).2.1.table := by
  rw [rehydrateDebits, rehydrate]
  cases c.tier with
  | none => exact .refl
  | some t => exact loadAll_spends c now _

end Cache

namespace Schedule

theorem sweep_spends (s : Schedule) (at' now : Instant) (c : Cache) :
    c.table.Spends (s.sweepDebits at' now c) (s.sweep at' now c).2.2.table := by
  rw [sweepDebits, sweep]
  split
  · exact Cache.removeAll_spends c _ .expired
  · exact .refl

theorem checkPressure_spends (s : Schedule) (at' now : Instant) (c : Cache) :
    c.table.Spends (s.checkDebits at' now c) (s.checkPressure at' now c).2.2.table := by
  rw [checkDebits, checkPressure]
  split
  · exact Cache.relievePressure_spends c now
  · exact .refl

theorem tick_spends (s : Schedule) (at' now : Instant) (c : Cache) :
    c.table.Spends (s.tickDebits at' now c) (s.tick at' now c).2.2.table :=
  (sweep_spends s at' now c).trans (checkPressure_spends _ at' now _)

end Schedule

/-- The subtractions that are listed for a command are those of what it does to the table. -/
theorem Session.step_spends {σ : Type} (store : Store σ) (s : Session σ) (command : Command) :
    s.cache.table.Spends (s.debits store command) (s.step store command).2.cache.table := by
  cases command with
  | set r v o => exact Cache.set_spends s.cache s.now r v o
  | get r => exact Cache.getByKey_spends s.cache s.now _
  | getByKey key => exact Cache.getByKey_spends s.cache s.now key
  | getAs r kind => exact Cache.getByKey_spends s.cache s.now _
  | invalidate r => exact Cache.remove_spends s.cache _ .invalidated
  | invalidatePattern pattern => exact Cache.removeAll_spends s.cache _ .invalidated
  | clear => exact .drop _
  | purge => exact Cache.removeAll_spends s.cache _ .expired
  | relieve => exact Cache.relievePressure_spends s.cache s.now
  | tick at' => exact Schedule.tick_spends s.schedule _ s.now s.cache
  | maintain => exact Schedule.tick_spends (.fresh s.cache.settings) s.now s.now s.cache
  | rehydrate => exact Cache.rehydrate_spends store s.cache s.now s.contents
  | restart settings codec =>
    -- what was there is dropped, and the records are loaded into an empty table
    have hload : Table.Spends .empty (s.debits store (.restart settings codec))
        (s.step store (.restart settings codec)).2.cache.table := by
      simp only [debits, step]
      split
      · exact Cache.rehydrate_spends store
          { Cache.empty settings codec with tier := some (.ofSpace settings.durableNamespace) } s.now s.contents
      · exact .refl
    exact (Table.Spends.drop s.cache.table).trans hload
  | writeNext =>
    simp only [step, writeNext]
    split <;> exact .refl
  | write =>
    simp only [step, write]
    split <;> exact .refl
  | barrier =>
    simp only [step, writeToBarrier]
    split <;> exact .refl
  | has | advance | setClock | disconnect => exact .refl

/-- At any point of any run from an empty cache the memory in use is what the entries take, both ceilings hold, every
entry stands under its own key and only there, and whatever command comes next, the subtractions by which it leads from
the table to its next state ask for no more than there is. -/
theorem Session.run_keeps_accounts {σ : Type} (store : Store σ) (settings : Settings) (codec : Codec)
    (tier : Option Tier) (clock : ManualClock) (schedule : Schedule) (contents : σ) (commands : List Command) :
    let s := run store commands (ofEmpty settings codec tier clock schedule contents)
    s.cache.table.memory = Table.totalSize s.cache.table.entries ∧
      s.cache.table.memory ≤ s.cache.settings.maxMemory ∧
      s.cache.table.size ≤ s.cache.settings.maxEntries ∧
      (∀ row ∈ s.cache.table.rows, row.1 = row.2.key) ∧ (s.cache.table.rows.map (·.1)).Nodup ∧
      ∀ command,
        s.cache.table.Spends (s.debits store command) (s.step store command).2.cache.table ∧
        ∀ d ∈ s.debits store command, d.amount ≤ d.balance := by
  intro s
  have hs : s.cache.Sound := ((Reachable.ofEmpty settings codec tier clock schedule contents).run commands).sound
  refine ⟨hs.accurate.memory_eq, hs.memory_le, hs.size_le, hs.accurate.keyed, hs.accurate.nodup, fun command => ?_⟩
  have hspends := step_spends store s command
  exact ⟨hspends, (hspends.covered hs.accurate).2⟩

end ResultCache
