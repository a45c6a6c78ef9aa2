import ResultCache.Proofs.Budget

/-!
# Transitions of a session

What one command of a session comes to for its cache (`Session.Transition`): it trims the table, stores an entry after
trimming, clears everything, changes nothing but the tier, loads records, or opens another cache.  What each of these
keeps is kept by every run, and so holds of every `Reachable` session.
-/

namespace ResultCache

/-- Whether a command is one for the writer. -/
def Command.isForWriter : Command → Bool
  | .writeNext => true
  | .write => true
  | .barrier => true
  | .disconnect => true
  | _ => false

namespace Session

variable {σ : Type} {store : Store σ} {s : Session σ}

@[simp] theorem run_nil (store : Store σ) (s : Session σ) : run store [] s = s :=
  rfl

@[simp] theorem run_append (store : Store σ) (a b : List Command) (s : Session σ) :
    run store (a ++ b) s = run store b (run store a s) :=
  List.foldl_append

@[simp] theorem run_singleton (store : Store σ) (command : Command) (s : Session σ) :
    run store [command] s = (s.step store command).2 :=
  rfl

/-- A session with an empty cache, at any time, with any tier, and over any store. -/
def ofEmpty (settings : Settings) (codec : Codec) (tier : Option Tier) (clock : ManualClock) (schedule : Schedule)
    (contents : σ) : Session σ :=
  ⟨{ Cache.empty settings codec with tier }, clock, schedule, contents⟩

/-- The sessions that commands lead to from an empty cache. -/
inductive Reachable (store : Store σ) : Session σ → Prop where
  | ofEmpty (settings : Settings) (codec : Codec) (tier : Option Tier) (clock : ManualClock) (schedule : Schedule)
      (contents : σ) : Reachable store (ofEmpty settings codec tier clock schedule contents)
  | step {s : Session σ} (h : Reachable store s) (command : Command) : Reachable store (s.step store command).2

theorem Reachable.run (h : s.Reachable store) (commands : List Command) :
    (Session.run store commands s).Reachable store := by
  induction commands generalizing s with
  | nil => exact h
  | cons command commands ih => exact ih (h.step command)

/-- What becomes of the cache in a session by a command. -/
inductive Transition (store : Store σ) (s : Session σ) : Command → Cache → Prop where
  | trim {command : Command} {c : Cache} (h : Cache.Trims s.now s.cache c) : Transition store s command c
  | store {r : Request} {v : Json} {o : SetOptions} {c : Cache} (ok : (s.cache.set s.now r v o).1 = .ok ())
      (h : Cache.Trims s.now s.cache c)
      (room : c.roomNeeded (s.cache.entryFor s.now r v o).key (s.cache.entryFor s.now r v o).size = .none) :
      Transition store s (.set r v o) (c.replace (s.cache.entryFor s.now r v o) v)
  | clear : Transition store s .clear s.cache.clear
  | queue {command : Command} (h : command.isForWriter = true) (tier : Option Tier) :
      Transition store s command { s.cache with tier }
  | load (live : List Snapshot) : Transition store s .rehydrate (Cache.loadAll s.now live s.cache).2
  | openAlone (settings : Settings) (codec : Codec) :
      Transition store s (.restart settings codec) (Cache.empty settings codec)
  | openOver (settings : Settings) (codec : Codec) :
      Transition store s (.restart settings codec)
        (Cache.openOver store settings codec s.now s.contents).1

/-- Loading from the store is loading some snapshots. -/
theorem rehydrate_eq_loadAll (store : Store σ) (c : Cache) (now : Instant) (contents : σ) :
    ∃ live, (c.rehydrate store now contents).2.1 = (Cache.loadAll now live c).2 := by
  rw [Cache.rehydrate]
  split
  · exact ⟨[], rfl⟩
  · exact ⟨_, rfl⟩

/-- Every command makes one of the transitions. -/
theorem step_transition (hc : s.cache.table.Accurate) (store : Store σ) (command : Command) :
    Transition store s command (s.step store command).2.cache := by
  cases command with
  | set r v o =>
    rcases Cache.set_cases hc s.now r v o with ⟨f, c, h, trims⟩ | ⟨c, h, trims, room⟩
    · simp only [step, h]
      exact .trim trims
    · simp only [step, h]
      exact .store (h ▸ rfl) trims room
  | get r => exact .trim (Cache.getByKey_trims ..)
  | getByKey key => exact .trim (Cache.getByKey_trims ..)
  | getAs r kind => exact .trim (Cache.getByKey_trims ..)
  | has r => exact .trim .refl
  | invalidate r => exact .trim (Cache.remove_trims ..)
  | invalidatePattern pattern => exact .trim (Cache.invalidatePattern_trims hc ..)
  | clear => exact .clear
  | purge => exact .trim (Cache.purgeExpired_trims hc _)
  | relieve => exact .trim (Cache.relievePressure_trims hc _)
  | tick at' => exact .trim (Schedule.tick_trims hc ..)
  | maintain => exact .trim (Schedule.tick_trims hc (.fresh s.cache.settings) s.now s.now)
  | rehydrate =>
    obtain ⟨live, h⟩ := rehydrate_eq_loadAll store s.cache s.now s.contents
    exact (show (s.step store .rehydrate).2.cache = _ from h) ▸ .load live
  | advance span => exact .trim .refl
  | setClock t => exact .trim .refl
  | writeNext =>
    simp only [step, writeNext]
    split
    · exact .trim .refl
    · exact .queue rfl _
  | write =>
    simp only [step, write]
    split
    · exact .trim .refl
    · exact .queue rfl _
  | barrier =>
    simp only [step, writeToBarrier]
    split
    · exact .trim .refl
    · exact .queue rfl _
  | disconnect => exact .queue rfl _
  | restart settings codec =>
    simp only [step]
    split
    · exact .openOver settings codec
    · exact .openAlone settings codec

/-- What every transition keeps holds of the cache of every reachable session. -/
theorem Transition.sound {command : Command} {c : Cache} (h : Transition store s command c) (hs : s.cache.Sound) :
    c.Sound := by
  cases h with
  | trim h => exact h.sound hs
  | store _ h room => exact (h.sound hs).replace room _
  | clear => exact Cache.sound_of_table_eq_empty rfl
  | queue => exact ⟨hs.accurate, hs.memory_le, hs.size_le⟩
  | load live => exact hs.loadAll s.now live
  | openAlone => exact Cache.sound_of_table_eq_empty rfl
  | openOver settings codec =>
    obtain ⟨live, h⟩ := rehydrate_eq_loadAll store
      { Cache.empty settings codec with tier := some (.ofSpace settings.durableNamespace) } s.now s.contents
    exact (show (Cache.openOver store settings codec s.now s.contents).1 = _ from h) ▸
      (Cache.sound_of_table_eq_empty rfl).loadAll s.now live

theorem Reachable.sound (h : s.Reachable store) : s.cache.Sound := by
  induction h with
  | ofEmpty => exact Cache.sound_of_table_eq_empty rfl
  | step _ command ih => exact (step_transition ih.accurate store command).sound ih

end Session

end ResultCache
