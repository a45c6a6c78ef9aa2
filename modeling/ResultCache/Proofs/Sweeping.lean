import ResultCache.Proofs.Protection
import ResultCache.Proofs.Time.Texts
import ResultCache.Proofs.Timetable

/-!
# What is left after a sweep

An entry in the table was fresh at the last sweep or at some time since then (`Session.FreshSince`): a sweep leaves
fresh entries only, what is set is fresh, and only live records are loaded.  So no entry outlives its time to live by
more than the time between two sweeps (`Session.tick_timely`).
-/

namespace ResultCache

namespace Entry

variable {e : Entry} {s t : Instant}

theorem isExpired_congr {e' : Entry} (h : e'.asMade = e.asMade) (now : Instant) : e'.isExpired now = e.isExpired now := by
  have hcreated : e'.created = e.created := (congrArg Entry.created h :)
  have httl : e'.ttl = e.ttl := (congrArg Entry.ttl h :)
  rw [isExpired, isExpired, age, age, hcreated, httl]

theorem isExpired_created (e : Entry) : e.isExpired e.created = false := by
  rw [isExpired_eq_false_iff, Instant.elapsed_self]
  exact Nat.zero_le _

/-- What is fresh was fresh before, if time passes evenly after it was made. -/
theorem isExpired_eq_false_of_le (heven : e.created.AgesEvenly) (hs : s.nanos < 1000000000) (ht : t.nanos < 1000000000)
    (hle : s.count ≤ t.count) (hfresh : e.isExpired t = false) : e.isExpired s = false := by
  rw [isExpired_eq_false_iff, Instant.elapsed_of_agesEvenly heven, Span.le_def] at hfresh ⊢
  · dsimp only at hfresh ⊢
    omega
  · exact hs
  · exact ht

/-- Within an interval after a time at which an entry was fresh, it outlives its time to live by less than that. -/
theorem age_lt (heven : e.created.AgesEvenly) (hs : s.nanos < 1000000000) (ht : t.nanos < 1000000000)
    (hfresh : e.isExpired s = false) {n : Nat} (hpos : 0 < n) (hsoon : t.count < s.count + n) :
    (e.age t).nanos < e.ttl.nanos + n := by
  rw [isExpired_eq_false_iff, Instant.elapsed_of_agesEvenly heven hs, Span.le_def] at hfresh
  rw [age, Instant.elapsed_of_agesEvenly heven ht]
  dsimp only at hfresh ⊢
  omega

end Entry

variable {σ : Type} {store : Store σ}

namespace Tier

theorem isLive_rehydrateKey (store : Store σ) (now : Instant) (key : String) {found : Rehydrated}
    (hfound : ∀ x ∈ found.live, x.isLive now = true) (s : σ) :
    ∀ x ∈ (rehydrateKey store now key found s).1.live, x.isLive now = true := by
  unfold rehydrateKey
  split
  · exact hfound
  · exact hfound
  · split
    · exact hfound
    · split
      · rename_i hlive
        intro x hx
        rcases List.mem_append.1 hx with hx | hx
        · exact hfound x hx
        · rwa [List.mem_singleton.1 hx]
      · exact hfound

/-- Only live records are found, whatever the store does. -/
theorem isLive_rehydrateKeys (store : Store σ) (now : Instant) (keys : List String) {found : Rehydrated}
    (hfound : ∀ x ∈ found.live, x.isLive now = true) (s : σ) :
    ∀ x ∈ (rehydrateKeys store now keys found s).1.live, x.isLive now = true := by
  induction keys generalizing found s with
  | nil => exact hfound
  | cons key keys ih => exact ih (isLive_rehydrateKey store now key hfound s) _

theorem isLive_rehydrate (store : Store σ) (t : Tier) (now : Instant) (s : σ) :
    ∀ x ∈ (t.rehydrate store now s).1.live, x.isLive now = true := by
  rw [rehydrate]
  split
  · exact fun x hx => absurd hx List.not_mem_nil
  · exact isLive_rehydrateKeys store now _ (fun x hx => absurd hx List.not_mem_nil) s

end Tier

namespace Cache

variable {c : Cache} {now : Instant}

/-- The entry of a live record is fresh. -/
theorem isExpired_entryOf {s : Snapshot} (hlive : s.isLive now = true) : (c.entryOf now s).isExpired now = false := by
  have hyoung : Instant.elapsed s.created now < s.ttl := of_decide_eq_true hlive
  exact Entry.isExpired_eq_false_iff.2 (Nat.le_of_lt hyoung)

/-- An entry that is found after records were loaded was there, or is fresh. -/
theorem find?_rehydrate_cases (store : Store σ) (c : Cache) (now : Instant) (contents : σ) {key : String} {e : Entry}
    (he : (c.rehydrate store now contents).2.1.table.find? key = some e) :
    e.isExpired now = false ∨ c.table.find? key = some e := by
  rw [rehydrate] at he
  split at he
  · exact .inr he
  · rename_i t _
    rcases find?_loadAll_cases now _ he with hfound | ⟨-, snapshot, hmem, -, rfl⟩
    · exact .inr hfound
    · exact .inl (isExpired_entryOf (Tier.isLive_rehydrate store t now contents snapshot hmem))

end Cache

/-- Every entry that a tick with a sweep leaves is fresh. -/
theorem Schedule.isExpired_of_sweep {c : Cache} (hc : c.table.Accurate) {s : Schedule} {at' now : Instant}
    (hdue : isDue s.nextSweep at' = true) {key : String} {e : Entry}
    (he : (s.tick at' now c).2.2.table.find? key = some e) : e.isExpired now = false := by
  have hswept : (s.sweep at' now c).2.2 = (c.purgeExpired now).2 := by rw [sweep, if_pos hdue]
  have hcheck : Cache.Trims now (c.purgeExpired now).2 (s.tick at' now c).2.2 := by
    show Cache.Trims now _ (checkPressure (s.sweep at' now c).2.1 at' now (s.sweep at' now c).2.2).2.2
    rw [hswept, checkPressure]
    split
    · exact Cache.relievePressure_trims ((Cache.purgeExpired_trims hc now).accurate hc) now
    · exact .refl
  obtain ⟨e', he', hmade⟩ := hcheck.find?_asMade he
  rw [Cache.find?_purgeExpired hc, Option.filter_eq_some_iff] at he'
  rw [Entry.isExpired_congr hmade]
  simpa using he'.2

namespace Session

variable {s : Session σ}

theorem nanos_now_lt (s : Session σ) : s.now.nanos < 1000000000 :=
  (Instant.isRegular_ofMillis _).nanos_lt

/-- An entry that is found after a command is fresh, or was there as it was made. -/
theorem find?_step_cases (store : Store σ) (hc : s.cache.table.Accurate) {command : Command}
    (hsame : command.restarts = false) {key : String} {e : Entry}
    (he : (s.step store command).2.cache.table.find? key = some e) :
    e.isExpired s.now = false ∨ ∃ e', s.cache.table.find? key = some e' ∧ e.asMade = e'.asMade := by
  cases hloads : command.loads with
  | false =>
    rcases (step_transition hc store command).find?_cases hloads he with ⟨r, v, o, -, -, -, rfl⟩ | hthere
    · exact .inl (Entry.isExpired_created _)
    · exact .inr hthere
  | true =>
    obtain rfl : command = .rehydrate := by
      cases command with
      | rehydrate => rfl
      | restart => cases hsame
      | _ => cases hloads
    rcases Cache.find?_rehydrate_cases store s.cache s.now s.contents he with hfresh | hthere
    · exact .inl hfresh
    · exact .inr ⟨e, hthere, rfl⟩

/-- Every entry in the table was fresh at a certain time or at one since then. -/
structure FreshSince (s : Session σ) (last : Instant) : Prop where
  nanos_lt : last.nanos < 1000000000
  count_le : last.count ≤ s.now.count
  fresh : ∀ {key : String} {e : Entry}, s.cache.table.find? key = some e →
    ∃ t : Instant, t.nanos < 1000000000 ∧ last.count ≤ t.count ∧ t.count ≤ s.now.count ∧ e.isExpired t = false

/-- A tick that keeps to the clock is at the time that it shows. -/
theorem getD_now_of_keepsToClock {at' : Option Instant} (h : (Command.tick at').keepsToClock s.clock = true) :
    at'.getD s.now = s.now :=
  of_decide_eq_true (Bool.and_eq_true_iff.1 h).2

/-- The clock is not turned back by a command that keeps to it. -/
theorem count_now_le (store : Store σ) {command : Command} (hclock : command.keepsToClock s.clock = true) :
    s.now.count ≤ (s.step store command).2.now.count := by
  refine (Instant.le_iff_count_le s.nanos_now_lt (nanos_now_lt _)).1 ?_
  rw [now, now, step_clock]
  exact (Bool.and_eq_true_iff.1 hclock).1

theorem FreshSince.step {last : Instant} (h : s.FreshSince last) (store : Store σ) (hc : s.cache.table.Accurate)
    {command : Command} (hsame : command.restarts = false) (hclock : command.keepsToClock s.clock = true) :
    (s.step store command).2.FreshSince last where
  nanos_lt := h.nanos_lt
  count_le := Int.le_trans h.count_le (count_now_le store hclock)
  fresh := by
    intro key e he
    have hforward := count_now_le store hclock
    rcases find?_step_cases store hc hsame he with hfresh | ⟨e', he', hmade⟩
    · exact ⟨s.now, s.nanos_now_lt, h.count_le, hforward, hfresh⟩
    · obtain ⟨t, ht, hlast, hnow, hfresh⟩ := h.fresh he'
      exact ⟨t, ht, hlast, Int.le_trans hnow hforward, (Entry.isExpired_congr hmade t).trans hfresh⟩

/-- A sweep leaves what is fresh. -/
theorem freshSince_of_sweep (store : Store σ) (hc : s.cache.table.Accurate) {command : Command} {t : Instant}
    (hclock : command.keepsToClock s.clock = true) (hsweep : s.runTime? store .sweep command = some t) :
    t = s.now ∧ (s.step store command).2.FreshSince t := by
  obtain ⟨at', rfl⟩ : ∃ at', command = .tick at' := by
    cases htick : command.tickTime? s.clock with
    | none => cases (runTime?_of_not_tick store .sweep htick).symm.trans hsweep
    | some t =>
      obtain ⟨at', rfl, -⟩ := Command.tickTime?_eq_some_iff.1 htick
      exact ⟨at', rfl⟩
  have hnow := getD_now_of_keepsToClock hclock
  rw [runTime?_tick] at hsweep
  split at hsweep
  · rename_i hdue
    obtain rfl : at'.getD s.now = t := Option.some.inj hsweep
    refine ⟨hnow, ?_⟩
    rw [hnow]
    refine ⟨s.nanos_now_lt, Int.le_refl _, fun he => ⟨s.now, s.nanos_now_lt, Int.le_refl _, Int.le_refl _, ?_⟩⟩
    exact Schedule.isExpired_of_sweep hc hdue he
  · cases hsweep

/-- Over a run that keeps to the clock every entry was fresh at the last sweep or since then. -/
theorem freshSince_run (h : s.Reachable store) {commands : List Command}
    (hsame : ∀ command ∈ commands, command.restarts = false)
    (hclock : Command.allKeepToClock commands s.clock = true) (before : Option Instant)
    (hbefore : ∀ last ∈ before, s.FreshSince last) :
    ∀ last ∈ (runTimes store .sweep commands s).getLast?.or before, (run store commands s).FreshSince last := by
  induction commands generalizing s before with
  | nil => exact hbefore
  | cons command rest ih =>
    obtain ⟨hkeeps, hrest⟩ := Bool.and_eq_true_iff.1 hclock
    have hsame' := hsame command List.mem_cons_self
    rw [← step_clock store] at hrest
    have hlast : ∀ last ∈ (s.runTime? store .sweep command).or before, (s.step store command).2.FreshSince last := by
      cases hsweep : s.runTime? store .sweep command with
      | none => exact fun last hmem => (hbefore last hmem).step store h.sound.accurate hsame' hkeeps
      | some t =>
        intro last hmem
        obtain rfl : t = last := Option.some.inj hmem
        exact (freshSince_of_sweep store h.sound.accurate hkeeps hsweep).2
    rw [lastRun_cons]
    exact ih (h.step command) (fun command h => hsame command (List.mem_cons_of_mem _ h)) hrest _ hlast

theorem keepsToClock_of_append (store : Store σ) {a : List Command} {command : Command}
    (h : Command.allKeepToClock (a ++ [command]) s.clock = true) :
    command.keepsToClock (run store a s).clock = true := by
  induction a generalizing s with
  | nil => exact (Bool.and_eq_true_iff.1 h).1
  | cons first a ih =>
    refine ih (s := (s.step store first).2) ?_
    rw [step_clock]
    exact (Bool.and_eq_true_iff.1 h).2

/-- The timetable of a cache whose tasks never ran, over any run of one cache, and what a tick at a time leaves after
it.  The times of each task follow from its own interval and the times of the ticks: a tick runs it exactly when it has
not run yet or its interval has passed since it last did, up to the end of the calendar.  If all ticks go by the clock
and it is never turned back, the last sweep is at the time of the tick or less than its interval before, and every
entry in the table was fresh at the last sweep or at some time since then.  So if the interval is not zero, no entry is
left for which a full interval has passed since it was fresh.

It was fresh at the last sweep itself, unless it was made in a leap second inside a day: the time since then goes back
at midnight, and a record that is expired right before can be live again right after and be loaded. -/
theorem tick_timely (h : s.Reachable store) (hfresh : ∀ task, s.schedule.next task = none) {commands : List Command}
    (hsame : ∀ command ∈ commands, command.restarts = false) (at' : Option Instant) :
    let before := run store commands s
    let after := run store (commands ++ [.tick at']) s
    let t := at'.getD before.now
    let interval := s.schedule.interval .sweep
    (∀ task : Schedule.Task,
        runTimes store task commands s =
            Schedule.dueTimes (s.schedule.interval task) none (Command.tickTimes commands s.clock) ∧
          ((before.runTime? store task (.tick at')).isSome = true ↔
            ∀ last ∈ (runTimes store task commands s).getLast?,
              (last.after (s.schedule.interval task)).le t = true)) ∧
      (Command.allKeepToClock (commands ++ [.tick at']) s.clock = true →
        ∃ last ∈ (runTimes store .sweep (commands ++ [.tick at']) s).getLast?,
          (t = last ∨ (last.after interval).le t = false) ∧
            ∀ e ∈ after.cache.table.entries,
              (∃ u : Instant, last.le u = true ∧ u.le t = true ∧ e.isExpired u = false ∧
                  (0 < interval.nanos → t.count < u.count + interval.nanos)) ∧
                (e.created.AgesEvenly → e.isExpired last = false ∧
                  (0 < interval.nanos → (e.age t).nanos < e.ttl.nanos + interval.nanos))) := by
  intro before after t interval
  refine ⟨fun task => ⟨runTimes_eq_dueTimes store hsame task none (hfresh task),
    isSome_runTime?_iff store hsame (hfresh task) at'⟩, fun hclock => ?_⟩
  have hsame' : ∀ command ∈ commands ++ [.tick at'], command.restarts = false := by
    intro command hmem
    rcases List.mem_append.1 hmem with hmem | hmem
    · exact hsame command hmem
    · rw [List.mem_singleton.1 hmem]
      rfl
  obtain ⟨last, hlast, hsoon⟩ := exists_lastRun store hsame (hfresh .sweep) at'
  have hsince : after.FreshSince last :=
    freshSince_run h hsame' hclock none nofun last (by rwa [Option.or_none])
  have hnow : t = after.now := by
    have ht : t = before.now := getD_now_of_keepsToClock (keepsToClock_of_append store hclock)
    rw [ht, show after = (before.step store (.tick at')).2 from run_append .., now, now, step_clock]
    rfl
  have htnanos : t.nanos < 1000000000 := hnow ▸ nanos_now_lt after
  have hwithin : 0 < interval.nanos → t.count < last.count + interval.nanos :=
    fun hpos => Instant.count_lt_of_before_after htnanos hpos hsoon
  refine ⟨last, hlast, hsoon, fun e he => ?_⟩
  have hfound := (h.run _).sound.accurate.mem_entries_iff.1 he
  obtain ⟨u, hu, hlastu, hunow, hfreshu⟩ := hsince.fresh hfound
  rw [← hnow] at hunow
  refine ⟨⟨u, (Instant.le_iff_count_le hsince.nanos_lt hu).2 hlastu, (Instant.le_iff_count_le hu htnanos).2 hunow,
    hfreshu, fun hpos => Int.lt_of_lt_of_le (hwithin hpos) (Int.add_le_add_right hlastu _)⟩, fun heven => ?_⟩
  have hfreshlast := Entry.isExpired_eq_false_of_le heven hsince.nanos_lt hu hlastu hfreshu
  exact ⟨hfreshlast, fun hpos => Entry.age_lt heven hsince.nanos_lt htnanos hfreshlast hpos (hwithin hpos)⟩

private def idle : Session MemoryStore :=
  ofEmpty .default .runLength none ⟨0⟩ (.fresh .default) .empty

/-- A result is stored for ten seconds, and twenty seconds pass. -/
private def outliving : List Command :=
  [.set ⟨"/a", none, none⟩ (.int 1) ⟨some (.ofSeconds 10), .medium⟩, .advance (.ofSeconds 20)]

/-- An entry that is expired stays until the next sweep; it was fresh at the last one. -/
theorem tick_timely_between_sweeps :
    let commands := .tick none :: outliving ++ [.tick none]
    let after := run MemoryStore.store commands idle
    (runTimes MemoryStore.store .sweep commands idle).getLast? = some .epoch ∧
      ∃ e ∈ after.cache.table.entries, e.isExpired after.now = true ∧ e.isExpired .epoch = false ∧
        (e.age (.ofMillis 20000)).nanos < e.ttl.nanos + (Span.ofSeconds 60).nanos := by
  intro commands after
  have hepoch : (runTimes MemoryStore.store .sweep commands idle).getLast? = some .epoch := by decide +kernel
  have hreachable : idle.Reachable MemoryStore.store := .ofEmpty ..
  have hsame : ∀ command ∈ .tick none :: outliving, command.restarts = false := by decide +kernel
  obtain ⟨-, htimely⟩ := tick_timely hreachable (fun task => by cases task <;> rfl) hsame none
  obtain ⟨last, hlast, -, hentries⟩ := htimely (by decide +kernel)
  obtain rfl : Instant.epoch = last := Option.some.inj (hepoch.symm.trans hlast)
  have hany : after.cache.table.entries.any
      (fun e => decide (e.isExpired after.now = true ∧ e.created.AgesEvenly)) = true := by
    decide +kernel
  obtain ⟨e, he, hexpired⟩ := List.any_eq_true.1 hany
  obtain ⟨hexpired, heven⟩ := of_decide_eq_true hexpired
  obtain ⟨hfresh, hage⟩ := (hentries e he).2 heven
  exact ⟨hepoch, e, he, hexpired, hfresh, hage (by decide +kernel)⟩

/-- A record that was made in the leap second after 2023-11-14T12:00:59Z. -/
private def leaping : MemoryStore :=
  MemoryStore.empty.put "memo:k" (Snapshot.record ⟨"k", "/a", .int 1, ⟨1699963259, 1000000000⟩, 43140200, .high⟩)

/-- Half a second before the next day. -/
private def eve : Session MemoryStore :=
  ofEmpty .default .runLength (some (.ofSpace "memo")) ⟨1700006399500⟩ (.fresh .default) leaping

/-- An entry in the table can have been expired at the last sweep: the time since a leap second inside a day goes back
at midnight, and the record is loaded then. -/
theorem expired_at_last_sweep :
    let commands := [.tick none, .advance (.ofMillis 500), .rehydrate, .tick none]
    let after := run MemoryStore.store commands eve
    Command.allKeepToClock commands eve.clock = true ∧
      (runTimes MemoryStore.store .sweep commands eve).getLast? = some eve.now ∧
        ∃ e ∈ after.cache.table.entries, e.isExpired eve.now = true ∧ e.isExpired after.now = false := by
  intro commands after
  refine ⟨by decide +kernel, by decide +kernel, ?_⟩
  have hany : after.cache.table.entries.any
      (fun e => decide (e.isExpired eve.now = true ∧ e.isExpired after.now = false)) = true := by
    decide +kernel
  obtain ⟨e, he, hexpired⟩ := List.any_eq_true.1 hany
  exact ⟨e, he, of_decide_eq_true hexpired⟩

end Session

end ResultCache
