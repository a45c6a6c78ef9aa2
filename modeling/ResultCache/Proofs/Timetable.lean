import ResultCache.Proofs.Ledger

/-!
# The timetable of the tasks

A tick runs each task exactly when it never ran before or its interval has passed since it last did, so that the times
of a task follow from its own interval and the times of the ticks alone (`Session.runTimes_eq_dueTimes`).  What else
happens between the ticks, and what the other task does, has no part in it.
-/

namespace ResultCache

namespace Schedule

/-- The two tasks of a schedule. -/
inductive Task where
  | sweep
  | pressure

/-- The time between two runs of a task. -/
def interval (s : Schedule) : Task → Span
  | .sweep => s.sweepInterval
  | .pressure => s.pressureInterval

/-- When a task runs next. -/
def next (s : Schedule) : Task → Option Instant
  | .sweep => s.nextSweep
  | .pressure => s.nextPressure

/-- The times among those of some ticks at which a task runs that runs at one interval and last ran at some time. -/
def dueTimes (interval : Span) : Option Instant → List Instant → List Instant
  | _, [] => []
  | last, t :: rest =>
    if last.all fun last => (last.after interval).le t then t :: dueTimes interval (some t) rest
    else dueTimes interval last rest

/-- A task is due exactly when its interval has passed since it last ran. -/
theorem isDue_after (last : Option Instant) (interval : Span) (at' : Instant) :
    isDue (last.map (·.after interval)) at' = last.all fun last => (last.after interval).le at' := by
  cases last <;> rfl

end Schedule

/-- What a tick tells of a task. -/
def TickReport.did (r : TickReport) : Schedule.Task → Option Nat
  | .sweep => r.swept
  | .pressure => r.evicted

namespace Schedule

/-- What a tick does to a task: it tells of it exactly when it was due, and then puts it off by its interval; a task
that was not due keeps its time.  The other task has no part in it. -/
theorem tick_spec (s : Schedule) (at' now : Instant) (c : Cache) (task : Task) :
    ((s.tick at' now c).1.did task).isSome = isDue (s.next task) at' ∧
      (s.tick at' now c).2.1.interval task = s.interval task ∧
      (s.tick at' now c).2.1.next task =
        if isDue (s.next task) at' then some (at'.after (s.interval task)) else s.next task := by
  cases hsweep : isDue s.nextSweep at' <;> cases hcheck : isDue s.nextPressure at' <;> cases task <;>
    simp [tick, sweep, checkPressure, TickReport.did, interval, next, hsweep, hcheck]

end Schedule

namespace Command

/-- What a clock shows after a command. -/
def moveClock (c : ManualClock) : Command → ManualClock
  | .advance span => c.advance span
  | .setClock t => c.set t
  | _ => c

/-- The time of a tick. -/
def tickTime? (c : ManualClock) : Command → Option Instant
  | .tick at' => some (at'.getD c.now)
  | _ => none

theorem tickTime?_eq_some_iff {c : ManualClock} {command : Command} {t : Instant} :
    command.tickTime? c = some t ↔ ∃ at', command = .tick at' ∧ at'.getD c.now = t := by
  cases command <;> simp [tickTime?]

/-- The times of the ticks in a run; they depend on nothing but the commands and the clock. -/
def tickTimes : List Command → ManualClock → List Instant
  | [], _ => []
  | command :: rest, c => (command.tickTime? c).toList ++ tickTimes rest (command.moveClock c)

/-- A command keeps to the clock if it does not turn it back and is not a tick of another time. -/
def keepsToClock (c : ManualClock) (command : Command) : Bool :=
  c.now.le (command.moveClock c).now && (command.tickTime? c).all (· == c.now)

/-- Whether all commands of a run keep to the clock. -/
def allKeepToClock : List Command → ManualClock → Bool
  | [], _ => true
  | command :: rest, c => command.keepsToClock c && allKeepToClock rest (command.moveClock c)

end Command

namespace Session

variable {σ : Type} {store : Store σ} {s : Session σ}

theorem step_clock (store : Store σ) (s : Session σ) (command : Command) :
    (s.step store command).2.clock = command.moveClock s.clock := by
  cases command with
  | writeNext =>
    simp only [step, writeNext]
    split <;> rfl
  | write =>
    simp only [step, write]
    split <;> rfl
  | barrier =>
    simp only [step, writeToBarrier]
    split <;> rfl
  | restart settings codec =>
    simp only [step]
    split <;> rfl
  | _ => rfl

/-- Only a tick changes the schedule, as long as the cache is the same. -/
theorem step_schedule (store : Store σ) (s : Session σ) {command : Command} (hsame : command.restarts = false)
    (htick : command.tickTime? s.clock = none) : (s.step store command).2.schedule = s.schedule := by
  cases command with
  | tick at' => cases htick
  | writeNext =>
    simp only [step, writeNext]
    split <;> rfl
  | write =>
    simp only [step, write]
    split <;> rfl
  | barrier =>
    simp only [step, writeToBarrier]
    split <;> rfl
  | restart settings codec => cases hsame
  | _ => rfl

/-- The time of a command if it is a tick that runs a task. -/
def runTime? (store : Store σ) (s : Session σ) (task : Schedule.Task) (command : Command) : Option Instant :=
  match (s.step store command).1 with
  | .report r => (command.tickTime? s.clock).filter fun _ => (r.did task).isSome
  | _ => none

/-- The times of the ticks of a run that run a task. -/
def runTimes (store : Store σ) (task : Schedule.Task) : List Command → Session σ → List Instant
  | [], _ => []
  | command :: rest, s => (s.runTime? store task command).toList ++ runTimes store task rest (s.step store command).2

theorem runTimes_append (store : Store σ) (task : Schedule.Task) (a b : List Command) (s : Session σ) :
    runTimes store task (a ++ b) s = runTimes store task a s ++ runTimes store task b (run store a s) := by
  induction a generalizing s with
  | nil => rfl
  | cons command a ih =>
    rw [List.cons_append, runTimes, runTimes, ih, List.append_assoc]
    rfl

/-- The last time of a run that begins with a command, where the task last ran at some time before. -/
theorem lastRun_cons (store : Store σ) (s : Session σ) (task : Schedule.Task) (command : Command)
    (rest : List Command) (last : Option Instant) :
    (runTimes store task (command :: rest) s).getLast?.or last =
      (runTimes store task rest (s.step store command).2).getLast?.or ((s.runTime? store task command).or last) := by
  rw [runTimes, List.getLast?_append, Option.or_assoc]
  cases s.runTime? store task command <;> rfl

theorem runTime?_of_not_tick (store : Store σ) (task : Schedule.Task) {command : Command}
    (h : command.tickTime? s.clock = none) : s.runTime? store task command = none := by
  rw [runTime?]
  split
  · rw [h]
    rfl
  · rfl

theorem runTime?_tick (store : Store σ) (s : Session σ) (task : Schedule.Task) (at' : Option Instant) :
    s.runTime? store task (.tick at') =
      if Schedule.isDue (s.schedule.next task) (at'.getD s.now) then some (at'.getD s.now) else none := by
  obtain ⟨hdid, -, -⟩ := Schedule.tick_spec s.schedule (at'.getD s.now) s.now s.cache task
  show (some (at'.getD s.now)).filter (fun _ => ((s.schedule.tick (at'.getD s.now) s.now s.cache).1.did task).isSome) = _
  rw [hdid, Option.filter]

/-- What a command does to the times of a task: one that runs it puts off its next run by its interval, and any other
one leaves it. -/
theorem step_next (store : Store σ) (s : Session σ) {command : Command} (hsame : command.restarts = false)
    (task : Schedule.Task) :
    (s.step store command).2.schedule.interval task = s.schedule.interval task ∧
      (s.step store command).2.schedule.next task =
        match s.runTime? store task command with
        | some t => some (t.after (s.schedule.interval task))
        | none => s.schedule.next task := by
  cases htick : command.tickTime? s.clock with
  | none =>
    rw [step_schedule store s hsame htick, runTime?_of_not_tick store task htick]
    exact ⟨rfl, rfl⟩
  | some t =>
    obtain ⟨at', rfl, rfl⟩ := Command.tickTime?_eq_some_iff.1 htick
    obtain ⟨-, hinterval, hnext⟩ := Schedule.tick_spec s.schedule (at'.getD s.now) s.now s.cache task
    refine ⟨hinterval, hnext.trans ?_⟩
    rw [runTime?_tick]
    split <;> rfl

/-- Over a run the next run of a task stays its interval after its last one. -/
theorem run_next (store : Store σ) {commands : List Command} (hsame : ∀ command ∈ commands, command.restarts = false)
    (task : Schedule.Task) (last : Option Instant)
    (hnext : s.schedule.next task = last.map (·.after (s.schedule.interval task))) :
    (run store commands s).schedule.next task =
      ((runTimes store task commands s).getLast?.or last).map (·.after (s.schedule.interval task)) := by
  induction commands generalizing s last with
  | nil => exact hnext
  | cons command rest ih =>
    obtain ⟨hinterval, hstep⟩ := step_next store s (hsame command List.mem_cons_self) task
    have hlast : (s.step store command).2.schedule.next task =
        ((s.runTime? store task command).or last).map (·.after ((s.step store command).2.schedule.interval task)) := by
      rw [hstep, hinterval]
      cases s.runTime? store task command with
      | none => exact hnext
      | some t => rfl
    have hrest := ih (fun command h => hsame command (List.mem_cons_of_mem _ h)) _ hlast
    rw [show run store (command :: rest) s = run store rest (s.step store command).2 from rfl, hrest, hinterval,
      lastRun_cons]

/-- The times of a task in a run are those of the ticks at which its own interval has passed since it last ran. -/
theorem runTimes_eq_dueTimes (store : Store σ) {commands : List Command}
    (hsame : ∀ command ∈ commands, command.restarts = false) (task : Schedule.Task) (last : Option Instant)
    (hnext : s.schedule.next task = last.map (·.after (s.schedule.interval task))) :
    runTimes store task commands s =
      Schedule.dueTimes (s.schedule.interval task) last (Command.tickTimes commands s.clock) := by
  induction commands generalizing s last with
  | nil => rfl
  | cons command rest ih =>
    obtain ⟨hinterval, hstep⟩ := step_next store s (hsame command List.mem_cons_self) task
    -- of what happened before, the ticks to come need only the time at which the task last ran
    have hrest : ∀ last : Option Instant,
        (s.step store command).2.schedule.next task = last.map (·.after (s.schedule.interval task)) →
        runTimes store task rest (s.step store command).2 = Schedule.dueTimes (s.schedule.interval task) last
          (Command.tickTimes rest (command.moveClock s.clock)) := by
      intro last h
      rw [← hinterval] at h ⊢
      rw [← step_clock store]
      exact ih (fun command h => hsame command (List.mem_cons_of_mem _ h)) last h
    rw [runTimes, Command.tickTimes]
    cases htick : command.tickTime? s.clock with
    | none =>
      rw [runTime?_of_not_tick store task htick] at hstep ⊢
      exact hrest last (hstep.trans hnext)
    | some t =>
      obtain ⟨at', rfl, ht⟩ := Command.tickTime?_eq_some_iff.1 htick
      obtain rfl : at'.getD s.now = t := ht
      rw [runTime?_tick, hnext, Schedule.isDue_after] at hstep ⊢
      rw [Option.toList_some, List.singleton_append, Schedule.dueTimes]
      split
      · rename_i hdue
        rw [if_pos hdue] at hstep
        rw [Option.toList_some, List.singleton_append, hrest (some (at'.getD s.now)) hstep]
      · rename_i hdue
        rw [if_neg hdue] at hstep
        exact hrest last hstep

/-- From a schedule on which a task never ran, a tick runs it exactly when it has not run yet or its interval has passed
since it last did. -/
theorem isSome_runTime?_iff (store : Store σ) {commands : List Command}
    (hsame : ∀ command ∈ commands, command.restarts = false) {task : Schedule.Task}
    (hfresh : s.schedule.next task = none) (at' : Option Instant) :
    ((run store commands s).runTime? store task (.tick at')).isSome = true ↔
      ∀ last ∈ (runTimes store task commands s).getLast?,
        (last.after (s.schedule.interval task)).le (at'.getD (run store commands s).now) = true := by
  have hnext := run_next store hsame task none hfresh
  rw [Option.or_none] at hnext
  rw [runTime?_tick, hnext, Schedule.isDue_after]
  cases (runTimes store task commands s).getLast? with
  | none => simp
  | some last => simp

/-- After a tick each task has run, at that time or less than its interval before. -/
theorem exists_lastRun (store : Store σ) {commands : List Command}
    (hsame : ∀ command ∈ commands, command.restarts = false) {task : Schedule.Task}
    (hfresh : s.schedule.next task = none) (at' : Option Instant) :
    let t := at'.getD (run store commands s).now
    ∃ last ∈ (runTimes store task (commands ++ [.tick at']) s).getLast?,
      t = last ∨ (last.after (s.schedule.interval task)).le t = false := by
  intro t
  have hiff := isSome_runTime?_iff store hsame hfresh at'
  have htime := runTime?_tick store (run store commands s) task at'
  rw [runTimes_append, List.getLast?_append, runTimes, runTimes, List.append_nil]
  split at htime
  · rw [htime]
    exact ⟨t, rfl, .inl rfl⟩
  · -- the task was not due, so it ran before
    rw [htime] at hiff ⊢
    cases hlast : (runTimes store task commands s).getLast? with
    | none => simp [hlast] at hiff
    | some last => exact ⟨last, rfl, .inr (by simpa [hlast] using hiff)⟩

end Session

end ResultCache
