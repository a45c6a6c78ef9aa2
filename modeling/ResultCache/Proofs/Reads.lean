import ResultCache.Proofs.Ledger
import ResultCache.Proofs.Protection

/-!
# What the counters tell of reads

A read that tells its caller a value is a hit, and is noted in the entry.  A read that tells nothing is a miss, with one
exception: a read as a value of some kind that finds a value of another kind tells nothing, but is a hit and is noted
all the same (`Session.mismatches`).  What one command does to the counters and to the notes is `Session.Reckons`; over
a run, `run_reckons` adds it up for the counters, and for each entry from the command that put it in.
-/

namespace ResultCache

namespace Cache

variable {c c' : Cache} {now : Instant}

/-- No read is counted and none is noted in an entry, and no entry comes. -/
structure Overlooks (c c' : Cache) : Prop where
  hits_eq : c'.counters.hits = c.counters.hits
  misses_eq : c'.counters.misses = c.counters.misses
  find?_of_find? : ∀ key e, c'.table.find? key = some e → c.table.find? key = some e

theorem overlooks_of_same (htable : c'.table = c.table) (hcounters : c'.counters = c.counters) : c.Overlooks c' :=
  ⟨by rw [hcounters], by rw [hcounters], fun _ _ he => htable ▸ he⟩

theorem Sheds.overlooks {gone : List (Entry × Removal)} (h : Sheds now c gone c') : c.Overlooks c' := by
  refine ⟨h.reads_eq.1, h.reads_eq.2, fun key e he => ?_⟩
  induction h with
  | nil => exact he
  | cons _ _ _ ih =>
    have before := ih he
    rw [removeEntry_table, Table.find?_detach] at before
    split at before
    · cases before
    · exact before

/-- A read counts what it finds, and notes it in the entry. -/
theorem getByKey_counts (c : Cache) (now : Instant) (key : String) :
    let found := (c.getByKey now key).1.isSome
    let c' := (c.getByKey now key).2
    c'.counters.hits = c.counters.hits + found.toNat ∧ c'.counters.misses = c.counters.misses + (!found).toNat ∧
      ∀ x e', c'.table.find? x = some e' → ∃ e, c.table.find? x = some e ∧ e'.asMade = e.asMade ∧
        e'.accessCount = e.accessCount + (key == x && found).toNat := by
  have removal : ∀ {e : Entry} (why : Removal), c.table.find? key = some e → c.Warrants now e why →
      c.Overlooks (c.removeEntry key e why) :=
    fun _ found warranted => (Sheds.cons found warranted (.nil _)).overlooks
  dsimp only
  rw [getByKey]
  split
  · exact ⟨rfl, rfl, fun x e' he' => ⟨e', he', rfl, by simp⟩⟩
  · rename_i e found
    split
    · rename_i hexpired
      have h := removal .expired found hexpired
      exact ⟨h.hits_eq, congrArg (· + 1) h.misses_eq, fun x e' he' => ⟨e', h.find?_of_find? x e' he', rfl, by simp⟩⟩
    · rename_i hfresh
      rw [Bool.not_eq_true] at hfresh
      split
      · rename_i hdecode
        have h := removal .corrupt found ⟨hfresh, hdecode⟩
        exact ⟨h.hits_eq, congrArg (· + 1) h.misses_eq,
          fun x e' he' => ⟨e', h.find?_of_find? x e' he', rfl, by simp⟩⟩
      · refine ⟨rfl, rfl, fun x e' he' => ?_⟩
        rw [Table.find?_update] at he'
        split at he'
        · rename_i hx
          obtain ⟨e₁, he₁, rfl⟩ := Option.map_eq_some_iff.1 he'
          exact ⟨e₁, he₁, rfl, by simp [hx, Entry.touch]⟩
        · rename_i hx
          exact ⟨e', he', rfl, by simp [Ne.symm hx]⟩

end Cache

namespace Session

variable {σ : Type} {store : Store σ} {s : Session σ}

/-! ### What callers see -/

/-- Whether a command is a read that tells its caller a value. -/
def gives (store : Store σ) (s : Session σ) (command : Command) : Bool :=
  match (s.step store command).1 with
  | .value (some _) => true
  | _ => false

/-- Whether a command is a read that tells its caller nothing. -/
def withholds (store : Store σ) (s : Session σ) (command : Command) : Bool :=
  match (s.step store command).1 with
  | .value none => true
  | _ => false

/-- Whether a command is a read as a value of some kind that finds a value of another kind. -/
def mismatches (s : Session σ) : Command → Bool
  | .getAs r kind => (s.cache.get s.now r).1.any fun v => (kind v).isNone
  | _ => false

/-- Whether a command is a read of a key. -/
def readsKey (s : Session σ) (key : String) (command : Command) : Bool :=
  s.readKey? command == some key

/-- How many commands of a run have a property in the session that each of them meets. -/
def countRun (store : Store σ) (p : Session σ → Command → Bool) : List Command → Session σ → Nat
  | [], _ => 0
  | command :: commands, s => (p s command).toNat + countRun store p commands (s.step store command).2

/-- Whether a command puts an entry into the table: a set that succeeds, or a load that finds none of its key there. -/
def Inserts (store : Store σ) (s : Session σ) (e : Entry) : Command → Prop
  | .set r v o => (s.cache.set s.now r v o).1 = .ok () ∧ e = s.cache.entryFor s.now r v o
  | .rehydrate => s.cache.table.find? e.key = none ∧ (s.step store .rehydrate).2.cache.table.find? e.key = some e
  | _ => False

/-! ### One command -/

/-- How the counters change by a command, and what an entry goes back to that is found after it: one that the command
put in, or one that was there and in which the command is noted if it read it. -/
structure Reckons (store : Store σ) (s : Session σ) (command : Command) : Prop where
  hits_eq : (s.step store command).2.cache.counters.hits =
    s.cache.counters.hits + (s.gives store command).toNat + (s.mismatches command).toNat
  misses_eq : (s.step store command).2.cache.counters.misses + (s.mismatches command).toNat =
    s.cache.counters.misses + (s.withholds store command).toNat
  entry_cases : ∀ key e', (s.step store command).2.cache.table.find? key = some e' →
    s.Inserts store e' command ∨
      ∃ e, s.cache.table.find? key = some e ∧ e'.asMade = e.asMade ∧
        e'.accessCount = e.accessCount + (s.readsKey key command && s.gives store command).toNat +
          (s.readsKey key command && s.mismatches command).toNat

/-- A command that is no read and puts nothing in. -/
theorem reckons_of_overlooks {command : Command} (h : s.cache.Overlooks (s.step store command).2.cache)
    (hgives : s.gives store command = false) (hwithholds : s.withholds store command = false)
    (hmismatches : s.mismatches command = false) : s.Reckons store command := by
  refine ⟨?_, ?_, fun key e' he' => .inr ⟨e', h.find?_of_find? key e' he', rfl, ?_⟩⟩
  · rw [h.hits_eq, hgives, hmismatches]
    rfl
  · rw [h.misses_eq, hwithholds, hmismatches]
  · simp [hgives, hmismatches]

/-- A read: it gives a value or mismatches exactly if a value is found. -/
theorem reckons_of_read {command : Command} (key : String) (hread : s.readKey? command = some key)
    (hcache : (s.step store command).2.cache = (s.cache.getByKey s.now key).2)
    (hfound : (s.cache.getByKey s.now key).1.isSome.toNat =
      (s.gives store command).toNat + (s.mismatches command).toNat)
    (hlost : (s.withholds store command).toNat =
      (!(s.cache.getByKey s.now key).1.isSome).toNat + (s.mismatches command).toNat) : s.Reckons store command := by
  obtain ⟨hhits, hmisses, hentries⟩ := s.cache.getByKey_counts s.now key
  refine ⟨?_, ?_, fun x e' he' => .inr ?_⟩
  · rw [hcache, hhits, hfound, Nat.add_assoc]
  · rw [hcache, hmisses, hlost, Nat.add_assoc]
  · obtain ⟨e, he, hmade, hcount⟩ := hentries x e' (hcache ▸ he')
    refine ⟨e, he, hmade, ?_⟩
    have hreads : s.readsKey x command = (key == x) := by
      rw [readsKey, hread]
      rfl
    rw [hcount, hreads]
    cases key == x with
    | false => rfl
    | true => simp only [Bool.true_and, hfound, Nat.add_assoc]

theorem reckons_getAs (store : Store σ) (s : Session σ) (r : Request) (kind : Json → Option Json) :
    s.Reckons store (.getAs r kind) := by
  have hread : (s.cache.getByKey s.now (s.cache.keyFor r)).1 = (s.cache.get s.now r).1 := rfl
  have hstep : (s.step store (.getAs r kind)).1 = .value ((s.cache.get s.now r).1.bind kind) := rfl
  refine reckons_of_read (s.cache.keyFor r) rfl rfl ?_ ?_ <;>
    simp only [hread, gives, withholds, mismatches, hstep] <;>
    cases (s.cache.get s.now r).1 with
    | none => rfl
    | some v =>
      -- what is found is of the kind, or is not
      cases hkind : kind v <;> simp [hkind]

/-- A set that succeeds puts its entry in after removals. -/
theorem reckons_set (store : Store σ) (hc : s.cache.table.Accurate) (r : Request) (v : Json) (o : SetOptions) :
    s.Reckons store (.set r v o) := by
  obtain ⟨expired, victims, c, sheds, ⟨f, hset⟩ | ⟨-, hset⟩⟩ := Cache.set_sheds hc s.now r v o
  · have hstep : (s.step store (.set r v o)).2.cache = c := by simp only [step, hset]; rfl
    exact reckons_of_overlooks (hstep ▸ sheds.overlooks) rfl rfl rfl
  have overlooks := sheds.overlooks
  have hstep : (s.step store (.set r v o)).2.cache = c.replace (s.cache.entryFor s.now r v o) v := by
    simp only [step, hset]
    rfl
  refine ⟨?_, ?_, fun key e' he' => ?_⟩
  · rw [hstep, Cache.replace_counters, overlooks.hits_eq]
    rfl
  · rw [hstep, Cache.replace_counters, overlooks.misses_eq]
    rfl
  · rw [hstep, Cache.replace_table, Table.find?_attach] at he'
    split at he'
    · obtain rfl := Option.some.inj he'
      exact .inl ⟨congrArg Prod.fst hset, rfl⟩
    · rename_i hkey
      rw [Table.find?_detach, if_neg hkey] at he'
      exact .inr ⟨e', overlooks.find?_of_find? key e' he', rfl, rfl⟩

theorem reckons_rehydrate (store : Store σ) (hc : s.cache.Sound) : s.Reckons store .rehydrate := by
  obtain ⟨live, h⟩ := rehydrate_eq_loadAll store s.cache s.now s.contents
  have hstep : (s.step store .rehydrate).2.cache = (Cache.loadAll s.now live s.cache).2 := h
  obtain ⟨_, _, _, _, hcounters⟩ := Cache.booked_loadAll s.now live s.cache
  refine ⟨?_, ?_, fun key e' he' => ?_⟩
  · rw [hstep, hcounters]
    rfl
  · rw [hstep, hcounters]
    rfl
  · have hkey : e'.key = key := (hstep ▸ hc.loadAll s.now live).accurate.key_of_find? he'
    rcases Cache.find?_loadAll_cases s.now live (hstep ▸ he') with hfound | ⟨hnone, -⟩
    · exact .inr ⟨e', hfound, rfl, rfl⟩
    · exact .inl ⟨hkey ▸ hnone, hkey ▸ he'⟩

/-- Every command reckons, as long as the cache of the session is the same. -/
theorem step_reckons (store : Store σ) (hs : s.cache.Sound) {command : Command} (hsame : command.restarts = false) :
    s.Reckons store command := by
  have hc := hs.accurate
  have same : ∀ {command : Command}, (s.step store command).2.cache.table = s.cache.table →
      (s.step store command).2.cache.counters = s.cache.counters → s.gives store command = false →
      s.withholds store command = false → s.mismatches command = false → s.Reckons store command :=
    fun htable hcounters => reckons_of_overlooks (Cache.overlooks_of_same htable hcounters)
  cases command with
  | set r v o => exact reckons_set store hc r v o
  | get r =>
    refine reckons_of_read (s.cache.keyFor r) rfl rfl ?_ ?_ <;>
      simp only [gives, withholds, mismatches, step, Cache.get] <;>
      cases (s.cache.getByKey s.now (s.cache.keyFor r)).1 <;> rfl
  | getByKey key =>
    refine reckons_of_read key rfl rfl ?_ ?_ <;> simp only [gives, withholds, mismatches, step] <;>
      cases (s.cache.getByKey s.now key).1 <;> rfl
  | getAs r kind => exact reckons_getAs store s r kind
  | invalidate r =>
    exact reckons_of_overlooks (Cache.remove_sheds s.cache s.now (s.cache.keyFor r)).overlooks rfl rfl rfl
  | invalidatePattern pattern =>
    exact reckons_of_overlooks (Cache.invalidatePattern_sheds hc s.now pattern).overlooks rfl rfl rfl
  | clear => exact reckons_of_overlooks ⟨rfl, rfl, fun key e he => by cases he⟩ rfl rfl rfl
  | purge => exact reckons_of_overlooks (Cache.purgeExpired_sheds hc s.now).overlooks rfl rfl rfl
  | relieve =>
    obtain ⟨_, -, h⟩ := Cache.relievePressure_sheds hc s.now
    exact reckons_of_overlooks h.overlooks rfl rfl rfl
  | tick at' =>
    obtain ⟨_, _, h⟩ := Schedule.tick_sheds hc s.schedule (at'.getD s.now) s.now
    exact reckons_of_overlooks h.overlooks rfl rfl rfl
  | maintain =>
    obtain ⟨_, _, h⟩ := Schedule.tick_sheds hc (.fresh s.cache.settings) s.now s.now
    exact reckons_of_overlooks h.overlooks rfl rfl rfl
  | rehydrate => exact reckons_rehydrate store hs
  | has r => exact same rfl rfl rfl rfl rfl
  | advance span => exact same rfl rfl rfl rfl rfl
  | setClock t => exact same rfl rfl rfl rfl rfl
  | writeNext =>
    refine same ?_ ?_ rfl rfl rfl <;> simp only [step, writeNext] <;> split <;> rfl
  | write =>
    refine same ?_ ?_ rfl rfl rfl <;> simp only [step, write] <;> split <;> rfl
  | barrier =>
    refine same ?_ ?_ rfl rfl rfl <;> simp only [step, writeToBarrier] <;> split <;> rfl
  | disconnect => exact same rfl rfl rfl rfl rfl
  | restart settings codec => cases hsame

/-- What is put in is there after the command, and was never read. -/
theorem Inserts.spec (hc : s.cache.table.Accurate) {command : Command} {e : Entry} (h : s.Inserts store e command) :
    (s.step store command).2.cache.table.find? e.key = some e ∧ e.accessCount = 0 := by
  cases command with
  | set r v o =>
    obtain ⟨ok, rfl⟩ := h
    exact ⟨Cache.find?_set hc ok, rfl⟩
  | rehydrate =>
    obtain ⟨hnone, hsome⟩ := h
    obtain ⟨live, hload⟩ := rehydrate_eq_loadAll store s.cache s.now s.contents
    have hstep : (s.step store .rehydrate).2.cache = (Cache.loadAll s.now live s.cache).2 := hload
    refine ⟨hsome, ?_⟩
    rcases Cache.find?_loadAll_cases s.now live (hstep ▸ hsome) with hfound | ⟨-, _, -, -, heq⟩
    · exact absurd (hnone.symm.trans hfound) (by simp)
    · rw [heq]
      rfl
  | _ => exact h.elim

/-! ### Runs -/

theorem countRun_append_singleton (store : Store σ) (p : Session σ → Command → Bool) (commands : List Command)
    (command : Command) (s : Session σ) :
    countRun store p (commands ++ [command]) s =
      countRun store p commands s + (p (run store commands s) command).toNat := by
  induction commands generalizing s with
  | nil => exact Nat.add_comm ..
  | cons first commands ih =>
    simp only [List.cons_append, countRun, ih, Nat.add_assoc]
    rfl

/-- The command of a run that put an entry under a key, if no later one has put in another one. -/
structure Insertion (store : Store σ) (s₀ : Session σ) (commands : List Command) (key : String) where
  before : List Command
  command : Command
  after : List Command
  entry : Entry
  commands_eq : commands = before ++ command :: after
  key_eq : entry.key = key
  inserts : (run store before s₀).Inserts store entry command
  not_repeated : ∀ between next rest, after = between ++ next :: rest → ∀ e, e.key = key →
    ¬ (run store (before ++ command :: between) s₀).Inserts store e next

namespace Insertion

variable {s₀ : Session σ} {commands : List Command} {key : String}

/-- The session in which the entry is new. -/
def session (i : Insertion store s₀ commands key) : Session σ :=
  run store (i.before ++ [i.command]) s₀

/-- How many of the commands since are reads of the key and have a property. -/
def countSince (i : Insertion store s₀ commands key) (p : Session σ → Command → Bool) : Nat :=
  countRun store (fun s command => s.readsKey key command && p s command) i.after i.session

theorem run_after (i : Insertion store s₀ commands key) : run store i.after i.session = run store commands s₀ := by
  rw [session, ← run_append, List.append_assoc]
  exact congrArg (run store · s₀) i.commands_eq.symm

/-- An entry that the last command of a run put in. -/
def last {command : Command} {e : Entry} (h : (run store commands s₀).Inserts store e command) (hkey : e.key = key) :
    Insertion store s₀ (commands ++ [command]) key :=
  ⟨commands, command, [], e, rfl, hkey, h, by simp⟩

/-- The insertion is still the last one after a command that puts nothing under the key. -/
def extend (i : Insertion store s₀ commands key) {command : Command}
    (h : ∀ e, e.key = key → ¬ (run store commands s₀).Inserts store e command) :
    Insertion store s₀ (commands ++ [command]) key :=
  { i with
    after := i.after ++ [command]
    commands_eq := (congrArg (· ++ [command]) i.commands_eq).trans (List.append_assoc ..)
    not_repeated := by
      -- the next command is the one that is added, or it stood in the run before
      intro between next rest hafter
      rcases List.eq_nil_or_concat rest with rfl | ⟨rest', last, rfl⟩
      · obtain ⟨rfl, hnext⟩ := List.append_inj' hafter rfl
        cases hnext
        rwa [← i.commands_eq]
      · rw [List.concat_eq_append, ← List.cons_append, ← List.append_assoc] at hafter
        exact i.not_repeated between next rest' (List.append_inj' hafter rfl).1 }

theorem countSince_extend (i : Insertion store s₀ commands key) {command : Command}
    (h : ∀ e, e.key = key → ¬ (run store commands s₀).Inserts store e command) (p : Session σ → Command → Bool) :
    (i.extend h).countSince p =
      i.countSince p + ((run store commands s₀).readsKey key command && p (run store commands s₀) command).toNat := by
  refine (countRun_append_singleton ..).trans ?_
  exact congrArg (fun s => i.countSince p + (readsKey s key command && p s command).toNat) i.run_after

end Insertion

/-- What the counters and the entries tell after a run of a cache from empty that is not replaced by another one: the
hits are the reads that gave a value and those that mismatched, the misses the other reads that gave nothing, and the
access count of an entry is the number of the reads of it since it was put in that gave a value or mismatched. -/
theorem run_reckons (settings : Settings) (codec : Codec) (tier : Option Tier) (clock : ManualClock)
    (schedule : Schedule) (contents : σ) (store : Store σ) {commands : List Command}
    (hsame : ∀ command ∈ commands, command.restarts = false) :
    let start := ofEmpty settings codec tier clock schedule contents
    let s := run store commands start
    s.cache.counters.hits = countRun store (gives store) commands start + countRun store mismatches commands start ∧
      s.cache.counters.misses + countRun store mismatches commands start =
        countRun store (withholds store) commands start ∧
      ∀ key e, s.cache.table.find? key = some e → ∃ i : Insertion store start commands key,
        e.asMade = i.entry.asMade ∧ e.accessCount = i.countSince (gives store) + i.countSince mismatches := by
  intro start s
  have hstart : start.Reachable store := .ofEmpty ..
  subst s
  induction commands using List.reverseRecOn with
  | nil => exact ⟨rfl, rfl, fun key e he => by cases he⟩
  | append_singleton commands command ih =>
    obtain ⟨hhits, hmisses, hentries⟩ := ih fun command h => hsame command (List.mem_append_left _ h)
    have hsound := (hstart.run commands).sound
    have reckons := step_reckons store hsound (hsame command (by simp))
    rw [run_append, run_singleton, countRun_append_singleton, countRun_append_singleton, countRun_append_singleton]
    refine ⟨?_, ?_, fun key e' he' => ?_⟩
    · rw [reckons.hits_eq, hhits]
      omega
    · have := reckons.misses_eq
      omega
    · have found : ∀ {e}, e.key = key → (run store commands start).Inserts store e command → e' = e ∧
          e.accessCount = 0 := by
        intro e hkey h
        obtain ⟨hfind, hcount⟩ := h.spec hsound.accurate
        rw [hkey, he'] at hfind
        exact ⟨Option.some.inj hfind, hcount⟩
      by_cases hnew : ∃ e, e.key = key ∧ (run store commands start).Inserts store e command
      · obtain ⟨e, hkey, h⟩ := hnew
        obtain ⟨rfl, hcount⟩ := found hkey h
        exact ⟨.last h hkey, rfl, hcount⟩
      · have hnone : ∀ e, e.key = key → ¬ (run store commands start).Inserts store e command :=
          fun e hkey h => hnew ⟨e, hkey, h⟩
        have hkey : e'.key = key := by
          have hafter := ((hstart.run commands).step command).sound
          exact hafter.accurate.key_of_find? he'
        rcases reckons.entry_cases key e' he' with h | ⟨e, he, hmade, hcount⟩
        · exact absurd h (hnone e' hkey)
        · obtain ⟨i, hi, hsince⟩ := hentries key e he
          refine ⟨i.extend hnone, hmade.trans hi, ?_⟩
          rw [i.countSince_extend, i.countSince_extend, hcount, hsince]
          omega

/-- A result that is no flag is read, one that is not there is read, and the first one is read as a flag. -/
private def readings : List Command :=
  [.set ⟨"/a", none, none⟩ (.str "x") .default, .get ⟨"/a", none, none⟩, .getByKey "::/b",
   .getAs ⟨"/a", none, none⟩ fun v => v.asBool?.map .bool]

private def unread : Session MemoryStore :=
  ofEmpty Settings.default .runLength none ⟨0⟩ (.fresh .default) MemoryStore.empty

theorem run_reckons_readings :
    countRun MemoryStore.store mismatches readings unread = 1 ∧
      (run MemoryStore.store readings unread).cache.counters.misses + 1 =
        countRun MemoryStore.store (withholds MemoryStore.store) readings unread ∧
      ∃ e, (run MemoryStore.store readings unread).cache.table.find? "::/a" = some e ∧
        ∃ i : Insertion MemoryStore.store unread readings "::/a",
          e.accessCount = i.countSince (gives MemoryStore.store) + i.countSince mismatches := by
  have hcount : countRun MemoryStore.store mismatches readings unread = 1 := by decide +kernel
  have hsome : ((run MemoryStore.store readings unread).cache.table.find? "::/a").isSome = true := by decide +kernel
  obtain ⟨-, hmisses, hentries⟩ := run_reckons .default .runLength none ⟨0⟩ (.fresh .default) MemoryStore.empty
    MemoryStore.store (show ∀ command ∈ readings, command.restarts = false by decide +kernel)
  obtain ⟨e, he⟩ := Option.isSome_iff_exists.1 hsome
  obtain ⟨i, -, hi⟩ := hentries "::/a" e he
  exact ⟨hcount, hcount ▸ hmisses, e, he, i, hi⟩

/-- Of the three reads one gave a value and two gave nothing, but two hits and one miss are counted, and both hits are
noted in the entry. -/
theorem mismatch_counts_as_hit :
    countRun MemoryStore.store (gives MemoryStore.store) readings unread = 1 ∧
      countRun MemoryStore.store (withholds MemoryStore.store) readings unread = 2 ∧
      (run MemoryStore.store readings unread).cache.counters = ⟨2, 1, 0, 0, 0⟩ ∧
      ((run MemoryStore.store readings unread).cache.table.find? "::/a").map Entry.accessCount = some 2 := by
  decide +kernel

end Session

end ResultCache
