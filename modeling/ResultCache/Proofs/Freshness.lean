import Mathlib.Data.List.Induction
import ResultCache.Proofs.Transition
import ResultCache.Store.Memory

/-!
# What reads return

An entry in the table goes back to a set of its key that no later command has superseded (`exists_lastSet`): trimming
only removes entries and notes reads, and a set that fails trims.  A read therefore gives the value of that set, and
never after its time to live.
-/

namespace ResultCache

/-- The entry as it was made, without what reads have noted since. -/
def Entry.asMade (e : Entry) : Entry :=
  { e with accessCount := 0, lastAccess := e.created }

@[simp] theorem Entry.source_asMade (e : Entry) : e.asMade.source = e.source :=
  rfl

/-- Whether a command loads records from the store. -/
def Command.loads : Command → Bool
  | .rehydrate => true
  | .restart _ _ => true
  | _ => false

namespace Cache

variable {c : Cache} {now : Instant}

/-- Trimming makes no entries. -/
theorem Trims.find?_asMade {c' : Cache} (h : Trims now c c') {key : String} {e' : Entry}
    (he : c'.table.find? key = some e') : ∃ e, c.table.find? key = some e ∧ e'.asMade = e.asMade := by
  induction h generalizing e' with
  | refl => exact ⟨e', he, rfl⟩
  | tail _ step ih =>
    cases step with
    | remove why =>
      rw [removeEntry_table, Table.find?_detach] at he
      split at he
      · cases he
      · exact ih he
    | read =>
      rw [Table.find?_update] at he
      split at he
      · obtain ⟨e₁, he₁, rfl⟩ := Option.map_eq_some_iff.1 he
        have before := ih he₁
        exact before
      · exact ih he
    | miss => exact ih he

/-- A call that stores a value leaves its entry under the key of the request. -/
theorem find?_set (hc : c.table.Accurate) {r : Request} {v : Json} {o : SetOptions}
    (h : (c.set now r v o).1 = .ok ()) :
    (c.set now r v o).2.table.find? (c.keyFor r) = some (c.entryFor now r v o) := by
  rcases set_cases hc now r v o with ⟨f, c', eq, _⟩ | ⟨c', eq, _, _⟩
  · rw [eq] at h
    cases h
  · rw [eq, replace_table, Table.find?_attach]
    exact if_pos rfl

/-- A read that gives a value has met a fresh entry of it. -/
theorem getByKey_eq_some_iff {key : String} {v : Json} :
    (c.getByKey now key).1 = some v ↔
      ∃ e, c.table.find? key = some e ∧ e.isExpired now = false ∧ c.decode e.value = some v := by
  rw [getByKey]
  cases hfind : c.table.find? key with
  | none => simp
  | some e =>
    cases hexp : e.isExpired now with
    | true => simp [hexp]
    | false => cases hdec : c.decode e.value <;> simp [hexp, hdec]

end Cache

namespace Session

variable {σ : Type} {store : Store σ} {s : Session σ}

/-- Whether a command in a session ends what was set for a key and a resource: a set of the key that succeeds, or a
removal that the caller asked for. -/
def Supersedes (s : Session σ) (key source : String) : Command → Prop
  | .set r v o => s.cache.keyFor r = key ∧ (s.cache.set s.now r v o).1 = .ok ()
  | .invalidate r => s.cache.keyFor r = key
  | .invalidatePattern pattern => Text.contains source pattern = true
  | .clear => True
  | _ => False

theorem Transition.settings_codec_eq {command : Command} {c : Cache} (h : Transition store s command c)
    (hq : command.loads = false) : c.settings = s.cache.settings ∧ c.codec = s.cache.codec := by
  cases h with
  | trim h => exact ⟨h.settings_eq, h.codec_eq⟩
  | store _ h => exact ⟨(Cache.replace_settings ..).trans h.settings_eq, (Cache.replace_codec ..).trans h.codec_eq⟩
  | clear => exact ⟨rfl, rfl⟩
  | queue => exact ⟨rfl, rfl⟩
  | load => cases hq
  | openAlone => cases hq
  | openOver => cases hq

/-- An entry that is found after a command was made by it, or was there before. -/
theorem Transition.find?_cases {command : Command} {c : Cache} (h : Transition store s command c)
    (hq : command.loads = false) {key : String} {e : Entry} (he : c.table.find? key = some e) :
    (∃ r v o, command = .set r v o ∧ (s.cache.set s.now r v o).1 = .ok () ∧ s.cache.keyFor r = key ∧
        e = s.cache.entryFor s.now r v o) ∨
      ∃ e', s.cache.table.find? key = some e' ∧ e.asMade = e'.asMade := by
  cases h with
  | trim h => exact .inr (h.find?_asMade he)
  | @store r v o c' ok h room =>
    rw [Cache.replace_table, Table.find?_attach] at he
    split at he
    · rename_i hkey
      exact .inl ⟨r, v, o, rfl, ok, hkey.symm, (Option.some.inj he).symm⟩
    · rename_i hkey
      rw [Table.find?_detach, if_neg hkey] at he
      exact .inr (h.find?_asMade he)
  | clear => cases he
  | queue => exact .inr ⟨e, he, rfl⟩
  | load => cases hq
  | openAlone => cases hq
  | openOver => cases hq

/-- A command that supersedes what was set for an entry leaves no entry under its key, or a new one. -/
theorem find?_of_supersedes (store : Store σ) (hc : s.cache.table.Accurate) {command : Command} {key : String}
    {e : Entry} (he : s.cache.table.find? key = some e) (h : s.Supersedes key e.source command) :
    (s.step store command).2.cache.table.find? key = none ∨
      ∃ r v o, command = .set r v o ∧ (s.cache.set s.now r v o).1 = .ok () ∧ s.cache.keyFor r = key ∧
        (s.step store command).2.cache.table.find? key = some (s.cache.entryFor s.now r v o) := by
  cases command with
  | set r v o =>
    obtain ⟨rfl, ok⟩ := h
    have stored : (s.cache.set s.now r v o).2.table.find? (s.cache.keyFor r) = some (s.cache.entryFor s.now r v o) :=
      Cache.find?_set hc ok
    exact .inr ⟨r, v, o, rfl, ok, rfl, stored⟩
  | invalidate r =>
    left
    show (s.cache.remove (s.cache.keyFor r) .invalidated).table.find? key = none
    rw [Cache.remove_table, Table.find?_detach, if_pos (show key = s.cache.keyFor r from h.symm)]
  | invalidatePattern pattern =>
    left
    have hkey := hc.key_of_find? he
    have hmem : key ∈ (s.cache.table.entries.filter fun e => Text.contains e.source pattern).map Entry.key :=
      List.mem_map.2 ⟨e, List.mem_filter.2 ⟨hc.mem_entries_iff.2 (hkey ▸ he), h⟩, hkey⟩
    exact (Cache.find?_removeAll ..).trans (if_pos hmem)
  | clear => exact .inl rfl
  | _ => exact absurd h id

/-- A set of a key in a run that succeeded and that no later command has superseded. -/
structure LastSet (store : Store σ) (s₀ : Session σ) (commands : List Command) (key : String) where
  before : List Command
  request : Request
  value : Json
  options : SetOptions
  after : List Command
  commands_eq : commands = before ++ .set request value options :: after
  keyFor_eq : (run store before s₀).cache.keyFor request = key
  stored : ((run store before s₀).cache.set (run store before s₀).now request value options).1 = .ok ()
  not_superseded : ∀ between command rest, after = between ++ command :: rest →
    ¬ (run store (before ++ .set request value options :: between) s₀).Supersedes key request.source command

namespace LastSet

variable {s₀ : Session σ} {commands : List Command} {key : String}

/-- The session that the set met. -/
def session (l : LastSet store s₀ commands key) : Session σ :=
  run store l.before s₀

/-- The entry that the set made. -/
def entry (l : LastSet store s₀ commands key) : Entry :=
  l.session.cache.entryFor l.session.now l.request l.value l.options

theorem entry_source (l : LastSet store s₀ commands key) : l.entry.asMade.source = l.request.source :=
  rfl

theorem set_mem (l : LastSet store s₀ commands key) : .set l.request l.value l.options ∈ commands := by
  obtain ⟨before, r, v, o, after, rfl, _, _, _⟩ := l
  exact List.mem_append_right before (List.mem_cons_self ..)

/-- The set is still the last one after a command that does not supersede it. -/
def extend (l : LastSet store s₀ commands key) {command : Command}
    (h : ¬ (run store commands s₀).Supersedes key l.request.source command) :
    LastSet store s₀ (commands ++ [command]) key :=
  { l with
    after := l.after ++ [command]
    commands_eq := (congrArg (· ++ [command]) l.commands_eq).trans (List.append_assoc ..)
    not_superseded := by
      -- the next command is the one that is added, or it stood in the run before
      intro between next rest hafter
      rcases List.eq_nil_or_concat rest with rfl | ⟨rest', last, rfl⟩
      · obtain ⟨rfl, hnext⟩ := List.append_inj' hafter rfl
        cases hnext
        rwa [← l.commands_eq]
      · rw [List.concat_eq_append, ← List.cons_append, ← List.append_assoc] at hafter
        exact l.not_superseded between next rest' (List.append_inj' hafter rfl).1 }

end LastSet

@[simp] theorem step_has (store : Store σ) (s : Session σ) (r : Request) : (s.step store (.has r)).2 = s :=
  rfl

/-- Settings and codec stay as they are in a run that loads nothing. -/
theorem run_settings_codec_eq {s₀ : Session σ} (h₀ : s₀.cache.Sound) {commands : List Command}
    (hq : ∀ command ∈ commands, command.loads = false) :
    (run store commands s₀).cache.settings = s₀.cache.settings ∧
      (run store commands s₀).cache.codec = s₀.cache.codec ∧ (run store commands s₀).cache.Sound := by
  induction commands using List.reverseRecOn with
  | nil => exact ⟨rfl, rfl, h₀⟩
  | append_singleton commands command ih =>
    obtain ⟨hsettings, hcodec, hsound⟩ := ih fun command h => hq command (List.mem_append_left _ h)
    have step := step_transition hsound.accurate store command
    obtain ⟨hs, hc⟩ := step.settings_codec_eq (hq command (by simp))
    rw [run_append, run_singleton]
    exact ⟨hs.trans hsettings, hc.trans hcodec, step.sound hsound⟩

/-- In a run from an empty table that loads nothing, each entry goes back to a set that is not superseded. -/
theorem exists_lastSet {s₀ : Session σ} (h₀ : s₀.cache.table = .empty) {commands : List Command}
    (hq : ∀ command ∈ commands, command.loads = false) {key : String} {e : Entry}
    (he : (run store commands s₀).cache.table.find? key = some e) :
    ∃ l : LastSet store s₀ commands key, e.asMade = l.entry.asMade := by
  induction commands using List.reverseRecOn generalizing e with
  | nil =>
    rw [run_nil, h₀] at he
    cases he
  | append_singleton commands command ih =>
    have hq' := fun command h => hq command (List.mem_append_left _ h)
    have hsound : (run store commands s₀).cache.Sound :=
      (run_settings_codec_eq (Cache.sound_of_table_eq_empty h₀) hq').2.2
    rw [run_append, run_singleton] at he
    have made : ∀ r v o, command = .set r v o →
        ((run store commands s₀).cache.set (run store commands s₀).now r v o).1 = .ok () →
        (run store commands s₀).cache.keyFor r = key →
        e = (run store commands s₀).cache.entryFor (run store commands s₀).now r v o →
        ∃ l : LastSet store s₀ (commands ++ [command]) key, e.asMade = l.entry.asMade := by
      rintro r v o rfl ok hkey rfl
      exact ⟨⟨commands, r, v, o, [], rfl, hkey, ok, by simp⟩, rfl⟩
    rcases (step_transition hsound.accurate store command).find?_cases (hq command (by simp)) he with
      ⟨r, v, o, hcommand, ok, hkey, heq⟩ | ⟨e', he', hmade⟩
    · exact made r v o hcommand ok hkey heq
    · -- the entry was there before: its set is still the last one, or the last command made the entry after all
      obtain ⟨l, hl⟩ := ih hq' he'
      have hsource : e'.source = l.request.source :=
        (e'.source_asMade).symm.trans (hl ▸ l.entry_source)
      by_cases hsup : (run store commands s₀).Supersedes key l.request.source command
      · rcases find?_of_supersedes store hsound.accurate he' (hsource ▸ hsup) with
          hnone | ⟨r, v, o, hcommand, ok, hkey, hfound⟩
        · rw [hnone] at he
          cases he
        · rw [hfound] at he
          exact made r v o hcommand ok hkey (Option.some.inj he).symm
      · exact ⟨l.extend hsup, hmade.trans hl⟩

/-- What a set stored is decoded to its value, if the codec restores it. -/
theorem LastSet.decode_eq {s₀ : Session σ} (h₀ : s₀.cache.Sound) {commands : List Command}
    (hq : ∀ command ∈ commands, command.loads = false) {key : String} (l : LastSet store s₀ commands key)
    (hrestores : s₀.cache.codec.Restores l.value) {e : Entry} (he : e.asMade = l.entry.asMade) :
    (run store commands s₀).cache.decode e.value = some l.value := by
  have hbefore : ∀ command ∈ l.before, command.loads = false := fun command h =>
    hq command (l.commands_eq ▸ List.mem_append_left _ h)
  have hnow : (run store commands s₀).cache.codec = s₀.cache.codec := (run_settings_codec_eq h₀ hq).2.1
  have hthen : l.session.cache.codec = s₀.cache.codec := (run_settings_codec_eq h₀ hbefore).2.1
  have hvalue : e.value = (l.session.cache.encode l.value).1 := congrArg Entry.value he
  rw [hvalue]
  exact Cache.decode_encode (hthen.symm ▸ hrestores) (hnow.trans hthen.symm)

/-- A session that was opened without a tier, or with a new one over a namespace without records. -/
inductive Opened (store : Store σ) : Session σ → Prop where
  | alone (settings : Settings) (codec : Codec) (clock : ManualClock) (contents : σ) :
      Opened store (openAlone settings codec clock contents)
  | backed (settings : Settings) (codec : Codec) (clock : ManualClock) {contents : σ}
      (h : store.list (settings.durableNamespace ++ ":") contents = .ok []) :
      Opened store (openOver store settings codec clock contents)

theorem Opened.table_eq_empty (h : s.Opened store) : s.cache.table = .empty := by
  cases h with
  | alone => rfl
  | backed settings codec clock h =>
    simp only [openOver, Cache.openOver, Cache.rehydrate, Tier.rehydrate, Tier.start, Tier.ofSpace, h,
      Tier.rehydrateKeys, Cache.loadAll]
    rfl

/-- In a run of a cache that has loaded nothing, with a codec that restores what is set, a read gives the value of the
last set of its key, not after its time to live, and not if the caller has asked for its removal since.  The cache
has an entry for a request exactly if a read would give a value, and asking that changes nothing. -/
theorem read_eq_last_set {s₀ : Session σ} (h₀ : s₀.Opened store) (commands : List Command)
    (hq : ∀ command ∈ commands, command.loads = false)
    (hcodec : ∀ r v o, Command.set r v o ∈ commands → s₀.cache.codec.Restores v) :
    let s := run store commands s₀
    (∀ key v, (s.cache.getByKey s.now key).1 = some v ∨
          (∃ r, s.cache.keyFor r = key ∧ (s.cache.get s.now r).1 = some v) →
        ∃ l : LastSet store s₀ commands key, v = l.value ∧
          Instant.elapsed l.session.now s.now ≤ l.session.cache.ttlFor l.request.source l.options) ∧
      ∀ r, (s.cache.has s.now r = true ↔ (s.cache.get s.now r).1.isSome = true) ∧ (s.step store (.has r)).2 = s := by
  intro s
  have decodes : ∀ key e, s.cache.table.find? key = some e →
      ∃ l : LastSet store s₀ commands key, e.asMade = l.entry.asMade ∧ s.cache.decode e.value = some l.value := by
    intro key e he
    obtain ⟨l, hl⟩ := exists_lastSet h₀.table_eq_empty hq he
    have hsound := Cache.sound_of_table_eq_empty h₀.table_eq_empty
    exact ⟨l, hl, l.decode_eq hsound hq (hcodec _ _ _ l.set_mem) hl⟩
  have read : ∀ key v, (s.cache.getByKey s.now key).1 = some v →
      ∃ l : LastSet store s₀ commands key, v = l.value ∧
        Instant.elapsed l.session.now s.now ≤ l.session.cache.ttlFor l.request.source l.options := by
    intro key v hv
    obtain ⟨e, he, hfresh, hdec⟩ := Cache.getByKey_eq_some_iff.1 hv
    obtain ⟨l, hl, hvalue⟩ := decodes key e he
    refine ⟨l, Option.some.inj (hdec.symm.trans hvalue), ?_⟩
    have hcreated : e.created = l.session.now := congrArg Entry.created hl
    have httl : e.ttl = l.session.cache.ttlFor l.request.source l.options := congrArg Entry.ttl hl
    rw [← hcreated, ← httl]
    exact Entry.isExpired_eq_false_iff.1 hfresh
  refine ⟨fun key v hv => ?_, fun r => ⟨?_, step_has ..⟩⟩
  · rcases hv with hv | ⟨r, rfl, hv⟩
    · exact read key v hv
    · exact read _ v hv
  · rw [Cache.has, Option.any_eq_true, Option.isSome_iff_exists]
    constructor
    · rintro ⟨e, he, hfresh⟩
      obtain ⟨l, _, hdec⟩ := decodes _ e he
      exact ⟨_, Cache.getByKey_eq_some_iff.2 ⟨e, he, by simpa using hfresh, hdec⟩⟩
    · rintro ⟨v, hv⟩
      obtain ⟨e, he, hfresh, _⟩ := Cache.getByKey_eq_some_iff.1 hv
      exact ⟨e, he, by simpa using hfresh⟩

/-- Whether a value is a certain whole number. -/
private def isInt (n : Int) : Option Json → Bool
  | some (.int m) => m == n
  | _ => false

private theorem eq_of_isInt {n : Int} {v : Option Json} (h : isInt n v = true) : v = some (.int n) := by
  unfold isInt at h
  split at h
  · rw [eq_of_beq h]
  · cases h

/-- A session without a tier that packs every value. -/
private def packing : Session MemoryStore :=
  openAlone { Settings.default with compressionThreshold := 0 } .runLength ⟨0⟩ .empty

/-- A value is set, set anew, and lasts to the end of its time. -/
private def overwriting : List Command :=
  [.set ⟨"/a", none, none⟩ (.int 1) ⟨none, .medium⟩, .set ⟨"/a", none, none⟩ (.int 2) ⟨none, .medium⟩,
   .advance (.ofSeconds 300)]

theorem read_overwritten :
    ∃ l : LastSet MemoryStore.store packing overwriting "::/a", .int 2 = l.value ∧
      Instant.elapsed l.session.now (run MemoryStore.store overwriting packing).now ≤
        l.session.cache.ttlFor l.request.source l.options := by
  have hcodec : ∀ r v o, Command.set r v o ∈ overwriting → packing.cache.codec.Restores v := by
    intro r v o h bytes hbytes
    simp only [overwriting, List.mem_cons, List.not_mem_nil, Command.set.injEq, reduceCtorEq, or_false] at h
    rcases h with ⟨-, rfl, -⟩ | ⟨-, rfl, -⟩ <;> cases hbytes <;> exact eq_of_isInt (by decide +kernel)
  have h₀ : packing.Opened MemoryStore.store := .alone ..
  have reads := (read_eq_last_set h₀ overwriting (by decide +kernel) hcodec).1 "::/a" (.int 2)
  exact reads (.inl (eq_of_isInt (by decide +kernel)))

end Session

end ResultCache
