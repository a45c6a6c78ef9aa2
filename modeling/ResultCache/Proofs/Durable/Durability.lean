import Mathlib.Data.List.Induction
import ResultCache.Proofs.Durable.Agreement
import ResultCache.Proofs.Json.RunLengths

/-!
# Durable sessions

In a session with a tier over a store without faults, the cache agrees with the settled store after every command
(`Durable.step`), and so in every run (`Durable.run`): whatever the writer has left to do, once it is done the
namespace holds a record of each persisted entry and no other one.
-/

namespace ResultCache

/-- Whether a command leaves a session with the cache, the tier and the writer that it has, and loads nothing. -/
def Command.isOrdinary : Command → Bool
  | .rehydrate => false
  | .restart _ _ => false
  | .disconnect => false
  | _ => true

/-- A value of which a record is read back, and which the codec restores. -/
structure Json.Recordable (codec : Codec) (v : Json) : Prop where
  readable : v.Readable
  depth_lt : v.depth < maxDepth
  restores : codec.Restores v

namespace Session

variable {σ : Type} {store : Store σ} {space : String} {good : σ → Prop} {s : Session σ}

/-- The contents of the store are in good order, and the cache agrees with them. -/
structure Durable (store : Store σ) (space : String) (good : σ → Prop) (codec : Codec) (s : Session σ) : Prop where
  sound : s.cache.Sound
  codec_eq : s.cache.codec = codec
  good : good s.contents
  agrees : s.cache.Agrees store space s.contents

/-- A tier that the writer has moved on serves as before. -/
theorem Durable.withTier {codec : Codec} (h : s.Durable store space good codec) {t t' : Tier} {contents : σ}
    (htier : s.cache.tier = some t) (hgood : good contents)
    (hsettle : t'.settle store contents = t.settle store s.contents) (hspace : t'.space = t.space)
    (hconnected : t'.connected = t.connected) : (s.withTier t' contents).Durable store space good codec := by
  refine ⟨⟨h.sound.accurate, h.sound.memory_le, h.sound.size_le⟩, h.codec_eq, hgood, ?_⟩
  obtain ⟨u, hu, hconn, hsp, haccords⟩ := h.agrees
  rw [htier] at hu
  cases hu
  refine ⟨t', rfl, hconnected.trans hconn, hspace.trans hsp, fun key => ?_⟩
  have hsettled : t'.settled? store contents = t.settled? store s.contents := by
    rw [Tier.settled?, Tier.settled?, hsettle, Tier.start, Tier.start, hspace]
  rw [show (s.withTier t' contents).contents = contents from rfl, hsettled]
  exact (haccords key).congr rfl

/-- A barrier settles nothing. -/
theorem settle_barrier (store : Store σ) (t : Tier) (contents : σ) :
    t.barrier.2.settle store contents = t.settle store contents ∧ t.barrier.2.space = t.space ∧
      t.barrier.2.connected = t.connected := by
  rw [Tier.barrier, Tier.send]
  split
  · exact ⟨List.foldl_concat .., rfl, rfl⟩
  · exact ⟨rfl, rfl, rfl⟩

/-- The writer does all that is queued, if it is there. -/
theorem write_spec {t : Tier} (hstore : store.Faultless t.start good) {contents : σ} (hgood : good contents) :
    (t.write store contents).2.1.settle store (t.write store contents).2.2 = t.settle store contents ∧
      (t.write store contents).2.1.space = t.space ∧ (t.write store contents).2.1.connected = t.connected ∧
      good (t.write store contents).2.2 := by
  rw [Tier.write]
  split
  · obtain ⟨hsettle, hspace, hconnected, -, hgood'⟩ := Tier.applyCount_spec t.pending.length hstore hgood
    exact ⟨hsettle, hspace, hconnected, hgood'⟩
  · exact ⟨rfl, rfl, rfl, hgood⟩

/-- A command that is not for the writer and loads nothing leaves the store alone. -/
theorem step_contents {command : Command} (hordinary : command.isOrdinary = true)
    (hwriter : command.isForWriter = false) : (s.step store command).2.contents = s.contents := by
  cases command <;> first | rfl | (cases hwriter; done) | cases hordinary

/-- A command for the writer keeps a session durable, as long as it does not take the writer away. -/
theorem Durable.stepWriter {codec : Codec} (hstore : store.Faultless (space ++ ":") good)
    (h : s.Durable store space good codec) {command : Command} (hwriter : command.isForWriter = true)
    (hordinary : command.isOrdinary = true) : (s.step store command).2.Durable store space good codec := by
  obtain ⟨t, htier, -, hspace, -⟩ := h.agrees
  have hstart : store.Faultless t.start good := by
    rw [Tier.start, hspace]
    exact hstore
  cases command with
  | writeNext =>
    obtain ⟨hsettle, hsp, hconn⟩ := Tier.applyNext_spec store t s.contents
    have := h.withTier htier (Tier.good_applyNext hstart h.good) hsettle hsp hconn
    simpa only [Session.step, writeNext, htier] using this
  | write =>
    obtain ⟨hsettle, hsp, hconn, hgood⟩ := write_spec hstart h.good
    have := h.withTier htier hgood hsettle hsp hconn
    simpa only [Session.step, write, htier] using this
  | barrier =>
    obtain ⟨hsettle, hsp, hconn⟩ := settle_barrier store t s.contents
    have hstart' : store.Faultless t.barrier.2.start good := by
      rw [Tier.start, hsp]
      exact hstart
    obtain ⟨hsettle', hsp', hconn', hgood⟩ := write_spec hstart' h.good
    have := h.withTier htier hgood (hsettle'.trans hsettle) (hsp'.trans hsp) (hconn'.trans hconn)
    simpa only [Session.step, writeToBarrier, htier, Tier.writeToBarrier] using this
  | disconnect => cases hordinary
  | _ => cases hwriter

/-- What a command does to the cache keeps it in agreement with a store that it leaves alone. -/
theorem Durable.transition {codec : Codec} (hstore : store.Faultless (space ++ ":") good)
    (h : s.Durable store space good codec) {command : Command} {c : Cache} (hc : Transition store s command c)
    (hwriter : command.isForWriter = false) (hordinary : command.isOrdinary = true)
    (hset : ∀ r v o, command = .set r v o → v.Recordable codec) :
    c.codec = s.cache.codec ∧ c.Agrees store space s.contents := by
  cases hc with
  | trim trims => exact ⟨trims.codec_eq, h.agrees.trims hstore h.good trims⟩
  | @store r v o c ok trims room =>
    obtain ⟨hreadable, hdepth, hrestores⟩ := hset r v o rfl
    have hagrees := h.agrees.trims hstore h.good trims
    have hvalue : c.decode (s.cache.entryFor s.now r v o).value = some v :=
      Cache.decode_encode (h.codec_eq ▸ hrestores) trims.codec_eq
    have hrecord : Snapshot.parse ((s.cache.entryFor s.now r v o).snapshot v).record =
        .ok ((s.cache.entryFor s.now r v o).snapshot v) := by
      refine Snapshot.parse_record hdepth hreadable s.clock.readInstant?_now ?_
      exact Nat.lt_of_le_of_lt (Nat.min_le_right _ _) (by decide)
    exact ⟨(Cache.replace_codec ..).trans trims.codec_eq, hagrees.replace hstore h.good (fun _ => hrecord) hvalue⟩
  | clear => exact ⟨rfl, h.agrees.clear hstore h.good⟩
  | queue hwriter' =>
    rw [hwriter] at hwriter'
    cases hwriter'
  | load => cases hordinary
  | openAlone => cases hordinary
  | openOver => cases hordinary

theorem Durable.step {codec : Codec} (hstore : store.Faultless (space ++ ":") good)
    (h : s.Durable store space good codec) {command : Command} (hordinary : command.isOrdinary = true)
    (hset : ∀ r v o, command = .set r v o → v.Recordable codec) :
    (s.step store command).2.Durable store space good codec := by
  cases hwriter : command.isForWriter with
  | true => exact h.stepWriter hstore hwriter hordinary
  | false =>
    have hcontents : (s.step store command).2.contents = s.contents := step_contents hordinary hwriter
    have hstep := step_transition h.sound.accurate store command
    obtain ⟨hcodec, hagrees⟩ := h.transition hstore hstep hwriter hordinary hset
    exact ⟨hstep.sound h.sound, hcodec.trans h.codec_eq, hcontents ▸ h.good, hcontents ▸ hagrees⟩

theorem Durable.run {codec : Codec} (hstore : store.Faultless (space ++ ":") good)
    (h : s.Durable store space good codec) {commands : List Command}
    (hordinary : ∀ command ∈ commands, command.isOrdinary = true)
    (hset : ∀ r v o, .set r v o ∈ commands → v.Recordable codec) :
    (Session.run store commands s).Durable store space good codec := by
  induction commands using List.reverseRecOn with
  | nil => exact h
  | append_singleton commands command ih =>
    have before := ih (fun command h => hordinary command (List.mem_append_left _ h))
      (fun r v o h => hset r v o (List.mem_append_left _ h))
    rw [run_append, run_singleton]
    refine before.step hstore (hordinary command (by simp)) fun r v o heq => hset r v o ?_
    rw [heq]
    simp

theorem durable_openOver {settings : Settings} {codec : Codec}
    (hstore : store.Faultless (settings.durableNamespace ++ ":") good) {contents : σ} (hgood : good contents)
    (hkeeps : Cache.Keeps store settings.durableNamespace codec contents) (clock : ManualClock) :
    (openOver store settings codec clock contents).Durable store settings.durableNamespace good codec := by
  obtain ⟨hgood', hagrees⟩ := Cache.agrees_openOver hstore hgood hkeeps clock.now
  obtain ⟨live, hload⟩ := rehydrate_eq_loadAll store
    { Cache.empty settings codec with tier := some (.ofSpace settings.durableNamespace) } clock.now contents
  have hcache : (openOver store settings codec clock contents).cache = _ := hload
  refine ⟨?_, ?_, hgood', hagrees⟩
  · rw [hcache]
    exact (Cache.sound_of_table_eq_empty rfl).loadAll clock.now live
  · rw [hcache]
    exact Cache.loadAll_codec ..

/-- A session that was opened with a tier, over a store without faults whose records stand under their own keys, may
run in any way without loading again: once all that is queued is done, the namespace has exactly the keys of the
persisted entries, and the record of each is read to what the entry is. -/
theorem settled_store_eq_persisted (settings : Settings) (codec : Codec) (clock : ManualClock) {contents : σ}
    (hstore : store.Faultless (settings.durableNamespace ++ ":") good) (hgood : good contents)
    (hkeeps : Cache.Keeps store settings.durableNamespace codec contents) (commands : List Command)
    (hordinary : ∀ command ∈ commands, command.isOrdinary = true)
    (hset : ∀ r v o, .set r v o ∈ commands → v.Recordable codec) :
    let start := settings.durableNamespace ++ ":"
    let s := Session.run store commands (openOver store settings codec clock contents)
    ∃ t, s.cache.tier = some t ∧
      let settled := (t.applyAll store s.contents).2.2
      (∃ keys, store.list start settled = .ok keys ∧ keys.Nodup ∧
          ∀ x, x ∈ keys ↔ ∃ e ∈ s.cache.table.entries, e.persisted = true ∧ x = start ++ e.key) ∧
        ∀ e ∈ s.cache.table.entries, e.persisted = true →
          ∃ record snapshot, store.get (start ++ e.key) settled = .ok (some record) ∧
            Snapshot.parse record = .ok snapshot ∧ snapshot.key = e.key ∧
            s.cache.decode e.value = some snapshot.value ∧ snapshot.source = e.source ∧
            snapshot.created = e.created ∧ snapshot.ttlMillis = e.ttl.millis := by
  intro start s
  have h : s.Durable store settings.durableNamespace good codec :=
    (durable_openOver hstore hgood hkeeps clock).run hstore hordinary hset
  obtain ⟨t, htier, -, hspace, haccords⟩ := h.agrees
  have hstart : t.start = start := congrArg (· ++ ":") hspace
  refine ⟨t, htier, ?_⟩
  intro settled
  have hsettled : settled = t.settle store s.contents := Tier.applyAll_eq_settle (hstart ▸ hstore) h.good
  have hgood' : good settled := hsettled ▸ Tier.good_settle (hstart ▸ hstore) h.good
  have hrecords : t.settled? store s.contents = store.record? start settled := by
    rw [Tier.settled?, hstart, hsettled]
  rw [hrecords] at haccords
  have hmem : ∀ e, e ∈ s.cache.table.entries ↔ s.cache.table.find? e.key = some e := fun e =>
    h.sound.accurate.mem_entries_iff
  constructor
  · obtain ⟨keys, hlist, hnodup, hkeys⟩ := hstore.list_eq settled hgood'
    refine ⟨_, hlist, hnodup.map fun a b hab => (String.append_right_inj _).1 hab, fun x => ?_⟩
    rw [List.mem_map]
    constructor
    · rintro ⟨key, hkey, rfl⟩
      obtain ⟨e, hfound, hpersisted⟩ := (haccords key).isSome_iff.1 ((hkeys key).1 hkey)
      have hown : e.key = key := h.sound.accurate.key_of_find? hfound
      exact ⟨e, (hmem e).2 (hown.symm ▸ hfound), hpersisted, by rw [hown]⟩
    · rintro ⟨e, he, hpersisted, rfl⟩
      have hsome := (haccords e.key).isSome_iff.2 ⟨e, (hmem e).1 he, hpersisted⟩
      exact ⟨e.key, (hkeys e.key).2 hsome, rfl⟩
  · intro e he hpersisted
    have haccord := haccords e.key
    rw [(hmem e).1 he] at haccord
    obtain ⟨record, snapshot, hrecord, hparse, hdescribes⟩ := haccord.exists_snapshot hpersisted
    have hget := hstore.get_eq settled e.key hgood'
    rw [hrecord] at hget
    exact ⟨record, snapshot, hget, hparse, hdescribes.key_eq, hdescribes.value_eq, hdescribes.source_eq,
      hdescribes.created_eq, hdescribes.ttl_eq⟩

/-- A record that an earlier cache left behind. -/
private def earlier : Snapshot :=
  ⟨"::/old", "/old", .int 7, .epoch, 600000, .high⟩

private def leftBehind : MemoryStore :=
  MemoryStore.empty.put ("memo:" ++ earlier.key) earlier.record

private def packingAll : Settings :=
  { Settings.default with compressionThreshold := 0 }

/-- Two persisted values are set, and one is removed after the writer has written it. -/
private def removing : List Command :=
  [.set ⟨"/a", none, none⟩ (.arr [.int 5, .str "x"]) ⟨none, .high⟩, .writeNext,
   .set ⟨"/b", none, none⟩ .null ⟨none, .critical⟩, .invalidate ⟨"/a", none, none⟩]

private theorem keeps_leftBehind :
    Cache.Keeps MemoryStore.store packingAll.durableNamespace .runLength leftBehind := by
  have hparse : Snapshot.parse earlier.record = .ok earlier :=
    Snapshot.parse_record (by decide) ⟨by decide, by decide⟩ (ManualClock.mk 0).readInstant?_now (by decide)
  intro key record s hrecord hs
  have hget : (leftBehind.get? ("memo:" ++ key)) = some record := hrecord
  rw [leftBehind, MemoryStore.get?_put] at hget
  split at hget
  · rename_i hkey
    cases hget
    rw [hparse] at hs
    cases hs
    exact ⟨((String.append_right_inj _).1 hkey).symm, Codec.runLength_restores (by decide) ⟨by decide, by decide⟩⟩
  · cases hget

private def afterRemoval : Session MemoryStore :=
  Session.run MemoryStore.store removing (openOver MemoryStore.store packingAll .runLength ⟨0⟩ leftBehind)

theorem settled_store_after_removal :
    ∃ t keys, afterRemoval.cache.tier = some t ∧
      MemoryStore.store.list "memo:" (t.applyAll MemoryStore.store afterRemoval.contents).2.2 = .ok keys ∧
      ∀ x, x ∈ keys ↔ x = "memo:::/old" ∨ x = "memo:::/b" := by
  have hset : ∀ r v o, Command.set r v o ∈ removing → v.Recordable .runLength := by
    intro r v o h
    simp only [removing, List.mem_cons, List.not_mem_nil, Command.set.injEq, reduceCtorEq, or_false, false_or] at h
    rcases h with ⟨-, rfl, -⟩ | ⟨-, rfl, -⟩
    · have hreadable : (Json.arr [.int 5, .str "x"]).Readable := ⟨⟨by decide, by decide⟩, trivial, trivial⟩
      exact ⟨hreadable, by decide, Codec.runLength_restores (by decide) hreadable⟩
    · exact ⟨trivial, by decide, Codec.runLength_restores (by decide) trivial⟩
  obtain ⟨t, htier, ⟨keys, hlist, -, hkeys⟩, -⟩ :=
    settled_store_eq_persisted packingAll .runLength ⟨0⟩ (MemoryStore.faultless _)
      (Assoc.sorted_insert List.Pairwise.nil) keeps_leftBehind removing (by decide +kernel) hset
  have hpersisted : (afterRemoval.cache.table.entries.filter (·.persisted)).map Entry.key = ["::/b", "::/old"] := by
    decide +kernel
  refine ⟨t, keys, htier, hlist, fun x => (hkeys x).trans ?_⟩
  have hkey : ∀ key, key ∈ ["::/b", "::/old"] ↔
      ∃ e ∈ afterRemoval.cache.table.entries, e.persisted = true ∧ e.key = key := by
    intro key
    rw [← hpersisted]
    simp only [List.mem_map, List.mem_filter, and_assoc]
  constructor
  · rintro ⟨e, he, hp, rfl⟩
    rcases List.mem_cons.1 ((hkey e.key).2 ⟨e, he, hp, rfl⟩) with hb | hold
    · exact .inr (congrArg ("memo:" ++ ·) hb)
    · exact .inl (congrArg ("memo:" ++ ·) (List.mem_singleton.1 hold))
  · rintro (rfl | rfl)
    · obtain ⟨e, he, hp, heq⟩ := (hkey "::/old").1 (by simp)
      exact ⟨e, he, hp, (congrArg ("memo:" ++ ·) heq).symm⟩
    · obtain ⟨e, he, hp, heq⟩ := (hkey "::/b").1 (by simp)
      exact ⟨e, he, hp, (congrArg ("memo:" ++ ·) heq).symm⟩

end Session

end ResultCache
