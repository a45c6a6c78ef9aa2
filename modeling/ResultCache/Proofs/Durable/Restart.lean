import ResultCache.Proofs.Durable.Durability
import ResultCache.Proofs.Freshness

/-!
# Restarts

A cache that is opened over what an earlier one has written has the entries of the earlier one that were persisted and
are still live, and no others (`Session.reopened_entries_eq_live`).  Each record stands for an entry of the size that
the earlier one had, so that the records find room one after the other: what is loaded is taken off the old table
(`Cache.loadAll_of_room`), which met both ceilings.
-/

namespace ResultCache

namespace Cache

variable {c : Cache} {now : Instant}

theorem load_of_fits {s : Snapshot} (hfree : c.table.find? s.key = none)
    (hfits : c.fitsBeside (c.entryOf now s) = true) :
    (c.load now s).2 = { c with table := c.table.attach (c.entryOf now s) } := by
  rw [load, hfree, if_neg (by simp)]
  dsimp only
  rw [if_pos hfits]

/-- Records are all loaded if some table holds an entry of the same size for each and takes up no more than what is
left. -/
theorem loadAll_of_room {live : List Snapshot} {old : Table} (hold : old.Accurate)
    (hnodup : (live.map Snapshot.key).Nodup) (hfree : ∀ s ∈ live, c.table.find? s.key = none)
    (hheld : ∀ s ∈ live, ∃ e, old.find? s.key = some e ∧ e.size = (c.entryOf now s).size)
    (hmemory : c.table.memory + old.memory ≤ c.settings.maxMemory)
    (hsize : c.table.size + old.size ≤ c.settings.maxEntries) :
    (loadAll now live c).2.tier = c.tier ∧
      (∀ s ∈ live, (loadAll now live c).2.table.find? s.key = some (c.entryOf now s)) ∧
      ∀ key, key ∉ live.map Snapshot.key → (loadAll now live c).2.table.find? key = c.table.find? key := by
  induction live generalizing c old with
  | nil => exact ⟨rfl, by simp, fun _ _ => rfl⟩
  | cons s rest ih =>
    rw [List.map_cons, List.nodup_cons] at hnodup
    obtain ⟨hnew, hnodup⟩ := hnodup
    have hfree_s : c.table.find? (c.entryOf now s).key = none := hfree s List.mem_cons_self
    obtain ⟨e, he, hsame⟩ := hheld s List.mem_cons_self
    have hne : ∀ s' ∈ rest, s'.key ≠ s.key := fun s' hs' heq => hnew (heq ▸ List.mem_map_of_mem hs')
    -- the entry that is loaded takes the place that the old one leaves
    have hmem_old : (old.detach s.key).memory = old.memory - e.size := Table.memory_detach he
    have hsize_old : (old.detach s.key).size + 1 = old.size := by
      rw [← Table.length_entries]
      exact hold.length_detach he
    have hle : e.size ≤ old.memory := hold.size_le he
    have hfits : c.fitsBeside (c.entryOf now s) = true := by
      simp only [fitsBeside, Bool.and_eq_true, decide_eq_true_eq]
      omega
    obtain ⟨c₁, hc₁⟩ : ∃ c₁, { c with table := c.table.attach (c.entryOf now s) } = c₁ := ⟨_, rfl⟩
    have hload : (c.load now s).2 = c₁ := (load_of_fits hfree_s hfits).trans hc₁
    have hsettings : c₁.settings = c.settings := hc₁ ▸ rfl
    have hentry : ∀ s', c₁.entryOf now s' = c.entryOf now s' := fun s' => hc₁ ▸ rfl
    have htable : c₁.table = c.table.attach (c.entryOf now s) := hc₁ ▸ rfl
    have hmem_new : c₁.table.memory = c.table.memory + e.size := by
      rw [htable, Table.memory_attach hfree_s, hsame]
    have hsize_new : c₁.table.size = c.table.size + 1 := by
      rw [htable, Table.size_attach hfree_s]
    have hfind : ∀ key, key ≠ s.key → c₁.table.find? key = c.table.find? key := by
      intro key hkey
      rw [htable, Table.find?_attach]
      exact if_neg hkey
    have hfree_rest : ∀ s' ∈ rest, c₁.table.find? s'.key = none := by
      intro s' hs'
      rw [hfind s'.key (hne s' hs')]
      exact hfree s' (List.mem_cons_of_mem _ hs')
    have hheld_rest : ∀ s' ∈ rest, ∃ e', (old.detach s.key).find? s'.key = some e' ∧
        e'.size = (c₁.entryOf now s').size := by
      intro s' hs'
      obtain ⟨e', he', hsame'⟩ := hheld s' (List.mem_cons_of_mem _ hs')
      refine ⟨e', ?_, hentry s' ▸ hsame'⟩
      rw [Table.find?_detach, if_neg (hne s' hs'), he']
    obtain ⟨htier, hloaded, hothers⟩ :=
      ih (hold.detach s.key) hnodup hfree_rest hheld_rest (by rw [hsettings]; omega) (by rw [hsettings]; omega)
    have hrun : (loadAll now (s :: rest) c).2 = (loadAll now rest c₁).2 := by
      rw [← hload]
      rfl
    rw [hrun]
    refine ⟨htier.trans (hc₁ ▸ rfl), fun s' hs' => ?_, fun key hkey => ?_⟩
    · rcases List.mem_cons.1 hs' with rfl | hs'
      · rw [hothers _ hnew, htable, Table.find?_attach]
        exact if_pos rfl
      · rw [hloaded s' hs', hentry]
    · simp only [List.map_cons, List.mem_cons, not_or] at hkey
      rw [hothers key hkey.2, hfind key hkey.1]

end Cache

/-- The entry as it comes back from its record. -/
def Entry.revived (e : Entry) (now : Instant) : Entry :=
  { e with priority := .medium, accessCount := 0, lastAccess := now, persisted := true }

namespace Cache

variable {σ : Type} {store : Store σ} {good : σ → Prop} {c : Cache}

/-- An entry is what a value is encoded to, takes the memory of that, and has a time to live that a record can hold. -/
structure Encodes (c : Cache) (e : Entry) (v : Json) : Prop where
  value_eq : e.value = (c.encode v).1
  size_eq : e.size = Text.byteLength e.key + (c.encode v).2
  decode_eq : c.decode e.value = some v
  ttl_eq : Span.ofMillis e.ttl.millis = e.ttl

theorem encode_congr {c' : Cache} (hsettings : c'.settings = c.settings) (hcodec : c'.codec = c.codec) (v : Json) :
    c'.encode v = c.encode v := by
  rw [encode, encode, hsettings, hcodec]

/-- A snapshot that describes an entry is loaded to the entry, with a new start. -/
theorem Encodes.entryOf_eq {e : Entry} {v : Json} {s : Snapshot} (h : c.Encodes e v) (hs : c.Describes s e)
    (now : Instant) : c.entryOf now s = e.revived now := by
  have hv : s.value = v := by
    have := hs.value_eq
    rw [h.decode_eq, Option.some.injEq] at this
    exact this.symm
  have httl : s.ttl = e.ttl := by
    rw [Snapshot.ttl, hs.ttl_eq, h.ttl_eq]
  rw [entryOf, hv, hs.key_eq, hs.created_eq, hs.source_eq, httl, Entry.revived, h.size_eq]
  simp only [h.value_eq]

/-- A snapshot that describes an entry is live as long as less than the time to live of the entry has passed. -/
theorem Encodes.isLive_iff {e : Entry} {v : Json} {s : Snapshot} (h : c.Encodes e v) (hs : c.Describes s e)
    (now : Instant) : s.isLive now = true ↔ Instant.elapsed e.created now < e.ttl := by
  rw [Snapshot.isLive, decide_eq_true_iff, Snapshot.ttl, hs.created_eq, hs.ttl_eq, h.ttl_eq]

/-- A cache is opened over a store in place of an earlier one that was within its ceilings.  If each live record goes
with an entry of the earlier one, of the size that the record takes, all live records are loaded and nothing else. -/
theorem find?_openOver (hstore : store.Faultless (c.settings.durableNamespace ++ ":") good) {contents : σ}
    (hgood : good contents) (hc : c.Sound) (now : Instant)
    (hheld : ∀ key record s, store.record? (c.settings.durableNamespace ++ ":") contents key = some record →
      Snapshot.live? now record = some s →
        s.key = key ∧ ∃ e, c.table.find? key = some e ∧ e.size = (c.entryOf now s).size) :
    let reopened := (openOver store c.settings c.codec now contents).1
    reopened.Sound ∧ reopened.tier = some (.ofSpace c.settings.durableNamespace) ∧
      ∀ key, reopened.table.find? key =
        ((store.record? (c.settings.durableNamespace ++ ":") contents key).bind (Snapshot.live? now)).map
          (c.entryOf now) := by
  intro reopened
  obtain ⟨t, ht⟩ : ∃ t, Tier.ofSpace c.settings.durableNamespace = t := ⟨_, rfl⟩
  have hstart : t.start = c.settings.durableNamespace ++ ":" := ht ▸ rfl
  rw [← hstart] at hstore hheld
  obtain ⟨live, hfound⟩ : ∃ live, (t.rehydrate store now contents).1.live = live := ⟨_, rfl⟩
  obtain ⟨fresh, hfresh⟩ : ∃ fresh, { empty c.settings c.codec with tier := some t } = fresh := ⟨_, rfl⟩
  have hreopened : reopened = (loadAll now live fresh).2 := by
    rw [← hfound, ← hfresh, ← ht]
    rfl
  have htable : fresh.table = .empty := hfresh ▸ rfl
  have hsettings : fresh.settings = c.settings := hfresh ▸ rfl
  have hcodec : fresh.codec = c.codec := hfresh ▸ rfl
  have hentry : ∀ s, fresh.entryOf now s = c.entryOf now s := fun s => by
    rw [entryOf, entryOf, encode_congr hsettings hcodec]
  have hlive : ∀ s, s ∈ live ↔ ∃ key record, store.record? t.start contents key = some record ∧
      Snapshot.live? now record = some s := fun s => hfound ▸ Tier.mem_live_rehydrate hstore now hgood
  have hnodup : (live.map Snapshot.key).Nodup := hfound ▸ (Tier.rehydrate_spec hstore now hgood
    fun key record s hrecord hl => (hheld key record s hrecord hl).1).2.1
  have hheld' : ∀ s ∈ live, ∃ e, c.table.find? s.key = some e ∧ e.size = (fresh.entryOf now s).size := by
    intro s hs
    obtain ⟨key, record, hrecord, hl⟩ := (hlive s).1 hs
    obtain ⟨rfl, e, he, hsize⟩ := hheld key record s hrecord hl
    exact ⟨e, he, (hentry s).symm ▸ hsize⟩
  have hmemory : fresh.table.memory + c.table.memory ≤ fresh.settings.maxMemory := by
    rw [htable, hsettings]
    exact (Nat.zero_add _).trans_le hc.memory_le
  have hsize : fresh.table.size + c.table.size ≤ fresh.settings.maxEntries := by
    rw [htable, hsettings]
    exact (Nat.zero_add _).trans_le hc.size_le
  obtain ⟨htier, hloaded, hothers⟩ :=
    loadAll_of_room hc.accurate hnodup (fun s _ => by rw [htable]; rfl) hheld' hmemory hsize
  rw [hreopened]
  refine ⟨(sound_of_table_eq_empty htable).loadAll now live, htier.trans (hfresh ▸ ht ▸ rfl), fun key => ?_⟩
  rw [← hstart]
  cases hfind : (store.record? t.start contents key).bind (Snapshot.live? now) with
  | some s =>
    obtain ⟨record, hrecord, hl⟩ := Option.bind_eq_some_iff.1 hfind
    obtain ⟨rfl, -⟩ := hheld key record s hrecord hl
    rw [hloaded s ((hlive s).2 ⟨_, record, hrecord, hl⟩), hentry, Option.map_some]
  | none =>
    rw [hothers key, htable]
    · rfl
    · intro hmem
      obtain ⟨s, hs, rfl⟩ := List.mem_map.1 hmem
      obtain ⟨k, record, hrecord, hl⟩ := (hlive s).1 hs
      obtain ⟨rfl, -⟩ := hheld k record s hrecord hl
      rw [hrecord, Option.bind_some, hl] at hfind
      cases hfind

/-- A record that can be read goes with a persisted entry, which its snapshot describes. -/
theorem Accords.exists_entry {found : Option Entry} {record : Bytes} {s : Snapshot} (h : c.Accords found (some record))
    (hparse : Snapshot.parse record = .ok s) : ∃ e, found = some e ∧ e.persisted = true ∧ c.Describes s e := by
  cases h with
  | recorded persisted parsed describes =>
    rw [parsed, Except.ok.injEq] at hparse
    exact ⟨_, rfl, persisted, hparse ▸ describes⟩

/-- Opening a cache over a store that goes with the entries of an earlier one, which is within its ceilings, brings
back the persisted entries that are still live and queues nothing. -/
theorem openOver_of_accords (hstore : store.Faultless (c.settings.durableNamespace ++ ":") good) {contents : σ}
    (hgood : good contents) (hc : c.Sound)
    (haccords : ∀ key,
      c.Accords (c.table.find? key) (store.record? (c.settings.durableNamespace ++ ":") contents key))
    (hencodes : ∀ key e, c.table.find? key = some e → ∃ v, c.Encodes e v) (now : Instant) :
    let reopened := (openOver store c.settings c.codec now contents).1
    reopened.Sound ∧ reopened.tier = some (.ofSpace c.settings.durableNamespace) ∧
      ∀ e', e' ∈ reopened.table.entries ↔
        ∃ e ∈ c.table.entries, e.persisted = true ∧ Instant.elapsed e.created now < e.ttl ∧ e' = e.revived now := by
  intro reopened
  -- a live record goes with a persisted entry that is live, and is loaded to that
  have revives : ∀ key record s, store.record? (c.settings.durableNamespace ++ ":") contents key = some record →
      Snapshot.live? now record = some s → ∃ e, c.table.find? key = some e ∧ e.persisted = true ∧ s.key = key ∧
        Instant.elapsed e.created now < e.ttl ∧ c.entryOf now s = e.revived now := by
    intro key record s hrecord hl
    obtain ⟨hparse, hisLive⟩ := Snapshot.live?_eq_some_iff.1 hl
    obtain ⟨e, he, hpersisted, hdescribes⟩ := (hrecord ▸ haccords key).exists_entry hparse
    obtain ⟨v, hv⟩ := hencodes key e he
    exact ⟨e, he, hpersisted, hdescribes.key_eq.trans (hc.accurate.key_of_find? he), 
      (hv.isLive_iff hdescribes now).1 hisLive, hv.entryOf_eq hdescribes now⟩
  obtain ⟨hsound, htier, hfind⟩ := find?_openOver hstore hgood hc now fun key record s hrecord hl => by
    obtain ⟨e, he, -, hkey, -, hentry⟩ := revives key record s hrecord hl
    exact ⟨hkey, e, he, hentry ▸ rfl⟩
  refine ⟨hsound, htier, fun e' => ?_⟩
  rw [hsound.accurate.mem_entries_iff, hfind]
  constructor
  · intro he'
    obtain ⟨s, hs, hentry⟩ := Option.map_eq_some_iff.1 he'
    obtain ⟨record, hrecord, hl⟩ := Option.bind_eq_some_iff.1 hs
    obtain ⟨e, he, hpersisted, -, hyoung, hrevived⟩ := revives _ record s hrecord hl
    have hown := hc.accurate.key_of_find? he
    exact ⟨e, hc.accurate.mem_entries_iff.2 (hown.symm ▸ he), hpersisted, hyoung, hentry.symm.trans hrevived⟩
  · rintro ⟨e, he, hpersisted, hyoung, rfl⟩
    have he := hc.accurate.mem_entries_iff.1 he
    have haccord := haccords e.key
    rw [he] at haccord
    obtain ⟨record, s, hrecord, hparse, hdescribes⟩ := haccord.exists_snapshot hpersisted
    obtain ⟨v, hv⟩ := hencodes e.key e he
    have hl := Snapshot.live?_eq_some_iff.2 ⟨hparse, (hv.isLive_iff hdescribes now).2 hyoung⟩
    have hkey : (e.revived now).key = e.key := rfl
    rw [hkey, hrecord, Option.bind_some, hl, Option.map_some, hv.entryOf_eq hdescribes now]

end Cache

namespace Session

variable {σ : Type} {store : Store σ} {good : σ → Prop}

/-- In a run from an empty table that loads nothing, each entry is what a value was encoded to, if the codec restores
what is set and the times to live are whole milliseconds that a record can hold. -/
theorem exists_encodes {s₀ : Session σ} (h₀ : s₀.cache.table = .empty) {commands : List Command}
    (hq : ∀ command ∈ commands, command.loads = false)
    (hset : ∀ r v o, .set r v o ∈ commands → s₀.cache.codec.Restores v ∧
      ∃ n < 2 ^ 64, s₀.cache.ttlFor r.source o = .ofMillis n) {e : Entry} {key : String}
    (he : (run store commands s₀).cache.table.find? key = some e) :
    ∃ v, (run store commands s₀).cache.Encodes e v := by
  have hsound := Cache.sound_of_table_eq_empty h₀
  obtain ⟨l, hl⟩ := exists_lastSet h₀ hq he
  obtain ⟨hrestores, n, hn, httl⟩ := hset _ _ _ l.set_mem
  have hbefore : ∀ command ∈ l.before, command.loads = false := fun command h =>
    hq command (l.commands_eq ▸ List.mem_append_left _ h)
  -- the set met the settings and the codec that the cache has had all along
  obtain ⟨hsettings, hcodec, -⟩ := @run_settings_codec_eq σ store s₀ hsound commands hq
  obtain ⟨hsettings', hcodec', -⟩ := @run_settings_codec_eq σ store s₀ hsound l.before hbefore
  have hencode : l.session.cache.encode l.value = (run store commands s₀).cache.encode l.value :=
    Cache.encode_congr (hsettings'.trans hsettings.symm) (hcodec'.trans hcodec.symm) l.value
  have hkey : e.key = l.session.cache.keyFor l.request := (congrArg Entry.key hl :)
  have hvalue : e.value = (l.session.cache.encode l.value).1 := (congrArg Entry.value hl :)
  have hsize : e.size = Text.byteLength (l.session.cache.keyFor l.request) + (l.session.cache.encode l.value).2 :=
    (congrArg Entry.size hl :)
  have hspan : e.ttl = .ofMillis n := by
    have hchosen : e.ttl = l.session.cache.ttlFor l.request.source l.options := (congrArg Entry.ttl hl :)
    rw [hchosen, ← httl, Cache.ttlFor, Cache.ttlFor, LastSet.session, hsettings']
  refine ⟨l.value, hencode ▸ hvalue, ?_, l.decode_eq hsound hq hrestores hl, ?_⟩
  · rw [hkey, ← hencode]
    exact hsize
  · rw [hspan, Span.millis_ofMillis hn]

/-- Once the queue of a durable session is done, its entries go with what is in the store. -/
theorem Durable.accords_drained {space : String} {codec : Codec} (hstore : store.Faultless (space ++ ":") good)
    {s : Session σ} (h : s.Durable store space good codec) :
    ∃ t, s.cache.tier = some t ∧ good (t.applyAll store s.contents).2.2 ∧
      ∀ key, s.cache.Accords (s.cache.table.find? key)
        (store.record? (space ++ ":") (t.applyAll store s.contents).2.2 key) := by
  obtain ⟨t, htier, -, rfl, haccords⟩ := h.agrees
  have hdrained : (t.applyAll store s.contents).2.2 = t.settle store s.contents :=
    Tier.applyAll_eq_settle hstore h.good
  refine ⟨t, htier, ?_, fun key => ?_⟩
  · rw [hdrained]
    exact Tier.good_settle hstore h.good
  · rw [hdrained]
    exact haccords key

/-- Over a namespace without records a session is opened with an empty cache. -/
theorem openOver_of_empty {settings : Settings} {contents : σ}
    (hempty : store.list (settings.durableNamespace ++ ":") contents = .ok []) (codec : Codec) (clock : ManualClock) :
    openOver store settings codec clock contents =
      ofEmpty settings codec (some (.ofSpace settings.durableNamespace)) clock (.fresh settings) contents := by
  simp only [openOver, Cache.openOver, Cache.rehydrate, Tier.rehydrate, Tier.start, Tier.ofSpace, hempty,
    Tier.rehydrateKeys, Cache.loadAll]
  rfl

/-- A namespace without records has none that is out of place. -/
theorem keeps_of_empty {space : String} {contents : σ} (hstore : store.Faultless (space ++ ":") good)
    (hgood : good contents) (hempty : store.list (space ++ ":") contents = .ok []) (codec : Codec) :
    Cache.Keeps store space codec contents := by
  intro key record s hrecord
  obtain ⟨keys, hlist, -, hmem⟩ := hstore.list_eq contents hgood
  rw [hempty, Except.ok.injEq] at hlist
  have hnil : keys = [] := List.map_eq_nil_iff.1 hlist.symm
  have hkey := (hmem key).2 (by rw [hrecord]; rfl)
  rw [hnil] at hkey
  cases hkey

theorem loads_of_isOrdinary {command : Command} (h : command.isOrdinary = true) : command.loads = false := by
  cases command <;> first | rfl | cases h

/-- A cache is opened over an empty namespace of a store without faults and runs in any way without loading again; the
values are such that records of them are read back, and the times to live are whole milliseconds that a record can
hold.  Once all that is queued is done, a cache with the same settings and codec that is opened at any time has
exactly the entries that were persisted and are still live, each as it was but for a medium priority and no reads.
It queues no removal, which it would do for a record without room. -/
theorem reopened_entries_eq_live (settings : Settings) (codec : Codec) (clock : ManualClock) {contents : σ}
    (hstore : store.Faultless (settings.durableNamespace ++ ":") good) (hgood : good contents)
    (hempty : store.list (settings.durableNamespace ++ ":") contents = .ok []) (commands : List Command)
    (hordinary : ∀ command ∈ commands, command.isOrdinary = true)
    (hset : ∀ r v o, .set r v o ∈ commands → v.Recordable codec ∧
      ∃ n < 2 ^ 64, o.ttl.getD (settings.ttlPolicy.spanFor r.source) = .ofMillis n) (now : Instant) :
    let s := Session.run store commands (openOver store settings codec clock contents)
    ∃ t, s.cache.tier = some t ∧
      let drained := (t.applyAll store s.contents).2.2
      let reopened := (Cache.openOver store settings codec now drained).1
      reopened.Sound ∧ reopened.tier = some (.ofSpace settings.durableNamespace) ∧
        ∀ e', e' ∈ reopened.table.entries ↔
          ∃ e ∈ s.cache.table.entries, e.persisted = true ∧ Instant.elapsed e.created now < e.ttl ∧
            e' = { e with priority := .medium, accessCount := 0, lastAccess := now, persisted := true } := by
  intro s
  have hopened := openOver_of_empty hempty codec clock
  have h₀ : (openOver store settings codec clock contents).cache.table = .empty := hopened ▸ rfl
  have hq : ∀ command ∈ commands, command.loads = false := fun command h => loads_of_isOrdinary (hordinary command h)
  obtain ⟨hsettings, hcodec, -⟩ :=
    @run_settings_codec_eq σ store _ (Cache.sound_of_table_eq_empty h₀) commands hq
  have hsettings : s.cache.settings = settings := hsettings.trans (hopened ▸ rfl)
  have hcodec : s.cache.codec = codec := hcodec.trans (hopened ▸ rfl)
  have hdurable : s.Durable store settings.durableNamespace good codec :=
    (durable_openOver hstore hgood (keeps_of_empty hstore hgood hempty codec) clock).run hstore hordinary
      fun r v o h => (hset r v o h).1
  have hencodes : ∀ key e, s.cache.table.find? key = some e → ∃ v, s.cache.Encodes e v := by
    intro key e he
    refine exists_encodes h₀ hq (fun r v o h => ?_) he
    rw [hopened]
    exact ⟨(hset r v o h).1.restores, (hset r v o h).2⟩
  obtain ⟨t, htier, hgood', haccords⟩ := hdurable.accords_drained hstore
  have hreopened := Cache.openOver_of_accords (c := s.cache) (hsettings ▸ hstore) hgood' hdurable.sound
    (hsettings ▸ haccords) hencodes now
  rw [hsettings, hcodec] at hreopened
  exact ⟨t, htier, hreopened⟩

private def packingEach : Settings :=
  { Settings.default with compressionThreshold := 0 }

/-- One value is set for a second, one for longer and read, one without being persisted, and one to be removed. -/
private def lapsing : List Command :=
  [.set ⟨"/a", none, none⟩ (.arr [.int 5, .str "x"]) ⟨some (.ofSeconds 1), .high⟩, .writeNext,
   .set ⟨"/b", none, none⟩ (.bool true) ⟨none, .critical⟩, .set ⟨"/c", none, none⟩ .null ⟨none, .medium⟩,
   .set ⟨"/d", none, none⟩ (.int 4) ⟨none, .high⟩, .getByKey "::/b", .invalidate ⟨"/d", none, none⟩]

private def beforeRestart : Session MemoryStore :=
  Session.run MemoryStore.store lapsing (openOver MemoryStore.store packingEach .runLength ⟨0⟩ .empty)

theorem reopened_after_lapse :
    ∃ t, beforeRestart.cache.tier = some t ∧
      let drained := (t.applyAll MemoryStore.store beforeRestart.contents).2.2
      let reopened := (Cache.openOver MemoryStore.store packingEach .runLength (.ofMillis 1000) drained).1
      ∀ key, (∃ e ∈ reopened.table.entries, e.key = key) ↔ key = "::/b" := by
  have hset : ∀ r v o, Command.set r v o ∈ lapsing → v.Recordable .runLength ∧
      ∃ n < 2 ^ 64, o.ttl.getD (packingEach.ttlPolicy.spanFor r.source) = .ofMillis n := by
    intro r v o h
    simp only [lapsing, List.mem_cons, List.not_mem_nil, Command.set.injEq, reduceCtorEq, or_false, false_or] at h
    rcases h with ⟨rfl, rfl, rfl⟩ | ⟨rfl, rfl, rfl⟩ | ⟨rfl, rfl, rfl⟩ | ⟨rfl, rfl, rfl⟩
    · have hreadable : (Json.arr [.int 5, .str "x"]).Readable := ⟨⟨by decide, by decide⟩, trivial, trivial⟩
      exact ⟨⟨hreadable, by decide, Codec.runLength_restores (by decide) hreadable⟩, 1000, by decide, rfl⟩
    · exact ⟨⟨trivial, by decide, Codec.runLength_restores (by decide) trivial⟩, 300000, by decide, rfl⟩
    · exact ⟨⟨trivial, by decide, Codec.runLength_restores (by decide) trivial⟩, 300000, by decide, rfl⟩
    · have hreadable : (Json.int 4).Readable := ⟨by decide, by decide⟩
      exact ⟨⟨hreadable, by decide, Codec.runLength_restores (by decide) hreadable⟩, 300000, by decide, rfl⟩
  obtain ⟨t, htier, -, -, hentries⟩ :=
    reopened_entries_eq_live packingEach .runLength ⟨0⟩ (MemoryStore.faultless _) List.Pairwise.nil rfl lapsing
      (by decide +kernel) hset (.ofMillis 1000)
  have hlive : (beforeRestart.cache.table.entries.filter fun e =>
      e.persisted && decide (Instant.elapsed e.created (.ofMillis 1000) < e.ttl)).map Entry.key = ["::/b"] := by
    decide +kernel
  refine ⟨t, htier, ?_⟩
  intro drained reopened key
  rw [← List.mem_singleton, ← hlive]
  simp only [List.mem_map, List.mem_filter, Bool.and_eq_true, decide_eq_true_eq]
  constructor
  · rintro ⟨e', he', rfl⟩
    obtain ⟨e, he, hpersisted, hyoung, rfl⟩ := (hentries e').1 he'
    exact ⟨e, ⟨he, hpersisted, hyoung⟩, rfl⟩
  · rintro ⟨e, ⟨he, hpersisted, hyoung⟩, rfl⟩
    exact ⟨_, (hentries _).2 ⟨e, he, hpersisted, hyoung, rfl⟩, rfl⟩

end Session

end ResultCache
