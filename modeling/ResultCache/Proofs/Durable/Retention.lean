import ResultCache.Proofs.Deflate.Members
import ResultCache.Proofs.Durable.Absence
import ResultCache.Proofs.Durable.Restart
import ResultCache.Proofs.Json.Distinct
import ResultCache.Proofs.Protection

/-!
# How deep a value may be nested

Values are written at any depth of nesting, but read only up to a limit.  So a value that was set is read back from
the table if it is kept plain or is nested no deeper than a document may be, and from the store only if it is nested
less deep still, as its record has one level of its own (`Session.retained_up_to_depth`).  Beyond that the cache loses
what it has accepted.  Apart from depth a restart brings every value back: each settled record is of the size of its
entry (`Cache.Measures`), so all records find room again.
-/

namespace ResultCache

variable {σ : Type} {store : Store σ} {good : σ → Prop}

/-! ### Values and their forms -/

namespace Codec

/-- A document is read to its value exactly if it is not nested too deep. -/
theorem document?_bytes {v : Json} (h : v.Readable) :
    document? v.bytes = if v.depth ≤ Json.maxDepth then some v else none := by
  rw [document?]
  split
  · rename_i w hparse
    split
    · rename_i hdepth
      rw [Json.parse_bytes hdepth h, Except.ok.injEq] at hparse
      rw [hparse]
    · rename_i hdeep
      obtain ⟨e, he⟩ := Json.parse_bytes_deep (Nat.lt_of_not_le hdeep) h
      rw [he] at hparse
      cases hparse
  · rename_i hparse
    rw [if_neg]
    intro hdepth
    rw [Json.parse_bytes hdepth h] at hparse
    cases hparse

end Codec

namespace Cache

variable {c c' : Cache}

/-- What is read back of a value that a cache with gzip keeps. -/
theorem decode_encode_gzip {level : Nat} (hcodec : c.codec = .gzip level) {v : Json} (hv : v.Readable) :
    c.decode (c.encode v).1 =
      if v.size ≤ c.settings.compressionThreshold ∨ v.depth ≤ Json.maxDepth then some v else none := by
  rw [encode]
  by_cases hplain : v.size ≤ c.settings.compressionThreshold
  · rw [if_pos hplain, if_pos (.inl hplain)]
    rfl
  · simp only [hplain, if_false, false_or]
    rw [← Codec.document?_bytes hv, hcodec]
    show c.codec.decompress (Gzip.compress (min level Gzip.maxLevel) v.bytes) = _
    rw [hcodec]
    exact congrArg (Option.bind · Codec.document?) (Gzip.decompress?_compress _ v.bytes)

/-- A read of what a cache with gzip has kept of a value, before it is expired. -/
theorem get_of_kept {level : Nat} (hcodec : c.codec = .gzip level) {v : Json} (hv : v.Readable)
    {now : Instant} {r : Request} {e : Entry} (he : c.table.find? (c.keyFor r) = some e)
    (hvalue : e.value = (c.encode v).1) (hfresh : e.isExpired now = false) :
    (c.get now r).1 =
      if v.size ≤ c.settings.compressionThreshold ∨ v.depth ≤ Json.maxDepth then some v else none := by
  rw [← decode_encode_gzip hcodec hv, ← hvalue, get, getByKey, he]
  dsimp only
  rw [hfresh, if_neg Bool.false_ne_true]
  cases c.decode e.value <;> rfl

end Cache

namespace Snapshot

variable {s : Snapshot}

/-- The record of a snapshot is no record exactly if its value is nested too deep. -/
theorem isCorrupt_record_iff (hvalue : s.value.Readable)
    (hcreated : Time.readInstant? (Time.instantText s.created) = some s.created) (httl : s.ttlMillis < 2 ^ 64) :
    isCorrupt s.record = true ↔ Json.maxDepth ≤ s.value.depth := by
  rw [isCorrupt]
  rcases parse_record_cases hvalue hcreated httl with ⟨hdepth, hparse⟩ | ⟨hdeep, e, he⟩
  · rw [hparse]
    exact iff_of_false Bool.false_ne_true (Nat.not_le.2 hdepth)
  · rw [he]
    exact iff_of_true rfl hdeep

theorem parse_record_iff (hvalue : s.value.Readable)
    (hcreated : Time.readInstant? (Time.instantText s.created) = some s.created) (httl : s.ttlMillis < 2 ^ 64) :
    parse s.record = .ok s ↔ s.value.depth < Json.maxDepth := by
  rcases parse_record_cases hvalue hcreated httl with ⟨hdepth, hparse⟩ | ⟨hdeep, e, he⟩
  · exact iff_of_true hparse hdepth
  · rw [he]
    exact iff_of_false nofun (Nat.not_lt.2 hdeep)

/-- What is found live of the record of a snapshot. -/
theorem live?_record (hvalue : s.value.Readable)
    (hcreated : Time.readInstant? (Time.instantText s.created) = some s.created) (httl : s.ttlMillis < 2 ^ 64)
    (now : Instant) :
    live? now s.record = if s.value.depth < Json.maxDepth ∧ s.isLive now = true then some s else none := by
  rw [live?]
  rcases parse_record_cases hvalue hcreated httl with ⟨hdepth, hparse⟩ | ⟨hdeep, e, he⟩
  · rw [hparse]
    simp only [hdepth, true_and]
  · rw [he, if_neg fun h => Nat.not_lt.2 hdeep h.1]

end Snapshot

/-! ### The sizes of records -/

namespace Tier

/-- A record that is there after some deletions was there before. -/
theorem settled?_of_deleted {t : Tier} (hstore : store.Faultless t.start good) (hconnected : t.connected = true)
    {deleted : List String} {s : σ} (hs : good s) {key : String} {record : Bytes}
    (h : (t.sendAll (deleted.map .delete)).settled? store s key = some record) :
    t.settled? store s key = some record := by
  rw [settled?_sendAll hstore hconnected _ hs] at h
  rcases WriteOp.put_mem_of_foldl_effect h with hmem | hthere
  · obtain ⟨k, -, hk⟩ := List.mem_map.1 hmem
    cases hk
  · exact hthere

end Tier

namespace Cache

variable {c c' : Cache} {contents : σ} {space : String}

/-- A persisted entry has the size that the value of its settled record takes, if that can be read. -/
def Measures (store : Store σ) (contents : σ) (c : Cache) : Prop :=
  ∀ t key record s e, c.tier = some t → t.settled? store contents key = some record → Snapshot.parse record = .ok s →
    c.table.find? key = some e → e.persisted = true → e.size = Text.byteLength key + (c.encode s.value).2

theorem Measures.trims (hstore : store.Faultless (space ++ ":") good) (hgood : good contents)
    (h : c.Measures store contents) {t : Tier} (hserves : c.Serves space t) {now : Instant} (trims : Trims now c c') :
    c'.Measures store contents := by
  intro t' key record s e' htier hrecord hparse he' hpersisted
  obtain ⟨deleted, hsends⟩ := trims.sends
  rw [hserves.tier_eq, htier, Option.map_some, Option.some.injEq] at hsends
  rw [hsends] at hrecord
  have hthere := Tier.settled?_of_deleted (hserves.start_eq.symm ▸ hstore) hserves.connected hgood hrecord
  obtain ⟨e, he, hmade⟩ := trims.find?_asMade he'
  have hsize : e'.size = e.size := (congrArg Entry.size hmade :)
  have hpers : e'.persisted = e.persisted := (congrArg Entry.persisted hmade :)
  rw [hsize, encode_congr trims.settings_eq trims.codec_eq]
  exact h t key record s e hserves.tier_eq hthere hparse he (hpers.symm.trans hpersisted)

theorem Measures.replace (hstore : store.Faultless (space ++ ":") good) (hgood : good contents)
    (h : c.Measures store contents) {t : Tier} (hserves : c.Serves space t) {e : Entry} {v : Json}
    (hsize : e.size = Text.byteLength e.key + (c.encode v).2)
    (hrecord : ∀ s, Snapshot.parse (e.snapshot v).record = .ok s → s.value = v) :
    (c.replace e v).Measures store contents := by
  intro t' key record s e' htier hsettled hparse he' hpersisted
  have hsends := replace_sends c e v
  rw [hserves.tier_eq, htier, Option.map_some, Option.some.injEq] at hsends
  rw [hsends, Tier.settled?_sendAll (hserves.start_eq.symm ▸ hstore) hserves.connected _ hgood, replacementOps]
    at hsettled
  rw [replace_table, Table.find?_attach] at he'
  rw [encode_congr (replace_settings c e v) (replace_codec c e v)]
  by_cases hkey : key = e.key
  · rw [if_pos hkey, Option.some.injEq] at he'
    subst he'
    rw [if_pos hpersisted, hkey] at hsettled
    have heq : record = (e.snapshot v).record := by
      simpa [WriteOp.effect] using hsettled.symm
    rw [hrecord s (heq ▸ hparse), hsize, hkey]
  · rw [if_neg hkey, Table.find?_detach, if_neg hkey] at he'
    have hthere : t.settled? store contents key = some record := by
      split at hsettled
      · simpa [WriteOp.effect, hkey] using hsettled
      · split at hsettled
        · simpa [WriteOp.effect, hkey] using hsettled
        · exact hsettled
    exact h t key record s e' hserves.tier_eq hthere hparse he' hpersisted

theorem Measures.loadAll (hstore : store.Faultless (space ++ ":") good) (hgood : good contents)
    (h : c.Measures store contents) {t : Tier} (hserves : c.Serves space t) (now : Instant) {live : List Snapshot}
    (hlive : ∀ s' ∈ live, c.table.find? s'.key = none → ∀ record s, t.settled? store contents s'.key = some record →
      Snapshot.parse record = .ok s → s'.value = s.value) :
    (Cache.loadAll now live c).2.Measures store contents := by
  intro t' key record s e htier hrecord hparse he hpersisted
  obtain ⟨deleted, hsends⟩ := loadAll_sends now live c
  rw [hserves.tier_eq, htier, Option.map_some, Option.some.injEq] at hsends
  rw [hsends] at hrecord
  have hthere := Tier.settled?_of_deleted (hserves.start_eq.symm ▸ hstore) hserves.connected hgood hrecord
  rw [encode_congr (loadAll_settings now live c) (loadAll_codec now live c)]
  rcases find?_loadAll_cases now live he with hold | ⟨hfree, s', hs', rfl, rfl⟩
  · exact h t key record s e hserves.tier_eq hthere hparse hold hpersisted
  · rw [← hlive s' hs' hfree record s hthere hparse]
    rfl

/-- Where records are taken away, those that are left are of the same sizes. -/
theorem Measures.fewer (hstore : store.Faultless (space ++ ":") good) (hgood : good contents) {contents' : σ}
    (hgood' : good contents')
    (hfewer : ∀ key, store.record? (space ++ ":") contents' key = store.record? (space ++ ":") contents key ∨
      store.record? (space ++ ":") contents' key = none)
    (h : c.Measures store contents) {t : Tier} (hserves : c.Serves space t) : c.Measures store contents' := by
  intro t' key record s e htier hrecord hparse he hpersisted
  cases hserves.tier_eq.symm.trans htier
  have hstore' : store.Faultless t.start good := hserves.start_eq.symm ▸ hstore
  have hsettled := WriteOp.foldl_effect_of_fewer hfewer t.pending key
  rw [← hserves.start_eq, ← Tier.settled?_eq_foldl hstore' hgood', ← Tier.settled?_eq_foldl hstore' hgood] at hsettled
  rcases hsettled with heq | hnone
  · exact h t key record s e htier (heq.symm.trans hrecord) hparse he hpersisted
  · rw [hnone] at hrecord
    cases hrecord

end Cache

namespace Session

variable {settings : Settings} {codec : Codec} {s : Session σ}

/-- A session with some settings and a codec in which every settled record goes with an entry of its size. -/
structure Reloads (store : Store σ) (settings : Settings) (codec : Codec) (good : σ → Prop) (s : Session σ) :
    Prop where
  orderly : s.Orderly settings good
  own : store.OwnKeys (settings.durableNamespace ++ ":") s.contents
  codec_eq : s.cache.codec = codec
  covers : s.cache.Covers store settings.durableNamespace s.contents []
  measures : s.cache.Measures store s.contents

/-- Whatever a record of a value is read to has the value. -/
theorem value_of_parse_record {e : Entry} {v : Json} (hv : v.Readable)
    (hcreated : Time.readInstant? (Time.instantText e.created) = some e.created) {s : Snapshot}
    (h : Snapshot.parse (e.snapshot v).record = .ok s) : s.value = v := by
  rcases Snapshot.parse_record_cases (s := e.snapshot v) hv hcreated e.ttl.millis_lt with ⟨-, hparse⟩ | ⟨-, f, hf⟩
  · rw [hparse, Except.ok.injEq] at h
    rw [← h]
    rfl
  · rw [hf] at h
    cases h

theorem Reloads.step (hstore : store.Faultless (settings.durableNamespace ++ ":") good)
    (h : s.Reloads store settings codec good) {command : Command} (hkeeps : command.keepsTier = true)
    (hset : ∀ r v o, command = .set r v o → v.Readable) :
    (s.step store command).2.Reloads store settings codec good := by
  obtain ⟨t, hserves, hcovers⟩ := id h.covers
  suffices (s.step store command).2.cache.codec = s.cache.codec ∧
      (s.step store command).2.cache.Measures store (s.step store command).2.contents from
    ⟨(h.orderly.step hstore hserves hkeeps).1, h.orderly.ownKeys_step hstore hserves h.own hkeeps,
      this.1.trans h.codec_eq, h.orderly.covers_step hstore h.covers hkeeps, this.2⟩
  have hgood := h.orderly.good
  have hmove := step_move h.orderly.sound.accurate store hserves hkeeps
  generalize (s.step store command).2.cache = c, (s.step store command).2.contents = contents at hmove ⊢
  cases hmove with
  | @written _ t' hadds =>
    refine ⟨rfl, ?_⟩
    intro u key record snapshot e htier hrecord hparse he hpersisted
    cases htier
    rw [hserves.settled?_applyCount hstore hgood hadds] at hrecord
    exact h.measures t key record snapshot e hserves.tier_eq hrecord hparse he hpersisted
  | loaded =>
    obtain ⟨hgood', hfewer⟩ := Tier.rehydrate_fewer (hserves.start_eq ▸ hstore) s.now hgood
    rw [hserves.start_eq] at hfewer
    refine ⟨Cache.loadAll_codec .., (h.measures.fewer hstore hgood hgood' hfewer hserves).loadAll hstore hgood' hserves
      s.now fun s' _ hfree record snapshot hrecord _ => ?_⟩
    -- what is loaded has no settled record, or its entry would be there
    obtain ⟨u, hserves', hcovers'⟩ := h.covers.fewer hstore hgood hgood' hfewer
    cases hserves.tier_eq.symm.trans hserves'.tier_eq
    rcases hcovers' s'.key with hnone | ⟨e, he, -⟩ | ⟨hwaiting, -⟩
    · rw [hnone] at hrecord
      cases hrecord
    · rw [hfree] at he
      cases he
    · cases hwaiting
  | trimmed _ trims => exact ⟨trims.codec_eq, h.measures.trims hstore hgood hserves trims⟩
  | @stored r v o c' ok trims =>
    obtain ⟨t', hserves', -⟩ := h.covers.trims hstore hgood trims
    refine ⟨(Cache.replace_codec ..).trans trims.codec_eq,
      (h.measures.trims hstore hgood hserves trims).replace hstore hgood hserves' ?_ fun snapshot =>
        value_of_parse_record (e := s.cache.entryFor s.now r v o) (hset r v o rfl) s.clock.readInstant?_now⟩
    rw [Cache.encode_congr trims.settings_eq trims.codec_eq]
    rfl
  | cleared =>
    refine ⟨rfl, ?_⟩
    intro u key record snapshot e _ _ _ he
    cases he

theorem reloads_openOver (hstore : store.Faultless (settings.durableNamespace ++ ":") good) {contents : σ}
    (hgood : good contents) (hown : store.OwnKeys (settings.durableNamespace ++ ":") contents) (clock : ManualClock) :
    (openOver store settings codec clock contents).Reloads store settings codec good := by
  have hnone : ∀ command ∈ ([] : List Command), command.keepsTier = true := by simp
  obtain ⟨horderly, -⟩ := orderly_run codec clock hstore hgood hnone
  obtain ⟨hown', hcovers⟩ := covers_run codec clock hstore hgood hown hnone
  obtain ⟨t, ht⟩ : ∃ t, Tier.ofSpace settings.durableNamespace = t := ⟨_, rfl⟩
  have hstart : t.start = settings.durableNamespace ++ ":" := ht ▸ rfl
  have hstore' : store.Faultless t.start good := hstart.symm ▸ hstore
  obtain ⟨fresh, hfresh⟩ : ∃ fresh, { Cache.empty settings codec with tier := some t } = fresh := ⟨_, rfl⟩
  have hcache : (openOver store settings codec clock contents).cache =
      (Cache.loadAll clock.now (t.rehydrate store clock.now contents).1.live fresh).2 := by
    rw [← hfresh, ← ht]
    rfl
  have hcontents : (openOver store settings codec clock contents).contents =
      (t.rehydrate store clock.now contents).2 := by
    rw [← ht]
    rfl
  obtain ⟨hgood', hfewer⟩ := Tier.rehydrate_fewer hstore' clock.now hgood
  have hserves : fresh.Serves settings.durableNamespace t := by
    subst hfresh ht
    exact Cache.serves_ofSpace settings codec
  have hempty : fresh.Measures store (t.rehydrate store clock.now contents).2 := by
    intro u key record s e _ _ _ he
    rw [← hfresh] at he
    cases he
  refine ⟨horderly, hown', ?_, hcovers, ?_⟩
  · rw [hcache, Cache.loadAll_codec, ← hfresh]
    rfl
  · rw [hcache, hcontents]
    refine hempty.loadAll hstore hgood' hserves clock.now fun s' hs' _ record s hrecord hparse => ?_
    -- what is loaded was read from the record itself
    have hsettled : store.record? t.start (t.rehydrate store clock.now contents).2 s'.key = some record := by
      rw [← hrecord, ← ht]
      rfl
    obtain ⟨key, record', hrecord', hlive⟩ := (Tier.mem_live_rehydrate hstore' clock.now hgood).1 hs'
    have hparse' := Snapshot.parse_of_live? hlive
    have hkey : s'.key = key := hown key record' (hstart ▸ hrecord') s' hparse'
    rcases hfewer s'.key with heq | hnone
    · rw [heq, hkey, hrecord', Option.some.injEq] at hsettled
      rw [hsettled, hparse, Except.ok.injEq] at hparse'
      rw [hparse']
    · rw [hnone] at hsettled
      cases hsettled

/-- The sessions over a store that have run with their writer since they were opened: every record that they met stood
under its own key, and they set such values as a program can hold. -/
inductive Attended (store : Store σ) (settings : Settings) (codec : Codec) (good : σ → Prop) : Session σ → Prop where
  | openOver (clock : ManualClock) {contents : σ} (hgood : good contents)
      (hown : store.OwnKeys (settings.durableNamespace ++ ":") contents) :
      Attended store settings codec good (Session.openOver store settings codec clock contents)
  | step {s : Session σ} (h : Attended store settings codec good s) {command : Command}
      (hkeeps : command.keepsTier = true) (hset : ∀ r v o, command = .set r v o → v.WellFormed) :
      Attended store settings codec good (s.step store command).2

theorem Attended.reloads (hstore : store.Faultless (settings.durableNamespace ++ ":") good)
    (h : s.Attended store settings codec good) : s.Reloads store settings codec good := by
  induction h with
  | openOver clock hgood hown => exact reloads_openOver hstore hgood hown clock
  | step _ hkeeps hset ih => exact ih.step hstore hkeeps fun r v o heq => (hset r v o heq).readable

/-! ### Opening again -/

/-- Once the queue is done, a restart loads what is recorded and live, and nothing else. -/
theorem Reloads.find?_openOver (hstore : store.Faultless (settings.durableNamespace ++ ":") good)
    (h : s.Reloads store settings codec good) (hdone : ∀ t, s.cache.tier = some t → t.pending = []) (now : Instant)
    (key : String) :
    (Cache.openOver store settings codec now s.contents).1.table.find? key =
      ((store.record? (settings.durableNamespace ++ ":") s.contents key).bind (Snapshot.live? now)).map
        (s.cache.entryOf now) := by
  obtain ⟨u, hserves, hcovers⟩ := h.covers
  obtain rfl := h.orderly.settings_eq
  obtain rfl := h.codec_eq
  refine (Cache.find?_openOver hstore h.orderly.good h.orderly.sound now
    fun key record snapshot hrecord hl => ?_).2.2 key
  have hparse := Snapshot.parse_of_live? hl
  obtain rfl := h.own key record hrecord snapshot hparse
  have hsettled : u.settled? store s.contents snapshot.key = some record := by
    rw [← hrecord, Tier.settled?, Tier.settle, hdone u hserves.tier_eq, hserves.start_eq]
    rfl
  -- each record that is found goes with an entry, which makes room for it
  rcases hcovers snapshot.key with hnone | ⟨e, he, hpersisted⟩ | ⟨hwaiting, -⟩
  · rw [hnone] at hsettled
    cases hsettled
  · exact ⟨rfl, e, he, h.measures u _ record snapshot e hserves.tier_eq hsettled hparse he hpersisted⟩
  · cases hwaiting

/-- What becomes of a record that is there once the queue is done, if a restart follows at the time the entry was made.
If its value is nested too deep it is counted as corrupt; otherwise it is read back, and loaded unless its time to live
is less than a millisecond. -/
theorem Reloads.reopened_of_record (hstore : store.Faultless (settings.durableNamespace ++ ":") good)
    (h : s.Reloads store settings codec good) (hdone : ∀ t, s.cache.tier = some t → t.pending = []) {e : Entry}
    {v : Json} (hv : v.Readable) (hcreated : e.created = s.now)
    (hrecord : store.record? (settings.durableNamespace ++ ":") s.contents e.key = some (e.snapshot v).record) :
    (Snapshot.parse (e.snapshot v).record = .ok (e.snapshot v) ↔ v.depth < Json.maxDepth) ∧
      (∃ refused : List String, refused.Nodup ∧
        ((Tier.ofSpace settings.durableNamespace).rehydrate store s.now s.contents).1.corrupt = refused.length ∧
        (∀ key, key ∈ refused ↔
          (store.record? (settings.durableNamespace ++ ":") s.contents key).any Snapshot.isCorrupt = true) ∧
        (e.key ∈ refused ↔ Json.maxDepth ≤ v.depth)) ∧
      (Cache.openOver store settings codec s.now s.contents).1.table.find? e.key =
        if v.depth < Json.maxDepth ∧ 0 < e.ttl.millis then some (s.cache.entryOf s.now (e.snapshot v)) else none := by
  have hinstant : Time.readInstant? (Time.instantText e.created) = some e.created := by
    rw [hcreated]
    exact s.clock.readInstant?_now
  have hlive : (e.snapshot v).isLive s.now = true ↔ 0 < e.ttl.millis := by
    have httl : (e.snapshot v).ttl.nanos = e.ttl.millis * 1000000 := rfl
    have hzero : Instant.elapsed (e.snapshot v).created s.now = .zero := by
      rw [← hcreated]
      exact Instant.elapsed_self _
    rw [Snapshot.isLive, hzero, decide_eq_true_iff, Span.lt_def, httl]
    exact (Nat.mul_pos_iff_of_pos_right (by decide))
  refine ⟨Snapshot.parse_record_iff (s := e.snapshot v) hv hinstant e.ttl.millis_lt, ?_, ?_⟩
  · obtain ⟨refused, hnodup, hlength, hmem⟩ := Tier.rehydrate_corrupt
      (t := .ofSpace settings.durableNamespace) hstore s.now h.orderly.good
    have hthere : store.record? (Tier.ofSpace settings.durableNamespace).start s.contents e.key =
        some (e.snapshot v).record := hrecord
    refine ⟨refused, hnodup, hlength, hmem, ?_⟩
    rw [hmem, hthere, Option.any_some]
    exact Snapshot.isCorrupt_record_iff (s := e.snapshot v) hv hinstant e.ttl.millis_lt
  · have hrecorded := Snapshot.live?_record (s := e.snapshot v) hv hinstant e.ttl.millis_lt s.now
    have hkept : (e.snapshot v).value.depth < Json.maxDepth ∧ (e.snapshot v).isLive s.now = true ↔
        v.depth < Json.maxDepth ∧ 0 < e.ttl.millis := and_congr Iff.rfl hlive
    rw [h.find?_openOver hstore hdone, hrecord, Option.bind_some, hrecorded]
    simp only [hkept]
    split <;> rfl

/-- The writer does all that is queued. -/
theorem Reloads.step_write (hstore : store.Faultless (settings.durableNamespace ++ ":") good)
    (h : s.Reloads store settings codec good) {t : Tier} (htier : s.cache.tier = some t) :
    (s.step store .write).2.clock = s.clock ∧ (s.step store .write).2.contents = t.settle store s.contents ∧
      ∀ t', (s.step store .write).2.cache.tier = some t' → t'.pending = [] := by
  obtain ⟨u, hserves, -⟩ := h.covers
  cases htier.symm.trans hserves.tier_eq
  have hstore' : store.Faultless t.start good := hserves.start_eq.symm ▸ hstore
  have hstep : (s.step store .write).2 =
      s.withTier (t.applyAll store s.contents).2.1 (t.applyAll store s.contents).2.2 := by
    simp only [Session.step, write, htier, Tier.write, hserves.connected, if_true]
  obtain ⟨-, -, -, hpending, -⟩ := Tier.applyCount_spec t.pending.length hstore' h.orderly.good
  rw [hstep]
  refine ⟨rfl, Tier.applyAll_eq_settle hstore' h.orderly.good, fun t' ht' => ?_⟩
  cases ht'
  exact hpending.trans List.drop_length

/-- A persisted value that is set is recorded once all that is queued is done. -/
theorem settled?_set (hstore : store.Faultless (settings.durableNamespace ++ ":") good)
    (h : s.Reloads store settings codec good) {r : Request} {v : Json} {o : SetOptions}
    (hok : (s.cache.set s.now r v o).1 = .ok ()) (hpersisted : (s.cache.entryFor s.now r v o).persisted = true) :
    ∃ t, (s.cache.set s.now r v o).2.tier = some t ∧
      t.settled? store s.contents (s.cache.entryFor s.now r v o).key =
        some ((s.cache.entryFor s.now r v o).snapshot v).record := by
  rcases Cache.set_cases h.orderly.sound.accurate s.now r v o with ⟨f, c, heq, -⟩ | ⟨c, heq, trims, -⟩
  · rw [heq] at hok
    cases hok
  · obtain ⟨t, hserves, -⟩ := h.covers.trims hstore h.orderly.good trims
    have hsends := Cache.replace_sends c (s.cache.entryFor s.now r v o) v
    rw [hserves.tier_eq, Option.map_some, Cache.replacementOps, if_pos hpersisted] at hsends
    refine ⟨_, (congrArg (fun p => p.2.tier) heq).trans hsends, ?_⟩
    rw [Tier.settled?_sendAll (hserves.start_eq.symm ▸ hstore) hserves.connected _ h.orderly.good]
    exact if_pos rfl

theorem Reloads.step_restart (h : s.Reloads store settings codec good) (settings' : Settings) (codec' : Codec) :
    (s.step store (.restart settings' codec')).2 = openOver store settings' codec' s.clock s.contents := by
  obtain ⟨t, hserves, -⟩ := h.covers
  simp only [Session.step, hserves.tier_eq, Option.isSome_some, if_true]

/-- What is read right after a restart of a key whose record was loaded or not. -/
theorem Reloads.get_reopened {level : Nat} (h : s.Reloads store settings (.gzip level) good) {r : Request} {e : Entry}
    {v : Json} (hv : v.Readable) (hkey : e.key = r.key settings.volatileFields) (hcreated : e.created = s.now)
    (hfound : (Cache.openOver store settings (.gzip level) s.now s.contents).1.table.find? e.key =
      if v.depth < Json.maxDepth ∧ 0 < e.ttl.millis then some (s.cache.entryOf s.now (e.snapshot v)) else none) :
    ((Cache.openOver store settings (.gzip level) s.now s.contents).1.get s.now r).1 =
      if v.depth < Json.maxDepth ∧ 0 < e.ttl.millis then some v else none := by
  obtain ⟨live, hload⟩ := rehydrate_eq_loadAll store
    { Cache.empty settings (.gzip level) with tier := some (.ofSpace settings.durableNamespace) } s.now s.contents
  have hsettings : (Cache.openOver store settings (.gzip level) s.now s.contents).1.settings = settings :=
    (congrArg Cache.settings hload).trans (Cache.loadAll_settings ..)
  have hcodec : (Cache.openOver store settings (.gzip level) s.now s.contents).1.codec = .gzip level :=
    (congrArg Cache.codec hload).trans (Cache.loadAll_codec ..)
  generalize (Cache.openOver store settings (.gzip level) s.now s.contents).1 = c at hfound hsettings hcodec ⊢
  have hkey' : c.keyFor r = e.key := by rw [Cache.keyFor, hsettings, hkey]
  by_cases hkept : v.depth < Json.maxDepth ∧ 0 < e.ttl.millis
  · rw [if_pos hkept] at hfound ⊢
    have hvalue : (s.cache.entryOf s.now (e.snapshot v)).value = (c.encode v).1 := by
      rw [Cache.encode_congr (hsettings.trans h.orderly.settings_eq.symm) (hcodec.trans h.codec_eq.symm)]
      rfl
    have hfresh : (s.cache.entryOf s.now (e.snapshot v)).isExpired s.now = false := by
      have hstart : (s.cache.entryOf s.now (e.snapshot v)).created = s.now := hcreated
      rw [Entry.isExpired_eq_false_iff, hstart, Instant.elapsed_self]
      exact Nat.zero_le _
    rw [Cache.get_of_kept hcodec hv (hkey'.symm ▸ hfound) hvalue hfresh]
    exact if_pos (.inr (Nat.le_of_lt hkept.1))
  · rw [if_neg hkept] at hfound ⊢
    rw [Cache.get, Cache.getByKey, hkey', hfound]

/-- A value that was set is read back at the same time as far as it is not nested too deep for its form: as deep as it
may be if it is kept plain, up to `maxDepth` if it is compressed, and less than that if it comes from its record after
a restart.  The restart counts as corrupt the records that cannot be read, each once, and that of the value is one of
them if it is nested too deep.  A time to live of less than a millisecond is none in a record. -/
theorem retained_up_to_depth {s : Session σ} (hs : s.Reachable store) {level : Nat}
    (hcodec : s.cache.codec = .gzip level) (r : Request) {v : Json} (hv : v.WellFormed) (o : SetOptions)
    (hok : (s.cache.set s.now r v o).1 = .ok ()) :
    let e := s.cache.entryFor s.now r v o
    let kept := (s.step store (.set r v o)).2
    (kept.cache.get kept.now r).1 =
        (if v.size ≤ s.cache.settings.compressionThreshold ∨ v.depth ≤ Json.maxDepth then some v else none) ∧
      ∀ (settings : Settings) (good : σ → Prop), store.Faultless (settings.durableNamespace ++ ":") good →
        s.Attended store settings (.gzip level) good → e.persisted = true →
          let record := (e.snapshot v).record
          let drained := (kept.step store .write).2
          let restarted := (drained.step store (.restart settings (.gzip level))).2
          store.get (settings.durableNamespace ++ ":" ++ e.key) drained.contents = .ok (some record) ∧
            (Snapshot.parse record = .ok (e.snapshot v) ↔ v.depth < Json.maxDepth) ∧
            (∃ refused : List String, refused.Nodup ∧
              ((Tier.ofSpace settings.durableNamespace).rehydrate store drained.now drained.contents).1.corrupt =
                refused.length ∧
              (∀ key, key ∈ refused ↔
                (store.record? (settings.durableNamespace ++ ":") drained.contents key).any Snapshot.isCorrupt = true) ∧
              (e.key ∈ refused ↔ Json.maxDepth ≤ v.depth)) ∧
            (restarted.cache.get restarted.now r).1 =
              if v.depth < Json.maxDepth ∧ 0 < e.ttl.millis then some v else none := by
  intro e kept
  have hsound := hs.sound
  have hmade : kept.cache.table.find? e.key = some e := Cache.find?_set hsound.accurate hok
  have hsame : kept.cache.settings = s.cache.settings ∧ kept.cache.codec = s.cache.codec :=
    (step_transition hsound.accurate store (.set r v o)).settings_codec_eq rfl
  have hnow : kept.now = s.now := rfl
  have hfresh : e.isExpired s.now = false :=
    Entry.isExpired_eq_false_iff.2 ((Instant.elapsed_self s.now).symm ▸ Nat.zero_le _)
  have hvalue : e.value = (s.cache.encode v).1 := rfl
  have hkey : e.key = r.key s.cache.settings.volatileFields := rfl
  have hcreated : e.created = s.now := rfl
  constructor
  · rw [← hsame.1]
    refine Cache.get_of_kept (hsame.2.trans hcodec) hv.readable ?_ ?_ (hnow.symm ▸ hfresh)
    · rw [Cache.keyFor, hsame.1, ← hkey]
      exact hmade
    · rw [Cache.encode_congr hsame.1 hsame.2]
      exact hvalue
  intro settings good hstore hattended hpersisted record drained restarted
  have hbefore := hattended.reloads hstore
  have hkept : kept.Reloads store settings (.gzip level) good :=
    hbefore.step hstore rfl fun r' v' o' heq => by cases heq; exact hv.readable
  have hdrained : drained.Reloads store settings (.gzip level) good :=
    hkept.step hstore rfl fun r' v' o' heq => by cases heq
  -- the record is settled by the set, and so there once the writer is done
  obtain ⟨t, htier, hsettled⟩ := settled?_set hstore hbefore hok hpersisted
  obtain ⟨u, hserves, -⟩ := hkept.covers
  cases htier.symm.trans hserves.tier_eq
  obtain ⟨hclock, hcontents, hdone⟩ : drained.clock = s.clock ∧ drained.contents = t.settle store kept.contents ∧
      ∀ t, drained.cache.tier = some t → t.pending = [] := hkept.step_write hstore htier
  have hrecord : store.record? (settings.durableNamespace ++ ":") drained.contents e.key = some record := by
    rw [hcontents, ← hserves.start_eq]
    exact hsettled
  have hnow' : e.created = drained.now := hcreated.trans (congrArg ManualClock.now hclock).symm
  have hrestarted : restarted = openOver store settings (.gzip level) drained.clock drained.contents :=
    hdrained.step_restart settings (.gzip level)
  clear_value e kept drained restarted
  obtain ⟨hparse, hrefused, hfound⟩ := hdrained.reopened_of_record hstore hdone hv.readable hnow' hrecord
  refine ⟨?_, hparse, hrefused, ?_⟩
  · rw [hstore.get_eq _ _ hdrained.orderly.good, hrecord]
  · rw [hrestarted]
    rw [hbefore.orderly.settings_eq] at hkey
    exact hdrained.get_reopened hv.readable hkey hnow' hfound

private def squeezing : Settings :=
  { Settings.default with compressionThreshold := 0 }

private def sought : Request :=
  ⟨"/a", none, none⟩

/-- A value that is kept compressed, and is recorded, comes back from both. -/
theorem retained_flat :
    let s := openOver MemoryStore.store squeezing (.gzip 6) ⟨0⟩ .empty
    let kept := (s.step MemoryStore.store (.set sought (.int 1) ⟨none, .high⟩)).2
    let drained := (kept.step MemoryStore.store .write).2
    let restarted := (drained.step MemoryStore.store (.restart squeezing (.gzip 6))).2
    (kept.cache.get kept.now sought).1 = some (.int 1) ∧
      (restarted.cache.get restarted.now sought).1 = some (.int 1) := by
  intro s kept drained restarted
  have hempty : MemoryStore.store.list (squeezing.durableNamespace ++ ":") .empty = .ok [] := rfl
  have hopened : s = _ := openOver_of_empty hempty (.gzip 6) ⟨0⟩
  have hreachable : s.Reachable MemoryStore.store := hopened.symm ▸ .ofEmpty ..
  have hown : Store.OwnKeys MemoryStore.store (squeezing.durableNamespace ++ ":") .empty := by
    intro key record hrecord
    cases hrecord
  obtain ⟨hget, hdurable⟩ := retained_up_to_depth hreachable rfl sought (.int (n := 1) (by decide) (by decide))
    ⟨none, .high⟩ (by decide +kernel)
  obtain ⟨-, -, -, hrestarted⟩ := hdurable squeezing (fun m => Assoc.Sorted m.records) (MemoryStore.faultless _)
    (.openOver ⟨0⟩ List.Pairwise.nil hown) (by decide +kernel)
  exact ⟨hget.trans (if_pos (.inr (by decide))), hrestarted.trans (if_pos ⟨by decide, by decide +kernel⟩)⟩

/-- Arrays in each other. -/
private def nest : Nat → Json
  | 0 => .arr []
  | levels + 1 => .arr [nest levels]

/-- A value that is read back from the table is lost by a restart, because its record is nested one level deeper than
what can be read. -/
theorem nested_value_lost :
    let s := openOver MemoryStore.store .default (.gzip 6) ⟨0⟩ .empty
    let kept := (s.step MemoryStore.store (.set sought (nest 126) ⟨none, .high⟩)).2
    let drained := (kept.step MemoryStore.store .write).2
    let restarted := (drained.step MemoryStore.store (.restart .default (.gzip 6))).2
    (kept.cache.get kept.now sought).1.isSome = true ∧
      ((Tier.ofSpace "memo").rehydrate MemoryStore.store drained.now drained.contents).1.corrupt = 1 ∧
      (restarted.cache.get restarted.now sought).1.isSome = false := by
  decide +kernel

end Session

end ResultCache
