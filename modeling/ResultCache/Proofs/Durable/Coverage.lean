import ResultCache.Proofs.Durable.Agreement

/-!
# Settled records are covered

Whatever a cache does with a tier, and however often it loads records, each settled record goes with a persisted entry
(`Cache.Covers`): a removal queues the deletion of the record, and a record that is put is that of an entry.  Unlike
agreement this asks nothing of the values, and it survives a `rehydrate` at any time.  For each record to be loaded
under the key it stands under, records stand under their own keys (`Store.OwnKeys`).
-/

namespace ResultCache

variable {σ : Type} {store : Store σ} {space : String} {good : σ → Prop}

/-! ### Records under their own keys -/

/-- A record gives the key it stands under, if it can be read. -/
def Snapshot.OwnKey (key : String) (record : Bytes) : Prop :=
  ∀ s, parse record = .ok s → s.key = key

theorem Snapshot.ownKey_record (s : Snapshot) : OwnKey s.key s.record :=
  fun _ h => key_of_parse_record h

/-- Operations that put records under their own keys keep every record under its own key. -/
theorem Snapshot.ownKey_of_foldl_effect {records : String → Option Bytes} {ops : List WriteOp}
    (hops : ∀ key record, .put key record ∈ ops → OwnKey key record)
    (hrecords : ∀ key record, records key = some record → OwnKey key record) {key : String} {record : Bytes}
    (h : ops.foldl WriteOp.effect records key = some record) : OwnKey key record := by
  rcases WriteOp.put_mem_of_foldl_effect h with hmem | hthere
  · exact hops key record hmem
  · exact hrecords key record hthere

/-- Every record under keys with a certain beginning stands under its own key. -/
def Store.OwnKeys (store : Store σ) (start : String) (s : σ) : Prop :=
  ∀ key record, store.record? start s key = some record → Snapshot.OwnKey key record

/-- Taking up the records of a namespace only takes records away, and finds what stood there. -/
theorem Tier.rehydrate_fewer {t : Tier} (hstore : store.Faultless t.start good) (now : Instant) {s : σ} (hs : good s) :
    good (t.rehydrate store now s).2 ∧
      ∀ key, store.record? t.start (t.rehydrate store now s).2 key = store.record? t.start s key ∨
        store.record? t.start (t.rehydrate store now s).2 key = none := by
  obtain ⟨keys, hlist, -, -⟩ := hstore.list_eq s hs
  obtain ⟨hgood, -, hrecord⟩ := rehydrateKeys_spec hstore now keys ⟨[], 0, 0⟩ hs
  rw [rehydrate, hlist]
  refine ⟨hgood, fun key => ?_⟩
  dsimp only
  rw [hrecord]
  split
  · cases store.record? t.start s key with
    | none => exact .inr rfl
    | some record =>
      rw [Option.filter_some]
      split
      · exact .inl rfl
      · exact .inr rfl
  · exact .inl rfl

theorem Store.OwnKeys.fewer {start : String} {s s' : σ} (h : store.OwnKeys start s)
    (hfewer : ∀ key, store.record? start s' key = store.record? start s key ∨ store.record? start s' key = none) :
    store.OwnKeys start s' := by
  intro key record hrecord
  rcases hfewer key with heq | hnone
  · exact h key record (heq ▸ hrecord)
  · rw [hnone] at hrecord
    cases hrecord

namespace Cache

variable {c c' : Cache} {contents : σ} {t : Tier}

/-- A cache has a tier with a writer over a namespace, and each record in its queue stands under its own key. -/
structure Serves (space : String) (t : Tier) (c : Cache) : Prop where
  tier_eq : c.tier = some t
  connected : t.connected = true
  space_eq : t.space = space
  queued : ∀ key record, .put key record ∈ t.pending → Snapshot.OwnKey key record

theorem Serves.start_eq (h : c.Serves space t) : t.start = space ++ ":" :=
  congrArg (· ++ ":") h.space_eq

theorem Serves.congr (h : c.Serves space t) (htier : c'.tier = c.tier) : c'.Serves space t :=
  ⟨htier.trans h.tier_eq, h.connected, h.space_eq, h.queued⟩

/-- Queueing some operations leaves the tier in service. -/
theorem Serves.sendAll (h : c.Serves space t) {ops : List WriteOp}
    (htier : c'.tier = c.tier.map fun t => t.sendAll ops)
    (hops : ∀ key record, .put key record ∈ ops → Snapshot.OwnKey key record) : c'.Serves space (t.sendAll ops) := by
  have heq := Tier.sendAll_eq h.connected ops
  refine ⟨by rw [htier, h.tier_eq]; rfl, by rw [heq]; exact h.connected, by rw [heq]; exact h.space_eq, ?_⟩
  intro key record hmem
  rw [heq] at hmem
  rcases List.mem_append.1 hmem with hmem | hmem
  · exact h.queued key record hmem
  · exact hops key record hmem

/-! ### What operations queue -/

/-- What the removal of an entry queues. -/
def removalOps (key : String) (e : Entry) : List WriteOp :=
  if e.persisted then [.delete key] else []

theorem removeEntry_sends (c : Cache) (key : String) (e : Entry) (why : Removal) :
    (c.removeEntry key e why).tier = c.tier.map fun t => t.sendAll (removalOps key e) := by
  rw [removeEntry_tier, removalOps]
  split
  · rfl
  · exact Option.map_id'.symm

/-- Trimming queues deletions only. -/
theorem Trims.sends {now : Instant} (h : Trims now c c') :
    ∃ deleted : List String, c'.tier = c.tier.map fun t => t.sendAll (deleted.map .delete) := by
  obtain ⟨deleted, htier⟩ := h.tier_eq
  refine ⟨deleted, htier.trans (congrArg (Option.map · c.tier) (funext fun t => ?_))⟩
  rw [Tier.sendAll, List.foldl_map]
  rfl

theorem Serves.trims {now : Instant} (h : c.Serves space t) (trims : Trims now c c') : ∃ t', c'.Serves space t' := by
  obtain ⟨deleted, hsends⟩ := trims.sends
  exact ⟨_, h.sendAll hsends (by simp)⟩

/-- What is shed has its records deleted, as far as it was persisted, and nothing else is queued. -/
theorem Sheds.sends {now : Instant} {gone : List (Entry × Removal)} (h : Sheds now c gone c')
    (hc : c.table.Accurate) :
    c'.tier = c.tier.map fun t =>
      t.sendAll (((gone.map Prod.fst).filter (·.persisted)).map fun e => .delete e.key) := by
  induction h with
  | nil => exact Option.map_id'.symm
  | @cons c _ key e why gone found _ _ ih =>
    have hkey : e.key = key := hc.key_of_find? found
    rw [ih (removeEntry_table .. ▸ hc.detach key), removeEntry_sends, removalOps, ← hkey, Option.map_map, List.map_cons,
      List.filter_cons]
    cases e.persisted <;> rfl

/-- The same of the queue: if there is a writer, the deletions stand behind what was queued, in the order in which the
entries went. -/
theorem Sheds.queues {now : Instant} {gone : List (Entry × Removal)} (h : Sheds now c gone c')
    (hc : c.table.Accurate) :
    let deletes := ((gone.map Prod.fst).filter (·.persisted)).map fun e => WriteOp.delete e.key
    c'.tier = c.tier.map fun t => { t with pending := if t.connected then t.pending ++ deletes else t.pending } :=
  (h.sends hc).trans (congrArg (c.tier.map ·) (funext fun t => t.sendAll_eq_queued _))

/-- What is queued for an entry that takes the place of an older one. -/
def replacementOps (old : Option Entry) (e : Entry) (v : Json) : List WriteOp :=
  if e.persisted then [.put e.key (e.snapshot v).record]
  else if old.any (·.persisted) then [.delete e.key] else []

theorem replace_sends (c : Cache) (e : Entry) (v : Json) :
    (c.replace e v).tier = c.tier.map fun t => t.sendAll (replacementOps (c.table.find? e.key) e v) := by
  rw [replace_tier, replacementOps]
  split
  · rfl
  · split
    · rfl
    · rfl

theorem ownKey_replacementOps {old : Option Entry} {e : Entry} {v : Json} {key : String} {record : Bytes}
    (h : .put key record ∈ replacementOps old e v) : Snapshot.OwnKey key record := by
  rw [replacementOps] at h
  split at h
  · rw [List.mem_singleton] at h
    cases h
    exact (e.snapshot v).ownKey_record
  · split at h
    · rw [List.mem_singleton] at h
      cases h
    · cases h

/-- Loading queues deletions only. -/
theorem loadAll_sends (now : Instant) (live : List Snapshot) (c : Cache) :
    ∃ deleted : List String,
      (loadAll now live c).2.tier = c.tier.map fun t => t.sendAll (deleted.map .delete) := by
  induction live generalizing c with
  | nil => exact ⟨[], Option.map_id'.symm⟩
  | cons s rest ih =>
    have hload : ∃ deleted : List String,
        (c.load now s).2.tier = c.tier.map fun t => t.sendAll (deleted.map .delete) := by
      rw [load]
      split
      · exact ⟨[], Option.map_id'.symm⟩
      · dsimp only
        split
        · exact ⟨[], Option.map_id'.symm⟩
        · exact ⟨[s.key], rfl⟩
    obtain ⟨deleted, htier⟩ := hload
    obtain ⟨deleted', htier'⟩ := ih (c.load now s).2
    refine ⟨deleted ++ deleted', htier'.trans ?_⟩
    rw [htier, Option.map_map]
    refine congrArg (Option.map · c.tier) (funext fun t => ?_)
    rw [Function.comp_apply, Tier.sendAll, Tier.sendAll, Tier.sendAll, List.map_append, List.foldl_append]

/-! ### Coverage -/

/-- A settled record goes with a persisted entry, or waits to be loaded. -/
def Covers (store : Store σ) (space : String) (contents : σ) (waiting : List Snapshot) (c : Cache) : Prop :=
  ∃ t, c.Serves space t ∧ ∀ key, t.settled? store contents key = none ∨
    (∃ e, c.table.find? key = some e ∧ e.persisted = true) ∨
    key ∈ waiting.map Snapshot.key ∧ c.table.find? key = none

variable {waiting : List Snapshot}

theorem Covers.removeEntry (hstore : store.Faultless (space ++ ":") good) (hgood : good contents)
    (h : c.Covers store space contents waiting) {key : String} {e : Entry} (found : c.table.find? key = some e)
    (why : Removal) : (c.removeEntry key e why).Covers store space contents waiting := by
  obtain ⟨t, hserves, hcovers⟩ := h
  refine ⟨_, hserves.sendAll (removeEntry_sends c key e why) ?_, fun x => ?_⟩
  · intro k record hmem
    rw [removalOps] at hmem
    split at hmem <;> simp at hmem
  · rw [Tier.settled?_sendAll (hserves.start_eq.symm ▸ hstore) hserves.connected _ hgood, removeEntry_table,
      Table.find?_detach, removalOps]
    by_cases hx : x = key
    · left
      subst hx
      cases hpersisted : e.persisted with
      | true => exact if_pos rfl
      | false =>
        rcases hcovers x with hnone | ⟨e', he', hpersisted'⟩ | ⟨-, hfree⟩
        · exact hnone
        · rw [found] at he'
          cases he'
          rw [hpersisted] at hpersisted'
          cases hpersisted'
        · rw [found] at hfree
          cases hfree
    · rw [if_neg hx]
      rcases hcovers x with hnone | hother
      · left
        split
        · exact (if_neg hx).trans hnone
        · exact hnone
      · exact .inr hother

theorem Covers.trims (hstore : store.Faultless (space ++ ":") good) (hgood : good contents)
    (h : c.Covers store space contents waiting) {now : Instant} (trims : Trims now c c') :
    c'.Covers store space contents waiting := by
  refine trims.preserves (P := fun c => c.Covers store space contents waiting) (fun step h => ?_) h
  cases step with
  | remove why found => exact h.removeEntry hstore hgood found why
  | read =>
    obtain ⟨t, hserves, hcovers⟩ := h
    refine ⟨t, hserves.congr rfl, fun x => ?_⟩
    rcases hcovers x with hnone | ⟨e', he', hpersisted⟩ | ⟨hwaiting, hfree⟩
    · exact .inl hnone
    · refine .inr (.inl ?_)
      rw [Table.find?_update, he']
      split
      · exact ⟨_, rfl, hpersisted⟩
      · exact ⟨e', rfl, hpersisted⟩
    · refine .inr (.inr ⟨hwaiting, ?_⟩)
      rw [Table.find?_update, hfree]
      split <;> rfl
  | miss =>
    obtain ⟨t, hserves, hcovers⟩ := h
    exact ⟨t, hserves.congr rfl, hcovers⟩

theorem Covers.clear (hstore : store.Faultless (space ++ ":") good) (hgood : good contents)
    (h : c.Covers store space contents waiting) : c.clear.Covers store space contents waiting := by
  obtain ⟨t, hserves, -⟩ := h
  have hsends : c.clear.tier = c.tier.map fun t => t.sendAll [.clear] := rfl
  refine ⟨_, hserves.sendAll hsends (by simp), fun x => .inl ?_⟩
  rw [Tier.settled?_sendAll (hserves.start_eq.symm ▸ hstore) hserves.connected _ hgood]
  rfl

theorem Covers.replace (hstore : store.Faultless (space ++ ":") good) (hgood : good contents)
    (h : c.Covers store space contents []) (e : Entry) (v : Json) :
    (c.replace e v).Covers store space contents [] := by
  obtain ⟨t, hserves, hcovers⟩ := h
  refine ⟨_, hserves.sendAll (replace_sends c e v) fun key record => ownKey_replacementOps, fun x => ?_⟩
  rw [Tier.settled?_sendAll (hserves.start_eq.symm ▸ hstore) hserves.connected _ hgood, replace_table,
    Table.find?_attach, replacementOps]
  by_cases hx : x = e.key
  · rw [if_pos hx]
    cases hnew : e.persisted with
    | true => exact .inr (.inl ⟨e, rfl, hnew⟩)
    | false =>
      left
      rw [if_neg Bool.false_ne_true]
      split
      · exact if_pos hx
      · -- without an older persisted entry the key has no record
        rename_i hold
        rcases hcovers x with hnone | ⟨e', he', hpersisted⟩ | ⟨hwaiting, -⟩
        · exact hnone
        · rw [hx] at he'
          rw [he'] at hold
          exact absurd hpersisted hold
        · cases hwaiting
  · rw [if_neg hx, Table.find?_detach, if_neg hx]
    rcases hcovers x with hnone | hother
    · left
      split
      · exact (if_neg hx).trans hnone
      · split
        · exact (if_neg hx).trans hnone
        · exact hnone
    · exact .inr hother

/-- A record that is loaded, passed over or removed no longer waits. -/
theorem Covers.load (hstore : store.Faultless (space ++ ":") good) (hgood : good contents) {s : Snapshot}
    (h : c.Covers store space contents (s :: waiting)) (now : Instant) :
    (c.load now s).2.Covers store space contents waiting := by
  obtain ⟨t, hserves, hcovers⟩ := h
  have hothers : ∀ x, x ≠ s.key → t.settled? store contents x = none ∨
      (∃ e, c.table.find? x = some e ∧ e.persisted = true) ∨
      x ∈ waiting.map Snapshot.key ∧ c.table.find? x = none := by
    intro x hx
    have := hcovers x
    rw [List.map_cons, List.mem_cons, or_iff_right hx] at this
    exact this
  rw [Cache.load]
  split
  · -- there is an entry of the key already
    rename_i hsome
    refine ⟨t, hserves, fun x => ?_⟩
    by_cases hx : x = s.key
    · rcases hcovers x with hnone | hpersisted | ⟨-, hfree⟩
      · exact .inl hnone
      · exact .inr (.inl hpersisted)
      · rw [← hx, hfree] at hsome
        cases hsome
    · exact hothers x hx
  · dsimp only
    split
    · refine ⟨t, hserves.congr rfl, fun x => ?_⟩
      rw [Table.find?_attach]
      by_cases hx : x = s.key
      · exact .inr (.inl ⟨_, if_pos hx, rfl⟩)
      · rw [if_neg (show x ≠ (c.entryOf now s).key from hx)]
        exact hothers x hx
    · have hsends : (c.deleteDurable s.key).tier = c.tier.map fun t => t.sendAll [.delete s.key] := rfl
      refine ⟨_, hserves.sendAll hsends (by simp), fun x => ?_⟩
      rw [Tier.settled?_sendAll (hserves.start_eq.symm ▸ hstore) hserves.connected _ hgood]
      by_cases hx : x = s.key
      · exact .inl (if_pos hx)
      · rcases hothers x hx with hnone | hother
        · exact .inl ((if_neg hx).trans hnone)
        · exact .inr hother

theorem Covers.loadAll (hstore : store.Faultless (space ++ ":") good) (hgood : good contents) (now : Instant)
    (live : List Snapshot) (h : c.Covers store space contents live) :
    (Cache.loadAll now live c).2.Covers store space contents [] := by
  induction live generalizing c with
  | nil => exact h
  | cons s rest ih => exact ih (h.load hstore hgood now)

/-- Nothing has to wait that is covered without waiting. -/
theorem Covers.wait (h : c.Covers store space contents []) (waiting : List Snapshot) :
    c.Covers store space contents waiting := by
  obtain ⟨t, hserves, hcovers⟩ := h
  refine ⟨t, hserves, fun key => ?_⟩
  rcases hcovers key with hnone | hpersisted | ⟨hwaiting, -⟩
  · exact .inl hnone
  · exact .inr (.inl hpersisted)
  · cases hwaiting

/-- Where records are taken away, what is left is covered. -/
theorem Covers.fewer (hstore : store.Faultless (space ++ ":") good) (hgood : good contents) {contents' : σ}
    (hgood' : good contents')
    (hfewer : ∀ key, store.record? (space ++ ":") contents' key = store.record? (space ++ ":") contents key ∨
      store.record? (space ++ ":") contents' key = none)
    (h : c.Covers store space contents waiting) : c.Covers store space contents' waiting := by
  obtain ⟨t, hserves, hcovers⟩ := h
  refine ⟨t, hserves, fun key => ?_⟩
  have hstore' : store.Faultless t.start good := hserves.start_eq.symm ▸ hstore
  have hsettled := WriteOp.foldl_effect_of_fewer hfewer t.pending key
  rw [← hserves.start_eq, ← Tier.settled?_eq_foldl hstore' hgood', ← Tier.settled?_eq_foldl hstore' hgood] at hsettled
  rcases hsettled with heq | hnone
  · rw [heq]
    exact hcovers key
  · exact .inl hnone

/-! ### Opening -/

theorem loadAll_settings (now : Instant) (live : List Snapshot) (c : Cache) :
    (loadAll now live c).2.settings = c.settings := by
  induction live generalizing c with
  | nil => rfl
  | cons s rest ih =>
    refine (ih (c.load now s).2).trans ?_
    rw [Cache.load]
    split
    · rfl
    · dsimp only
      split <;> rfl

/-- A cache with a new tier has it in service. -/
theorem serves_ofSpace (settings : Settings) (codec : Codec) :
    { empty settings codec with tier := some (.ofSpace settings.durableNamespace) }.Serves settings.durableNamespace
      (.ofSpace settings.durableNamespace) :=
  ⟨rfl, rfl, rfl, fun key record hmem => by cases hmem⟩

/-- It serves on after the records are loaded. -/
theorem serves_openOver (store : Store σ) (settings : Settings) (codec : Codec) (now : Instant) (contents : σ) :
    ∃ t, (openOver store settings codec now contents).1.Serves settings.durableNamespace t := by
  obtain ⟨deleted, hsends⟩ := loadAll_sends now
    ((Tier.ofSpace settings.durableNamespace).rehydrate store now contents).1.live
    { empty settings codec with tier := some (.ofSpace settings.durableNamespace) }
  exact ⟨_, (serves_ofSpace settings codec).sendAll hsends (by simp)⟩

/-- A cache that is opened over records under their own keys covers them. -/
theorem covers_openOver {settings : Settings} (codec : Codec)
    (hstore : store.Faultless (settings.durableNamespace ++ ":") good) (hgood : good contents)
    (hown : store.OwnKeys (settings.durableNamespace ++ ":") contents) (now : Instant) :
    store.OwnKeys (settings.durableNamespace ++ ":") (openOver store settings codec now contents).2 ∧
      (openOver store settings codec now contents).1.Covers store settings.durableNamespace
        (openOver store settings codec now contents).2 [] := by
  obtain ⟨t, ht⟩ : ∃ t, Tier.ofSpace settings.durableNamespace = t := ⟨_, rfl⟩
  have hstart : t.start = settings.durableNamespace ++ ":" := ht ▸ rfl
  have hlive : ∀ key record snapshot, store.record? t.start contents key = some record →
      Snapshot.live? now record = some snapshot → snapshot.key = key := fun key record snapshot hrecord hl =>
    hown key record (hstart ▸ hrecord) snapshot (Snapshot.parse_of_live? hl)
  obtain ⟨-, -, -, hleft⟩ := Tier.rehydrate_spec (hstart ▸ hstore) now hgood hlive
  obtain ⟨hgood', hfewer⟩ := Tier.rehydrate_fewer (t := t) (hstart ▸ hstore) now hgood
  obtain ⟨found, hfound⟩ : ∃ found, (t.rehydrate store now contents).1.live = found := ⟨_, rfl⟩
  obtain ⟨left, hcontents⟩ : ∃ left, (t.rehydrate store now contents).2 = left := ⟨_, rfl⟩
  rw [hfound, hcontents] at hleft
  rw [hcontents] at hgood' hfewer
  rw [hstart] at hfewer
  have hopen : openOver store settings codec now contents =
      ((loadAll now found { empty settings codec with tier := some t }).2, left) := by
    simp only [openOver, Cache.rehydrate, ht, hfound, hcontents]
  rw [hopen]
  refine ⟨hown.fewer hfewer, Covers.loadAll hstore hgood' now found ⟨t, ?_, fun key => ?_⟩⟩
  · subst ht
    exact serves_ofSpace settings codec
  · -- the records that are left were found, and wait to be loaded
    have hsettled : t.settled? store left = store.record? t.start left := by
      rw [Tier.settled?, Tier.settle, ← ht]
      rfl
    rw [hsettled]
    cases hrecord : store.record? t.start left key with
    | none => exact .inl rfl
    | some record =>
      obtain ⟨snapshot, hmem, rfl⟩ := hleft key record hrecord
      exact .inr (.inr ⟨List.mem_map_of_mem hmem, rfl⟩)

end Cache

end ResultCache
