import ResultCache.Proofs.Durable.Queue
import ResultCache.Proofs.Durable.Rehydration
import ResultCache.Proofs.Durable.Snapshots
import ResultCache.Proofs.Transition

/-!
# The store agrees with the table

What the store holds once the queue is done is a record of each persisted entry and nothing else (`Cache.Agrees`).
Each way in which an entry appears or vanishes queues what keeps it so, and the writer only brings the store nearer to
what is settled; the records that a cache finds when it is opened are loaded, deleted, or queued for deletion.
-/

namespace ResultCache

namespace Cache

variable {σ : Type} {store : Store σ} {space : String} {good : σ → Prop} {contents : σ} {c : Cache}

/-- A snapshot says of an entry what it is, and has its value. -/
structure Describes (c : Cache) (s : Snapshot) (e : Entry) : Prop where
  key_eq : s.key = e.key
  value_eq : c.decode e.value = some s.value
  source_eq : s.source = e.source
  created_eq : s.created = e.created
  ttl_eq : s.ttlMillis = e.ttl.millis

/-- A persisted entry goes with a record of it, and any other one, or none, with no record. -/
inductive Accords (c : Cache) : Option Entry → Option Bytes → Prop where
  | recorded {e : Entry} {record : Bytes} {s : Snapshot} (persisted : e.persisted = true)
      (parsed : Snapshot.parse record = .ok s) (describes : c.Describes s e) : Accords c (some e) (some record)
  | unrecorded {found : Option Entry} (h : ∀ e ∈ found, e.persisted = false) : Accords c found none

/-- The cache has a tier with a writer, and its entries go with the settled records. -/
def Agrees (store : Store σ) (space : String) (contents : σ) (c : Cache) : Prop :=
  ∃ t, c.tier = some t ∧ t.connected = true ∧ t.space = space ∧
    ∀ key, c.Accords (c.table.find? key) (t.settled? store contents key)

theorem Describes.congr {c' : Cache} {s : Snapshot} {e : Entry} (h : c.Describes s e) (hcodec : c'.codec = c.codec) :
    c'.Describes s e := by
  refine ⟨h.key_eq, ?_, h.source_eq, h.created_eq, h.ttl_eq⟩
  rw [← h.value_eq]
  cases e.value with
  | plain v => rfl
  | compressed bytes => rw [decode, decode, hcodec]

theorem Accords.congr {c' : Cache} {found : Option Entry} {record : Option Bytes} (h : c.Accords found record)
    (hcodec : c'.codec = c.codec) : c'.Accords found record := by
  cases h with
  | recorded persisted parsed describes => exact .recorded persisted parsed (describes.congr hcodec)
  | unrecorded h => exact .unrecorded h

theorem Accords.touch {found : Option Entry} {record : Option Bytes} (h : c.Accords found record) (now : Instant) :
    c.Accords (found.map (·.touch now)) record := by
  cases h with
  | recorded persisted parsed describes =>
    exact .recorded persisted parsed ⟨describes.key_eq, describes.value_eq, describes.source_eq,
      describes.created_eq, describes.ttl_eq⟩
  | unrecorded h =>
    refine .unrecorded fun e he => ?_
    obtain ⟨e', he', rfl⟩ := Option.map_eq_some_iff.1 he
    exact h e' he'

/-- An entry that is not persisted has no record. -/
theorem Accords.record_eq_none {e : Entry} {record : Option Bytes} (h : c.Accords (some e) record)
    (he : e.persisted = false) : record = none := by
  cases h with
  | recorded persisted =>
    rw [he] at persisted
    cases persisted
  | unrecorded => rfl

theorem Accords.eq_none {record : Option Bytes} (h : c.Accords none record) : record = none := by
  cases h
  rfl

/-- There is a record exactly if there is a persisted entry. -/
theorem Accords.isSome_iff {found : Option Entry} {record : Option Bytes} (h : c.Accords found record) :
    record.isSome = true ↔ ∃ e, found = some e ∧ e.persisted = true := by
  cases h with
  | recorded persisted => exact iff_of_true rfl ⟨_, rfl, persisted⟩
  | unrecorded h =>
    refine iff_of_false Bool.false_ne_true ?_
    rintro ⟨e, rfl, hpersisted⟩
    rw [h e rfl] at hpersisted
    cases hpersisted

/-- The record of a persisted entry is read to what the entry is. -/
theorem Accords.exists_snapshot {e : Entry} {record : Option Bytes} (h : c.Accords (some e) record)
    (hpersisted : e.persisted = true) :
    ∃ bytes s, record = some bytes ∧ Snapshot.parse bytes = .ok s ∧ c.Describes s e := by
  cases h with
  | recorded _ parsed describes => exact ⟨_, _, rfl, parsed, describes⟩
  | unrecorded h =>
    rw [h e rfl] at hpersisted
    cases hpersisted

/-! ### Entries that go -/

theorem Agrees.removeEntry (hstore : store.Faultless (space ++ ":") good) (hgood : good contents)
    (h : c.Agrees store space contents) {key : String} {e : Entry} (found : c.table.find? key = some e)
    (why : Removal) : (c.removeEntry key e why).Agrees store space contents := by
  obtain ⟨t, htier, hconnected, rfl, haccords⟩ := h
  have hcodec := removeEntry_codec c key e why
  have hkey := haccords key
  rw [found] at hkey
  cases hpersisted : e.persisted with
  | true =>
    refine ⟨t.delete key, ?_, (t.send_connected _).trans hconnected, t.send_space _, fun x => ?_⟩
    · rw [removeEntry_tier, htier, hpersisted]
      rfl
    · rw [removeEntry_table, Table.find?_detach, Tier.delete, Tier.settled?_send hstore hconnected _ hgood]
      dsimp only [WriteOp.effect]
      by_cases hx : x = key
      · rw [if_pos hx, if_pos hx]
        exact .unrecorded (by simp)
      · rw [if_neg hx, if_neg hx]
        exact (haccords x).congr hcodec
  | false =>
    refine ⟨t, ?_, hconnected, rfl, fun x => ?_⟩
    · rw [removeEntry_tier, htier, hpersisted]
      rfl
    · rw [removeEntry_table, Table.find?_detach]
      by_cases hx : x = key
      · rw [if_pos hx, hx, hkey.record_eq_none hpersisted]
        exact .unrecorded (by simp)
      · rw [if_neg hx]
        exact (haccords x).congr hcodec

theorem Agrees.trims (hstore : store.Faultless (space ++ ":") good) (hgood : good contents)
    (h : c.Agrees store space contents) {now : Instant} {c' : Cache} (trims : Trims now c c') :
    c'.Agrees store space contents := by
  refine trims.preserves (P := fun c => c.Agrees store space contents) (fun step h => ?_) h
  cases step with
  | remove why found => exact h.removeEntry hstore hgood found why
  | @read c key e found =>
    obtain ⟨t, htier, hconnected, hspace, haccords⟩ := h
    refine ⟨t, htier, hconnected, hspace, fun x => ?_⟩
    rw [Table.find?_update]
    split
    · exact ((haccords x).touch now).congr rfl
    · exact (haccords x).congr rfl
  | miss =>
    obtain ⟨t, htier, hconnected, hspace, haccords⟩ := h
    exact ⟨t, htier, hconnected, hspace, fun x => (haccords x).congr rfl⟩

theorem Agrees.clear (hstore : store.Faultless (space ++ ":") good) (hgood : good contents)
    (h : c.Agrees store space contents) : c.clear.Agrees store space contents := by
  obtain ⟨t, htier, hconnected, rfl, haccords⟩ := h
  refine ⟨t.clear, ?_, (t.send_connected _).trans hconnected, t.send_space _, fun x => ?_⟩
  · rw [Cache.clear, mapTier, htier]
    rfl
  · rw [Tier.clear, Tier.settled?_send hstore hconnected _ hgood]
    exact .unrecorded fun e he => by cases he

/-! ### Entries that come -/

/-- What is queued for an entry that is put in: its record, or the removal of an older one. -/
theorem replace_tier (c : Cache) (e : Entry) (v : Json) :
    (c.replace e v).tier = c.tier.map fun t =>
      if e.persisted then t.put (e.snapshot v)
      else if (c.table.find? e.key).any (·.persisted) then t.delete e.key else t := by
  cases hnew : e.persisted <;> cases hold : (c.table.find? e.key).any (·.persisted) <;>
    simp [replace, hnew, hold, deleteDurable, mapTier]

theorem Agrees.replace (hstore : store.Faultless (space ++ ":") good) (hgood : good contents)
    (h : c.Agrees store space contents) {e : Entry} {v : Json}
    (hrecord : e.persisted = true → Snapshot.parse (e.snapshot v).record = .ok (e.snapshot v))
    (hvalue : c.decode e.value = some v) : (c.replace e v).Agrees store space contents := by
  obtain ⟨t, htier, hconnected, rfl, haccords⟩ := h
  have hcodec := replace_codec c e v
  have hother : ∀ x, x ≠ e.key → (c.replace e v).Accords ((c.replace e v).table.find? x)
      (t.settled? store contents x) := by
    intro x hx
    rw [replace_table, Table.find?_attach, if_neg hx, Table.find?_detach, if_neg hx]
    exact (haccords x).congr hcodec
  have hself : (c.replace e v).table.find? e.key = some e := by
    rw [replace_table, Table.find?_attach, if_pos rfl]
  have htier' := replace_tier c e v
  rw [htier, Option.map_some] at htier'
  cases hnew : e.persisted with
  | true =>
    rw [hnew, if_pos rfl] at htier'
    refine ⟨_, htier', (t.send_connected _).trans hconnected, t.send_space _, fun x => ?_⟩
    rw [Tier.put, Tier.settled?_send hstore hconnected _ hgood]
    dsimp only [WriteOp.effect, Entry.snapshot]
    by_cases hx : x = e.key
    · rw [if_pos hx, hx, hself]
      exact .recorded hnew (hrecord hnew) (Describes.congr ⟨rfl, hvalue, rfl, rfl, rfl⟩ hcodec)
    · rw [if_neg hx]
      exact hother x hx
  | false =>
    rw [hnew, if_neg (by decide)] at htier'
    have hunrecorded : (c.replace e v).Accords (some e) none := .unrecorded fun e' he' => by
      cases he'
      exact hnew
    cases hold : (c.table.find? e.key).any (·.persisted) with
    | true =>
      rw [hold, if_pos rfl] at htier'
      refine ⟨_, htier', (t.send_connected _).trans hconnected, t.send_space _, fun x => ?_⟩
      rw [Tier.delete, Tier.settled?_send hstore hconnected _ hgood]
      dsimp only [WriteOp.effect]
      by_cases hx : x = e.key
      · rw [if_pos hx, hx, hself]
        exact hunrecorded
      · rw [if_neg hx]
        exact hother x hx
    | false =>
      rw [hold, if_neg (by decide)] at htier'
      -- nothing is queued, and nothing has to be: without a persisted entry the key has no record
      refine ⟨_, htier', hconnected, rfl, fun x => ?_⟩
      by_cases hx : x = e.key
      · have hnone : t.settled? store contents e.key = none := by
          have hkey := haccords e.key
          cases hfound : c.table.find? e.key with
          | none =>
            rw [hfound] at hkey
            exact hkey.eq_none
          | some old =>
            rw [hfound] at hkey hold
            exact hkey.record_eq_none hold
        rw [hx, hself, hnone]
        exact hunrecorded
      · exact hother x hx

/-! ### Opening -/

/-- Some records are still to be loaded; those of all other keys go with their entries. -/
structure Loading (store : Store σ) (space : String) (contents : σ) (t : Tier) (rest : List Snapshot) (c : Cache) :
    Prop where
  tier_eq : c.tier = some t
  connected : t.connected = true
  space_eq : t.space = space
  nodup : (rest.map Snapshot.key).Nodup
  accords : ∀ key, key ∉ rest.map Snapshot.key → c.Accords (c.table.find? key) (t.settled? store contents key)
  waiting : ∀ s ∈ rest, c.table.find? s.key = none ∧
    ∃ record, t.settled? store contents s.key = some record ∧ Snapshot.parse record = .ok s
  restores : ∀ s ∈ rest, c.codec.Restores s.value

theorem Loading.load (hstore : store.Faultless (space ++ ":") good) (hgood : good contents) {t : Tier} {s : Snapshot}
    {rest : List Snapshot} (h : Loading store space contents t (s :: rest) c) (now : Instant) :
    ∃ t', Loading store space contents t' rest (c.load now s).2 := by
  obtain ⟨htier, hconnected, rfl, hnodup, haccords, hwaiting, hrestores⟩ := h
  obtain ⟨hfree, record, hrecord, hparse⟩ := hwaiting s List.mem_cons_self
  rw [List.map_cons, List.nodup_cons] at hnodup
  have hne : ∀ s' ∈ rest, s'.key ≠ s.key := fun s' hs' heq => hnodup.1 (heq ▸ List.mem_map_of_mem hs')
  have hothers : ∀ key, key ∉ rest.map Snapshot.key → key ≠ s.key →
      c.Accords (c.table.find? key) (t.settled? store contents key) :=
    fun key hkey hs => haccords key (by simp [hkey, hs])
  rw [Cache.load, if_neg (by simp [hfree])]
  dsimp only
  split
  · -- the entry of the record is put in, and the record stays
    have hdescribes : c.Describes s (c.entryOf now s) := by
      refine ⟨rfl, ?_, rfl, rfl, ?_⟩
      · exact decode_encode (hrestores s List.mem_cons_self) rfl
      · exact (Span.millis_ofMillis (Snapshot.ttlMillis_lt hparse)).symm
    refine ⟨t, htier, hconnected, rfl, hnodup.2, fun key hkey => ?_, fun s' hs' => ?_,
      fun s' hs' => hrestores s' (List.mem_cons_of_mem _ hs')⟩
    · rw [Table.find?_attach]
      split
      · rename_i hx
        have hx : key = s.key := hx
        rw [hx, hrecord]
        exact .recorded rfl hparse (hdescribes.congr rfl)
      · rename_i hx
        exact (hothers key hkey hx).congr rfl
    · rw [Table.find?_attach, if_neg (show s'.key ≠ (c.entryOf now s).key from hne s' hs')]
      exact hwaiting s' (List.mem_cons_of_mem _ hs')
  · -- there is no room, and the removal of the record is queued
    refine ⟨t.delete s.key, ?_, (t.send_connected _).trans hconnected, t.send_space _, hnodup.2, fun key hkey => ?_,
      fun s' hs' => ?_, fun s' hs' => hrestores s' (List.mem_cons_of_mem _ hs')⟩
    · rw [deleteDurable, mapTier, htier]
      rfl
    · rw [Tier.delete, Tier.settled?_send hstore hconnected _ hgood]
      dsimp only [WriteOp.effect]
      split
      · rename_i hx
        rw [hx]
        refine .unrecorded fun e he => ?_
        rw [show (c.deleteDurable s.key).table.find? s.key = none from hfree] at he
        cases he
      · rename_i hx
        exact (hothers key hkey hx).congr rfl
    · rw [Tier.delete, Tier.settled?_send hstore hconnected _ hgood]
      dsimp only [WriteOp.effect]
      rw [if_neg (hne s' hs')]
      exact hwaiting s' (List.mem_cons_of_mem _ hs')

theorem Loading.loadAll (hstore : store.Faultless (space ++ ":") good) (hgood : good contents) {t : Tier}
    {live : List Snapshot} (h : Loading store space contents t live c) (now : Instant) :
    (Cache.loadAll now live c).2.Agrees store space contents := by
  induction live generalizing c t with
  | nil => exact ⟨t, h.tier_eq, h.connected, h.space_eq, fun key => h.accords key List.not_mem_nil⟩
  | cons s rest ih =>
    obtain ⟨t', h'⟩ := h.load hstore hgood now
    exact ih h'

theorem loadAll_codec (now : Instant) (live : List Snapshot) (c : Cache) : (loadAll now live c).2.codec = c.codec := by
  induction live generalizing c with
  | nil => rfl
  | cons s rest ih =>
    refine (ih (c.load now s).2).trans ?_
    rw [Cache.load]
    split
    · rfl
    · dsimp only
      split <;> rfl

/-- The records that can be read stand under their own keys, and the codec restores their values. -/
def Keeps (store : Store σ) (space : String) (codec : Codec) (contents : σ) : Prop :=
  ∀ key record s, store.record? (space ++ ":") contents key = some record → Snapshot.parse record = .ok s →
    s.key = key ∧ codec.Restores s.value

/-- A cache that is opened over a namespace with records of its own agrees with it. -/
theorem agrees_openOver {settings : Settings} {codec : Codec}
    (hstore : store.Faultless (settings.durableNamespace ++ ":") good) (hgood : good contents)
    (hkeeps : Keeps store settings.durableNamespace codec contents) (now : Instant) :
    good (openOver store settings codec now contents).2 ∧
      (openOver store settings codec now contents).1.Agrees store settings.durableNamespace
        (openOver store settings codec now contents).2 := by
  obtain ⟨t, ht⟩ : ∃ t, Tier.ofSpace settings.durableNamespace = t := ⟨_, rfl⟩
  have hstart : t.start = settings.durableNamespace ++ ":" := ht ▸ rfl
  have hown : ∀ key record s, store.record? t.start contents key = some record →
      Snapshot.live? now record = some s → s.key = key := fun key record s hr hl =>
    (hkeeps key record s (hstart ▸ hr) (Snapshot.parse_of_live? hl)).1
  obtain ⟨hgood', hnodup, hlive, hleft⟩ := Tier.rehydrate_spec (hstart ▸ hstore) now hgood hown
  obtain ⟨found, hfound⟩ : ∃ found, (t.rehydrate store now contents).1.live = found := ⟨_, rfl⟩
  obtain ⟨left, hcontents⟩ : ∃ left, (t.rehydrate store now contents).2 = left := ⟨_, rfl⟩
  rw [hfound] at hnodup hlive hleft
  rw [hcontents] at hgood' hlive hleft
  have hopen : openOver store settings codec now contents =
      ((loadAll now found { empty settings codec with tier := some t }).2, left) := by
    simp only [openOver, Cache.rehydrate, ht, hfound, hcontents]
  have hsettled : t.settled? store left = store.record? t.start left := by
    rw [Tier.settled?, Tier.settle, ← ht]
    rfl
  rw [hopen]
  refine ⟨hgood', Loading.loadAll (t := t) hstore hgood' ⟨rfl, ht ▸ rfl, ht ▸ rfl, hnodup, ?_, ?_, ?_⟩ now⟩
  · intro key hkey
    have hnone : t.settled? store left key = none := by
      cases hrecord : t.settled? store left key with
      | none => rfl
      | some record =>
        obtain ⟨s, hs, hskey⟩ := hleft key record (hsettled ▸ hrecord)
        exact absurd (hskey ▸ List.mem_map_of_mem hs) hkey
    rw [hnone]
    exact .unrecorded fun e he => by cases he
  · intro s hs
    obtain ⟨record, -, hrecord, hparse⟩ := hlive s hs
    exact ⟨rfl, record, hsettled ▸ hrecord, hparse⟩
  · intro s hs
    obtain ⟨record, hrecord, -, hparse⟩ := hlive s hs
    exact (hkeeps s.key record s (hstart ▸ hrecord) hparse).2

end Cache

end ResultCache
