import ResultCache.Cache.Rehydrate
import ResultCache.Proofs.Durable.Faultless

/-!
# Taking up the records of a namespace

Over a store without faults the records of a namespace are taken up one by one: what is live is found, and what is
not live is gone afterwards (`rehydrate_spec`).  Where every record stands under its own key, each live one is found
once.
-/

namespace ResultCache

variable {σ : Type} {store : Store σ} {start : String} {good : σ → Prop}

/-- Whether a record cannot be read. -/
def Snapshot.isCorrupt (record : Bytes) : Bool :=
  match parse record with
  | .ok _ => false
  | .error _ => true

/-- The snapshot of a record that is still live. -/
def Snapshot.live? (now : Instant) (record : Bytes) : Option Snapshot :=
  match parse record with
  | .ok snapshot => if snapshot.isLive now then some snapshot else none
  | .error _ => none

theorem Snapshot.live?_eq_some_iff {now : Instant} {record : Bytes} {s : Snapshot} :
    live? now record = some s ↔ parse record = .ok s ∧ s.isLive now = true := by
  rw [live?]
  cases parse record with
  | error f => simp
  | ok snapshot =>
    simp only [Except.ok.injEq]
    split
    · rename_i hlive
      rw [Option.some.injEq]
      refine ⟨fun h => ⟨h, h ▸ hlive⟩, fun h => h.1⟩
    · rename_i hdead
      refine iff_of_false nofun ?_
      rintro ⟨rfl, hlive⟩
      exact hdead hlive

theorem Snapshot.parse_of_live? {now : Instant} {record : Bytes} {s : Snapshot} (h : live? now record = some s) :
    parse record = .ok s :=
  (live?_eq_some_iff.1 h).1

namespace Tier

/-- A key has a live record, which is found; no record; or another one, which is deleted. -/
theorem rehydrateKey_cases (hstore : store.Faultless start good) (now : Instant) (key : String) (found : Rehydrated)
    {s : σ} (hs : good s) :
    (∃ record snapshot, store.record? start s key = some record ∧ Snapshot.live? now record = some snapshot ∧
        rehydrateKey store now (start ++ key) found s = ({ found with live := found.live ++ [snapshot] }, s)) ∨
      store.record? start s key = none ∧ rehydrateKey store now (start ++ key) found s = (found, s) ∨
      ∃ record found', store.record? start s key = some record ∧ Snapshot.live? now record = none ∧
        found'.live = found.live ∧
        rehydrateKey store now (start ++ key) found s = (found', (store.delete (start ++ key) s).2) := by
  simp only [rehydrateKey, hstore.get_eq s key hs]
  cases hrecord : store.record? start s key with
  | none => exact .inr (.inl ⟨rfl, rfl⟩)
  | some record =>
    cases hparse : Snapshot.parse record with
    | error f =>
      have hlive : Snapshot.live? now record = none := by rw [Snapshot.live?, hparse]
      exact .inr (.inr ⟨record, { found with corrupt := found.corrupt + 1 }, rfl, hlive, rfl, by simp only [hparse]⟩)
    | ok snapshot =>
      cases hisLive : snapshot.isLive now with
      | true =>
        have hlive : Snapshot.live? now record = some snapshot := by
          rw [Snapshot.live?, hparse]
          exact if_pos hisLive
        exact .inl ⟨record, snapshot, rfl, hlive, by simp only [hparse, hisLive, if_true]⟩
      | false =>
        have hlive : Snapshot.live? now record = none := by
          rw [Snapshot.live?, hparse]
          exact if_neg (by simp [hisLive])
        exact .inr (.inr ⟨record, { found with expired := found.expired + 1 }, rfl, hlive, rfl,
          by simp only [hparse, hisLive, Bool.false_eq_true, if_false]⟩)

/-- One record is taken up: a live one is found and stays, and any other one is gone. -/
theorem rehydrateKey_spec (hstore : store.Faultless start good) (now : Instant) (key : String) (found : Rehydrated)
    {s : σ} (hs : good s) :
    good (rehydrateKey store now (start ++ key) found s).2 ∧
      (rehydrateKey store now (start ++ key) found s).1.live =
        found.live ++ ((store.record? start s key).bind (Snapshot.live? now)).toList ∧
      ∀ x, store.record? start (rehydrateKey store now (start ++ key) found s).2 x =
        if x = key then (store.record? start s x).filter fun r => (Snapshot.live? now r).isSome
        else store.record? start s x := by
  rcases rehydrateKey_cases hstore now key found hs with
    ⟨record, snapshot, hrecord, hlive, heq⟩ | ⟨hrecord, heq⟩ | ⟨record, found', hrecord, hlive, hfound, heq⟩
  · rw [heq, hrecord, Option.bind_some, hlive]
    refine ⟨hs, rfl, fun x => ?_⟩
    split
    · rename_i hx
      rw [hx, hrecord, Option.filter_some, hlive]
      rfl
    · rfl
  · rw [heq, hrecord]
    refine ⟨hs, (List.append_nil _).symm, fun x => ?_⟩
    split
    · rename_i hx
      rw [hx, hrecord]
      rfl
    · rfl
  · rw [heq, hrecord, Option.bind_some, hlive]
    refine ⟨hstore.good_delete s key hs, hfound.trans (List.append_nil _).symm, fun x => ?_⟩
    rw [hstore.record?_delete s key x hs]
    split
    · rename_i hx
      rw [hx, hrecord, Option.filter_some, hlive]
      rfl
    · rfl

/-- Taking records up leaves of the others what there was, and of themselves what is live. -/
theorem rehydrateKeys_spec (hstore : store.Faultless start good) (now : Instant) (keys : List String)
    (found : Rehydrated) {s : σ} (hs : good s) :
    good (rehydrateKeys store now (keys.map (start ++ ·)) found s).2 ∧
      (rehydrateKeys store now (keys.map (start ++ ·)) found s).1.live =
        found.live ++ keys.filterMap (fun key => (store.record? start s key).bind (Snapshot.live? now)) ∧
      ∀ x, store.record? start (rehydrateKeys store now (keys.map (start ++ ·)) found s).2 x =
        if x ∈ keys then (store.record? start s x).filter fun r => (Snapshot.live? now r).isSome
        else store.record? start s x := by
  induction keys generalizing found s with
  | nil => exact ⟨hs, (List.append_nil _).symm, fun x => (if_neg List.not_mem_nil).symm⟩
  | cons key keys ih =>
    obtain ⟨hgood, hlive, hrecord⟩ := rehydrateKey_spec hstore now key found hs
    obtain ⟨hgood', hlive', hrecord'⟩ := ih (rehydrateKey store now (start ++ key) found s).1 hgood
    -- a record that was taken up is live afterwards exactly if it was so before
    have hsame : ∀ x, (store.record? start (rehydrateKey store now (start ++ key) found s).2 x).bind
        (Snapshot.live? now) = (store.record? start s x).bind (Snapshot.live? now) := by
      intro x
      rw [hrecord]
      split
      · cases store.record? start s x with
        | none => rfl
        | some r =>
          rw [Option.filter_some]
          split
          · rfl
          · rename_i hdead
            rw [Bool.not_eq_true, Option.isSome_eq_false_iff, Option.isNone_iff_eq_none] at hdead
            rw [Option.bind_some, hdead]
            rfl
      · rfl
    rw [List.map_cons, rehydrateKeys]
    refine ⟨hgood', ?_, fun x => ?_⟩
    · rw [hlive', hlive, List.filterMap_cons]
      simp only [hsame]
      cases (store.record? start s key).bind (Snapshot.live? now) with
      | none => rw [Option.toList_none, List.append_nil]
      | some snapshot => rw [Option.toList_some, List.append_assoc, List.singleton_append]
    · -- a key may be listed more than once, and is dealt with in the same way each time
      rw [hrecord', hrecord]
      by_cases hx : x = key
      · by_cases hmem : x ∈ keys
        · rw [if_pos hmem, if_pos hx, if_pos (List.mem_cons_of_mem _ hmem)]
          cases store.record? start s x with
          | none => rfl
          | some r => cases hr : (Snapshot.live? now r).isSome <;> simp [Option.filter, hr]
        · rw [if_neg hmem, if_pos hx, if_pos (hx ▸ List.mem_cons_self)]
      · by_cases hmem : x ∈ keys
        · rw [if_pos hmem, if_neg hx, if_pos (List.mem_cons_of_mem _ hmem)]
        · rw [if_neg hmem, if_neg hx, if_neg (by simp [hx, hmem])]

/-- A record is counted as corrupt if it is there and cannot be read. -/
theorem rehydrateKey_corrupt (hstore : store.Faultless start good) (now : Instant) (key : String) (found : Rehydrated)
    {s : σ} (hs : good s) :
    (rehydrateKey store now (start ++ key) found s).1.corrupt =
      found.corrupt + ((store.record? start s key).any Snapshot.isCorrupt).toNat := by
  rw [rehydrateKey, hstore.get_eq s key hs]
  cases store.record? start s key with
  | none => rfl
  | some record =>
    simp only [Option.any_some, Snapshot.isCorrupt]
    cases Snapshot.parse record with
    | error f => rfl
    | ok snapshot => cases hlive : snapshot.isLive now <;> simp [hlive]

theorem rehydrateKeys_corrupt (hstore : store.Faultless start good) (now : Instant) {keys : List String}
    (hnodup : keys.Nodup) (found : Rehydrated) {s : σ} (hs : good s) :
    (rehydrateKeys store now (keys.map (start ++ ·)) found s).1.corrupt =
      found.corrupt + keys.countP fun key => (store.record? start s key).any Snapshot.isCorrupt := by
  induction keys generalizing found s with
  | nil => rfl
  | cons key keys ih =>
    obtain ⟨hnew, hnodup⟩ := List.nodup_cons.1 hnodup
    obtain ⟨hgood, -, hrecord⟩ := rehydrateKey_spec hstore now key found hs
    -- the records that are still to come are as they were
    have hothers : ∀ x ∈ keys, store.record? start (rehydrateKey store now (start ++ key) found s).2 x =
        store.record? start s x := fun x hx => (hrecord x).trans (if_neg fun heq => hnew (by rw [← heq]; exact hx))
    have hcount : (keys.countP fun x => (store.record? start
        (rehydrateKey store now (start ++ key) found s).2 x).any Snapshot.isCorrupt) =
        keys.countP fun x => (store.record? start s x).any Snapshot.isCorrupt :=
      List.countP_congr fun x hx => by rw [hothers x hx]
    rw [List.map_cons, rehydrateKeys, ih hnodup _ hgood, rehydrateKey_corrupt hstore now key found hs, hcount,
      List.countP_cons]
    cases (store.record? start s key).any Snapshot.isCorrupt
    · rfl
    · exact Nat.add_right_comm ..

/-- Counted as corrupt are the keys of the namespace whose records cannot be read. -/
theorem rehydrate_corrupt {t : Tier} (hstore : store.Faultless t.start good) (now : Instant) {s : σ} (hs : good s) :
    ∃ refused : List String, refused.Nodup ∧ (t.rehydrate store now s).1.corrupt = refused.length ∧
      ∀ key, key ∈ refused ↔ (store.record? t.start s key).any Snapshot.isCorrupt = true := by
  obtain ⟨keys, hlist, hnodup, hmem⟩ := hstore.list_eq s hs
  refine ⟨keys.filter fun key => (store.record? t.start s key).any Snapshot.isCorrupt, hnodup.filter _, ?_,
    fun key => ?_⟩
  · rw [rehydrate, hlist, ← List.countP_eq_length_filter]
    exact (rehydrateKeys_corrupt hstore now hnodup ⟨[], 0, 0⟩ hs).trans (Nat.zero_add _)
  · rw [List.mem_filter, hmem, and_iff_right_iff_imp]
    intro hcorrupt
    obtain ⟨hsome, -⟩ := (Option.any_eq_true_iff_get _ _).1 hcorrupt
    exact hsome

/-- What is found are the snapshots of the live records of the namespace. -/
theorem mem_live_rehydrate {t : Tier} (hstore : store.Faultless t.start good) (now : Instant) {s : σ} (hs : good s)
    {snapshot : Snapshot} :
    snapshot ∈ (t.rehydrate store now s).1.live ↔
      ∃ key record, store.record? t.start s key = some record ∧ Snapshot.live? now record = some snapshot := by
  obtain ⟨keys, hlist, -, hmem⟩ := hstore.list_eq s hs
  obtain ⟨-, hlive, -⟩ := rehydrateKeys_spec hstore now keys ⟨[], 0, 0⟩ hs
  rw [List.nil_append] at hlive
  rw [rehydrate, hlist]
  dsimp only
  rw [hlive, List.mem_filterMap]
  constructor
  · rintro ⟨key, -, h⟩
    obtain ⟨record, hrecord, hl⟩ := Option.bind_eq_some_iff.1 h
    exact ⟨key, record, hrecord, hl⟩
  · rintro ⟨key, record, hrecord, hl⟩
    have hkey : key ∈ keys := (hmem key).2 (by rw [hrecord]; rfl)
    exact ⟨key, hkey, by rw [hrecord, Option.bind_some, hl]⟩

/-- The keys of what is found under its own key are among those that were looked at, in their order. -/
private theorem map_key_filterMap {find : String → Option Snapshot}
    (hfind : ∀ key snapshot, find key = some snapshot → snapshot.key = key) (keys : List String) :
    (keys.filterMap find).map Snapshot.key = keys.filter fun key => (find key).isSome := by
  induction keys with
  | nil => rfl
  | cons key keys ih =>
    rw [List.filterMap_cons, List.filter_cons]
    cases h : find key with
    | none => exact ih
    | some snapshot =>
      rw [List.map_cons, ih, hfind key snapshot h]
      rfl

/-- After the records of a namespace are taken up, only the live ones are left, and they were found. -/
theorem rehydrate_spec {t : Tier} (hstore : store.Faultless t.start good) (now : Instant) {s : σ} (hs : good s)
    (hkeys : ∀ key record snapshot, store.record? t.start s key = some record →
      Snapshot.live? now record = some snapshot → snapshot.key = key) :
    good (t.rehydrate store now s).2 ∧ ((t.rehydrate store now s).1.live.map Snapshot.key).Nodup ∧
      (∀ snapshot ∈ (t.rehydrate store now s).1.live, ∃ record,
        store.record? t.start s snapshot.key = some record ∧
          store.record? t.start (t.rehydrate store now s).2 snapshot.key = some record ∧
          Snapshot.parse record = .ok snapshot) ∧
      ∀ key record, store.record? t.start (t.rehydrate store now s).2 key = some record →
        ∃ snapshot ∈ (t.rehydrate store now s).1.live, snapshot.key = key := by
  obtain ⟨keys, hlist, hnodup, hmem⟩ := hstore.list_eq s hs
  obtain ⟨hgood, hlive, hrecord⟩ := rehydrateKeys_spec hstore now keys ⟨[], 0, 0⟩ hs
  have hrun : t.rehydrate store now s = rehydrateKeys store now (keys.map (t.start ++ ·)) ⟨[], 0, 0⟩ s := by
    rw [rehydrate, hlist]
  rw [List.nil_append] at hlive
  rw [hrun, hlive]
  have hfound : ∀ key snapshot, (store.record? t.start s key).bind (Snapshot.live? now) = some snapshot →
      snapshot.key = key := by
    intro key snapshot h
    obtain ⟨record, hr, hl⟩ := Option.bind_eq_some_iff.1 h
    exact hkeys key record snapshot hr hl
  refine ⟨hgood, ?_, fun snapshot hsnapshot => ?_, fun key record hkept => ?_⟩
  · rw [map_key_filterMap hfound]
    exact hnodup.filter _
  · obtain ⟨key, hkey, h⟩ := List.mem_filterMap.1 hsnapshot
    obtain ⟨record, hr, hl⟩ := Option.bind_eq_some_iff.1 h
    have hown := hkeys key record snapshot hr hl
    subst hown
    refine ⟨record, hr, ?_, Snapshot.parse_of_live? hl⟩
    rw [hrecord, if_pos hkey, hr, Option.filter_some, hl]
    rfl
  · have hkey : key ∈ keys := by
      rw [hmem]
      rw [hrecord] at hkept
      split at hkept
      · obtain ⟨hr, -⟩ := Option.filter_eq_some_iff.1 hkept
        rw [hr]
        rfl
      · rw [hkept]
        rfl
    rw [hrecord, if_pos hkey] at hkept
    obtain ⟨hr, hsome⟩ := Option.filter_eq_some_iff.1 hkept
    obtain ⟨snapshot, hl⟩ := Option.isSome_iff_exists.1 hsome
    exact ⟨snapshot, List.mem_filterMap.2 ⟨key, hkey, by rw [hr, Option.bind_some, hl]⟩,
      hkeys key record snapshot hr hl⟩

end Tier

end ResultCache
