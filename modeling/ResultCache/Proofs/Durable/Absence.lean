import ResultCache.Proofs.Durable.Coverage
import ResultCache.Proofs.Durable.Durability

/-!
# Removed entries stay away

A removal reaches the store through the queue only, while `rehydrate` reads the store directly.  So a removed entry may
come back if records are loaded before the writer has caught up.  It does not if they are loaded only after the writer
has done what was queued at the removal.  The removal of all entries settles that there are no records; that of one
settles that its key has none, since each settled record goes with a persisted entry.  From then on nothing but a set
queues one (`Cache.Lacks`).  How far the writer has come is a matter of numbers only, as it does the operations of the
queue in their order (`Session.written`).
-/

namespace ResultCache

variable {σ : Type} {store : Store σ} {space : String} {good : σ → Prop}

namespace Cache

variable {c c' : Cache} {contents : σ} {t : Tier}

/-! ### After the removal -/

/-- What a queue makes of the records after a removal, if it is cut in two.  Once the operations of the first part are
done, at most `lag`, the key has no record, and every other record stands under its own key; behind them no record is
queued for the key. -/
structure Rids (store : Store σ) (space : String) (contents : σ) (key : String) (lag : Nat)
    (old new : List WriteOp) : Prop where
  length_le : old.length ≤ lag
  gone : old.foldl WriteOp.effect (store.record? (space ++ ":") contents) key = none
  own : ∀ k record, old.foldl WriteOp.effect (store.record? (space ++ ":") contents) k = some record →
    Snapshot.OwnKey k record
  idle : ∀ op ∈ new, ¬op.Puts key

/-- A key has no entry, and the queue rids it of its record. -/
def Lacks (store : Store σ) (space : String) (contents : σ) (key : String) (lag : Nat) (c : Cache) : Prop :=
  c.table.find? key = none ∧ ∃ t, c.Serves space t ∧ ∃ old new, t.pending = old ++ new ∧
    Rids store space contents key lag old new

variable {key : String} {lag : Nat} {old new : List WriteOp}

theorem Rids.append (h : Rids store space contents key lag old new) {ops : List WriteOp}
    (hops : ∀ op ∈ ops, ¬op.Puts key) : Rids store space contents key lag old (new ++ ops) :=
  ⟨h.length_le, h.gone, h.own, List.forall_mem_append.2 ⟨h.idle, hops⟩⟩

/-- Where records are taken away, no others are left than before. -/
theorem Rids.fewer (h : Rids store space contents key lag old new) {contents' : σ}
    (hfewer : ∀ key, store.record? (space ++ ":") contents' key = store.record? (space ++ ":") contents key ∨
      store.record? (space ++ ":") contents' key = none) : Rids store space contents' key lag old new := by
  have hless := WriteOp.foldl_effect_of_fewer hfewer old
  refine ⟨h.length_le, ?_, fun k record hrecord => ?_, h.idle⟩
  · rcases hless key with heq | hnone
    · exact heq.trans h.gone
    · exact hnone
  · rcases hless k with heq | hnone
    · exact h.own k record (heq ▸ hrecord)
    · rw [hnone] at hrecord
      cases hrecord

/-- What the queue comes to is the same after some of its operations are done. -/
theorem Rids.advance (h : Rids store space contents key lag old new)
    (hnew : ∀ k record, .put k record ∈ new → Snapshot.OwnKey k record) (count : Nat) {contents' : σ}
    (hrecords : store.record? (space ++ ":") contents' =
      ((old ++ new).take count).foldl WriteOp.effect (store.record? (space ++ ":") contents)) :
    Rids store space contents' key (lag - count) (old.drop count) (new.drop (count - old.length)) := by
  -- what was done and what is left of the old operations are the old ones, and perhaps some of the new ones
  have hdone : (old.drop count).foldl WriteOp.effect (store.record? (space ++ ":") contents') =
      (new.take (count - old.length)).foldl WriteOp.effect
        (old.foldl WriteOp.effect (store.record? (space ++ ":") contents)) := by
    rw [hrecords, ← List.foldl_append, List.take_append]
    by_cases hcount : count ≤ old.length
    · rw [Nat.sub_eq_zero_of_le hcount, List.take_zero, List.append_nil, List.take_append_drop]
      rfl
    · rw [List.drop_eq_nil_of_le (by omega), List.append_nil, List.take_of_length_le (by omega), List.foldl_append]
  refine ⟨?_, ?_, fun k record hrecord => ?_, fun op hop => h.idle op (List.mem_of_mem_drop hop)⟩
  · rw [List.length_drop]
    exact Nat.sub_le_sub_right h.length_le count
  · rw [hdone]
    exact WriteOp.foldl_effect_eq_none (fun op hop => h.idle op (List.mem_of_mem_take hop)) h.gone
  · rw [hdone] at hrecord
    exact Snapshot.ownKey_of_foldl_effect (fun k record hmem => hnew k record (List.mem_of_mem_take hmem)) h.own hrecord

/-- The removal of one entry settles that it has no record, so what is queued by then is all that has to be done. -/
theorem Covers.lacks (hstore : store.Faultless (space ++ ":") good) (hgood : good contents)
    (hown : store.OwnKeys (space ++ ":") contents) (h : c.Covers store space contents [])
    (hfree : c.table.find? key = none) (hlag : ∀ t, c.tier = some t → t.pending.length ≤ lag) :
    c.Lacks store space contents key lag := by
  obtain ⟨t, hserves, hcovers⟩ := h
  refine ⟨hfree, t, hserves, t.pending, [], (List.append_nil _).symm, hlag t hserves.tier_eq, ?_,
    fun _ _ => Snapshot.ownKey_of_foldl_effect hserves.queued hown, by simp⟩
  rw [← hserves.start_eq, ← Tier.settled?_eq_foldl (hserves.start_eq.symm ▸ hstore) hgood]
  rcases hcovers key with hnone | ⟨e, he, -⟩ | ⟨hwaiting, -⟩
  · exact hnone
  · rw [hfree] at he
    cases he
  · cases hwaiting

/-- The removal of all entries settles that there are no records, wherever they stood. -/
theorem Serves.lacks_clear (h : c.Serves space t) (contents : σ) (key : String)
    (hlag : ∀ t, c.clear.tier = some t → t.pending.length ≤ lag) : c.clear.Lacks store space contents key lag := by
  have hserves : c.clear.Serves space (t.sendAll [WriteOp.clear]) := h.sendAll rfl (by simp)
  have hpending : (t.sendAll [WriteOp.clear]).pending = t.pending ++ [WriteOp.clear] := by
    rw [Tier.sendAll_eq h.connected]
  have hnone : (t.pending ++ [WriteOp.clear]).foldl WriteOp.effect (store.record? (space ++ ":") contents) =
      fun _ => none := by
    rw [List.foldl_concat]
    rfl
  refine ⟨rfl, _, hserves, t.pending ++ [WriteOp.clear], [], ?_, ?_, congrFun hnone key, fun k record hrecord => ?_,
    by simp⟩
  · rw [hpending, List.append_nil]
  · rw [← hpending]
    exact hlag _ hserves.tier_eq
  · rw [hnone] at hrecord
    cases hrecord

theorem Lacks.sendAll (h : c.Lacks store space contents key lag) (hfree : c'.table.find? key = none)
    {ops : List WriteOp} (htier : c'.tier = c.tier.map fun t => t.sendAll ops)
    (hown : ∀ key record, .put key record ∈ ops → Snapshot.OwnKey key record) (hops : ∀ op ∈ ops, ¬op.Puts key) :
    c'.Lacks store space contents key lag := by
  obtain ⟨-, t, hserves, old, new, hpending, hrids⟩ := h
  refine ⟨hfree, _, hserves.sendAll htier hown, old, new ++ ops, ?_, hrids.append hops⟩
  rw [Tier.sendAll_eq hserves.connected, hpending, List.append_assoc]

theorem Trims.find?_eq_none {now : Instant} (h : Trims now c c') (hfree : c.table.find? key = none) :
    c'.table.find? key = none := by
  refine h.preserves (P := fun c => c.table.find? key = none) (fun step hfree => ?_) hfree
  cases step with
  | remove why =>
    rw [removeEntry_table, Table.find?_detach, hfree]
    split <;> rfl
  | read =>
    rw [Table.find?_update, hfree]
    split <;> rfl
  | miss => exact hfree

theorem Lacks.trims (h : c.Lacks store space contents key lag) {now : Instant} (trims : Trims now c c') :
    c'.Lacks store space contents key lag := by
  obtain ⟨deleted, hsends⟩ := trims.sends
  refine h.sendAll (trims.find?_eq_none h.1) hsends (by simp) fun op hop => ?_
  obtain ⟨k, -, rfl⟩ := List.mem_map.1 hop
  exact id

theorem Lacks.clear (h : c.Lacks store space contents key lag) : c.clear.Lacks store space contents key lag := by
  have hsends : c.clear.tier = c.tier.map fun t => t.sendAll [.clear] := rfl
  refine h.sendAll rfl hsends (by simp) fun op hop => ?_
  rw [List.mem_singleton.1 hop]
  exact id

theorem Lacks.replace (h : c.Lacks store space contents key lag) {e : Entry} (hkey : e.key ≠ key) (v : Json) :
    (c.replace e v).Lacks store space contents key lag := by
  have hfree : (c.replace e v).table.find? key = none := by
    rw [replace_table, Table.find?_attach, if_neg hkey.symm, Table.find?_detach, if_neg hkey.symm, h.1]
  refine h.sendAll hfree (replace_sends c e v) (fun _ _ => ownKey_replacementOps) fun op hop => ?_
  rw [replacementOps] at hop
  split at hop
  · rw [List.mem_singleton.1 hop]
    exact hkey
  · split at hop
    · rw [List.mem_singleton.1 hop]
      exact id
    · cases hop

theorem Lacks.load (h : c.Lacks store space contents key lag) {s : Snapshot} (hkey : s.key ≠ key) (now : Instant) :
    (c.load now s).2.Lacks store space contents key lag := by
  rw [Cache.load]
  split
  · exact h
  · dsimp only
    split
    · obtain ⟨hfree, t, hserves, hqueue⟩ := h
      refine ⟨?_, t, hserves.congr rfl, hqueue⟩
      rw [Table.find?_attach, if_neg (show key ≠ (c.entryOf now s).key from hkey.symm)]
      exact hfree
    · have hsends : (c.deleteDurable s.key).tier = c.tier.map fun t => t.sendAll [.delete s.key] := rfl
      refine h.sendAll h.1 hsends (by simp) fun op hop => ?_
      rw [List.mem_singleton.1 hop]
      exact id

theorem Lacks.loadAll (h : c.Lacks store space contents key lag) {live : List Snapshot}
    (hlive : ∀ s ∈ live, s.key ≠ key) (now : Instant) :
    (Cache.loadAll now live c).2.Lacks store space contents key lag := by
  induction live generalizing c with
  | nil => exact h
  | cons s rest ih =>
    exact ih (h.load (hlive s List.mem_cons_self) now) fun s' hs' => hlive s' (List.mem_cons_of_mem _ hs')

/-- Where records are taken away, a key that lacks one lacks it still. -/
theorem Lacks.fewer {contents' : σ}
    (hfewer : ∀ key, store.record? (space ++ ":") contents' key = store.record? (space ++ ":") contents key ∨
      store.record? (space ++ ":") contents' key = none)
    (h : c.Lacks store space contents key lag) : c.Lacks store space contents' key lag := by
  obtain ⟨hfree, t, hserves, old, new, hpending, hrids⟩ := h
  exact ⟨hfree, t, hserves, old, new, hpending, hrids.fewer hfewer⟩

/-- With nothing left to be done there is no record of the key, and the others stand under their own keys. -/
theorem Lacks.caught_up (h : c.Lacks store space contents key 0) :
    store.record? (space ++ ":") contents key = none ∧ store.OwnKeys (space ++ ":") contents := by
  obtain ⟨-, t, -, old, new, -, hrids⟩ := h
  cases List.length_eq_zero_iff.1 (Nat.le_zero.1 hrids.length_le)
  exact ⟨hrids.gone, hrids.own⟩

end Cache

/-! ### The writer at work -/

/-- A tier is another one after some barriers were queued. -/
structure Tier.AddsBarriers (t t' : Tier) : Prop where
  connected_eq : t'.connected = t.connected
  space_eq : t'.space = t.space
  pending_eq : ∃ barriers, t'.pending = t.pending ++ barriers ∧ ∀ op ∈ barriers, ∃ ticket, op = WriteOp.barrier ticket

theorem Tier.AddsBarriers.start_eq {t t' : Tier} (h : t.AddsBarriers t') : t'.start = t.start :=
  congrArg (· ++ ":") h.space_eq

theorem Tier.AddsBarriers.put_mem {t t' : Tier} (h : t.AddsBarriers t') {key : String} {record : Bytes}
    (hmem : .put key record ∈ t'.pending) : .put key record ∈ t.pending := by
  obtain ⟨barriers, hpending, hbarriers⟩ := h.pending_eq
  rw [hpending] at hmem
  rcases List.mem_append.1 hmem with hmem | hmem
  · exact hmem
  · obtain ⟨ticket, hticket⟩ := hbarriers _ hmem
    cases hticket

/-- The records that the writer puts stand under their own keys, like those in the queue. -/
theorem Store.OwnKeys.applyCount {contents : σ} {t : Tier} (h : store.OwnKeys t.start contents)
    (hstore : store.Faultless t.start good) (hgood : good contents)
    (hqueued : ∀ key record, .put key record ∈ t.pending → Snapshot.OwnKey key record) (count : Nat) :
    store.OwnKeys t.start (Tier.applyCount store count t contents).2 := by
  intro key record hrecord
  have hrecords := (WriteOp.foldl_apply_spec hstore (t.pending.take count) hgood).2
  rw [Tier.applyCount_eq_foldl, Tier.start, hrecords] at hrecord
  exact Snapshot.ownKey_of_foldl_effect (fun k record hmem => hqueued k record (List.mem_of_mem_take hmem)) h hrecord

namespace Cache

variable {c : Cache} {contents : σ} {t t' : Tier}

/-- A tier serves on while the writer works. -/
theorem Serves.applyCount (hstore : store.Faultless (space ++ ":") good) (hgood : good contents)
    (h : c.Serves space t) (hadds : t.AddsBarriers t') (count : Nat) :
    Serves space (Tier.applyCount store count t' contents).1
      { c with tier := some (Tier.applyCount store count t' contents).1 } := by
  have hstore' : store.Faultless t'.start good := hadds.start_eq ▸ h.start_eq ▸ hstore
  obtain ⟨-, hspace, hconnected, hpending, -⟩ := Tier.applyCount_spec count hstore' hgood
  refine ⟨rfl, hconnected.trans (hadds.connected_eq.trans h.connected),
    hspace.trans (hadds.space_eq.trans h.space_eq), fun key record hmem => ?_⟩
  rw [hpending] at hmem
  exact h.queued key record (hadds.put_mem (List.mem_of_mem_drop hmem))

/-- What is settled stays so while the writer works. -/
theorem Serves.settled?_applyCount (hstore : store.Faultless (space ++ ":") good) (hgood : good contents)
    (h : c.Serves space t) (hadds : t.AddsBarriers t') (count : Nat) :
    (Tier.applyCount store count t' contents).1.settled? store (Tier.applyCount store count t' contents).2 =
      t.settled? store contents := by
  obtain ⟨barriers, hpending, hbarriers⟩ := hadds.pending_eq
  have hstore' : store.Faultless t.start good := h.start_eq ▸ hstore
  obtain ⟨hsettle, hspace, -, -, -⟩ := Tier.applyCount_spec count (hadds.start_eq ▸ hstore') hgood
  rw [Tier.settled?, hsettle, Tier.start, hspace]
  show t'.settled? store contents = _
  rw [Tier.settled?_eq_foldl (hadds.start_eq ▸ hstore') hgood, hpending, List.foldl_append,
    WriteOp.foldl_effect_of_barriers hbarriers, hadds.start_eq, Tier.settled?_eq_foldl hstore' hgood]

theorem Covers.applyCount (hstore : store.Faultless (space ++ ":") good) (hgood : good contents)
    {waiting : List Snapshot} (h : c.Covers store space contents waiting) (htier : c.tier = some t)
    (hadds : t.AddsBarriers t') (count : Nat) :
    { c with tier := some (Tier.applyCount store count t' contents).1 }.Covers store space
      (Tier.applyCount store count t' contents).2 waiting := by
  obtain ⟨u, hserves, hcovers⟩ := h
  cases htier.symm.trans hserves.tier_eq
  refine ⟨_, hserves.applyCount hstore hgood hadds count, fun key => ?_⟩
  rw [hserves.settled?_applyCount hstore hgood hadds]
  exact hcovers key

theorem Lacks.applyCount (hstore : store.Faultless (space ++ ":") good) (hgood : good contents) {key : String}
    {lag : Nat} (h : c.Lacks store space contents key lag) (htier : c.tier = some t) (hadds : t.AddsBarriers t')
    (count : Nat) :
    { c with tier := some (Tier.applyCount store count t' contents).1 }.Lacks store space
      (Tier.applyCount store count t' contents).2 key (lag - count) := by
  obtain ⟨hfree, u, hserves, old, new, hold, hrids⟩ := h
  cases htier.symm.trans hserves.tier_eq
  obtain ⟨barriers, hpending, hbarriers⟩ := hadds.pending_eq
  have hstore' : store.Faultless t'.start good := hadds.start_eq ▸ hserves.start_eq ▸ hstore
  obtain ⟨-, -, -, hleft, -⟩ := Tier.applyCount_spec count hstore' hgood
  have hidle : ∀ op ∈ barriers, ¬op.Puts key := by
    intro op hop
    obtain ⟨ticket, rfl⟩ := hbarriers op hop
    exact id
  have hqueue : t'.pending = old ++ (new ++ barriers) := by rw [hpending, hold, List.append_assoc]
  have hqueued : ∀ k record, .put k record ∈ new ++ barriers → Snapshot.OwnKey k record := by
    intro k record hmem
    refine hserves.queued k record (hadds.put_mem ?_)
    rw [hqueue]
    exact List.mem_append_right _ hmem
  refine ⟨hfree, _, hserves.applyCount hstore hgood hadds count, old.drop count,
    (new ++ barriers).drop (count - old.length), ?_, ?_⟩
  · rw [hleft, hqueue, List.drop_append]
  · have hrecords : store.record? (space ++ ":") (Tier.applyCount store count t' contents).2 =
        (t'.pending.take count).foldl WriteOp.effect (store.record? (space ++ ":") contents) := by
      rw [Tier.applyCount_eq_foldl, hadds.space_eq, hserves.space_eq]
      exact (WriteOp.foldl_apply_spec hstore _ hgood).2
    exact (hrids.append hidle).advance hqueued count (hqueue ▸ hrecords)

end Cache

/-! ### Runs -/

/-- Whether a command leaves a session with its cache, its tier and its writer. -/
def Command.keepsTier : Command → Bool
  | .disconnect => false
  | .restart _ _ => false
  | _ => true

namespace Session

variable {s : Session σ} {t : Tier} {key : String} {lag : Nat}

/-- How many operations wait for the writer. -/
def waiting (s : Session σ) : Nat :=
  s.cache.tier.elim 0 fun t => t.pending.length

/-- How many operations the writer does by a command. -/
def writes (s : Session σ) : Command → Nat
  | .writeNext => min 1 s.waiting
  | .write => if s.hasWriter then s.waiting else 0
  | .barrier => if s.hasWriter then s.waiting + 1 else 0
  | _ => 0

/-- How many operations the writer does in a run. -/
def written (store : Store σ) : List Command → Session σ → Nat
  | [], _ => 0
  | command :: commands, s => s.writes command + written store commands (s.step store command).2

theorem written_concat (store : Store σ) (commands : List Command) (command : Command) (s : Session σ) :
    written store (commands ++ [command]) s = written store commands s + (run store commands s).writes command := by
  induction commands generalizing s with
  | nil => exact Nat.add_comm ..
  | cons c commands ih =>
    rw [List.cons_append, written, written, ih, Nat.add_assoc]
    rfl

/-- A command for the writer has it do the first operations of the queue, perhaps after a barrier is queued. -/
theorem step_writer (store : Store σ) (htier : s.cache.tier = some t) (hconnected : t.connected = true)
    {command : Command} (hwriter : command.isForWriter = true) (hkeeps : command.keepsTier = true) :
    ∃ t', t.AddsBarriers t' ∧
      (s.step store command).2 = s.withTier (Tier.applyCount store (s.writes command) t' s.contents).1
        (Tier.applyCount store (s.writes command) t' s.contents).2 := by
  have hwaiting : s.waiting = t.pending.length := by rw [waiting, htier]; rfl
  have hhas : s.hasWriter = true := by rw [hasWriter, htier]; exact hconnected
  have hsame : t.AddsBarriers t := ⟨rfl, rfl, [], (List.append_nil _).symm, by simp⟩
  cases command with
  | writeNext =>
    refine ⟨t, hsame, ?_⟩
    simp only [Session.step, writeNext, htier, writes, hwaiting]
    cases hpending : t.pending with
    | nil => simp only [Tier.applyNext, hpending]; rfl
    | cons op rest =>
      rw [List.length_cons, show min 1 (rest.length + 1) = 1 by omega]
      rfl
  | write =>
    refine ⟨t, hsame, ?_⟩
    simp only [Session.step, write, htier, writes, hhas, hwaiting, Tier.write, hconnected, if_true]
    rfl
  | barrier =>
    have hpending : t.barrier.2.pending = t.pending ++ [.barrier t.tickets] := by
      rw [Tier.barrier, Tier.send, if_pos hconnected]
    have hconnected' : t.barrier.2.connected = t.connected := t.send_connected _
    refine ⟨t.barrier.2, ⟨hconnected', t.send_space _, [.barrier t.tickets], hpending, by simp⟩, ?_⟩
    have hlength : t.barrier.2.pending.length = s.waiting + 1 := by
      rw [hpending, hwaiting, List.length_append]
      rfl
    simp only [Session.step, writeToBarrier, htier, writes, hhas, Tier.writeToBarrier, Tier.write,
      hconnected'.trans hconnected, if_true, Tier.applyAll, hlength]
  | disconnect => cases hkeeps
  | _ => cases hwriter

theorem step_rehydrate (store : Store σ) (htier : s.cache.tier = some t) :
    (s.step store .rehydrate).2.cache =
        (Cache.loadAll s.now (t.rehydrate store s.now s.contents).1.live s.cache).2 ∧
      (s.step store .rehydrate).2.contents = (t.rehydrate store s.now s.contents).2 := by
  constructor <;> simp only [Session.step, Cache.rehydrate, htier]

/-- What becomes of the cache and of the store by a command that keeps the tier. -/
inductive Move (store : Store σ) (s : Session σ) (t : Tier) : Command → Cache → σ → Prop where
  | written {command : Command} {t' : Tier} (adds : t.AddsBarriers t') :
      Move store s t command { s.cache with tier := some (Tier.applyCount store (s.writes command) t' s.contents).1 }
        (Tier.applyCount store (s.writes command) t' s.contents).2
  | loaded : Move store s t .rehydrate (Cache.loadAll s.now (t.rehydrate store s.now s.contents).1.live s.cache).2
      (t.rehydrate store s.now s.contents).2
  | trimmed {command : Command} {c : Cache} (writes_eq : s.writes command = 0) (trims : Cache.Trims s.now s.cache c) :
      Move store s t command c s.contents
  | stored {r : Request} {v : Json} {o : SetOptions} {c : Cache} (ok : (s.cache.set s.now r v o).1 = .ok ())
      (trims : Cache.Trims s.now s.cache c) :
      Move store s t (.set r v o) (c.replace (s.cache.entryFor s.now r v o) v) s.contents
  | cleared : Move store s t .clear s.cache.clear s.contents

theorem step_move (hc : s.cache.table.Accurate) (store : Store σ) (hserves : s.cache.Serves space t)
    {command : Command} (hkeeps : command.keepsTier = true) :
    Move store s t command (s.step store command).2.cache (s.step store command).2.contents := by
  cases hwriter : command.isForWriter with
  | true =>
    obtain ⟨t', hadds, heq⟩ := step_writer store hserves.tier_eq hserves.connected hwriter hkeeps
    rw [heq]
    exact .written hadds
  | false =>
    by_cases hload : command = .rehydrate
    · subst hload
      obtain ⟨hcache, hcontents⟩ := step_rehydrate store hserves.tier_eq
      rw [hcache, hcontents]
      exact .loaded
    · have hordinary : command.isOrdinary = true := by
        cases command <;> first | rfl | exact absurd rfl hload | cases hkeeps
      have hwrites : s.writes command = 0 := by
        cases command <;> first | rfl | cases hwriter
      rw [step_contents hordinary hwriter]
      generalize hcache : (s.step store command).2.cache = c
      have hstep : Transition store s command c := hcache ▸ step_transition hc store command
      cases hstep with
      | trim trims => exact .trimmed hwrites trims
      | store ok trims room => exact .stored ok trims
      | clear => exact .cleared
      | queue hwriter' =>
        rw [hwriter] at hwriter'
        cases hwriter'
      | load => exact absurd rfl hload
      | openAlone => cases hkeeps
      | openOver => cases hkeeps

/-- A session with some settings in good order, over a good store. -/
structure Orderly (settings : Settings) (good : σ → Prop) (s : Session σ) : Prop where
  sound : s.cache.Sound
  settings_eq : s.cache.settings = settings
  good : good s.contents

variable {settings : Settings}

/-- A command keeps a session in good order and its tier in service, whatever is recorded. -/
theorem Orderly.step (hstore : store.Faultless (settings.durableNamespace ++ ":") good)
    (h : s.Orderly settings good) (hserves : s.cache.Serves settings.durableNamespace t) {command : Command}
    (hkeeps : command.keepsTier = true) :
    (s.step store command).2.Orderly settings good ∧
      ∃ t', (s.step store command).2.cache.Serves settings.durableNamespace t' := by
  have hsound := (step_transition h.sound.accurate store command).sound h.sound
  have hstore' : store.Faultless t.start good := hserves.start_eq ▸ hstore
  suffices ((s.step store command).2.cache.settings = s.cache.settings ∧ good (s.step store command).2.contents) ∧
      ∃ t', (s.step store command).2.cache.Serves settings.durableNamespace t' from
    ⟨⟨hsound, this.1.1.trans h.settings_eq, this.1.2⟩, this.2⟩
  have hmove := step_move h.sound.accurate store hserves hkeeps
  generalize (s.step store command).2.cache = c, (s.step store command).2.contents = contents at hmove ⊢
  cases hmove with
  | written hadds =>
    obtain ⟨-, -, -, -, hgood⟩ := Tier.applyCount_spec (s.writes command) (hadds.start_eq ▸ hstore') h.good
    exact ⟨⟨rfl, hgood⟩, _, hserves.applyCount hstore h.good hadds _⟩
  | loaded =>
    obtain ⟨deleted, hsends⟩ := Cache.loadAll_sends s.now (t.rehydrate store s.now s.contents).1.live s.cache
    exact ⟨⟨Cache.loadAll_settings .., (Tier.rehydrate_fewer hstore' s.now h.good).1⟩, _,
      hserves.sendAll hsends (by simp)⟩
  | trimmed _ trims => exact ⟨⟨trims.settings_eq, h.good⟩, hserves.trims trims⟩
  | stored _ trims =>
    obtain ⟨t', hserves'⟩ := hserves.trims trims
    exact ⟨⟨(Cache.replace_settings ..).trans trims.settings_eq, h.good⟩, _,
      hserves'.sendAll (Cache.replace_sends ..) fun _ _ => Cache.ownKey_replacementOps⟩
  | cleared =>
    have hsends : s.cache.clear.tier = s.cache.tier.map fun t => t.sendAll [.clear] := rfl
    exact ⟨⟨rfl, h.good⟩, _, hserves.sendAll hsends (by simp)⟩

/-- Records under their own keys stay so. -/
theorem Orderly.ownKeys_step (hstore : store.Faultless (settings.durableNamespace ++ ":") good)
    (h : s.Orderly settings good) (hserves : s.cache.Serves settings.durableNamespace t)
    (hown : store.OwnKeys (settings.durableNamespace ++ ":") s.contents) {command : Command}
    (hkeeps : command.keepsTier = true) :
    store.OwnKeys (settings.durableNamespace ++ ":") (s.step store command).2.contents := by
  have hstore' : store.Faultless t.start good := hserves.start_eq ▸ hstore
  have hmove := step_move h.sound.accurate store hserves hkeeps
  generalize (s.step store command).2.cache = c, (s.step store command).2.contents = contents at hmove ⊢
  cases hmove with
  | @written _ t' hadds =>
    have hstart : t'.start = settings.durableNamespace ++ ":" := hadds.start_eq.trans hserves.start_eq
    have hqueued : ∀ key record, .put key record ∈ t'.pending → Snapshot.OwnKey key record :=
      fun key record hmem => hserves.queued key record (hadds.put_mem hmem)
    have hkept := Store.OwnKeys.applyCount (hstart ▸ hown) (hadds.start_eq ▸ hstore') h.good hqueued
      (s.writes command)
    exact hstart ▸ hkept
  | loaded =>
    obtain ⟨-, hfewer⟩ := Tier.rehydrate_fewer hstore' s.now h.good
    rw [hserves.start_eq] at hfewer
    exact hown.fewer hfewer
  | trimmed => exact hown
  | stored => exact hown
  | cleared => exact hown

/-- Up to a removal, every command keeps the settled records covered. -/
theorem Orderly.covers_step (hstore : store.Faultless (settings.durableNamespace ++ ":") good)
    (h : s.Orderly settings good) (hcovers : s.cache.Covers store settings.durableNamespace s.contents [])
    {command : Command} (hkeeps : command.keepsTier = true) :
    (s.step store command).2.cache.Covers store settings.durableNamespace (s.step store command).2.contents [] := by
  obtain ⟨t, hserves, -⟩ := id hcovers
  have hmove := step_move h.sound.accurate store hserves hkeeps
  generalize (s.step store command).2.cache = c, (s.step store command).2.contents = contents at hmove ⊢
  cases hmove with
  | written hadds => exact hcovers.applyCount hstore h.good hserves.tier_eq hadds _
  | loaded =>
    obtain ⟨hgood, hfewer⟩ := Tier.rehydrate_fewer (hserves.start_eq ▸ hstore) s.now h.good
    rw [hserves.start_eq] at hfewer
    exact ((hcovers.fewer hstore h.good hgood hfewer).wait _).loadAll hstore hgood _ _
  | trimmed _ trims => exact hcovers.trims hstore h.good trims
  | stored _ trims => exact (hcovers.trims hstore h.good trims).replace hstore h.good _ _
  | cleared => exact hcovers.clear hstore h.good

/-- After a removal, every command leaves the key without an entry and without a record, unless it sets the key, or
loads records too early. -/
theorem Orderly.lacks_step (hstore : store.Faultless (settings.durableNamespace ++ ":") good)
    (h : s.Orderly settings good) (hlacks : s.cache.Lacks store settings.durableNamespace s.contents key lag)
    {command : Command} (hkeeps : command.keepsTier = true)
    (hset : ∀ r v o, command = .set r v o → s.cache.keyFor r = key → (s.cache.set s.now r v o).1 ≠ .ok ())
    (hlag : command = .rehydrate → lag = 0) :
    (s.step store command).2.cache.Lacks store settings.durableNamespace (s.step store command).2.contents key
      (lag - s.writes command) := by
  obtain ⟨-, t, hserves, -⟩ := id hlacks
  have hmove := step_move h.sound.accurate store hserves hkeeps
  generalize (s.step store command).2.cache = c, (s.step store command).2.contents = contents at hmove ⊢
  cases hmove with
  | written hadds => exact hlacks.applyCount hstore h.good hserves.tier_eq hadds _
  | loaded =>
    cases hlag rfl
    obtain ⟨hgood, hfewer⟩ := Tier.rehydrate_fewer (hserves.start_eq ▸ hstore) s.now h.good
    rw [hserves.start_eq] at hfewer
    obtain ⟨hnone, hown⟩ := hlacks.caught_up
    refine (hlacks.fewer hfewer).loadAll (fun snapshot hlive hkey => ?_) _
    -- a snapshot of the key would come from a record of the key, and there is none
    rw [Tier.mem_live_rehydrate (hserves.start_eq ▸ hstore) s.now h.good] at hlive
    obtain ⟨k, record, hrecord, hlive⟩ := hlive
    rw [hserves.start_eq] at hrecord
    have hk : snapshot.key = k := hown k record hrecord snapshot (Snapshot.parse_of_live? hlive)
    rw [← hk, hkey, hnone] at hrecord
    cases hrecord
  | trimmed hwrites trims =>
    rw [hwrites, Nat.sub_zero]
    exact hlacks.trims trims
  | @stored r v o c ok trims =>
    have hkey : (s.cache.entryFor s.now r v o).key ≠ key := fun hkey => hset r v o rfl hkey ok
    exact (hlacks.trims trims).replace hkey v
  | cleared => exact hlacks.clear

/-- However a session runs that was opened over a good store, it is in good order and its tier in service. -/
theorem orderly_run {settings : Settings} (codec : Codec) (clock : ManualClock)
    (hstore : store.Faultless (settings.durableNamespace ++ ":") good) {contents : σ} (hgood : good contents)
    {commands : List Command} (hkeeps : ∀ command ∈ commands, command.keepsTier = true) :
    let s := run store commands (openOver store settings codec clock contents)
    s.Orderly settings good ∧ ∃ t, s.cache.Serves settings.durableNamespace t := by
  induction commands using List.reverseRecOn with
  | nil =>
    obtain ⟨live, hload⟩ := rehydrate_eq_loadAll store
      { Cache.empty settings codec with tier := some (.ofSpace settings.durableNamespace) } clock.now contents
    have hcache : (openOver store settings codec clock contents).cache = _ := hload
    refine ⟨⟨?_, ?_, ?_⟩, Cache.serves_openOver store settings codec clock.now contents⟩
    · rw [run_nil, hcache]
      exact (Cache.sound_of_table_eq_empty rfl).loadAll clock.now live
    · rw [run_nil, hcache]
      exact Cache.loadAll_settings ..
    · exact (Tier.rehydrate_fewer (t := .ofSpace settings.durableNamespace) hstore clock.now hgood).1
  | append_singleton commands command ih =>
    obtain ⟨horderly, t, hserves⟩ := ih fun command h => hkeeps command (List.mem_append_left _ h)
    rw [run_append, run_singleton]
    exact horderly.step hstore hserves (hkeeps command (by simp))

/-- If its records stood under their own keys, they still do, and the settled ones are covered. -/
theorem covers_run {settings : Settings} (codec : Codec) (clock : ManualClock)
    (hstore : store.Faultless (settings.durableNamespace ++ ":") good) {contents : σ} (hgood : good contents)
    (hown : store.OwnKeys (settings.durableNamespace ++ ":") contents) {commands : List Command}
    (hkeeps : ∀ command ∈ commands, command.keepsTier = true) :
    let s := run store commands (openOver store settings codec clock contents)
    store.OwnKeys (settings.durableNamespace ++ ":") s.contents ∧
      s.cache.Covers store settings.durableNamespace s.contents [] := by
  induction commands using List.reverseRecOn with
  | nil => exact Cache.covers_openOver codec hstore hgood hown clock.now
  | append_singleton commands command ih =>
    have hprior : ∀ command ∈ commands, command.keepsTier = true :=
      fun command h => hkeeps command (List.mem_append_left _ h)
    obtain ⟨hown', hcovers⟩ := ih hprior
    obtain ⟨horderly, t, hserves⟩ := orderly_run codec clock hstore hgood hprior
    have hkeep := hkeeps command (by simp)
    rw [run_append, run_singleton]
    exact ⟨horderly.ownKeys_step hstore hserves hown' hkeep, horderly.covers_step hstore hcovers hkeep⟩

/-- However a session runs on after a removal, the key lacks an entry and a record, if it is not set again, and if
records are loaded only once the writer has caught up. -/
theorem Orderly.lacks_run (hstore : store.Faultless (settings.durableNamespace ++ ":") good)
    (h : s.Orderly settings good) (hlacks : s.cache.Lacks store settings.durableNamespace s.contents key lag)
    {commands : List Command} (hkeeps : ∀ command ∈ commands, command.keepsTier = true)
    (hset : ∀ a r v o b, commands = a ++ .set r v o :: b → r.key settings.volatileFields = key →
      ((run store a s).cache.set (run store a s).now r v o).1 ≠ .ok ())
    (hlag : ∀ a b, commands = a ++ .rehydrate :: b → lag ≤ written store a s) :
    (run store commands s).Orderly settings good ∧
      (run store commands s).cache.Lacks store settings.durableNamespace (run store commands s).contents key
        (lag - written store commands s) := by
  induction commands using List.reverseRecOn with
  | nil => exact ⟨h, hlacks⟩
  | append_singleton commands command ih =>
    obtain ⟨horderly, hlacks'⟩ := ih (fun command h => hkeeps command (List.mem_append_left _ h))
      (fun a r v o b heq => hset a r v o (b ++ [command]) (by rw [heq]; simp))
      (fun a b heq => hlag a (b ++ [command]) (by rw [heq]; simp))
    have hkeep := hkeeps command (by simp)
    obtain ⟨-, t, hserves, -⟩ := id hlacks'
    rw [run_append, run_singleton, written_concat, ← Nat.sub_sub]
    refine ⟨(horderly.step hstore hserves hkeep).1, horderly.lacks_step hstore hlacks' hkeep ?_ ?_⟩
    · rintro r v o rfl hkey
      rw [Cache.keyFor, horderly.settings_eq] at hkey
      exact hset commands r v o [] rfl hkey
    · rintro rfl
      exact Nat.sub_eq_zero_of_le (hlag commands [] rfl)

/-- What was removed with `invalidate` or `clear` is not read again before it is set again.  The session has a tier
over a store without faults, in which, for an `invalidate`, each record has to stand under its own key.  It runs in any
way, the writer however far behind; but after the removal records are loaded only once the writer has done what was
queued at the removal. -/
theorem removed_stays_absent (settings : Settings) (codec : Codec) (clock : ManualClock) {contents : σ}
    (hstore : store.Faultless (settings.durableNamespace ++ ":") good) (hgood : good contents)
    (before after : List Command) (r : Request) {removal : Command}
    (hremoval : removal = .clear ∨
      removal = .invalidate r ∧ store.OwnKeys (settings.durableNamespace ++ ":") contents)
    (hkeeps : ∀ command ∈ before ++ after, command.keepsTier = true) :
    let removed := run store (before ++ [removal]) (openOver store settings codec clock contents)
    (∀ a r' v o b, after = a ++ .set r' v o :: b →
        r'.key settings.volatileFields = r.key settings.volatileFields →
        ((run store a removed).cache.set (run store a removed).now r' v o).1 ≠ .ok ()) →
      (∀ a b, after = a ++ .rehydrate :: b → removed.waiting ≤ written store a removed) →
      ((run store after removed).cache.get (run store after removed).now r).1 = none := by
  intro removed hset hlag
  have hbefore : ∀ command ∈ before, command.keepsTier = true :=
    fun command h => hkeeps command (List.mem_append_left _ h)
  have hafter : ∀ command ∈ after, command.keepsTier = true :=
    fun command h => hkeeps command (List.mem_append_right _ h)
  obtain ⟨hprior, t, hserves⟩ := orderly_run codec clock hstore hgood hbefore
  have hkeep : removal.keepsTier = true := by
    rcases hremoval with rfl | ⟨rfl, -⟩ <;> rfl
  obtain ⟨horderly, -⟩ := hprior.step hstore hserves hkeep
  have hstep : removed = ((run store before (openOver store settings codec clock contents)).step store removal).2 := by
    rw [← run_singleton, ← run_append]
  have hwaiting : ∀ t, removed.cache.tier = some t → t.pending.length ≤ removed.waiting := by
    intro t htier
    rw [waiting, htier]
    exact Nat.le_refl _
  rw [← hstep] at horderly
  have hlacks : removed.cache.Lacks store settings.durableNamespace removed.contents (r.key settings.volatileFields)
      removed.waiting := by
    rcases hremoval with rfl | ⟨rfl, hown⟩
    · rw [hstep] at hwaiting ⊢
      exact hserves.lacks_clear _ _ hwaiting
    · have hall : ∀ command ∈ before ++ [.invalidate r], command.keepsTier = true :=
        List.forall_mem_append.2 ⟨hbefore, List.forall_mem_singleton.2 rfl⟩
      obtain ⟨hown', hcovers⟩ := covers_run codec clock hstore hgood hown hall
      refine Cache.Covers.lacks hstore horderly.good hown' hcovers ?_ hwaiting
      rw [hstep]
      show (Cache.remove _ (Cache.keyFor _ r) .invalidated).table.find? _ = none
      rw [Cache.remove_table, Table.find?_detach, Cache.keyFor, hprior.settings_eq, if_pos rfl]
  obtain ⟨hlast, hfree, -⟩ := horderly.lacks_run hstore hlacks hafter hset hlag
  rw [Cache.get, Cache.keyFor, hlast.settings_eq, Cache.getByKey, hfree]

private def removedRequest : Request :=
  ⟨"/a", none, none⟩

/-- The writer is one operation behind at the removal, and has done it when records are loaded. -/
private def catchingUp : List Command :=
  [.set ⟨"/b", none, none⟩ .null ⟨none, .high⟩, .writeNext, .rehydrate]

/-- A record that stands under the key of another one. -/
private def misplaced : MemoryStore :=
  MemoryStore.empty.put "memo:other" (Snapshot.record ⟨"::/a", "/a", .int 1, .epoch, 600000, .high⟩)

/-- An entry is removed by an `invalidate`, and one that was loaded from a record under another key by a `clear`. -/
theorem removed_stays_absent_caught_up :
    let removed := run MemoryStore.store
      ([.set removedRequest (.int 1) ⟨none, .high⟩, .writeNext] ++ [.invalidate removedRequest])
      (openOver MemoryStore.store .default .runLength ⟨0⟩ .empty)
    let s := run MemoryStore.store catchingUp removed
    let loaded := openOver MemoryStore.store .default .runLength ⟨0⟩ misplaced
    let s' := run MemoryStore.store catchingUp (run MemoryStore.store ([] ++ [.clear]) loaded)
    (removed.waiting = 1 ∧ s.cache.table.size = 1 ∧ (s.cache.get s.now removedRequest).1 = none) ∧
      (loaded.cache.get loaded.now removedRequest).1.isSome = true ∧
      (s'.cache.get s'.now removedRequest).1 = none := by
  have hown : Store.OwnKeys MemoryStore.store (Settings.default.durableNamespace ++ ":") .empty := by
    intro key record hrecord
    cases hrecord
  have hsorted : Assoc.Sorted misplaced.records := Assoc.sorted_insert .nil
  -- the only set is of another key, and records are loaded after one operation is done
  have hset : ∀ a r v o b, catchingUp = a ++ .set r v o :: b →
      r.key Settings.default.volatileFields ≠ removedRequest.key Settings.default.volatileFields := by
    intro a r v o b heq
    rcases a with _ | ⟨_, _ | ⟨_, _ | ⟨_, a⟩⟩⟩ <;> simp [catchingUp] at heq
    obtain ⟨⟨rfl, -⟩, -⟩ := heq
    decide +kernel
  have hload : ∀ a b, catchingUp = a ++ .rehydrate :: b → a = catchingUp.take 2 := by
    intro a b heq
    rcases a with _ | ⟨_, _ | ⟨_, _ | ⟨_, a⟩⟩⟩ <;> simp [catchingUp] at heq
    obtain ⟨rfl, rfl, -⟩ := heq
    rfl
  have hinvalidated := removed_stays_absent .default .runLength ⟨0⟩ (MemoryStore.faultless _) List.Pairwise.nil
    [.set removedRequest (.int 1) ⟨none, .high⟩, .writeNext] catchingUp removedRequest (.inr ⟨rfl, hown⟩)
    (by decide +kernel) (fun a r v o b heq hkey => absurd hkey (hset a r v o b heq))
    (fun a b heq => hload a b heq ▸ by decide +kernel)
  have hcleared := removed_stays_absent .default .runLength ⟨0⟩ (MemoryStore.faultless _) hsorted
    [] catchingUp removedRequest (.inl rfl) (by decide +kernel)
    (fun a r v o b heq hkey => absurd hkey (hset a r v o b heq)) (fun a b heq => hload a b heq ▸ by decide +kernel)
  exact ⟨⟨by decide +kernel, by decide +kernel, hinvalidated⟩, by decide +kernel, hcleared⟩

/-- What was removed is read again, if records are loaded before the writer has deleted them, or if the record does not
stand under its own key. -/
theorem removed_comes_back :
    let behind := run MemoryStore.store
      [.set removedRequest (.int 1) ⟨none, .high⟩, .write, .invalidate removedRequest, .rehydrate]
      (openOver MemoryStore.store .default .runLength ⟨0⟩ .empty)
    let cleared := run MemoryStore.store
      [.set removedRequest (.int 1) ⟨none, .high⟩, .write, .clear, .rehydrate]
      (openOver MemoryStore.store .default .runLength ⟨0⟩ .empty)
    let astray := run MemoryStore.store [.invalidate removedRequest, .write, .rehydrate]
      (openOver MemoryStore.store .default .runLength ⟨0⟩ misplaced)
    (behind.cache.get behind.now removedRequest).1.isSome = true ∧
      (cleared.cache.get cleared.now removedRequest).1.isSome = true ∧
      (astray.cache.get astray.now removedRequest).1.isSome = true := by
  decide +kernel

end Session

end ResultCache
