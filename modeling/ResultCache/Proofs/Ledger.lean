import ResultCache.Proofs.Freshness

/-!
# Every entry is accounted for

An entry comes with a set or from the store, and goes in exactly one way: it is removed for one of four reasons,
replaced by a newer one of its key, or cleared with all others (`Exit`).  The entries that went and those that are
still there are those that came and those that were there before, and the counters grow by what went for their reasons
(`Cache.Booked`).  Every command has such books (`Session.Ledger`), and so over a whole run what came is what is there
and what was counted.
-/

namespace ResultCache

/-- How an entry goes. -/
inductive Exit where
  | removed (why : Removal)
  /-- A newer entry of its key took its place. -/
  | replaced
  | cleared
deriving DecidableEq

/-- There is no other way to go. -/
theorem Exit.length_eq (exits : List Exit) :
    exits.length = exits.count (.removed .evicted) + exits.count (.removed .expired) +
      exits.count (.removed .corrupt) + exits.count (.removed .invalidated) + exits.count .replaced +
      exits.count .cleared := by
  induction exits with
  | nil => rfl
  | cons x exits ih =>
    simp only [List.length_cons, List.count_cons, ih]
    rcases x with (_ | _ | _ | _) | _ | _ <;> simp <;> omega

theorem Counters.foldl_removed (whys : List Removal) (k : Counters) :
    whys.foldl Counters.removed k = ⟨k.hits, k.misses, k.evictions + whys.count .evicted,
      k.expirations + whys.count .expired, k.corruptDrops + whys.count .corrupt⟩ := by
  induction whys generalizing k with
  | nil => rfl
  | cons why whys ih =>
    rw [List.foldl_cons, ih]
    cases why <;>
      simp [Counters.removed, Counters.expiration, Counters.eviction, Counters.corruptDrop] <;> omega

namespace Cache

variable {c c' c'' : Cache} {now : Instant} {gone : List (Entry × Removal)}

/-! ### Removals -/

/-- What is shed and what is left are what there was. -/
theorem Sheds.perm (h : Sheds now c gone c') (hc : c.table.Accurate) :
    (gone.map Prod.fst ++ c'.table.entries).Perm c.table.entries := by
  induction h with
  | nil => exact .refl _
  | cons found _ _ ih =>
    have hrest := ih (removeEntry_table .. ▸ hc.detach _)
    rw [removeEntry_table] at hrest
    exact (hrest.cons _).trans (hc.cons_detach_perm found)

theorem map_fst_label (entries : List Entry) (why : Removal) : (entries.map (·, why)).map Prod.fst = entries := by
  rw [List.map_map]
  exact List.map_id _

/-- What is shed for one reason and what is left are what there was. -/
theorem Sheds.perm_label {entries : List Entry} {why : Removal} (h : Sheds now c (entries.map (·, why)) c')
    (hc : c.table.Accurate) : (entries ++ c'.table.entries).Perm c.table.entries := by
  have hperm := h.perm hc
  rwa [map_fst_label] at hperm

theorem Sheds.counters_eq (h : Sheds now c gone c') :
    c'.counters = (gone.map Prod.snd).foldl Counters.removed c.counters := by
  induction h with
  | nil => rfl
  | cons _ _ _ ih =>
    rw [ih, removeEntry_counters]
    rfl

theorem Sheds.warrants (h : Sheds now c gone c') : ∀ d ∈ gone, c.Warrants now d.1 d.2 := by
  induction h with
  | nil => exact fun d hd => by cases hd
  | cons _ warranted _ ih =>
    intro d hd
    rcases List.mem_cons.1 hd with rfl | hd
    · exact warranted
    · exact (ih d hd).congr (removeEntry_codec ..).symm

/-! ### Books -/

/-- Some entries came and some went, each in a certain way, and the counters grew by them. -/
structure Booked (c : Cache) (arrived : List Entry) (departed : List (Entry × Exit)) (c' : Cache) : Prop where
  balanced : ((departed.map Prod.fst ++ c'.table.entries).map Entry.asMade).Perm
    ((arrived ++ c.table.entries).map Entry.asMade)
  evictions : c'.counters.evictions = c.counters.evictions + (departed.map Prod.snd).count (.removed .evicted)
  expirations : c'.counters.expirations = c.counters.expirations + (departed.map Prod.snd).count (.removed .expired)
  corruptDrops : c'.counters.corruptDrops = c.counters.corruptDrops + (departed.map Prod.snd).count (.removed .corrupt)

/-- As many entries went and are there as came and were there. -/
theorem Booked.size_eq {arrived : List Entry} {departed : List (Entry × Exit)} (h : c.Booked arrived departed c') :
    departed.length + c'.table.size = arrived.length + c.table.size := by
  have := h.balanced.length_eq
  simpa using this

theorem Booked.same (htable : c'.table = c.table) (hcounters : c'.counters = c.counters) : c.Booked [] [] c' := by
  refine ⟨?_, ?_, ?_, ?_⟩
  · rw [htable]
    exact .refl _
  all_goals
    rw [hcounters]
    rfl

theorem Booked.trans {a a' : List Entry} {d d' : List (Entry × Exit)} (h : c.Booked a d c') (h' : c'.Booked a' d' c'') :
    c.Booked (a' ++ a) (d ++ d') c'' := by
  refine ⟨?_, ?_, ?_, ?_⟩
  · have first := h.balanced
    have second := h'.balanced
    simp only [List.map_append, List.append_assoc] at first second ⊢
    -- what went first is put aside while the second step is made, and then the first one
    refine (second.append_left _).trans ?_
    rw [← List.append_assoc, ← List.append_assoc]
    refine (List.perm_append_comm.append_right _).trans ?_
    rw [List.append_assoc, List.append_assoc]
    exact first.append_left _
  · rw [h'.evictions, h.evictions, List.map_append, List.count_append, Nat.add_assoc]
  · rw [h'.expirations, h.expirations, List.map_append, List.count_append, Nat.add_assoc]
  · rw [h'.corruptDrops, h.corruptDrops, List.map_append, List.count_append, Nat.add_assoc]

/-- Of entries with one label each, either all have a certain label or none. -/
theorem count_label {α : Type} [DecidableEq α] (entries : List Entry) (label x : α) :
    ((entries.map (·, label)).map Prod.snd).count x = if label = x then entries.length else 0 := by
  have hlabels : (entries.map (·, label)).map Prod.snd = List.replicate entries.length label := by
    rw [List.map_map, ← List.map_const']
    rfl
  rw [hlabels, List.count_replicate]
  simp

/-- What is removed goes in the way of its removal. -/
def exits (gone : List (Entry × Removal)) : List (Entry × Exit) :=
  gone.map fun d => (d.1, .removed d.2)

theorem map_fst_exits (gone : List (Entry × Removal)) : (exits gone).map Prod.fst = gone.map Prod.fst := by
  rw [exits, List.map_map]
  rfl

theorem count_removed_exits (gone : List (Entry × Removal)) (why : Removal) :
    ((exits gone).map Prod.snd).count (.removed why) = (gone.map Prod.snd).count why := by
  induction gone with
  | nil => rfl
  | cons d gone ih =>
    simp only [exits, List.map_cons, List.count_cons] at ih ⊢
    rw [ih]
    simp

theorem count_exits_eq_zero (gone : List (Entry × Removal)) {way : Exit} (hway : ∀ why, way ≠ .removed why) :
    ((exits gone).map Prod.snd).count way = 0 := by
  rw [List.count_eq_zero, exits, List.map_map, List.mem_map]
  rintro ⟨d, -, heq⟩
  exact hway d.2 heq.symm

/-- Relief is nothing that a caller asked for. -/
theorem count_invalidated_relief (expired victims : List Entry) :
    ((relief expired victims).map Prod.snd).count .invalidated = 0 := by
  rw [relief, List.map_append, List.count_append, count_label, count_label, if_neg (by simp), if_neg (by simp)]

theorem Sheds.booked (h : Sheds now c gone c') (hc : c.table.Accurate) : c.Booked [] (exits gone) c' := by
  refine ⟨?_, ?_, ?_, ?_⟩
  · rw [map_fst_exits]
    exact (h.perm hc).map _
  all_goals
    rw [count_removed_exits, h.counters_eq, Counters.foldl_removed]

/-- Removals are no reads. -/
theorem Sheds.reads_eq (h : Sheds now c gone c') :
    c'.counters.hits = c.counters.hits ∧ c'.counters.misses = c.counters.misses := by
  rw [h.counters_eq, Counters.foldl_removed]
  exact ⟨rfl, rfl⟩

/-! ### Storing, clearing and loading -/

/-- A set purges and evicts, and puts its entry in if it succeeds. -/
theorem set_sheds (hc : c.table.Accurate) (now : Instant) (r : Request) (v : Json) (o : SetOptions) :
    ∃ (expired victims : List Entry) (c' : Cache), Sheds now c (relief expired victims) c' ∧
      ((∃ f, c.set now r v o = (.error f, c')) ∨
        (c.makeRoom (c.entryFor now r v o).key (c.entryFor now r v o).size now).2 = c' ∧
          c.set now r v o = (.ok (), c'.replace (c.entryFor now r v o) v)) := by
  rw [set]
  split
  · exact ⟨[], [], c, .nil c, .inl ⟨_, rfl⟩⟩
  · obtain ⟨expired, victims, sheds⟩ :=
      makeRoom_sheds hc now (c.entryFor now r v o).key (c.entryFor now r v o).size
    refine ⟨expired, victims, _, sheds, ?_⟩
    split
    · rename_i f c' heq
      rw [heq]
      exact .inl ⟨f, rfl⟩
    · rename_i c' heq
      rw [heq]
      exact .inr ⟨rfl, rfl⟩

@[simp] theorem replace_counters (c : Cache) (e : Entry) (v : Json) : (c.replace e v).counters = c.counters := by
  simp only [replace]
  split <;> split <;> rfl

theorem entries_attach {t : Table} {e : Entry} (h : t.find? e.key = none) : (t.attach e).entries = e :: t.entries := by
  rw [Table.attach, h]
  rfl

/-- An entry that is put in takes the place of the one that is there. -/
theorem booked_replace (hc : c.table.Accurate) (e : Entry) (v : Json) :
    c.Booked [e] ((c.table.find? e.key).toList.map (·, .replaced)) (c.replace e v) := by
  have hfree : (c.table.detach e.key).find? e.key = none := by rw [Table.find?_detach, if_pos rfl]
  have hcount : ∀ why,
      (((c.table.find? e.key).toList.map (·, Exit.replaced)).map Prod.snd).count (.removed why) = 0 := by
    intro why
    rw [count_label, if_neg (by simp)]
  refine ⟨?_, ?_, ?_, ?_⟩
  · rw [replace_table, entries_attach hfree]
    refine List.Perm.map _ ?_
    cases hfind : c.table.find? e.key with
    | none =>
      rw [Table.detach_eq_self hfind]
      exact .refl _
    | some old => exact (List.Perm.swap ..).trans ((hc.cons_detach_perm hfind).cons e)
  all_goals rw [hcount, replace_counters, Nat.add_zero]

theorem booked_clear (c : Cache) : c.Booked [] (c.table.entries.map (·, .cleared)) c.clear := by
  have hcount : ∀ why, ((c.table.entries.map (·, Exit.cleared)).map Prod.snd).count (.removed why) = 0 := by
    intro why
    rw [count_label, if_neg (by simp)]
  refine ⟨?_, ?_, ?_, ?_⟩
  · rw [List.map_map]
    refine List.Perm.map _ ?_
    show (c.table.entries.map id ++ []).Perm c.table.entries
    rw [List.map_id, List.append_nil]
  all_goals rw [hcount]; rfl

/-- An entry comes if a record is loaded, and the entries of other snapshots are made as before. -/
theorem booked_load (c : Cache) (now : Instant) (s : Snapshot) :
    ∃ arrived : List Entry, arrived.length = (if (c.load now s).1 then 1 else 0) ∧
      (∀ e ∈ arrived, e = c.entryOf now s) ∧ c.Booked arrived [] (c.load now s).2 ∧
      (c.load now s).2.counters = c.counters ∧ ∀ s', (c.load now s).2.entryOf now s' = c.entryOf now s' := by
  rw [load]
  split
  · exact ⟨[], rfl, fun e he => (List.not_mem_nil he).elim, .same rfl rfl, rfl, fun _ => rfl⟩
  · rename_i hfree
    rw [Bool.not_eq_true, Option.isSome_eq_false_iff, Option.isNone_iff_eq_none] at hfree
    dsimp only
    split
    · refine ⟨[c.entryOf now s], rfl, fun e he => List.mem_singleton.1 he, ⟨?_, rfl, rfl, rfl⟩, rfl, fun _ => rfl⟩
      rw [entries_attach (show c.table.find? (c.entryOf now s).key = none from hfree)]
      exact .refl _
    · exact ⟨[], rfl, fun e he => (List.not_mem_nil he).elim, .same rfl rfl, rfl, fun _ => rfl⟩

/-- As many entries come as are told to be loaded, each the entry of a snapshot. -/
theorem booked_loadAll (now : Instant) (live : List Snapshot) (c : Cache) :
    ∃ arrived : List Entry, arrived.length = (loadAll now live c).1 ∧ (∀ e ∈ arrived, ∃ s, e = c.entryOf now s) ∧
      c.Booked arrived [] (loadAll now live c).2 ∧ (loadAll now live c).2.counters = c.counters := by
  induction live generalizing c with
  | nil => exact ⟨[], rfl, fun e he => (List.not_mem_nil he).elim, .same rfl rfl, rfl⟩
  | cons s rest ih =>
    obtain ⟨first, hfirst, hentry, hbooked, hcounters, hsame⟩ := booked_load c now s
    obtain ⟨others, hothers, hentries, hbooked', hcounters'⟩ := ih (c.load now s).2
    refine ⟨others ++ first, ?_, fun e he => ?_, hbooked.trans hbooked', hcounters'.trans hcounters⟩
    · rw [List.length_append, hfirst, hothers, Nat.add_comm]
      rfl
    · rcases List.mem_append.1 he with he | he
      · obtain ⟨s', hs'⟩ := hentries e he
        exact ⟨s', hs'.trans (hsame s')⟩
      · exact ⟨s, hentry e he⟩

/-! ### Reading -/

theorem map_asMade_update (t : Table) (key : String) (now : Instant) :
    (t.update key (·.touch now)).entries.map Entry.asMade = t.entries.map Entry.asMade := by
  simp only [Table.entries, Table.update, List.map_map]
  refine List.map_congr_left fun row _ => ?_
  simp only [Function.comp]
  split <;> rfl

/-- What a read of a key may do: it is counted once, removes no entry but that of the key, and only if that is expired
or cannot be unpacked, and leaves the others as they are. -/
structure BooksRead (c : Cache) (now : Instant) (key : String) (gone : List (Entry × Removal)) (c' : Cache) : Prop where
  booked : c.Booked [] (exits gone) c'
  key_eq : ∀ d ∈ gone, d.1.key = key
  warranted : ∀ d ∈ gone, d.2 ≠ .invalidated ∧ c.Warrants now d.1 d.2
  reads_eq : c'.counters.hits + c'.counters.misses = c.counters.hits + c.counters.misses + 1
  others_eq : ∀ x, x ≠ key → c'.table.find? x = c.table.find? x

/-- A read that removes the entry it meets. -/
theorem booksRead_removeEntry (hc : c.table.Accurate) {key : String} {e : Entry} {why : Removal}
    (found : c.table.find? key = some e) (hwhy : why ≠ .invalidated) (warranted : c.Warrants now e why) :
    c.BooksRead now key [(e, why)]
      { c.removeEntry key e why with counters := (c.removeEntry key e why).counters.miss } := by
  have sheds : Sheds now c [(e, why)] (c.removeEntry key e why) := .cons found warranted (.nil _)
  have books := sheds.booked hc
  obtain ⟨hhits, hmisses⟩ := sheds.reads_eq
  refine ⟨⟨books.balanced, books.evictions, books.expirations, books.corruptDrops⟩, fun d hd => ?_, fun d hd => ?_, ?_,
    fun x hx => ?_⟩
  · rw [List.mem_singleton.1 hd]
    exact hc.key_of_find? found
  · rw [List.mem_singleton.1 hd]
    exact ⟨hwhy, warranted⟩
  · show (c.removeEntry key e why).counters.hits + ((c.removeEntry key e why).counters.misses + 1) = _
    rw [hhits, hmisses, Nat.add_assoc]
  · show (c.removeEntry key e why).table.find? x = _
    rw [removeEntry_table, Table.find?_detach, if_neg hx]

theorem booksRead_getByKey (hc : c.table.Accurate) (now : Instant) (key : String) :
    ∃ gone, c.BooksRead now key gone (c.getByKey now key).2 := by
  rw [getByKey]
  split
  · exact ⟨[], ⟨.refl _, rfl, rfl, rfl⟩, by simp, by simp, (Nat.add_assoc ..).symm, fun _ _ => rfl⟩
  · rename_i e found
    split
    · rename_i hexpired
      exact ⟨_, booksRead_removeEntry hc found (by decide) hexpired⟩
    · rename_i hfresh
      rw [Bool.not_eq_true] at hfresh
      split
      · rename_i hdecode
        exact ⟨_, booksRead_removeEntry hc found (by decide) ⟨hfresh, hdecode⟩⟩
      · refine ⟨[], ⟨?_, rfl, rfl, rfl⟩, by simp, by simp, ?_, fun x hx => ?_⟩
        · show ((c.table.update key (·.touch now)).entries.map Entry.asMade).Perm _
          rw [map_asMade_update]
          exact .refl _
        · show c.counters.hits + 1 + c.counters.misses = _
          omega
        · rw [Table.find?_update, if_neg hx]

end Cache

/-! ### What callers are told -/

/-- What came of some commands, as callers are told: results stored, records loaded, entries removed at their wish,
entries in the table when it was cleared, and entries in whose place a result was stored. -/
structure Tally where
  stored : Nat
  loaded : Nat
  invalidated : Nat
  cleared : Nat
  replaced : Nat
deriving DecidableEq

namespace Tally

def zero : Tally :=
  ⟨0, 0, 0, 0, 0⟩

def add (a b : Tally) : Tally :=
  ⟨a.stored + b.stored, a.loaded + b.loaded, a.invalidated + b.invalidated, a.cleared + b.cleared,
    a.replaced + b.replaced⟩

end Tally

/-- Whether another cache takes the place of the one in a session. -/
def Command.restarts : Command → Bool
  | .restart _ _ => true
  | _ => false

namespace Session

variable {σ : Type} {store : Store σ} {s : Session σ} {command : Command}

/-- The entry that is in the table when a new one is put in its place, once there is room. -/
def replacedBy (s : Session σ) (e : Entry) : Option Entry :=
  (s.cache.makeRoom e.key e.size s.now).2.table.find? e.key

/-- What came of a command. -/
def tallied (store : Store σ) (s : Session σ) (command : Command) : Tally :=
  match command, (s.step store command).1 with
  | .set r v o, .stored (.ok _) =>
    { Tally.zero with stored := 1, replaced := if (s.replacedBy (s.cache.entryFor s.now r v o)).isSome then 1 else 0 }
  | .rehydrate, .count n => { Tally.zero with loaded := n }
  | .invalidate _, .flag b => { Tally.zero with invalidated := if b then 1 else 0 }
  | .invalidatePattern _, .count n => { Tally.zero with invalidated := n }
  | .clear, _ => { Tally.zero with cleared := s.cache.table.size }
  | _, _ => .zero

/-- What came of the commands of a run. -/
def tally (store : Store σ) : List Command → Session σ → Tally
  | [], _ => .zero
  | command :: commands, s => (s.tallied store command).add (tally store commands (s.step store command).2)

/-- The key that a command reads. -/
def readKey? (s : Session σ) : Command → Option String
  | .get r => some (s.cache.keyFor r)
  | .getByKey key => some key
  | .getAs r _ => some (s.cache.keyFor r)
  | _ => none

/-- Whether an entry may come by a command. -/
def Admits (s : Session σ) (command : Command) (e : Entry) : Prop :=
  (∃ r v o, command = .set r v o ∧ e = s.cache.entryFor s.now r v o) ∨
    command = .rehydrate ∧ ∃ snapshot, e = s.cache.entryOf s.now snapshot

/-- Whether an entry may go in a certain way by a command. -/
def Justifies (s : Session σ) (command : Command) (e : Entry) : Exit → Prop
  | .removed .expired => e.isExpired s.now = true
  | .removed .evicted => e.priority ≠ .critical ∨ e.isExpired s.now = true
  | .removed .corrupt => s.readKey? command = some e.key ∧ e.isExpired s.now = false ∧ s.cache.decode e.value = none
  | .removed .invalidated => (∃ r, command = .invalidate r ∧ s.cache.keyFor r = e.key) ∨
      ∃ pattern, command = .invalidatePattern pattern ∧ Text.contains e.source pattern = true
  | .replaced => ∃ r v o, command = .set r v o ∧ s.cache.keyFor r = e.key
  | .cleared => command = .clear

/-- The ledger of one command: the entries that came and went by it, counted by the cache and told to the caller. -/
structure Ledger (store : Store σ) (s : Session σ) (command : Command) (arrived : List Entry)
    (departed : List (Entry × Exit)) : Prop where
  booked : s.cache.Booked arrived departed (s.step store command).2.cache
  admitted : ∀ e ∈ arrived, s.Admits command e
  justified : ∀ d ∈ departed, s.Justifies command d.1 d.2
  arrived_eq : arrived.length = (s.tallied store command).stored + (s.tallied store command).loaded
  invalidated_eq : (departed.map Prod.snd).count (.removed .invalidated) = (s.tallied store command).invalidated
  replaced_eq : (departed.map Prod.snd).count .replaced = (s.tallied store command).replaced
  cleared_eq : (departed.map Prod.snd).count .cleared = (s.tallied store command).cleared
  /-- Every read is counted, and nothing else. -/
  reads_eq : (s.step store command).2.cache.counters.hits + (s.step store command).2.cache.counters.misses =
    s.cache.counters.hits + s.cache.counters.misses + if (s.readKey? command).isSome then 1 else 0
  /-- A read leaves all other entries as they are. -/
  others_eq : ∀ key, s.readKey? command = some key → ∀ x, x ≠ key →
    (s.step store command).2.cache.table.find? x = s.cache.table.find? x

theorem justifies_of_warrants {e : Entry} {why : Removal} (h : s.cache.Warrants s.now e why)
    (hcommand : why = .expired ∨ why = .evicted) : s.Justifies command e (.removed why) := by
  rcases hcommand with rfl | rfl
  · exact h
  · show e.priority ≠ .critical ∨ e.isExpired s.now = true
    have hfree : e.isProtected s.now = false := h
    rw [Entry.isProtected, Bool.and_eq_false_iff, beq_eq_false_iff_ne, Bool.not_eq_false'] at hfree
    exact hfree

/-- A command that leaves the entries and the counters alone needs no entry in the ledger. -/
theorem ledger_of_same (htable : (s.step store command).2.cache.table = s.cache.table)
    (hcounters : (s.step store command).2.cache.counters = s.cache.counters) (hread : s.readKey? command = none)
    (htally : s.tallied store command = .zero) : s.Ledger store command [] [] := by
  refine ⟨.same htable hcounters, fun e he => (List.not_mem_nil he).elim, fun d hd => (List.not_mem_nil hd).elim, ?_,
    ?_, ?_, ?_, ?_, fun key hkey => ?_⟩
  · rw [htally]; rfl
  · rw [htally]; rfl
  · rw [htally]; rfl
  · rw [htally]; rfl
  · rw [hcounters, hread]; rfl
  · rw [hread] at hkey
    cases hkey

/-- A command that only removes entries accounts for these. -/
theorem ledger_of_sheds {gone : List (Entry × Removal)} (hc : s.cache.table.Accurate)
    (h : Cache.Sheds s.now s.cache gone (s.step store command).2.cache) (hread : s.readKey? command = none)
    (htally : s.tallied store command = { Tally.zero with invalidated := (gone.map Prod.snd).count .invalidated })
    (hjustified : ∀ d ∈ gone, s.Justifies command d.1 (.removed d.2)) :
    s.Ledger store command [] (Cache.exits gone) := by
  obtain ⟨hhits, hmisses⟩ := h.reads_eq
  refine ⟨h.booked hc, fun e he => (List.not_mem_nil he).elim, fun d hd => ?_, ?_, ?_, ?_, ?_, ?_, fun key hkey => ?_⟩
  · obtain ⟨d', hd', rfl⟩ := List.mem_map.1 hd
    exact hjustified d' hd'
  · rw [htally]; rfl
  · rw [htally]
    exact Cache.count_removed_exits gone .invalidated
  · rw [htally]
    exact Cache.count_exits_eq_zero gone (by simp)
  · rw [htally]
    exact Cache.count_exits_eq_zero gone (by simp)
  · rw [hhits, hmisses, hread]; rfl
  · rw [hread] at hkey
    cases hkey

/-- A read accounts for the entry that it removes, if it does. -/
theorem ledger_of_read (key : String) (hc : s.cache.table.Accurate) (hread : s.readKey? command = some key)
    (hcache : (s.step store command).2.cache = (s.cache.getByKey s.now key).2)
    (htally : s.tallied store command = .zero) : ∃ departed, s.Ledger store command [] departed := by
  obtain ⟨gone, h⟩ := Cache.booksRead_getByKey hc s.now key
  rw [← hcache] at h
  refine ⟨Cache.exits gone, h.booked, fun e he => (List.not_mem_nil he).elim, fun d hd => ?_, ?_, ?_, ?_, ?_, ?_,
    fun key' hkey' => ?_⟩
  · obtain ⟨⟨e, why⟩, hd', rfl⟩ := List.mem_map.1 hd
    obtain ⟨hwhy, hwarrants⟩ := h.warranted _ hd'
    cases why with
    | expired => exact justifies_of_warrants hwarrants (.inl rfl)
    | evicted => exact justifies_of_warrants hwarrants (.inr rfl)
    | corrupt => exact ⟨hread.trans (congrArg some (h.key_eq _ hd').symm), hwarrants⟩
    | invalidated => exact absurd rfl hwhy
  · rw [htally]; rfl
  · rw [htally, Cache.count_removed_exits]
    refine List.count_eq_zero.2 fun hmem => ?_
    obtain ⟨d, hd, heq⟩ := List.mem_map.1 hmem
    exact (h.warranted d hd).1 heq
  · rw [htally]
    exact Cache.count_exits_eq_zero gone (by simp)
  · rw [htally]
    exact Cache.count_exits_eq_zero gone (by simp)
  · rw [h.reads_eq, hread]; rfl
  · rw [hread] at hkey'
    cases hkey'
    exact h.others_eq

theorem justifies_relief {expired victims : List Entry} {c : Cache}
    (h : Cache.Sheds s.now s.cache (Cache.relief expired victims) c) :
    ∀ d ∈ Cache.relief expired victims, s.Justifies command d.1 (.removed d.2) := by
  intro d hd
  refine justifies_of_warrants (h.warrants d hd) ?_
  rcases List.mem_append.1 hd with hd | hd
  · obtain ⟨e, -, rfl⟩ := List.mem_map.1 hd
    exact .inl rfl
  · obtain ⟨e, -, rfl⟩ := List.mem_map.1 hd
    exact .inr rfl

/-- A command that purges and evicts accounts for what it removes. -/
theorem ledger_of_relief (expired victims : List Entry) (hc : s.cache.table.Accurate)
    (h : Cache.Sheds s.now s.cache (Cache.relief expired victims) (s.step store command).2.cache)
    (hread : s.readKey? command = none) (htally : s.tallied store command = .zero) :
    ∃ departed, s.Ledger store command [] departed := by
  refine ⟨_, ledger_of_sheds hc h hread ?_ (justifies_relief h)⟩
  rw [htally, Cache.count_invalidated_relief]
  rfl

/-- A set accounts for what it purges and evicts; and if it succeeds, for the new entry and the one it replaces. -/
theorem ledger_set (store : Store σ) (hc : s.cache.table.Accurate) (r : Request) (v : Json) (o : SetOptions) :
    ∃ arrived departed, s.Ledger store (.set r v o) arrived departed := by
  obtain ⟨expired, victims, c, sheds, ⟨f, hset⟩ | ⟨hroom, hset⟩⟩ := Cache.set_sheds hc s.now r v o
  · refine ⟨[], ledger_of_relief expired victims hc ?_ rfl ?_⟩
    · simp only [step, hset]
      exact sheds
    · simp only [tallied, step, hset]
  obtain ⟨e, he⟩ : ∃ e, s.cache.entryFor s.now r v o = e := ⟨_, rfl⟩
  rw [he] at hset hroom
  have hstep : (s.step store (.set r v o)).2.cache = c.replace e v := by simp only [step, hset]; rfl
  have htally : s.tallied store (.set r v o) =
      { Tally.zero with stored := 1, replaced := if (c.table.find? e.key).isSome then 1 else 0 } := by
    simp only [tallied, step, hset, he, replacedBy, hroom]
  have haccurate : c.table.Accurate := sheds.trims.accurate hc
  obtain ⟨hhits, hmisses⟩ := sheds.reads_eq
  have hold : ∀ way : Exit, way ≠ .replaced →
      (((c.table.find? e.key).toList.map (·, Exit.replaced)).map Prod.snd).count way = 0 := by
    intro way hway
    rw [Cache.count_label, if_neg hway.symm]
  refine ⟨_, _, hstep ▸ (sheds.booked hc).trans (Cache.booked_replace haccurate e v), fun e' he' => ?_,
    fun d hd => ?_, ?_, ?_, ?_, ?_, ?_, fun key hkey => by cases hkey⟩
  · rw [List.append_nil, List.mem_singleton] at he'
    exact .inl ⟨r, v, o, rfl, he'.trans he.symm⟩
  · rcases List.mem_append.1 hd with hd | hd
    · obtain ⟨d', hd', rfl⟩ := List.mem_map.1 hd
      exact justifies_relief sheds d' hd'
    · obtain ⟨old, hold, rfl⟩ := List.mem_map.1 hd
      have hkey : old.key = e.key := haccurate.key_of_find? (Option.mem_toList.1 hold)
      exact ⟨r, v, o, rfl, (congrArg Entry.key he).trans hkey.symm⟩
  · rw [htally]
    rfl
  · rw [htally, List.map_append, List.count_append, Cache.count_removed_exits, Cache.count_invalidated_relief,
      hold _ (by simp)]
    rfl
  · rw [htally, List.map_append, List.count_append, Cache.count_exits_eq_zero _ (by simp)]
    cases c.table.find? e.key <;> rfl
  · rw [htally, List.map_append, List.count_append, Cache.count_exits_eq_zero _ (by simp), hold _ (by simp)]
    rfl
  · rw [hstep, Cache.replace_counters, hhits, hmisses]
    rfl

/-- Loading accounts for what it puts in. -/
theorem ledger_rehydrate (store : Store σ) (s : Session σ) :
    ∃ arrived departed, s.Ledger store .rehydrate arrived departed := by
  cases htier : s.cache.tier with
  | none =>
    have hstep : (s.step store .rehydrate).2.cache = s.cache := by simp only [step, Cache.rehydrate, htier]
    have htally : s.tallied store .rehydrate = .zero := by simp only [tallied, step, Cache.rehydrate, htier]; rfl
    exact ⟨[], [], ledger_of_same (by rw [hstep]) (by rw [hstep]) rfl htally⟩
  | some t =>
    obtain ⟨found, hfound⟩ : ∃ found, (t.rehydrate store s.now s.contents).1.live = found := ⟨_, rfl⟩
    have hstep : (s.step store .rehydrate).2.cache = (Cache.loadAll s.now found s.cache).2 := by
      simp only [step, Cache.rehydrate, htier, hfound]
    have htally : s.tallied store .rehydrate =
        { Tally.zero with loaded := (Cache.loadAll s.now found s.cache).1 } := by
      simp only [tallied, step, Cache.rehydrate, htier, hfound]
    obtain ⟨arrived, hlength, hentries, hbooked, hcounters⟩ := Cache.booked_loadAll s.now found s.cache
    refine ⟨arrived, [], hstep ▸ hbooked, fun e he => .inr ⟨rfl, hentries e he⟩,
      fun d hd => (List.not_mem_nil hd).elim, ?_, ?_, ?_, ?_, ?_, fun key hkey => by cases hkey⟩
    · rw [htally, hlength]
      exact (Nat.zero_add _).symm
    · rw [htally]; rfl
    · rw [htally]; rfl
    · rw [htally]; rfl
    · rw [hstep, hcounters]; rfl

theorem ledger_clear (store : Store σ) (s : Session σ) :
    ∃ arrived departed, s.Ledger store .clear arrived departed := by
  have hcount : ∀ way : Exit, way ≠ .cleared →
      ((s.cache.table.entries.map (·, Exit.cleared)).map Prod.snd).count way = 0 := by
    intro way hway
    rw [Cache.count_label, if_neg hway.symm]
  refine ⟨[], _, s.cache.booked_clear, fun e he => (List.not_mem_nil he).elim, fun d hd => ?_, rfl,
    hcount _ (by simp), hcount _ (by simp), ?_, rfl, fun key hkey => by cases hkey⟩
  · obtain ⟨e, -, rfl⟩ := List.mem_map.1 hd
    rfl
  · rw [Cache.count_label, if_pos rfl, Table.length_entries]
    rfl

/-- Every command has a ledger, as long as the cache of the session is the same. -/
theorem step_ledger (store : Store σ) (hc : s.cache.table.Accurate) {command : Command}
    (hsame : command.restarts = false) : ∃ arrived departed, s.Ledger store command arrived departed := by
  have same : ∀ {command : Command}, (s.step store command).2.cache.table = s.cache.table →
      (s.step store command).2.cache.counters = s.cache.counters → s.readKey? command = none →
      s.tallied store command = .zero → ∃ arrived departed, s.Ledger store command arrived departed :=
    fun htable hcounters hread htally => ⟨[], [], ledger_of_same htable hcounters hread htally⟩
  cases command with
  | set r v o => exact ledger_set store hc r v o
  | get r => exact ⟨[], ledger_of_read (s.cache.keyFor r) hc rfl rfl rfl⟩
  | getByKey key => exact ⟨[], ledger_of_read key hc rfl rfl rfl⟩
  | getAs r kind => exact ⟨[], ledger_of_read (s.cache.keyFor r) hc rfl rfl rfl⟩
  | invalidate r =>
    refine ⟨[], _, ledger_of_sheds hc (Cache.remove_sheds s.cache s.now (s.cache.keyFor r)) rfl ?_ fun d hd => ?_⟩
    · simp only [tallied, step, Cache.invalidate]
      cases s.cache.table.find? (s.cache.keyFor r) <;> rfl
    · obtain ⟨e, he, rfl⟩ := List.mem_map.1 hd
      exact .inl ⟨r, rfl, (hc.key_of_find? (Option.mem_toList.1 he)).symm⟩
  | invalidatePattern pattern =>
    refine ⟨[], _, ledger_of_sheds hc (Cache.invalidatePattern_sheds hc s.now pattern) rfl ?_ fun d hd => ?_⟩
    · rw [Cache.count_label, if_pos rfl]
      simp only [tallied, step, Cache.invalidatePattern, List.length_map]
    · obtain ⟨e, he, rfl⟩ := List.mem_map.1 hd
      exact .inr ⟨pattern, rfl, (List.mem_filter.1 he).2⟩
  | clear => exact ledger_clear store s
  | purge =>
    exact ⟨[], ledger_of_relief _ [] hc ((Cache.purgeExpired_sheds hc s.now).append (.nil _)) rfl rfl⟩
  | relieve =>
    obtain ⟨victims, -, h⟩ := Cache.relievePressure_sheds hc s.now
    exact ⟨[], ledger_of_relief [] _ hc h rfl rfl⟩
  | tick at' =>
    obtain ⟨expired, victims, h⟩ := Schedule.tick_sheds hc s.schedule (at'.getD s.now) s.now
    exact ⟨[], ledger_of_relief _ _ hc h rfl rfl⟩
  | maintain =>
    obtain ⟨expired, victims, h⟩ := Schedule.tick_sheds hc (.fresh s.cache.settings) s.now s.now
    exact ⟨[], ledger_of_relief _ _ hc h rfl rfl⟩
  | rehydrate => exact ledger_rehydrate store s
  | has r => exact same rfl rfl rfl rfl
  | advance span => exact same rfl rfl rfl rfl
  | setClock t => exact same rfl rfl rfl rfl
  | writeNext =>
    refine same ?_ ?_ rfl rfl <;> simp only [step, writeNext] <;> split <;> rfl
  | write =>
    refine same ?_ ?_ rfl rfl <;> simp only [step, write] <;> split <;> rfl
  | barrier =>
    refine same ?_ ?_ rfl rfl <;> simp only [step, writeToBarrier] <;> split <;> rfl
  | disconnect => exact same rfl rfl rfl rfl
  | restart settings codec => cases hsame

/-- By one command, what came is what is there and what went, beyond what was there before. -/
theorem Ledger.balance {arrived : List Entry} {departed : List (Entry × Exit)}
    (h : s.Ledger store command arrived departed) :
    let c := (s.step store command).2.cache
    let t := s.tallied store command
    t.stored + t.loaded + (s.cache.table.size + s.cache.counters.evictions + s.cache.counters.expirations +
        s.cache.counters.corruptDrops) =
      c.table.size + c.counters.evictions + c.counters.expirations + c.counters.corruptDrops + t.invalidated +
        t.cleared + t.replaced := by
  dsimp only
  have hsize := h.booked.size_eq
  have hways := Exit.length_eq (departed.map Prod.snd)
  have harrived := h.arrived_eq
  have hevictions := h.booked.evictions
  have hexpirations := h.booked.expirations
  have hcorrupt := h.booked.corruptDrops
  rw [List.length_map, h.invalidated_eq, h.replaced_eq, h.cleared_eq] at hways
  omega

/-- The same for a run. -/
theorem run_balance (store : Store σ) (hs : s.Reachable store) {commands : List Command}
    (hsame : ∀ command ∈ commands, command.restarts = false) :
    let c := (run store commands s).cache
    let t := tally store commands s
    t.stored + t.loaded + (s.cache.table.size + s.cache.counters.evictions + s.cache.counters.expirations +
        s.cache.counters.corruptDrops) =
      c.table.size + c.counters.evictions + c.counters.expirations + c.counters.corruptDrops + t.invalidated +
        t.cleared + t.replaced := by
  induction commands generalizing s with
  | nil =>
    simp only [run_nil, tally, Tally.zero]
    omega
  | cons command commands ih =>
    obtain ⟨arrived, departed, ledger⟩ := step_ledger store hs.sound.accurate (hsame command List.mem_cons_self)
    have first := ledger.balance
    have others := ih (hs.step command) fun command h => hsame command (List.mem_cons_of_mem _ h)
    simp only [tally, Tally.add, show run store (command :: commands) s = run store commands (s.step store command).2
      from rfl] at first others ⊢
    omega

/-- Over any run of a cache from empty, the results that were stored and the records that were loaded are the entries
that are there and those that went, each of which was evicted, expired or corrupt and was counted as that, or was
removed at a caller's wish, cleared, or replaced.  And every single command has a ledger that accounts for each entry
that comes and goes by it. -/
theorem run_keeps_ledger (settings : Settings) (codec : Codec) (tier : Option Tier) (clock : ManualClock)
    (schedule : Schedule) (contents : σ) (store : Store σ) {commands : List Command}
    (hsame : ∀ command ∈ commands, command.restarts = false) :
    let start := ofEmpty settings codec tier clock schedule contents
    let s := run store commands start
    let t := tally store commands start
    let k := s.cache.counters
    t.stored + t.loaded =
        s.cache.table.size + k.evictions + k.expirations + k.corruptDrops + t.invalidated + t.cleared + t.replaced ∧
      ∀ command, command.restarts = false → ∃ arrived departed, s.Ledger store command arrived departed := by
  intro start s t k
  have hstart : start.Reachable store := .ofEmpty ..
  refine ⟨?_, fun command h => step_ledger store (hstart.run commands).sound.accurate h⟩
  exact run_balance store hstart hsame

/-- One result is replaced, one expires, one is invalidated, and one is cleared. -/
private def comingAndGoing : List Command :=
  [.set ⟨"/a", none, none⟩ (.int 1) .default, .set ⟨"/a", none, none⟩ (.int 2) .default,
   .set ⟨"/b", none, none⟩ .null ⟨some (Span.ofMillis 1000), .low⟩, .advance (Span.ofMillis 2000),
   .getByKey "::/b", .invalidate ⟨"/a", none, none⟩, .set ⟨"/c", none, none⟩ .null .default, .clear]

theorem run_keeps_ledger_emptied :
    let start := ofEmpty Settings.default .runLength none ⟨0⟩ (.fresh .default) MemoryStore.empty
    let s := run MemoryStore.store comingAndGoing start
    let t := tally MemoryStore.store comingAndGoing start
    t = ⟨4, 0, 1, 1, 1⟩ ∧ s.cache.counters = ⟨0, 1, 0, 1, 0⟩ ∧ t.stored + t.loaded =
      s.cache.table.size + s.cache.counters.evictions + s.cache.counters.expirations + s.cache.counters.corruptDrops +
        t.invalidated + t.cleared + t.replaced :=
  ⟨by decide +kernel, by decide +kernel,
    (run_keeps_ledger .default .runLength none ⟨0⟩ (.fresh .default) MemoryStore.empty MemoryStore.store
      (by decide +kernel)).1⟩

end Session

end ResultCache
