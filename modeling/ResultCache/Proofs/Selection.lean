import Mathlib.Data.List.Nodup
import Mathlib.Order.Bounds.Basic
import ResultCache.Proofs.Text.Order
import ResultCache.Table
import ResultCache.Victims

/-!
# What a pass selects

The entries that may be removed stand in one order only, by their scores and then by the bytes of their keys
(`Victims.Ranking`), so that the order of the table does not show.  A pass takes the first of them until it has taken
enough or as many as it may (`Victims.select_spec`).
-/

namespace ResultCache

namespace Table

theorem totalSize_append (a b : List Entry) : totalSize (a ++ b) = totalSize a + totalSize b := by
  simp [totalSize]

theorem totalSize_perm {a b : List Entry} (h : a.Perm b) : totalSize a = totalSize b :=
  (h.map Entry.size).sum_nat

theorem totalSize_take_le {i j : Nat} (h : i ≤ j) (entries : List Entry) :
    totalSize (entries.take i) ≤ totalSize (entries.take j) := by
  rw [← List.take_append_drop i (entries.take j), List.take_take, Nat.min_eq_left h, totalSize_append]
  exact Nat.le_add_right ..

end Table

namespace Victims

variable {w : Weights} {limits : PassLimits} {now : Instant} {target : Target} {entries : List Entry}

/-! ### The order of removal -/

/-- The smaller score goes first, and of equal scores the smaller key, byte by byte. -/
def Precedes (w : Weights) (now : Instant) (a b : Entry) : Prop :=
  a.rank w now < b.rank w now ∨ a.rank w now = b.rank w now ∧ Text.utf8 a.key < Text.utf8 b.key

/-- The entries that may be removed, in the order of removal. -/
structure Ranking (w : Weights) (now : Instant) (entries order : List Entry) : Prop where
  perm : order.Perm (entries.filter fun e => !(e.priority == .critical && !e.isExpired now))
  sorted : order.Pairwise (Precedes w now)

theorem Precedes.asymm {a b : Entry} (h : Precedes w now a b) : ¬Precedes w now b a := by
  rintro (hlt | ⟨heq, hkey⟩)
  · rcases h with h | ⟨h, -⟩ <;> omega
  · rcases h with h | ⟨-, h⟩
    · omega
    · exact List.lt_asymm h hkey

theorem goesBefore_iff {a b : Entry} : goesBefore w now a b = true ↔
    a.rank w now < b.rank w now ∨ a.rank w now = b.rank w now ∧ a.key ≤ b.key := by
  simp [goesBefore]

theorem goesBefore_trans {a b c : Entry} (hab : goesBefore w now a b = true) (hbc : goesBefore w now b c = true) :
    goesBefore w now a c = true := by
  rw [goesBefore_iff] at hab hbc ⊢
  rcases hab with hab | ⟨hab, hkey⟩
  · exact .inl (by rcases hbc with hbc | ⟨hbc, -⟩ <;> omega)
  · rcases hbc with hbc | ⟨hbc, hkey'⟩
    · exact .inl (hab ▸ hbc)
    · exact .inr ⟨hab.trans hbc, String.le_trans hkey hkey'⟩

theorem goesBefore_total (w : Weights) (now : Instant) (a b : Entry) :
    (goesBefore w now a b || goesBefore w now b a) = true := by
  rw [Bool.or_eq_true, goesBefore_iff, goesBefore_iff]
  rcases Int.lt_trichotomy (a.rank w now) (b.rank w now) with h | h | h
  · exact .inl (.inl h)
  · exact (String.le_total a.key b.key).imp (fun hkey => .inr ⟨h, hkey⟩) fun hkey => .inr ⟨h.symm, hkey⟩
  · exact .inr (.inl h)

/-- Of two entries with different keys one goes first. -/
theorem precedes_of_goesBefore {a b : Entry} (h : goesBefore w now a b = true) (hkey : a.key ≠ b.key) :
    Precedes w now a b := by
  rcases goesBefore_iff.1 h with h | ⟨h, hle⟩
  · exact .inl h
  · refine .inr ⟨h, Text.utf8_lt_utf8_iff.2 (Decidable.byContradiction fun hn => hkey ?_)⟩
    exact String.le_antisymm hle (String.not_lt.1 hn)

theorem candidates_perm (w : Weights) (now : Instant) (entries : List Entry) :
    (candidates w now entries).Perm (entries.filter fun e => !e.isProtected now) :=
  List.mergeSort_perm ..

theorem ranking_candidates (hkeys : (entries.map Entry.key).Nodup) (w : Weights) (now : Instant) :
    Ranking w now entries (candidates w now entries) where
  perm := candidates_perm w now entries
  sorted := by
    have hsorted : (candidates w now entries).Pairwise fun a b => goesBefore w now a b = true :=
      @List.pairwise_mergeSort Entry (goesBefore w now) (fun _ _ _ => goesBefore_trans) (goesBefore_total w now) _
    have hdistinct : (candidates w now entries).Pairwise fun a b => a.key ≠ b.key := by
      have hperm := (candidates_perm w now entries).map Entry.key
      have hfilter := hkeys.sublist ((List.filter_sublist (p := fun e => !e.isProtected now)).map Entry.key)
      exact List.pairwise_map.1 (hperm.nodup_iff.2 hfilter)
    exact (hsorted.and hdistinct).imp fun h => precedes_of_goesBefore h.1 h.2

/-- There is only one such order, whatever the order of the entries. -/
theorem Ranking.unique {entries' order order' : List Entry} (h : Ranking w now entries order)
    (h' : Ranking w now entries' order') (hperm : entries.Perm entries') : order = order' :=
  List.Perm.eq_of_pairwise (fun _ _ _ _ hab hba => absurd hba hab.asymm) h.sorted h'.sorted
    ((h.perm.trans (hperm.filter _)).trans h'.perm.symm)

theorem Ranking.eq_candidates {order : List Entry} (h : Ranking w now entries order)
    (hkeys : (entries.map Entry.key).Nodup) : order = candidates w now entries :=
  h.unique (ranking_candidates hkeys w now) (.refl _)

theorem Ranking.mem_iff {order : List Entry} (h : Ranking w now entries order) {e : Entry} :
    e ∈ order ↔ e ∈ entries ∧ e.isProtected now = false := by
  rw [h.perm.mem_iff, List.mem_filter, Bool.not_eq_true']
  rfl

/-! ### How many are taken -/

/-- The first `m` entries of an order are as many as a pass takes at least, and free what is needed. -/
def Enough (limits : PassLimits) (target : Target) (order : List Entry) (m : Nat) : Prop :=
  max limits.minCount target.entries ≤ m ∧ target.bytes ≤ Table.totalSize (order.take m)

/-- Entries are taken up to the first place where there are enough of them, or no more may be taken. -/
theorem takeFrom_eq_take (cap least bytes taken freed : Nat) (l : List Entry) :
    ∃ k ≤ l.length, takeFrom cap least bytes taken freed l = l.take k ∧
      (k = l.length ∨ cap ≤ taken + k ∨ least ≤ taken + k ∧ bytes ≤ freed + Table.totalSize (l.take k)) ∧
      ∀ j < k, taken + j < cap ∧ ¬(least ≤ taken + j ∧ bytes ≤ freed + Table.totalSize (l.take j)) := by
  induction l generalizing taken freed with
  | nil => exact ⟨0, Nat.le_refl _, rfl, .inl rfl, fun j hj => absurd hj (Nat.not_lt_zero j)⟩
  | cons e rest ih =>
    rw [takeFrom]
    split
    · rename_i hcap
      exact ⟨0, Nat.zero_le _, rfl, .inr (.inl hcap), fun j hj => absurd hj (Nat.not_lt_zero j)⟩
    · rename_i hcap
      split
      · rename_i henough
        exact ⟨0, Nat.zero_le _, rfl, .inr (.inr ⟨henough.2, henough.1⟩), fun j hj => absurd hj (Nat.not_lt_zero j)⟩
      · rename_i hneeded
        obtain ⟨k, hk, heq, hstop, hbefore⟩ := ih (taken + 1) (freed + e.size)
        have hsize : ∀ i, Table.totalSize ((e :: rest).take (i + 1)) = e.size + Table.totalSize (rest.take i) :=
          fun i => by rw [List.take_succ_cons, Table.totalSize, List.map_cons, List.sum_cons]; rfl
        refine ⟨k + 1, Nat.succ_le_succ hk, by rw [heq, List.take_succ_cons], ?_, fun j hj => ?_⟩
        · rw [hsize, List.length_cons]
          omega
        · -- before the first entry there was need of it, and before the others by induction
          cases j with
          | zero =>
            refine ⟨by omega, fun henough => hneeded ⟨?_, henough.1⟩⟩
            simpa [Table.totalSize] using henough.2
          | succ j =>
            obtain ⟨hcap', hneeded'⟩ := hbefore j (by omega)
            rw [hsize]
            omega

/-- A pass takes the first candidates: all of them, or as many as it may, or enough, and never more than the first
number that is enough. -/
theorem select_spec (w : Weights) (limits : PassLimits) (now : Instant) (target : Target) (entries : List Entry) :
    ∃ k ≤ (candidates w now entries).length,
      select w limits now target entries = (candidates w now entries).take k ∧ k ≤ limits.cap entries.length ∧
      (k = (candidates w now entries).length ∨ k = limits.cap entries.length ∨
        Enough limits target (candidates w now entries) k) ∧
      ∀ j < k, ¬Enough limits target (candidates w now entries) j := by
  obtain ⟨k, hk, heq, hstop, hbefore⟩ := takeFrom_eq_take (limits.cap entries.length)
    (max limits.minCount target.entries) target.bytes 0 0 (candidates w now entries)
  have hcap : k ≤ limits.cap entries.length := by
    cases k with
    | zero => exact Nat.zero_le _
    | succ j =>
      have := (hbefore j (Nat.lt_succ_self j)).1
      omega
  simp only [Nat.zero_add] at hstop hbefore
  refine ⟨k, hk, heq, hcap, ?_, fun j hj => (hbefore j hj).2⟩
  exact hstop.imp_right fun h => h.imp_left fun h => Nat.le_antisymm hcap h

/-- Where some number is enough, a pass ends at the first one, unless the candidates or the cap end it before. -/
theorem select_eq_take_of_isLeast {m : Nat} (hm : IsLeast {m | Enough limits target (candidates w now entries) m} m) :
    select w limits now target entries =
      (candidates w now entries).take (min (min (candidates w now entries).length (limits.cap entries.length)) m) := by
  obtain ⟨k, hk, heq, hcap, hstop, hbefore⟩ := select_spec w limits now target entries
  have hle : k ≤ m := Nat.not_lt.1 fun h => hbefore m h hm.1
  have hmin : k = min (min (candidates w now entries).length (limits.cap entries.length)) m := by
    rcases hstop with h | h | h
    · omega
    · omega
    · have := hm.2 h
      omega
  rw [heq, ← hmin]

theorem select_eq_take_of_not_enough (hnone : ∀ m, ¬Enough limits target (candidates w now entries) m) :
    select w limits now target entries =
      (candidates w now entries).take (min (candidates w now entries).length (limits.cap entries.length)) := by
  obtain ⟨k, hk, heq, hcap, hstop, -⟩ := select_spec w limits now target entries
  have hmin : k = min (candidates w now entries).length (limits.cap entries.length) := by
    rcases hstop with h | h | h
    · omega
    · omega
    · exact absurd h (hnone k)
  rw [heq, ← hmin]

/-- The order in which the entries are given does not show. -/
theorem select_eq_of_perm (hkeys : (entries.map Entry.key).Nodup) {entries' : List Entry} (h : entries'.Perm entries)
    (w : Weights) (limits : PassLimits) (now : Instant) (target : Target) :
    select w limits now target entries' = select w limits now target entries := by
  have hkeys' : (entries'.map Entry.key).Nodup := (h.map Entry.key).nodup_iff.2 hkeys
  have hsame : candidates w now entries' = candidates w now entries :=
    (ranking_candidates hkeys' w now).unique (ranking_candidates hkeys w now) h
  rw [select, select, hsame, h.length_eq]

/-- The entries that a pass removes are the first of those that may be removed, in the one order by score and key: as
many as there are, or as the cap allows, or as are enough, whichever is fewest.  The cap allows one at least, and the
order in which the entries are given does not matter. -/
theorem select_eq_first (hkeys : (entries.map Entry.key).Nodup) (w : Weights) (limits : PassLimits) (now : Instant)
    (target : Target) :
    (∀ total, 1 ≤ limits.cap total) ∧
      (∃ order, Ranking w now entries order ∧ (∀ order', Ranking w now entries order' → order' = order) ∧
        (∀ m, IsLeast {m | Enough limits target order m} m →
          select w limits now target entries =
            order.take (min (min order.length (limits.cap entries.length)) m)) ∧
        ((∀ m, ¬Enough limits target order m) →
          select w limits now target entries = order.take (min order.length (limits.cap entries.length)))) ∧
      ∀ entries' : List Entry, entries'.Perm entries →
        select w limits now target entries' = select w limits now target entries := by
  refine ⟨limits.one_le_cap, ⟨candidates w now entries, ranking_candidates hkeys w now, ?_, ?_, ?_⟩, ?_⟩
  · exact fun order' h => h.eq_candidates hkeys
  · exact fun m hm => select_eq_take_of_isLeast hm
  · exact select_eq_take_of_not_enough
  · exact fun entries' h => select_eq_of_perm hkeys h w limits now target

/-- Entries that differ in their keys only. -/
private def tied (key : String) : Entry where
  key := key
  value := .plain .null
  created := .epoch
  ttl := .ofSeconds 60
  priority := .low
  accessCount := 0
  lastAccess := .epoch
  size := 5
  source := "/"
  persisted := false

theorem select_eq_first_tied :
    select .default .default .epoch ⟨1, 0⟩ [tied "b", tied "a"] = [tied "a"] ∧
      select .default .default .epoch ⟨1, 0⟩ [tied "a", tied "b"] = [tied "a"] := by
  have hkeys : ([tied "b", tied "a"].map Entry.key).Nodup := by decide
  obtain ⟨hcap, ⟨order, -, hunique, hfirst, -⟩, hperm⟩ := select_eq_first hkeys .default .default .epoch ⟨1, 0⟩
  have horder : [tied "a", tied "b"] = order := by
    refine hunique _ ⟨.swap .., ?_⟩
    exact List.pairwise_pair.2 (.inr ⟨rfl, by decide⟩)
  subst horder
  have hleast : IsLeast {m | Enough .default ⟨1, 0⟩ [tied "a", tied "b"] m} 1 :=
    ⟨⟨by decide, by decide⟩, fun m hm => hm.1⟩
  have hselect : select .default .default .epoch ⟨1, 0⟩ [tied "b", tied "a"] = [tied "a"] := by
    rw [hfirst 1 hleast, Nat.min_eq_right (Nat.le_min.2 ⟨by decide, hcap _⟩)]
    rfl
  exact ⟨hselect, (hperm _ (.swap ..)).trans hselect⟩

end Victims

end ResultCache
