/-!
# Association lists in the order of their keys

Pairs of a text and a value, each text once, smallest first.  Insertion keeps the order (`sorted_insert`), and looking
up after an insertion or a removal gives what is expected (`lookup_insert`, `lookup_erase`).
-/

namespace ResultCache.Assoc

variable {α : Type}

/-- Puts a value under a key; an older value of the key is replaced. -/
def insert (key : String) (value : α) : List (String × α) → List (String × α)
  | [] => [(key, value)]
  | (k, v) :: rest =>
    if key = k then (key, value) :: rest
    else if key < k then (key, value) :: (k, v) :: rest
    else (k, v) :: insert key value rest

/-- Removes what stands under a key. -/
def erase (key : String) (l : List (String × α)) : List (String × α) :=
  l.filter fun p => p.1 != key

/-- The keys stand in order, each once. -/
def Sorted (l : List (String × α)) : Prop :=
  l.Pairwise fun a b => a.1 < b.1

theorem mem_keys_insert {key x : String} {value : α} {l : List (String × α)} :
    x ∈ (insert key value l).map (·.1) ↔ x = key ∨ x ∈ l.map (·.1) := by
  induction l with
  | nil => simp [insert]
  | cons p rest ih =>
    obtain ⟨k, v⟩ := p
    rw [insert]
    split
    · rename_i h
      simp [h]
    · split
      · simp
      · rw [List.map_cons, List.mem_cons, ih, List.map_cons, List.mem_cons]
        exact or_left_comm

theorem sorted_insert {key : String} {value : α} {l : List (String × α)} (h : Sorted l) :
    Sorted (insert key value l) := by
  induction l with
  | nil => simp [insert, Sorted]
  | cons p rest ih =>
    obtain ⟨k, v⟩ := p
    rw [Sorted, List.pairwise_cons] at h
    rw [insert]
    split
    · rename_i hk
      subst hk
      exact List.pairwise_cons.2 h
    · rename_i hk
      split
      · rename_i hlt
        refine List.pairwise_cons.2 ⟨fun p hp => ?_, List.pairwise_cons.2 h⟩
        rcases List.mem_cons.1 hp with rfl | hp
        · exact hlt
        · exact String.lt_trans hlt (h.1 p hp)
      · rename_i hlt
        refine List.pairwise_cons.2 ⟨fun p hp => ?_, ih h.2⟩
        have := mem_keys_insert.1 (List.mem_map.2 ⟨p, hp, rfl⟩)
        rcases this with e | hm
        · have hle : k ≤ key := String.not_lt.1 hlt
          rw [e]
          exact Decidable.byContradiction fun hn =>
            hk (String.le_antisymm (String.not_lt.1 hn) hle)
        · obtain ⟨q, hq, e⟩ := List.mem_map.1 hm
          rw [← e]
          exact h.1 q hq

theorem mem_of_lookup {key : String} {value : α} {l : List (String × α)} (h : l.lookup key = some value) :
    (key, value) ∈ l := by
  induction l with
  | nil => simp at h
  | cons p rest ih =>
    obtain ⟨k, v⟩ := p
    by_cases hk : key = k
    · simp_all
    · rw [List.lookup_cons, beq_false_of_ne hk] at h
      exact List.mem_cons_of_mem _ (ih h)

theorem lookup_eq_none_iff {key : String} {l : List (String × α)} : l.lookup key = none ↔ key ∉ l.map (·.1) := by
  induction l with
  | nil => simp
  | cons p rest ih =>
    obtain ⟨k, v⟩ := p
    by_cases hk : key = k
    · simp [hk]
    · rw [List.lookup_cons, beq_false_of_ne hk, List.map_cons, List.mem_cons, not_or]
      exact ih.trans ⟨fun h => ⟨hk, h⟩, fun h => h.2⟩

/-- Where the keys are different, a value is found under a key exactly if it stands there. -/
theorem lookup_eq_some_iff {key : String} {value : α} {l : List (String × α)} (hl : (l.map (·.1)).Nodup) :
    l.lookup key = some value ↔ (key, value) ∈ l := by
  refine ⟨mem_of_lookup, fun h => ?_⟩
  induction l with
  | nil => simp at h
  | cons p rest ih =>
    obtain ⟨k, v⟩ := p
    rw [List.map_cons, List.nodup_cons] at hl
    rcases List.mem_cons.1 h with e | hrest
    · cases e
      simp
    · have hk : key ≠ k := fun e => hl.1 (e ▸ List.mem_map.2 ⟨_, hrest, rfl⟩)
      rw [List.lookup_cons, beq_false_of_ne hk]
      exact ih hl.2 hrest

theorem Sorted.nodup_keys {l : List (String × α)} (hl : Sorted l) : (l.map (·.1)).Nodup := by
  have hlt : l.Pairwise fun a b => a.1 < b.1 := hl
  refine List.pairwise_map.2 (hlt.imp fun {a b} hab heq => ?_)
  rw [heq] at hab
  exact String.lt_irrefl b.1 hab

/-- Under one key stands one value. -/
theorem Sorted.value_unique {l : List (String × α)} (hl : Sorted l) {key : String} {v w : α} (hv : (key, v) ∈ l)
    (hw : (key, w) ∈ l) : v = w := by
  have hv := (lookup_eq_some_iff hl.nodup_keys).2 hv
  rw [(lookup_eq_some_iff hl.nodup_keys).2 hw, Option.some.injEq] at hv
  exact hv.symm

theorem lookup_insert {key x : String} {value : α} {l : List (String × α)} :
    (insert key value l).lookup x = if x = key then some value else l.lookup x := by
  induction l with
  | nil => by_cases h : x = key <;> simp [insert, List.lookup_cons, h, beq_false_of_ne]
  | cons p rest ih =>
    obtain ⟨k, v⟩ := p
    rw [insert]
    by_cases h : x = key
    · subst h
      by_cases hk : x = k
      · simp [hk]
      · by_cases hlt : x < k
        · simp [hk, hlt]
        · simp [hk, hlt, List.lookup_cons, beq_false_of_ne hk, ih]
    · by_cases hk : key = k
      · simp [hk, List.lookup_cons, beq_false_of_ne (hk ▸ h), hk ▸ h]
      · by_cases hlt : key < k
        · simp [hk, hlt, h, List.lookup_cons, beq_false_of_ne h]
        · simp [hk, hlt, h, List.lookup_cons, ih]

theorem lookup_erase {key x : String} {l : List (String × α)} :
    (erase key l).lookup x = if x = key then none else l.lookup x := by
  induction l with
  | nil => simp [erase]
  | cons p rest ih =>
    obtain ⟨k, v⟩ := p
    rw [erase] at ih
    rw [erase, List.filter_cons]
    by_cases hk : k = key
    · subst hk
      by_cases h : x = k
      · rw [if_neg (by simp), ih, if_pos h, if_pos h]
      · rw [if_neg (by simp), ih, if_neg h, if_neg h, List.lookup_cons, beq_false_of_ne h]
    · by_cases h : x = k
      · subst h
        simp [hk]
      · simp [hk, List.lookup_cons, beq_false_of_ne h, ih]

end ResultCache.Assoc
