import ResultCache.Assoc
import ResultCache.Entry

/-!
# The table of entries

Entries under different keys, in no order that is seen from outside, and the memory that they use, which is kept up as
entries come and go.  `find?` is the view of a table: `find?_detach` and `find?_attach` say what the operations do to
it, and both keep the table `Accurate`.
-/

namespace ResultCache

structure Table where
  /-- The entries, each with the key that it stands under. -/
  rows : List (String × Entry)
  /-- The memory in use, counted as entries come and go. -/
  memory : Nat

namespace Table

def empty : Table :=
  ⟨[], 0⟩

def entries (t : Table) : List Entry :=
  t.rows.map (·.2)

def find? (t : Table) (key : String) : Option Entry :=
  t.rows.lookup key

def size (t : Table) : Nat :=
  t.rows.length

/-- The sum of the sizes of some entries. -/
def totalSize (entries : List Entry) : Nat :=
  (entries.map Entry.size).sum

/-- Takes the entry under a key out. -/
def detach (t : Table) (key : String) : Table :=
  match t.find? key with
  | none => t
  | some e => ⟨Assoc.erase key t.rows, t.memory - e.size⟩

/-- Puts an entry in under its key, in place of one that stands there. -/
def attach (t : Table) (e : Entry) : Table :=
  let memory := t.memory + e.size
  match t.find? e.key with
  | none => ⟨(e.key, e) :: t.rows, memory⟩
  | some old => ⟨(e.key, e) :: Assoc.erase e.key t.rows, memory - old.size⟩

/-- Replaces the entry under a key by what a function makes of it; the size stays. -/
def update (t : Table) (key : String) (f : Entry → Entry) : Table :=
  ⟨t.rows.map fun row => if row.1 = key then (row.1, f row.2) else row, t.memory⟩

@[simp] theorem find?_detach (t : Table) (key x : String) :
    (t.detach key).find? x = if x = key then none else t.find? x := by
  rw [detach]
  split
  · rename_i h
    split
    · rename_i hx
      rw [hx, h]
    · rfl
  · exact Assoc.lookup_erase

/-- Whether or not there is an entry under a key, what is left are the rows of the others. -/
theorem rows_detach (t : Table) (key : String) : (t.detach key).rows = Assoc.erase key t.rows := by
  rw [detach]
  split
  · rename_i h
    rw [find?, Assoc.lookup_eq_none_iff] at h
    refine (List.filter_eq_self.2 fun row hrow => ?_).symm
    have : row.1 ≠ key := fun hk => h (hk ▸ List.mem_map.2 ⟨row, hrow, rfl⟩)
    simpa using this
  · rfl

@[simp] theorem find?_attach (t : Table) (e : Entry) (x : String) :
    (t.attach e).find? x = if x = e.key then some e else t.find? x := by
  rw [attach]
  by_cases hx : x = e.key
  · rw [if_pos hx]
    split <;> simp [find?, hx]
  · rw [if_neg hx]
    split
    · rw [find?, List.lookup_cons, beq_false_of_ne hx]
      rfl
    · rw [find?, List.lookup_cons, beq_false_of_ne hx]
      exact Assoc.lookup_erase.trans (if_neg hx)

@[simp] theorem find?_update (t : Table) (key : String) (f : Entry → Entry) (x : String) :
    (t.update key f).find? x = if x = key then (t.find? x).map f else t.find? x := by
  simp only [find?, update]
  induction t.rows with
  | nil => simp
  | cons row rows ih =>
    obtain ⟨k, e⟩ := row
    rw [List.map_cons]
    by_cases hk : k = key
    · subst hk
      by_cases hx : x = k
      · simp [hx]
      · simp [hx, List.lookup_cons, beq_false_of_ne hx, ih]
    · by_cases hx : x = k
      · subst hx
        simp [hk]
      · simp [hk, List.lookup_cons, beq_false_of_ne hx, ih]

/-- Each entry stands under its own key and only there, and the memory in use is what the entries take. -/
structure Accurate (t : Table) : Prop where
  keyed : ∀ row ∈ t.rows, row.1 = row.2.key
  nodup : (t.rows.map (·.1)).Nodup
  memory_eq : t.memory = totalSize t.entries

theorem accurate_empty : Accurate empty :=
  ⟨by simp [empty], List.nodup_nil, rfl⟩

/-- Of any quantity that is summed over the rows, the one under a key and the others make up all. -/
private theorem sum_erase {rows : List (String × Entry)} (h : (rows.map (·.1)).Nodup) {key : String} {e : Entry}
    (he : rows.lookup key = some e) (f : Entry → Nat) :
    (((Assoc.erase key rows).map (·.2)).map f).sum + f e = ((rows.map (·.2)).map f).sum := by
  induction rows with
  | nil => simp at he
  | cons row rows ih =>
    obtain ⟨k, a⟩ := row
    rw [List.map_cons, List.nodup_cons] at h
    by_cases hk : key = k
    · subst hk
      have ha : a = e := by simpa using he
      have hrest : Assoc.erase key rows = rows := by
        rw [Assoc.erase, List.filter_eq_self]
        intro row hrow
        have : row.1 ≠ key := fun hr => h.1 (hr ▸ List.mem_map.2 ⟨row, hrow, rfl⟩)
        simpa using this
      rw [Assoc.erase] at hrest
      rw [Assoc.erase, List.filter_cons, if_neg (by simp), hrest, ← ha]
      simp only [List.map_cons, List.sum_cons]
      omega
    · rw [List.lookup_cons, beq_false_of_ne hk] at he
      have := ih h.2 he
      rw [Assoc.erase] at this
      rw [Assoc.erase, List.filter_cons, if_pos (by simpa using Ne.symm hk)]
      simp only [List.map_cons, List.sum_cons] at this ⊢
      omega

/-- The keys that are left are different. -/
private theorem nodup_erase {rows : List (String × Entry)} (h : (rows.map (·.1)).Nodup) (key : String) :
    ((Assoc.erase key rows).map (·.1)).Nodup :=
  h.sublist ((List.filter_sublist (l := rows)).map (·.1))

theorem memory_detach {t : Table} {key : String} {e : Entry} (h : t.find? key = some e) :
    (t.detach key).memory = t.memory - e.size := by
  rw [detach, h]

theorem memory_attach {t : Table} {e : Entry} (h : t.find? e.key = none) :
    (t.attach e).memory = t.memory + e.size := by
  rw [attach, h]

theorem size_attach {t : Table} {e : Entry} (h : t.find? e.key = none) : (t.attach e).size = t.size + 1 := by
  rw [attach, h]
  rfl

theorem detach_eq_self {t : Table} {key : String} (h : t.find? key = none) : t.detach key = t := by
  rw [detach, h]

theorem memory_detach_le (t : Table) (key : String) : (t.detach key).memory ≤ t.memory := by
  rw [detach]
  split
  · exact Nat.le_refl _
  · exact Nat.sub_le _ _

theorem size_detach_le (t : Table) (key : String) : (t.detach key).size ≤ t.size := by
  rw [size, rows_detach]
  exact List.length_filter_le ..

@[simp] theorem length_entries (t : Table) : t.entries.length = t.size :=
  List.length_map _

namespace Accurate

variable {t : Table}

/-- The entry under a key has that key. -/
theorem key_of_find? (h : t.Accurate) {key : String} {e : Entry} (he : t.find? key = some e) : e.key = key :=
  (h.keyed (key, e) (Assoc.mem_of_lookup he)).symm

/-- An entry is in the table exactly if it is found under its key. -/
theorem mem_entries_iff (h : t.Accurate) {e : Entry} : e ∈ t.entries ↔ t.find? e.key = some e := by
  rw [find?, Assoc.lookup_eq_some_iff h.nodup]
  constructor
  · intro he
    obtain ⟨row, hrow, rfl⟩ := List.mem_map.1 he
    exact h.keyed row hrow ▸ hrow
  · exact fun he => List.mem_map.2 ⟨_, he, rfl⟩

/-- No entry takes more than the memory in use. -/
theorem size_le (h : t.Accurate) {key : String} {e : Entry} (he : t.find? key = some e) : e.size ≤ t.memory := by
  have : _ + e.size = totalSize t.entries := sum_erase h.nodup he Entry.size
  rw [h.memory_eq]
  omega

theorem detach (h : t.Accurate) (key : String) : (t.detach key).Accurate := by
  rw [Table.detach]
  split
  · exact h
  · rename_i e he
    refine ⟨fun row hrow => h.keyed row (List.mem_filter.1 hrow).1, nodup_erase h.nodup key, ?_⟩
    have hsum : totalSize _ + e.size = totalSize t.entries := sum_erase h.nodup he Entry.size
    rw [h.memory_eq, ← hsum]
    exact Nat.add_sub_cancel ..

theorem attach (h : t.Accurate) (e : Entry) : (t.attach e).Accurate := by
  have hm := h.memory_eq
  rw [Table.attach]
  split
  · rename_i hn
    refine ⟨?_, List.nodup_cons.2 ⟨fun hk => ?_, h.nodup⟩, ?_⟩
    · rintro row (_ | ⟨_, hrow⟩)
      · rfl
      · exact h.keyed row hrow
    · rw [find?, Assoc.lookup_eq_none_iff] at hn
      exact hn hk
    · simp only [entries, totalSize, List.map_cons, List.sum_cons] at hm ⊢
      omega
  · rename_i old ho
    refine ⟨?_, List.nodup_cons.2 ⟨fun hk => ?_, nodup_erase h.nodup e.key⟩, ?_⟩
    · rintro row (_ | ⟨_, hrow⟩)
      · rfl
      · exact h.keyed row (List.mem_filter.1 hrow).1
    · obtain ⟨row, hrow, hkey⟩ := List.mem_map.1 hk
      simpa [hkey] using (List.mem_filter.1 hrow).2
    · have := sum_erase h.nodup ho Entry.size
      simp only [entries, totalSize, List.map_cons, List.sum_cons] at this hm ⊢
      omega

/-- What is left after a removal are the entries with other keys. -/
theorem entries_detach (h : t.Accurate) (key : String) :
    (t.detach key).entries = t.entries.filter fun e => e.key != key := by
  rw [entries, rows_detach, Assoc.erase, entries, List.filter_map]
  congr 1
  refine List.filter_congr fun row hrow => ?_
  rw [h.keyed row hrow]
  rfl

/-- Together with the others the entry under a key makes up all entries. -/
theorem length_detach (h : t.Accurate) {key : String} {e : Entry} (he : t.find? key = some e) :
    (t.detach key).entries.length + 1 = t.size := by
  have := sum_erase h.nodup he fun _ => 1
  simpa [entries, rows_detach, size, Function.comp_def, List.map_const'] using this

/-- A change that leaves keys and sizes alone keeps a table accurate. -/
theorem update (h : t.Accurate) (key : String) {f : Entry → Entry} (hkey : ∀ e, (f e).key = e.key)
    (hsize : ∀ e, (f e).size = e.size) : (t.update key f).Accurate := by
  have hfst : (t.update key f).rows.map (·.1) = t.rows.map (·.1) := by
    rw [Table.update, List.map_map]
    refine List.map_congr_left fun row _ => ?_
    simp only [Function.comp]
    split <;> rfl
  have hsizes : (t.update key f).entries.map Entry.size = t.entries.map Entry.size := by
    rw [entries, entries, Table.update, List.map_map, List.map_map, List.map_map]
    refine List.map_congr_left fun row _ => ?_
    simp only [Function.comp]
    split
    · exact hsize row.2
    · rfl
  refine ⟨fun row hrow => ?_, hfst ▸ h.nodup, ?_⟩
  · obtain ⟨old, hold, rfl⟩ := List.mem_map.1 hrow
    have := h.keyed old hold
    split
    · exact this.trans (hkey old.2).symm
    · exact this
  · rw [totalSize, hsizes]
    exact h.memory_eq

end Accurate

end Table

end ResultCache
