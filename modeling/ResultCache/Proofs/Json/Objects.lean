import Mathlib.Data.List.Nodup
import ResultCache.Json.Basic

/-!
# Objects without an order

The fields of an object stand in the order of their names, so that an object is the same in whatever order its fields
are written (`ofFields_perm`), and two objects with the same fields are one (`Assoc.Sorted.eq_of_mem_iff`).
-/

namespace ResultCache

namespace Assoc

variable {α : Type}

/-- Of two lists in the order of their keys with the same pairs, each is the other. -/
theorem Sorted.eq_of_mem_iff {l l' : List (String × α)} (hl : Sorted l) (hl' : Sorted l')
    (h : ∀ p, p ∈ l ↔ p ∈ l') : l = l' := by
  have hnodup : l.Nodup := List.Nodup.of_map _ hl.nodup_keys
  have hnodup' : l'.Nodup := List.Nodup.of_map _ hl'.nodup_keys
  have hperm : l.Perm l' := (List.perm_ext_iff_of_nodup hnodup hnodup').2 h
  refine hperm.eq_of_pairwise (fun a b _ _ hab hba => ?_) hl hl'
  exact absurd (String.lt_trans hab hba) (String.lt_irrefl _)

/-- A new key is put somewhere between the others. -/
theorem insert_perm {key : String} {value : α} {l : List (String × α)} (h : key ∉ l.map (·.1)) :
    (insert key value l).Perm ((key, value) :: l) := by
  induction l with
  | nil => exact List.Perm.refl _
  | cons p rest ih =>
    obtain ⟨k, v⟩ := p
    rw [List.map_cons, List.mem_cons, not_or] at h
    rw [insert, if_neg h.1]
    split
    · exact List.Perm.refl _
    · exact ((ih h.2).cons _).trans (List.Perm.swap _ _ _)

/-- Pairs with new and different keys are all put between the others. -/
theorem foldl_insert_perm {fields acc : List (String × α)} (hacc : Sorted acc)
    (hnames : (fields ++ acc).map (·.1) |>.Nodup) :
    Sorted (fields.foldl (fun acc f => insert f.1 f.2 acc) acc) ∧
      (fields.foldl (fun acc f => insert f.1 f.2 acc) acc).Perm (fields ++ acc) := by
  induction fields generalizing acc with
  | nil => exact ⟨hacc, List.Perm.refl _⟩
  | cons p rest ih =>
    rw [List.cons_append, List.map_cons, List.nodup_cons] at hnames
    have hnew : p.1 ∉ acc.map (·.1) := fun h => hnames.1 (by simp only [List.map_append, List.mem_append, h, or_true])
    have hperm : (rest ++ insert p.1 p.2 acc).Perm (p :: rest ++ acc) :=
      ((insert_perm hnew).append_left rest).trans List.perm_middle
    have hnodup : ((rest ++ insert p.1 p.2 acc).map (·.1)).Nodup := by
      rw [(hperm.map (·.1)).nodup_iff]
      exact List.nodup_cons.2 hnames
    obtain ⟨hsorted, hrest⟩ := ih (sorted_insert hacc) hnodup
    exact ⟨hsorted, hrest.trans hperm⟩

end Assoc

namespace Json

/-- An object is the same in whatever order its fields are written. -/
theorem ofFields_perm {fields fields' : List (String × Json)} (hnames : (fields.map (·.1)).Nodup)
    (hperm : fields.Perm fields') : ofFields fields = ofFields fields' := by
  have hnames' : (fields'.map (·.1)).Nodup := (hperm.map _).nodup_iff.1 hnames
  obtain ⟨hsorted, hall⟩ := @Assoc.foldl_insert_perm Json fields [] List.Pairwise.nil (by simpa using hnames)
  obtain ⟨hsorted', hall'⟩ := @Assoc.foldl_insert_perm Json fields' [] List.Pairwise.nil (by simpa using hnames')
  rw [List.append_nil] at hall hall'
  refine congrArg obj (hsorted.eq_of_mem_iff hsorted' fun p => ?_)
  rw [hall.mem_iff, hall'.mem_iff, hperm.mem_iff]

end Json

end ResultCache
