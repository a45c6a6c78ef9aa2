import Mathlib.Data.List.DropRight
import ResultCache.Text.Blank

/-!
# What trimming leaves

Trimming leaves a text that neither begins nor ends with a blank (`isTrimmed_trimChars`), leaves such a text as it is
(`trimChars_eq_self_iff`), and finds it again between blanks (`trimChars_padded`).
-/

namespace ResultCache.Text

section

variable {α : Type} {p : α → Bool} {l : List α}

/-- What is dropped at the end is what the library drops. -/
theorem dropEndWhile_eq_rdropWhile (p : α → Bool) (l : List α) : dropEndWhile p l = l.rdropWhile p :=
  rfl

theorem dropEndWhile_isPrefix (p : α → Bool) (l : List α) : dropEndWhile p l <+: l :=
  List.rdropWhile_prefix p l

/-- The last element that is left does not pass the test. -/
theorem last_dropEndWhile {x : α} (h : x ∈ (dropEndWhile p l).getLast?) : p x = false := by
  have hne : dropEndWhile p l ≠ [] := by
    intro hnil
    simp [hnil] at h
  rw [List.getLast?_eq_some_getLast hne, Option.mem_some_iff] at h
  have hlast : ¬p ((dropEndWhile p l).getLast hne) = true := List.rdropWhile_last_not p l hne
  simpa [h] using hlast

theorem dropEndWhile_eq_self_iff : dropEndWhile p l = l ↔ ∀ x ∈ l.getLast?, p x = false := by
  constructor
  · intro h x hx
    rw [← h] at hx
    exact last_dropEndWhile hx
  · intro h
    rw [dropEndWhile_eq_rdropWhile, List.rdropWhile_eq_self_iff]
    intro hne
    simpa using h _ (List.getLast?_eq_some_getLast hne)

/-- An end that passes the test is dropped. -/
theorem dropEndWhile_append {rest : List α} (h : ∀ x ∈ rest, p x = true) (l : List α) :
    dropEndWhile p (l ++ rest) = dropEndWhile p l := by
  have hreverse : ∀ x ∈ rest.reverse, p x = true := fun x hx => h x (List.mem_reverse.1 hx)
  rw [dropEndWhile, List.reverse_append, List.dropWhile_append_of_pos hreverse, dropEndWhile]

theorem head?_of_isPrefix {k : List α} (h : k <+: l) {x : α} (hx : x ∈ k.head?) : x ∈ l.head? := by
  obtain ⟨rest, rfl⟩ := h
  cases k with
  | nil => simp at hx
  | cons y k => exact hx

end

/-- Whether a text has no blank at its ends. -/
structure IsTrimmed (cs : List Char) : Prop where
  first : ∀ c ∈ cs.head?, isBlank c = false
  last : ∀ c ∈ cs.getLast?, isBlank c = false

theorem isTrimmed_trimChars (cs : List Char) : IsTrimmed (trimChars cs) := by
  refine ⟨fun c hc => ?_, fun c hc => last_dropEndWhile hc⟩
  have hhead : c ∈ (cs.dropWhile isBlank).head? := head?_of_isPrefix (dropEndWhile_isPrefix _ _) hc
  cases hrest : cs.dropWhile isBlank with
  | nil => simp [hrest] at hhead
  | cons d rest =>
    have hd := head_dropWhile hrest
    rw [hrest, List.head?_cons, Option.mem_some_iff] at hhead
    rwa [← hhead]

/-- Blanks around a trimmed text are what trimming removes. -/
theorem trimChars_padded {before cs after : List Char} (hbefore : ∀ c ∈ before, isBlank c = true)
    (hafter : ∀ c ∈ after, isBlank c = true) (h : IsTrimmed cs) : trimChars (before ++ cs ++ after) = cs := by
  have hfront : (before ++ cs ++ after).dropWhile isBlank = (cs ++ after).dropWhile isBlank := by
    rw [List.append_assoc, List.dropWhile_append_of_pos hbefore]
  rw [trimChars, hfront]
  cases cs with
  | nil =>
    rw [List.nil_append, List.dropWhile_eq_nil_iff.2 hafter]
    rfl
  | cons c cs =>
    have hc : isBlank c = false := h.first c rfl
    rw [List.cons_append, List.dropWhile_cons_of_neg (by simp [hc]), ← List.cons_append, dropEndWhile_append hafter]
    exact dropEndWhile_eq_self_iff.2 h.last

theorem trimChars_eq_self_iff {cs : List Char} : trimChars cs = cs ↔ IsTrimmed cs := by
  refine ⟨fun h => h ▸ isTrimmed_trimChars cs, fun h => ?_⟩
  have hself : trimChars ([] ++ cs ++ []) = cs := trimChars_padded (by simp) (by simp) h
  simpa using hself

/-- Nothing is left exactly of what is all blank. -/
theorem trimChars_eq_nil_iff {cs : List Char} : trimChars cs = [] ↔ ∀ c ∈ cs, isBlank c = true := by
  constructor
  · intro h
    by_contra hsome
    rw [← List.dropWhile_eq_nil_iff] at hsome
    obtain ⟨c, rest, hrest⟩ := List.exists_cons_of_ne_nil hsome
    rw [trimChars, hrest, dropEndWhile_eq_rdropWhile, List.rdropWhile_eq_nil_iff] at h
    exact absurd (h c List.mem_cons_self) (by simp [head_dropWhile hrest])
  · intro h
    have hempty : IsTrimmed [] := ⟨by simp, by simp⟩
    have hall : trimChars (cs ++ [] ++ []) = [] := trimChars_padded h (by simp) hempty
    simpa using hall

end ResultCache.Text
