/-!
# Blanks and trimming

A blank is a character with the Unicode property `White_Space`; there are 25 of them.  Trimming removes blanks at
the two ends of a text and nothing else.
-/

namespace ResultCache.Text

/-- The characters with the property `White_Space`. -/
def isBlank (c : Char) : Bool :=
  let n := c.toNat
  (0x09 ≤ n && n ≤ 0x0D) || n == 0x20 || n == 0x85 || n == 0xA0 || n == 0x1680 ||
    (0x2000 ≤ n && n ≤ 0x200A) || n == 0x2028 || n == 0x2029 || n == 0x202F || n == 0x205F || n == 0x3000

/-- Every blank of core's ASCII class is a blank. -/
theorem isBlank_of_isWhitespace {c : Char} (h : c.isWhitespace = true) : isBlank c = true := by
  simp only [Char.isWhitespace, Bool.or_eq_true, decide_eq_true_eq] at h
  rcases h with ((h | h) | h) | h <;> subst h <;> decide

/-- Drops the longest end of a list on which `p` holds. -/
def dropEndWhile {α : Type} (p : α → Bool) (l : List α) : List α :=
  (l.reverse.dropWhile p).reverse

/-- Removes the blanks at both ends. -/
def trimChars (cs : List Char) : List Char :=
  dropEndWhile isBlank (cs.dropWhile isBlank)

/-- Removes the blanks at both ends. -/
def trim (s : String) : String :=
  String.ofList (trimChars s.toList)

/-- A run that ends before what follows is the same without it. -/
theorem takeWhile_append {α : Type} {p : α → Bool} {r : List α} (h : ∀ x ∈ r.head?, p x = false) (l : List α) :
    (l ++ r).takeWhile p = l.takeWhile p ∧ (l ++ r).dropWhile p = l.dropWhile p ++ r := by
  induction l with
  | nil =>
    cases r with
    | nil => exact ⟨rfl, rfl⟩
    | cons x r =>
      have hx : p x = false := h x rfl
      simp [hx]
  | cons x l ih =>
    obtain ⟨htake, hdrop⟩ := ih
    cases hx : p x with
    | true => simp [hx, htake, hdrop]
    | false => simp [hx]

/-- A run is told from what follows it where the one ends and the other begins. -/
theorem append_inj_of_run {α : Type} {p : α → Bool} {a b r s : List α} (ha : ∀ x ∈ a, p x = true)
    (hb : ∀ x ∈ b, p x = true) (hr : ∀ x ∈ r.head?, p x = false) (hs : ∀ x ∈ s.head?, p x = false)
    (h : a ++ r = b ++ s) : a = b ∧ r = s := by
  have run : ∀ l : List α, (∀ x ∈ l, p x = true) → l.takeWhile p = l := by
    intro l hl
    have := @List.takeWhile_append_of_pos α p l [] hl
    simpa using this
  have htake := congrArg (List.takeWhile p) h
  rw [(takeWhile_append hr a).1, (takeWhile_append hs b).1, run a ha, run b hb] at htake
  subst htake
  exact ⟨rfl, List.append_cancel_left h⟩

/-- What is left of a list begins with an element on which the test fails. -/
theorem head_dropWhile {α : Type} {p : α → Bool} {l r : List α} {x : α} (h : l.dropWhile p = x :: r) :
    p x = false := by
  induction l with
  | nil => simp at h
  | cons a l ih =>
    rw [List.dropWhile_cons] at h
    split at h
    · exact ih h
    · rename_i ha
      rw [List.cons.injEq] at h
      rw [← h.1]
      simpa using ha

/-- Nothing but the dropped end is lost. -/
theorem dropEndWhile_append_takeWhile {α : Type} (p : α → Bool) (l : List α) :
    dropEndWhile p l ++ (l.reverse.takeWhile p).reverse = l := by
  rw [dropEndWhile, ← List.reverse_append, List.takeWhile_append_dropWhile, List.reverse_reverse]

end ResultCache.Text
