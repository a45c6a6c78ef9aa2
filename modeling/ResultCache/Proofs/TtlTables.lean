import ResultCache.Proofs.Text.Trimming
import ResultCache.Ttl

/-!
# Tables of classes are read back

A table is read item by item, so that no item changes what becomes of another one (`TtlPolicy.readTable_append`).  An
item with a pattern and a number of seconds is read to them, whatever blanks stand around it and around its equals
sign (`TtlPolicy.readItem?_itemText`): the number has no equals sign, so the last one of the item is the one before it,
even if the pattern has others.
-/

namespace ResultCache

namespace Text

/-- A text without separators is one piece. -/
theorem splitOn_of_not_mem {sep : Char} {cs : List Char} (h : sep ∉ cs) : splitOn sep cs = [cs] := by
  induction cs with
  | nil => rfl
  | cons c cs ih =>
    rw [List.mem_cons, not_or] at h
    rw [splitOn, if_neg (Ne.symm h.1), ih h.2]

/-- A run of blanks. -/
abbrev Blanks :=
  { cs : List Char // ∀ c ∈ cs, isBlank c = true }

theorem Blanks.not_mem (b : Blanks) {c : Char} (h : isBlank c = false) : c ∉ b.val :=
  fun hc => absurd (b.property c hc) (by simp [h])

theorem not_mem_decimal {c : Char} (h : isDigit c = false) (n : Nat) : c ∉ decimal n :=
  fun hc => absurd ((isDigit_decimal n).2 c hc) (by simp [h])

end Text

namespace TtlPolicy

open ResultCache.Text

/-- The blanks of an item that mean nothing. -/
structure Margins where
  before : Blanks
  afterPattern : Blanks
  beforeSeconds : Blanks
  after : Blanks

/-- No blanks at all. -/
def Margins.none : Margins :=
  ⟨⟨[], by simp⟩, ⟨[], by simp⟩, ⟨[], by simp⟩, ⟨[], by simp⟩⟩

/-- Whether a pattern and a number of seconds can be written in a table. -/
structure IsWritable (item : String × Nat) : Prop where
  ne_nil : item.1.toList ≠ []
  no_comma : ',' ∉ item.1.toList
  trimmed : IsTrimmed item.1.toList
  seconds_lt : item.2 < 2 ^ 64

/-- The text of an item between its outer blanks. -/
def itemCore (m : Margins) (item : String × Nat) : List Char :=
  item.1.toList ++ m.afterPattern.val ++ '=' :: (m.beforeSeconds.val ++ decimal item.2)

/-- The text of an item. -/
def itemText (m : Margins) (item : String × Nat) : List Char :=
  m.before.val ++ itemCore m item ++ m.after.val

/-- The text of a table, each item with blanks of its own. -/
def tableText (items : List (Margins × String × Nat)) : List Char :=
  List.intercalate [','] (items.map fun i => itemText i.1 i.2)

variable {m : Margins} {item : String × Nat}

theorem comma_not_mem_itemText (m : Margins) (h : IsWritable item) : ',' ∉ itemText m item := by
  have hblank : isBlank ',' = false := by decide
  simp only [itemText, itemCore, List.mem_append, List.mem_cons, not_or]
  exact ⟨⟨m.before.not_mem hblank, ⟨h.no_comma, m.afterPattern.not_mem hblank⟩, by decide,
    m.beforeSeconds.not_mem hblank, not_mem_decimal (by decide) _⟩, m.after.not_mem hblank⟩

theorem isTrimmed_decimal (n : Nat) : IsTrimmed (decimal n) := by
  refine ⟨fun c hc => ?_, fun c hc => ?_⟩
  · exact isBlank_of_isDigit ((isDigit_decimal n).2 c (List.mem_of_mem_head? hc))
  · exact isBlank_of_isDigit ((isDigit_decimal n).2 c (List.mem_of_mem_getLast? hc))

/-- An item begins with its pattern and ends with a digit. -/
theorem isTrimmed_itemCore (m : Margins) (h : IsWritable item) : IsTrimmed (itemCore m item) := by
  refine ⟨fun c hc => h.trimmed.first c ?_, fun c hc => (isTrimmed_decimal item.2).last c ?_⟩
  · rwa [itemCore, List.append_assoc, List.head?_append_of_ne_nil _ h.ne_nil] at hc
  · have hne := (isDigit_decimal item.2).1
    rwa [itemCore, ← List.cons_append, ← List.append_assoc, List.getLast?_append_of_ne_nil _ hne] at hc

/-- The last equals sign stands before the number. -/
theorem splitLast?_itemCore (m : Margins) (item : String × Nat) :
    splitLast? '=' (itemCore m item) =
      some (item.1.toList ++ m.afterPattern.val, m.beforeSeconds.val ++ decimal item.2) := by
  have hequals : '=' ∉ m.beforeSeconds.val ++ decimal item.2 := by
    rw [List.mem_append, not_or]
    exact ⟨m.beforeSeconds.not_mem (by decide), not_mem_decimal (by decide) _⟩
  rw [itemCore, splitLast?_append hequals]

/-- An item is read to its pattern and its seconds. -/
theorem readItem?_itemText (m : Margins) (h : IsWritable item) :
    readItem? (trimChars (itemText m item)) = some item := by
  have hcore : trimChars (itemText m item) = itemCore m item :=
    trimChars_padded m.before.property m.after.property (isTrimmed_itemCore m h)
  have hpattern : trimChars ([] ++ item.1.toList ++ m.afterPattern.val) = item.1.toList :=
    trimChars_padded (by simp) m.afterPattern.property h.trimmed
  have hseconds : trimChars (m.beforeSeconds.val ++ decimal item.2 ++ []) = decimal item.2 :=
    trimChars_padded m.beforeSeconds.property (by simp) (isTrimmed_decimal item.2)
  rw [List.nil_append] at hpattern
  rw [List.append_nil] at hseconds
  rw [hcore, readItem?, splitLast?_itemCore]
  simp only [hseconds, readBounded?_decimal h.seconds_lt, hpattern, List.isEmpty_eq_false_iff.2 h.ne_nil,
    Bool.false_eq_true, if_false, String.ofList_toList]

theorem readTable_itemText (m : Margins) (h : IsWritable item) : readTable (itemText m item) = [item] := by
  rw [readTable, splitOn_of_not_mem (comma_not_mem_itemText m h), List.map_singleton, List.filterMap_cons,
    readItem?_itemText m h, List.filterMap_nil]

/-- Two tables with a comma between them are read one after the other, whatever is in them.  A table of patterns that
are not empty, have no comma and no blanks at their ends, and of seconds below `2 ^ 64` is read to just these, in their
order, whatever blanks stand around its items and around their last equals signs. -/
theorem readTable_tableText :
    (∀ a b : String, readTable (a ++ "," ++ b).toList = readTable a.toList ++ readTable b.toList) ∧
      ∀ items : List (Margins × String × Nat), (∀ i ∈ items, IsWritable i.2) →
        readTable (tableText items) = items.map (·.2) := by
  refine ⟨fun a b => ?_, fun items h => ?_⟩
  · have htexts : (a ++ "," ++ b).toList = a.toList ++ ',' :: b.toList := by simp
    rw [htexts, readTable_append]
  · induction items with
    | nil => rfl
    | cons i items ih =>
      have hfirst := readTable_itemText i.1 (h i List.mem_cons_self)
      cases items with
      | nil =>
        rw [tableText, List.map_singleton, List.intercalate_singleton]
        exact hfirst
      | cons j items =>
        -- the first item is a table of its own before the comma
        have hrest := ih fun k hk => h k (List.mem_cons_of_mem _ hk)
        have htext : tableText (i :: j :: items) = itemText i.1 i.2 ++ ',' :: tableText (j :: items) := by
          simp only [tableText, List.map_cons, List.intercalate_cons_cons, List.append_assoc, List.singleton_append]
        rw [htext, readTable_append, hfirst, hrest]
        rfl

private def oneBlank (c : Char) (h : isBlank c = true) : Blanks :=
  ⟨[c], List.forall_mem_singleton.2 h⟩

/-- A pattern with equals signs, a blank and digits, and the greatest number of seconds, between blanks. -/
private def spaced : List (Margins × String × Nat) :=
  [(⟨oneBlank ' ' (by decide), oneBlank '\t' (by decide), oneBlank '\u3000' (by decide), oneBlank '\n' (by decide)⟩,
      "/a=1 b=2", 2 ^ 64 - 1),
    (.none, "/a", 0)]

theorem readTable_tableText_spaced :
    tableText spaced = " /a=1 b=2\t=\u300018446744073709551615\n,/a=0".toList ∧
      readTable (tableText spaced) = [("/a=1 b=2", 2 ^ 64 - 1), ("/a", 0)] := by
  have hwritable : ∀ i ∈ spaced, IsWritable i.2 := by
    intro i hi
    simp only [spaced, List.mem_cons, List.not_mem_nil, or_false] at hi
    rcases hi with rfl | rfl
    · exact ⟨by decide, by decide, trimChars_eq_self_iff.1 (by decide), by decide⟩
    · exact ⟨by decide, by decide, trimChars_eq_self_iff.1 (by decide), by decide⟩
  exact ⟨by decide +kernel, readTable_tableText.2 spaced hwritable⟩

end TtlPolicy

end ResultCache
