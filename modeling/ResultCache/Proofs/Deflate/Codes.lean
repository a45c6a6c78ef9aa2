import Mathlib.Data.List.Induction
import ResultCache.Deflate.Compress
import ResultCache.Deflate.Inflate
import ResultCache.Proofs.Deflate.Bits

/-!
# The fixed codes and the tables

What is written for a symbol in a fixed code is read as the symbol (`reads_lengthSymbol`, `reads_distanceSymbol`), and
what is written for a length or a distance is found in the tables again (`tableRow_spec`): the rows of a table follow
each other without a gap, so what exceeds the least value of a row fits its further bits.
-/

namespace ResultCache.Deflate

/-- A reader takes some bits from the front of a stream as what they stand for. -/
def Reads {α : Type} (read : BitStream → Option (α × BitStream)) (bits : List Bool) (a : α) : Prop :=
  ∀ s rest, s.Holds (bits ++ rest) → ∃ s', read s = some (a, s') ∧ s'.Holds rest

/-! ### Symbols -/

namespace Code

/-- The place of the symbol of a word among the symbols of a code, as `symbolFrom?` finds it. -/
def placeOf? (code first index : Nat) : List Nat → List Bool → Option Nat
  | n :: ns, b :: bs =>
    let code := if b then code + 1 else code
    if code < first + n then if bs.isEmpty then some (index + (code - first)) else none
    else placeOf? (2 * code) (2 * (first + n)) (index + n) ns bs
  | _, _ => none

theorem reads_symbolFrom? {symbols : Array Nat} {code first index place : Nat} {counts : List Nat} {bits : List Bool}
    {symbol : Nat} (hplace : placeOf? code first index counts bits = some place)
    (hsymbol : symbols[place]? = some symbol) : Reads (symbolFrom? symbols code first index · counts) bits symbol := by
  induction counts generalizing code first index bits with
  | nil => cases hplace
  | cons n ns ih =>
    cases bits with
    | nil => cases hplace
    | cons b bs =>
      intro s rest hs
      obtain ⟨s₁, hnext, h₁⟩ := hs.next?
      rw [placeOf?] at hplace
      dsimp only at hplace ⊢
      rw [symbolFrom?, hnext]
      dsimp only
      generalize (if b = true then code + 1 else code) = word at hplace ⊢
      by_cases hhere : word < first + n
      · rw [if_pos hhere] at hplace ⊢
        split at hplace
        · rename_i hlast
          rw [List.isEmpty_iff.1 hlast] at h₁
          rw [Option.some.injEq] at hplace
          exact ⟨s₁, by rw [hplace, hsymbol]; rfl, h₁⟩
        · cases hplace
      · rw [if_neg hhere] at hplace ⊢
        exact ih hplace s₁ rest h₁

/-- Symbols whose words are of one length stand together. -/
theorem filterMap_replicate (count l length start : Nat) :
    ((List.replicate count l).zipIdx start).filterMap (fun p => if p.1 = length then some p.2 else none) =
      if l = length then List.range' start count else [] := by
  induction count generalizing start with
  | zero => split <;> rfl
  | succ count ih =>
    rw [List.replicate_succ, List.zipIdx_cons, List.filterMap_cons, ih]
    by_cases h : l = length
    · simp only [if_pos h, List.range'_succ]
    · simp only [if_neg h]

theorem symbolsOf_fixedLengths (length : Nat) :
    symbolsOf fixedLengths length =
      (if 8 = length then List.range' 0 144 else []) ++ (if 9 = length then List.range' 144 112 else []) ++
        (if 7 = length then List.range' 256 24 else []) ++ (if 8 = length then List.range' 280 8 else []) := by
  simp only [symbolsOf, fixedLengths, List.zipIdx_append, List.filterMap_append, filterMap_replicate,
    List.length_append, List.length_replicate]

/-- The symbols of the fixed code for bytes and lengths, those with the shortest words first. -/
def fixedSymbols : List Nat :=
  List.range' 256 24 ++ (List.range' 0 144 ++ (List.range' 280 8 ++ List.range' 144 112))

theorem ofLengths_fixedLengths :
    ofLengths fixedLengths = ⟨[0, 0, 0, 0, 0, 0, 24, 152, 112, 0, 0, 0, 0, 0, 0], fixedSymbols.toArray⟩ := by
  simp [ofLengths, symbolsOf_fixedLengths, fixedSymbols, List.range, List.range.loop]

/-- The place of a symbol among these. -/
def fixedPlace (symbol : Nat) : Nat :=
  if symbol < 144 then symbol + 24
  else if symbol < 256 then symbol + 32
  else if symbol < 280 then symbol - 256
  else symbol - 112

theorem getElem?_fixedPlace {symbol : Nat} (h : symbol < 288) : fixedSymbols[fixedPlace symbol]? = some symbol := by
  have hrange : ∀ {start count i : Nat}, i < count → (List.range' start count)[i]? = some (start + i) := by
    intro start count i hi
    rw [List.getElem?_range' hi, Nat.one_mul]
  unfold fixedSymbols fixedPlace
  by_cases hlow : symbol < 144
  · rw [if_pos hlow, List.getElem?_append_right (by simp), List.getElem?_append_left (by simp; omega),
      hrange (by simp; omega)]
    simp
  rw [if_neg hlow]
  by_cases hbyte : symbol < 256
  · rw [if_pos hbyte, List.getElem?_append_right (by simp), List.getElem?_append_right (by simp; omega),
      List.getElem?_append_right (by simp; omega), hrange (by simp; omega)]
    simp
    omega
  rw [if_neg hbyte]
  by_cases hshort : symbol < 280
  · rw [if_pos hshort, List.getElem?_append_left (by simp; omega), hrange (by omega)]
    simp
    omega
  · rw [if_neg hshort, List.getElem?_append_right (by simp; omega), List.getElem?_append_right (by simp; omega),
      List.getElem?_append_left (by simp; omega), hrange (by simp; omega)]
    simp
    omega

end Code

/-- What is written for a byte, the end of a block or a length is read as that. -/
theorem reads_lengthSymbol {symbol : Nat} (h : symbol < 288) :
    Reads (Code.ofLengths fixedLengths).symbol? (symbolBits symbol) symbol := by
  have hplaces : ∀ symbol < 288, Code.placeOf? 0 0 0 [0, 0, 0, 0, 0, 0, 24, 152, 112, 0, 0, 0, 0, 0, 0]
      (symbolBits symbol) = some (Code.fixedPlace symbol) := by
    decide +kernel
  rw [Code.ofLengths_fixedLengths]
  exact Code.reads_symbolFrom? (hplaces symbol h) (List.getElem?_toArray.trans (Code.getElem?_fixedPlace h))

/-- What is written for a distance is read as that. -/
theorem reads_distanceSymbol {symbol : Nat} (h : symbol < 32) :
    Reads (Code.ofLengths fixedDistances).symbol? (wordBits symbol 5) symbol := by
  have hall : ∀ symbol < 32, Code.placeOf? 0 0 0 (Code.ofLengths fixedDistances).counts (wordBits symbol 5) =
      some symbol ∧ (Code.ofLengths fixedDistances).symbols[symbol]? = some symbol := by
    decide +kernel
  exact Code.reads_symbolFrom? (hall symbol h).1 (hall symbol h).2

/-! ### Tables -/

/-- The row that is found is the last one whose least value is at most the number. -/
theorem tableRow_spec {table : List (Nat × Nat)} {n : Nat} (h : ∃ row ∈ table, row.1 ≤ n) :
    table[(tableRow table n).1]? = some (tableRow table n).2 ∧ (tableRow table n).2.1 ≤ n ∧
      ∀ i row, (tableRow table n).1 < i → table[i]? = some row → n < row.1 := by
  induction table using List.reverseRecOn with
  | nil =>
    obtain ⟨row, hmem, -⟩ := h
    cases hmem
  | append_singleton table last ih =>
    have hrow : tableRow (table ++ [last]) n = if last.1 ≤ n then (table.length, last) else tableRow table n := by
      rw [tableRow, List.zipIdx_append, List.foldl_append]
      simp [tableRow]
    rw [hrow]
    by_cases hlast : last.1 ≤ n
    · rw [if_pos hlast]
      refine ⟨List.getElem?_concat_length, hlast, fun i row hi hget => ?_⟩
      have hbound := (List.getElem?_eq_some_iff.1 hget).1
      simp at hbound
      dsimp only at hi
      omega
    · rw [if_neg hlast]
      obtain ⟨row, hmem, hle⟩ := h
      have hbefore : row ∈ table := by
        rcases List.mem_append.1 hmem with hmem | hmem
        · exact hmem
        · rw [List.mem_singleton.1 hmem] at hle
          exact absurd hle hlast
      obtain ⟨hget, hleast, hafter⟩ := ih ⟨row, hbefore, hle⟩
      have hbound := (List.getElem?_eq_some_iff.1 hget).1
      refine ⟨(List.getElem?_append_left hbound).trans hget, hleast, fun i row' hi hget' => ?_⟩
      rcases Nat.lt_or_ge i table.length with hin | hout
      · rw [List.getElem?_append_left hin] at hget'
        exact hafter i row' hi hget'
      · rw [List.getElem?_append_right hout] at hget'
        have hzero : i - table.length = 0 := by
          have := (List.getElem?_eq_some_iff.1 hget').1
          simpa using this
        rw [hzero] at hget'
        cases hget'
        exact Nat.lt_of_not_le hlast

/-- Whether the values of each row of a table reach to the next row, and those of the last one to a bound. -/
def reaches (bound : Nat) : List (Nat × Nat) → Bool
  | [] => true
  | [row] => bound ≤ row.1 + 2 ^ row.2
  | row :: next :: rows => next.1 ≤ row.1 + 2 ^ row.2 && reaches bound (next :: rows)

/-- What a number exceeds the last row below it by fits the further bits of the row. -/
theorem sub_lt_of_reaches {bound : Nat} {table : List (Nat × Nat)} (hreaches : reaches bound table = true) {n : Nat}
    (hn : n < bound) {i : Nat} {row : Nat × Nat} (hget : table[i]? = some row)
    (hafter : ∀ j next, i < j → table[j]? = some next → n < next.1) : n - row.1 < 2 ^ row.2 := by
  induction table generalizing i with
  | nil => cases hget
  | cons first rows ih =>
    cases i with
    | succ i =>
      have hrest : reaches bound rows = true := by
        cases rows with
        | nil => rfl
        | cons next rows =>
          rw [reaches, Bool.and_eq_true] at hreaches
          exact hreaches.2
      exact ih hrest hget fun j next hj hnext => hafter (j + 1) next (by omega) hnext
    | zero =>
      cases hget
      have hpos := Nat.two_pow_pos row.2
      cases rows with
      | nil =>
        simp only [reaches, decide_eq_true_eq] at hreaches
        omega
      | cons next rows =>
        simp only [reaches, Bool.and_eq_true, decide_eq_true_eq] at hreaches
        have hbelow := hafter 1 next (by omega) rfl
        omega

/-- What is written of a number that a table has is found in the table again. -/
theorem reads_tableValue? {bound : Nat} {table : List (Nat × Nat)} (hreaches : reaches bound table = true) {n : Nat}
    (hleast : ∃ row ∈ table, row.1 ≤ n) (hn : n < bound) :
    Reads (tableValue? table (tableRow table n).1)
      (lowBits (n - (tableRow table n).2.1) (tableRow table n).2.2) n := by
  intro s rest hs
  obtain ⟨hget, hle, hafter⟩ := tableRow_spec hleast
  have hfits := sub_lt_of_reaches hreaches hn hget hafter
  obtain ⟨s', htake, hs'⟩ := hs.take?
  refine ⟨s', ?_, hs'⟩
  rw [length_lowBits, bitsValue_lowBits hfits] at htake
  rw [tableValue?, hget]
  dsimp only
  rw [htake, Option.map_some, Nat.add_sub_cancel' hle]

/-- A length of a match is written as a symbol and further bits. -/
theorem reads_length {n : Nat} (hlow : 3 ≤ n) (hhigh : n ≤ 258) :
    (tableRow lengthTable n).1 < 29 ∧ Reads (tableValue? lengthTable (tableRow lengthTable n).1)
      (lowBits (n - (tableRow lengthTable n).2.1) (tableRow lengthTable n).2.2) n := by
  have hleast : ∃ row ∈ lengthTable, row.1 ≤ n := ⟨(3, 0), by decide, hlow⟩
  have hbound := (List.getElem?_eq_some_iff.1 (tableRow_spec hleast).1).1
  exact ⟨hbound, reads_tableValue? (by decide : reaches 259 lengthTable = true) hleast (by omega)⟩

/-- So is its distance. -/
theorem reads_distance {n : Nat} (hlow : 1 ≤ n) (hhigh : n ≤ 32768) :
    (tableRow distanceTable n).1 < 32 ∧ Reads (tableValue? distanceTable (tableRow distanceTable n).1)
      (lowBits (n - (tableRow distanceTable n).2.1) (tableRow distanceTable n).2.2) n := by
  have hleast : ∃ row ∈ distanceTable, row.1 ≤ n := ⟨(1, 0), by decide, hlow⟩
  have hbound := (List.getElem?_eq_some_iff.1 (tableRow_spec hleast).1).1
  have hsize : distanceTable.length = 30 := rfl
  exact ⟨by omega, reads_tableValue? (by decide : reaches 32769 distanceTable = true) hleast (by omega)⟩

end ResultCache.Deflate
