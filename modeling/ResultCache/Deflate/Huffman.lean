import ResultCache.Deflate.Bits

/-!
# Canonical prefix codes

A code is given by the length of the word of each symbol, zero for a symbol without one.  Words of one length are
consecutive numbers in the order of their symbols, and a longer word continues after the shorter ones.
-/

namespace ResultCache.Deflate

/-- A code: how many words have each length from 1 to 15, and the symbols in the order of their words. -/
structure Code where
  counts : List Nat
  symbols : Array Nat

namespace Code

/-- The symbols whose words have a given length. -/
def symbolsOf (lengths : List Nat) (length : Nat) : List Nat :=
  lengths.zipIdx.filterMap fun (l, symbol) => if l = length then some symbol else none

/-- The code of some word lengths. -/
def ofLengths (lengths : List Nat) : Code :=
  let groups := (List.range 15).map fun k => symbolsOf lengths (k + 1)
  ⟨groups.map List.length, groups.flatten.toArray⟩

/-- Twice the part of all words of one length that is taken by words of at most that length. -/
private def filled : Nat → List Nat → Nat
  | total, [] => total
  | total, n :: ns => filled (2 * (total + n)) ns

/-- Whether a code may be used: its words leave no gap and do not overlap.  The code without words and the code of one
word of one bit are allowed to leave a gap. -/
def isUsable (c : Code) : Bool :=
  let n := filled 0 c.counts
  n == 2 ^ 16 || n == 0 || (n == 2 ^ 15 && c.symbols.size == 1)

/-- Reads one symbol.  `code` are the bits so far, `first` the first word of this length and `index` the place of its
symbol. -/
def symbolFrom? (symbols : Array Nat) (code first index : Nat) (s : BitStream) :
    List Nat → Option (Nat × BitStream)
  | [] => none
  | n :: ns =>
    match s.next? with
    | none => none
    | some (b, s) =>
      let code := if b then code + 1 else code
      if code < first + n then (symbols[index + (code - first)]?).map (·, s)
      else symbolFrom? symbols (2 * code) (2 * (first + n)) (index + n) s ns

/-- Reads one symbol. -/
def symbol? (c : Code) (s : BitStream) : Option (Nat × BitStream) :=
  symbolFrom? c.symbols 0 0 0 s c.counts

end Code

/-- The lengths of the fixed code for bytes and match lengths. -/
def fixedLengths : List Nat :=
  List.replicate 144 8 ++ List.replicate 112 9 ++ List.replicate 24 7 ++ List.replicate 8 8

/-- The lengths of the fixed code for distances. -/
def fixedDistances : List Nat :=
  List.replicate 32 5

/-- The least match length and the number of further bits of each symbol from 257 on. -/
def lengthTable : List (Nat × Nat) :=
  [(3, 0), (4, 0), (5, 0), (6, 0), (7, 0), (8, 0), (9, 0), (10, 0), (11, 1), (13, 1), (15, 1), (17, 1), (19, 2),
   (23, 2), (27, 2), (31, 2), (35, 3), (43, 3), (51, 3), (59, 3), (67, 4), (83, 4), (99, 4), (115, 4), (131, 5),
   (163, 5), (195, 5), (227, 5), (258, 0)]

/-- The least distance and the number of further bits of each distance symbol. -/
def distanceTable : List (Nat × Nat) :=
  [(1, 0), (2, 0), (3, 0), (4, 0), (5, 1), (7, 1), (9, 2), (13, 2), (17, 3), (25, 3), (33, 4), (49, 4), (65, 5),
   (97, 5), (129, 6), (193, 6), (257, 7), (385, 7), (513, 8), (769, 8), (1025, 9), (1537, 9), (2049, 10),
   (3073, 10), (4097, 11), (6145, 11), (8193, 12), (12289, 12), (16385, 13), (24577, 13)]

end ResultCache.Deflate
