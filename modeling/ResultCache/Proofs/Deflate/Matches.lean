import ResultCache.Proofs.Deflate.Codes

/-!
# Data spelled by bytes and matches

The bits between the head and the end of a block spell the data from some place on (`Spells`): each symbol stands for
the next byte, or a match for the bytes that also stand some distance before.  What is written spells the data
(`spells_deflateFrom`), and what spells the data is read as it (`Spells.inflate`), so it matters only that a match was
compared, and not where it was looked for.
-/

namespace ResultCache.Deflate

/-- The bits of bytes and matches that stand for the data from a place on. -/
inductive Spells (data : Array UInt8) : Nat → List Bool → Prop where
  | done : Spells data data.size []
  | byte {i : Nat} {b : UInt8} {bits : List Bool} (hbyte : data[i]? = some b) (rest : Spells data (i + 1) bits) :
      Spells data i (symbolBits b.toNat ++ bits)
  | copy {i distance length : Nat} {bits : List Bool} (hback : 1 ≤ distance ∧ distance ≤ i) (hnear : distance ≤ 32768)
      (hlength : 3 ≤ length ∧ length ≤ 258)
      (hsame : ∀ k < length, ∃ b, data[i + k]? = some b ∧ data[i + k - distance]? = some b)
      (rest : Spells data (i + length) bits) : Spells data i (matchBits length distance ++ bits)

/-! ### What is read -/

variable {data : Array UInt8}

theorem toList_push_of_take {out : Array UInt8} {i : Nat} {b : UInt8} (hout : out.toList = data.toList.take i)
    (hbyte : data[i]? = some b) : (out.push b).toList = data.toList.take (i + 1) := by
  have hget : data.toList[i]? = some b := by rw [Array.getElem?_toList, hbyte]
  rw [Array.toList_push, hout, List.take_add_one, hget]
  rfl

/-- Bytes that also stand some distance before are appended by repeating these. -/
theorem repeatBack_spec {distance : Nat} {length i : Nat} {out : Array UInt8} (hback : 1 ≤ distance ∧ distance ≤ i)
    (hout : out.toList = data.toList.take i)
    (hsame : ∀ k < length, ∃ b, data[i + k]? = some b ∧ data[i + k - distance]? = some b) :
    ∃ out', repeatBack out distance length = some out' ∧ out'.toList = data.toList.take (i + length) := by
  induction length generalizing i out with
  | zero => exact ⟨out, rfl, hout⟩
  | succ length ih =>
    obtain ⟨b, hbyte, hbefore⟩ := hsame 0 (by omega)
    rw [Nat.add_zero] at hbyte hbefore
    have hin : i < data.size := (Array.getElem?_eq_some_iff.1 hbyte).1
    have hsize : out.size = i := by
      rw [← Array.length_toList, hout, List.length_take, Array.length_toList]
      omega
    have hsource : out[out.size - distance]? = some b := by
      rw [hsize, ← Array.getElem?_toList, hout, List.getElem?_take_of_lt (by omega), Array.getElem?_toList, hbefore]
    obtain ⟨out', hrepeat, hout'⟩ := ih (by omega) (toList_push_of_take hout hbyte) fun k hk => by
      have hnext := hsame (k + 1) (by omega)
      rw [show i + (k + 1) = i + 1 + k by omega] at hnext
      exact hnext
    refine ⟨out', ?_, ?_⟩
    · rw [repeatBack, if_neg (by omega), hsource]
      exact hrepeat
    · rw [hout', Nat.add_right_comm]
      rfl

theorem length_symbolBits_pos (symbol : Nat) : 0 < (symbolBits symbol).length := by
  simp only [symbolBits, wordBits]
  split
  · simp
  split
  · simp
  split
  · simp
  · simp

/-- A byte is read and appended. -/
theorem inflateSymbol?_byte (out : Array UInt8) {b : UInt8} {s : BitStream} {rest : List Bool}
    (hs : s.Holds (symbolBits b.toNat ++ rest)) :
    ∃ s', inflateSymbol? (.ofLengths fixedLengths) (.ofLengths fixedDistances) out s = some (false, out.push b, s') ∧
      s'.Holds rest := by
  have hlt : b.toNat < 256 := b.toNat_lt
  obtain ⟨s', hsymbol, hs'⟩ := reads_lengthSymbol (by omega) s rest hs
  refine ⟨s', ?_, hs'⟩
  rw [inflateSymbol?, hsymbol]
  dsimp only
  rw [if_pos hlt, UInt8.ofNat_toNat]

theorem inflateSymbol?_end (out : Array UInt8) {s : BitStream} {rest : List Bool}
    (hs : s.Holds (symbolBits 256 ++ rest)) :
    ∃ s', inflateSymbol? (.ofLengths fixedLengths) (.ofLengths fixedDistances) out s = some (true, out, s') ∧
      s'.Holds rest := by
  have hend : 256 < 288 := by decide
  obtain ⟨s', hsymbol, hs'⟩ := reads_lengthSymbol hend s rest hs
  refine ⟨s', ?_, hs'⟩
  rw [inflateSymbol?, hsymbol]
  rfl

/-- A match is read and repeats what stands some distance before. -/
theorem inflateSymbol?_match {length distance : Nat} (hlength : 3 ≤ length ∧ length ≤ 258)
    (hdistance : 1 ≤ distance ∧ distance ≤ 32768) {out out' : Array UInt8} {s : BitStream} {rest : List Bool}
    (hrepeat : repeatBack out distance length = some out') (hs : s.Holds (matchBits length distance ++ rest)) :
    ∃ s', inflateSymbol? (.ofLengths fixedLengths) (.ofLengths fixedDistances) out s = some (false, out', s') ∧
      s'.Holds rest := by
  obtain ⟨hrow, hreadsLength⟩ := reads_length hlength.1 hlength.2
  obtain ⟨hrow', hreadsDistance⟩ := reads_distance hdistance.1 hdistance.2
  simp only [matchBits, List.append_assoc] at hs
  -- the symbol of the length and its further bits, and the same for the distance
  obtain ⟨s₁, hsymbol, h₁⟩ := reads_lengthSymbol (by omega) s _ hs
  obtain ⟨s₂, hvalue, h₂⟩ := hreadsLength s₁ _ h₁
  obtain ⟨s₃, hsymbol', h₃⟩ := reads_distanceSymbol hrow' s₂ _ h₂
  obtain ⟨s₄, hvalue', h₄⟩ := hreadsDistance s₃ _ h₃
  refine ⟨s₄, ?_, h₄⟩
  have hmatch : inflateMatch? (.ofLengths fixedDistances) (257 + (tableRow lengthTable length).1) out s₁ =
      some (out', s₄) := by
    unfold inflateMatch?
    rw [Nat.add_sub_cancel_left, hvalue]
    dsimp only
    rw [hsymbol']
    dsimp only
    rw [hvalue']
    dsimp only
    rw [hrepeat]
    rfl
  have hbyte : ¬257 + (tableRow lengthTable length).1 < 256 := by omega
  have hend : ¬257 + (tableRow lengthTable length).1 = 256 := by omega
  rw [inflateSymbol?, hsymbol]
  dsimp only
  rw [if_neg hbyte, if_neg hend, hmatch, Option.map_some]

/-- What spells the data is read as the data, up to the end of the block. -/
theorem Spells.inflate {i : Nat} {bits : List Bool} (h : Spells data i bits) {out : Array UInt8} {s : BitStream}
    {fuel : Nat} {rest : List Bool} (hout : out.toList = data.toList.take i)
    (hs : s.Holds (bits ++ (symbolBits 256 ++ rest))) (hfuel : bits.length < fuel) :
    ∃ s', inflateSymbols (.ofLengths fixedLengths) (.ofLengths fixedDistances) fuel out s = some (data, s') ∧
      s'.Holds rest := by
  induction h generalizing out s fuel with
  | done =>
    obtain ⟨fuel, rfl⟩ := Nat.exists_eq_add_of_lt hfuel
    obtain ⟨s', hsymbol, hs'⟩ := inflateSymbol?_end out hs
    have hdata : out = data := by
      rw [← Array.length_toList, List.take_length] at hout
      exact Array.toList_inj.1 hout
    refine ⟨s', ?_, hs'⟩
    rw [inflateSymbols, hsymbol, hdata]
  | @byte i b bits hbyte _ ih =>
    obtain ⟨fuel, rfl⟩ := Nat.exists_eq_add_of_lt hfuel
    have hpos := length_symbolBits_pos b.toNat
    rw [List.append_assoc] at hs
    rw [List.length_append] at hfuel ⊢
    obtain ⟨s₁, hsymbol, h₁⟩ := inflateSymbol?_byte out hs
    obtain ⟨s', hrest, hs'⟩ := ih (toList_push_of_take hout hbyte) h₁
      (show bits.length < (symbolBits b.toNat).length + bits.length + fuel by omega)
    refine ⟨s', ?_, hs'⟩
    rw [inflateSymbols, hsymbol]
    exact hrest
  | @copy i distance length bits hback hnear hlength hsame _ ih =>
    obtain ⟨fuel, rfl⟩ := Nat.exists_eq_add_of_lt hfuel
    have hpos : 0 < (matchBits length distance).length := by
      have := length_symbolBits_pos (257 + (tableRow lengthTable length).1)
      simp only [matchBits, List.length_append]
      omega
    rw [List.append_assoc] at hs
    rw [List.length_append] at hfuel ⊢
    obtain ⟨out', hrepeat, hout'⟩ := repeatBack_spec hback hout hsame
    obtain ⟨s₁, hsymbol, h₁⟩ := inflateSymbol?_match hlength ⟨hback.1, hnear⟩ hrepeat hs
    obtain ⟨s', hrest, hs'⟩ := ih hout' h₁
      (show bits.length < (matchBits length distance).length + bits.length + fuel by omega)
    refine ⟨s', ?_, hs'⟩
    rw [inflateSymbols, hsymbol]
    exact hrest

/-! ### What is written -/

theorem commonLength_le (data : Array UInt8) (i j limit : Nat) : commonLength data i j limit ≤ limit := by
  induction limit generalizing i j with
  | zero => exact Nat.le_refl 0
  | succ limit ih =>
    have hrest := ih (i + 1) (j + 1)
    rw [commonLength]
    split
    · split <;> omega
    · omega

/-- As far as two places have bytes in common, the bytes are there and the same. -/
theorem commonLength_spec {i j limit k : Nat} (h : k < commonLength data i j limit) :
    ∃ b, data[i + k]? = some b ∧ data[j + k]? = some b := by
  induction limit generalizing i j k with
  | zero => exact absurd h (Nat.not_lt_zero k)
  | succ limit ih =>
    rw [commonLength] at h
    split at h
    · rename_i a b ha hb
      split at h
      · rename_i hsame
        cases k with
        | zero => exact ⟨a, ha, hsame ▸ hb⟩
        | succ k =>
          have hnext := ih (Nat.lt_of_succ_lt_succ h)
          rw [Nat.add_right_comm, Nat.add_right_comm j] at hnext
          exact hnext
      · exact absurd h (Nat.not_lt_zero k)
    · exact absurd h (Nat.not_lt_zero k)

/-- The bytes that two places have in common may be spelled as a match. -/
theorem Spells.copy_commonLength {i j : Nat} (hbefore : j < i) (hnear : i - j ≤ 32768)
    (hlong : 3 ≤ commonLength data i j 258) {bits : List Bool}
    (rest : Spells data (i + commonLength data i j 258) bits) :
    Spells data i (matchBits (commonLength data i j 258) (i - j) ++ bits) := by
  refine .copy (by omega) hnear ⟨hlong, commonLength_le data i j 258⟩ (fun k hk => ?_) rest
  rw [show i + k - (i - j) = j + k by omega]
  exact commonLength_spec hk

theorem add_commonLength_le {i j limit : Nat} (hpos : 0 < commonLength data i j limit) :
    i + commonLength data i j limit ≤ data.size := by
  obtain ⟨b, hlast, -⟩ := commonLength_spec (Nat.sub_lt hpos Nat.one_pos)
  have hin := (Array.getElem?_eq_some_iff.1 hlast).1
  omega

/-- What is written from a place on spells the data from there, wherever else matches are looked for before it. -/
theorem spells_deflateFrom {seen : Std.HashMap Nat Nat} {i : Nat}
    (hseen : ∀ triple j : Nat, seen[triple]? = some j → j < i) (hi : i ≤ data.size) {fuel : Nat}
    (hfuel : data.size ≤ i + fuel) (acc : List Bool) :
    ∃ bits, deflateFrom data acc seen i fuel = bits.reverse ++ acc ∧ Spells data i bits := by
  induction fuel generalizing seen i acc with
  | zero =>
    have hend : i = data.size := by omega
    subst hend
    exact ⟨[], rfl, .done⟩
  | succ fuel ih =>
    rw [deflateFrom]
    split
    · rename_i hnone
      have hend : i = data.size := Nat.le_antisymm hi (Array.getElem?_eq_none_iff.1 hnone)
      subst hend
      exact ⟨[], rfl, .done⟩
    · rename_i b hbyte
      have hin : i < data.size := (Array.getElem?_eq_some_iff.1 hbyte).1
      have later : ∀ {seen' : Std.HashMap Nat Nat}, (∀ triple j : Nat, seen'[triple]? = some j → j < i + 1) →
          ∃ bits, deflateFrom data ((symbolBits b.toNat).reverse ++ acc) seen' (i + 1) fuel = bits.reverse ++ acc ∧
            Spells data i bits := by
        intro seen' hseen'
        obtain ⟨bits, hwrite, hspells⟩ := ih hseen' hin (by omega) ((symbolBits b.toNat).reverse ++ acc)
        refine ⟨symbolBits b.toNat ++ bits, ?_, .byte hbyte hspells⟩
        rw [hwrite, List.reverse_append, List.append_assoc]
      split
      · exact later fun triple j hj => Nat.lt_succ_of_lt (hseen triple j hj)
      · rename_i triple _
        have hinsert : ∀ k j : Nat, (seen.insert triple i)[k]? = some j → j < i + 1 := by
          intro k j hj
          rw [Std.HashMap.getElem?_insert] at hj
          split at hj
          · cases hj
            exact Nat.lt_succ_self i
          · exact Nat.lt_succ_of_lt (hseen k j hj)
        dsimp only
        cases hfound : seen[triple]? with
        | none => exact later hinsert
        | some j =>
          dsimp only
          by_cases hnear : i - j ≤ 32768
          · rw [if_pos hnear]
            dsimp only
            by_cases hlong : 3 ≤ commonLength data i j 258
            · -- the bytes that were compared are written as a match
              rw [if_pos hlong]
              have hin' := add_commonLength_le (show 0 < commonLength data i j 258 by omega)
              obtain ⟨bits, hwrite, hspells⟩ := ih
                (fun k j' hj => Nat.lt_of_lt_of_le (hinsert k j' hj) (show i + 1 ≤ i + _ by omega)) hin' (by omega)
                ((matchBits (commonLength data i j 258) (i - j)).reverse ++ acc)
              refine ⟨_, ?_, hspells.copy_commonLength (hseen triple j hfound) hnear hlong⟩
              rw [hwrite, List.reverse_append, List.append_assoc]
            · rw [if_neg hlong]
              exact later hinsert
          · rw [if_neg hnear]
            exact later hinsert

end ResultCache.Deflate
