import ResultCache.Deflate.Bits

/-!
# Packed bits read back

Bits that are packed into bytes are the bits of these bytes, with less than a byte of zeros behind them
(`bitsOf_pack`).  What a stream holds are the bits that it gives one after the other (`BitStream.Holds`); once all but
the zeros are read, the stream goes on with the bytes that follow the packed ones (`BitStream.Holds.bytes_eq`).
-/

namespace ResultCache.Deflate

/-! ### Numbers and their bits -/

theorem bitsValue_lt (bits : List Bool) : bitsValue bits < 2 ^ bits.length := by
  induction bits with
  | nil => exact Nat.one_pos
  | cons b bs ih =>
    rw [bitsValue, List.length_cons, Nat.pow_succ]
    split <;> omega

theorem bitsValue_concat (bits : List Bool) (b : Bool) :
    bitsValue (bits ++ [b]) = if b then bitsValue bits + 2 ^ bits.length else bitsValue bits := by
  induction bits with
  | nil => cases b <;> rfl
  | cons a bits ih =>
    rw [List.cons_append, bitsValue, ih, bitsValue, List.length_cons, Nat.pow_succ]
    cases b with
    | false => rfl
    | true =>
      simp only [if_true]
      omega

@[simp] theorem length_lowBits (n count : Nat) : (lowBits n count).length = count := by
  induction count generalizing n with
  | zero => rfl
  | succ count ih => rw [lowBits, List.length_cons, ih]

theorem bitsValue_lowBits {n count : Nat} (h : n < 2 ^ count) : bitsValue (lowBits n count) = n := by
  induction count generalizing n with
  | zero =>
    simp only [Nat.pow_zero] at h
    rw [lowBits, bitsValue]
    omega
  | succ count ih =>
    rw [Nat.pow_succ] at h
    rw [lowBits, bitsValue, ih (by omega)]
    rcases Nat.mod_two_eq_zero_or_one n with h0 | h1
    · simp [h0]; omega
    · simp [h1]; omega

theorem lowBits_bitsValue (bits : List Bool) (more : Nat) :
    lowBits (bitsValue bits) (bits.length + more) = bits ++ List.replicate more false := by
  induction bits with
  | nil =>
    rw [bitsValue, List.length_nil, Nat.zero_add, List.nil_append]
    induction more with
    | zero => rfl
    | succ more ih => rw [lowBits, Nat.zero_div, ih]; rfl
  | cons b bits ih =>
    have hhalf : bitsValue (b :: bits) / 2 = bitsValue bits := by
      rw [bitsValue]
      split <;> omega
    have hlow : (bitsValue (b :: bits) % 2 == 1) = b := by
      rw [bitsValue]
      cases b <;> simp
    rw [List.length_cons, Nat.add_right_comm, lowBits, hhalf, hlow, ih]
    rfl

/-! ### Bytes and their bits -/

/-- The bits of some bytes, in the order in which they are read. -/
def bitsOf (bytes : Bytes) : List Bool :=
  bytes.flatMap byteBits

@[simp] theorem bitsOf_append (a b : Bytes) : bitsOf (a ++ b) = bitsOf a ++ bitsOf b :=
  List.flatMap_append

theorem bitsOf_cons (b : UInt8) (bs : Bytes) : bitsOf (b :: bs) = byteBits b ++ bitsOf bs :=
  List.flatMap_cons

theorem byteBits_ofNat {n : Nat} (h : n < 256) : byteBits (UInt8.ofNat n) = lowBits n 8 := by
  have hall : ∀ n < 256, byteBits (UInt8.ofNat n) = lowBits n 8 := by decide +kernel
  exact hall n h

theorem bitsValue_byteBits (b : UInt8) : bitsValue (byteBits b) = b.toNat := by
  have hlt : b.toNat < 256 := b.toNat_lt
  rw [← UInt8.ofNat_toNat (x := b), byteBits_ofNat hlt, bitsValue_lowBits hlt, UInt8.ofNat_toNat]

theorem length_bitsOf (bytes : Bytes) : (bitsOf bytes).length = 8 * bytes.length := by
  induction bytes with
  | nil => rfl
  | cons b bytes ih =>
    rw [bitsOf_cons, List.length_append, ih, List.length_cons, byteBits, List.length_map]
    simp only [List.length_cons, List.length_nil]
    omega

theorem bitsOf_injective {a b : Bytes} (h : bitsOf a = bitsOf b) : a = b := by
  induction a generalizing b with
  | nil =>
    cases b with
    | nil => rfl
    | cons y ys => simp [bitsOf, byteBits] at h
  | cons x xs ih =>
    cases b with
    | nil => simp [bitsOf, byteBits] at h
    | cons y ys =>
      rw [bitsOf_cons, bitsOf_cons] at h
      have hlength : (byteBits x).length = (byteBits y).length := by simp [byteBits]
      obtain ⟨hbyte, hrest⟩ := List.append_inj h hlength
      have hnumber : x.toNat = y.toNat := by rw [← bitsValue_byteBits, hbyte, bitsValue_byteBits]
      rw [UInt8.toNat_inj.1 hnumber, ih hrest]

/-- A byte that is made of at most eight bits has these bits, and zeros behind them. -/
theorem byteBits_bitsValue {bits : List Bool} (h : bits.length ≤ 8) :
    byteBits (UInt8.ofNat (bitsValue bits)) = bits ++ List.replicate (8 - bits.length) false := by
  have hlt : bitsValue bits < 256 :=
    Nat.lt_of_lt_of_le (bitsValue_lt bits) (Nat.pow_le_pow_right (by decide) h)
  rw [byteBits_ofNat hlt, ← lowBits_bitsValue, Nat.add_sub_cancel' h]

/-! ### Packing -/

theorem bitsOf_packFrom (acc : Bytes) (waiting bits : List Bool) (h : waiting.length < 8) :
    ∃ pad < 8, bitsOf (packFrom acc waiting.length (bitsValue waiting) bits) =
      bitsOf acc.reverse ++ (waiting ++ (bits ++ List.replicate pad false)) := by
  induction bits generalizing acc waiting with
  | nil =>
    rw [packFrom]
    split
    · rename_i hnone
      rw [List.length_eq_zero_iff.1 hnone]
      exact ⟨0, by decide, by simp⟩
    · rename_i hsome
      refine ⟨8 - waiting.length, by omega, ?_⟩
      rw [List.reverse_cons, bitsOf_append, bitsOf_cons, byteBits_bitsValue (by omega)]
      simp [bitsOf]
  | cons b bits ih =>
    rw [packFrom, ← bitsValue_concat]
    have hlength : (waiting ++ [b]).length = waiting.length + 1 := by simp
    by_cases hfull : waiting.length = 7
    · -- the byte is full
      obtain ⟨pad, hpad, heq⟩ := ih (UInt8.ofNat (bitsValue (waiting ++ [b])) :: acc) [] (by decide)
      refine ⟨pad, hpad, ?_⟩
      rw [if_pos hfull]
      refine heq.trans ?_
      rw [List.reverse_cons, bitsOf_append, bitsOf_cons, byteBits_bitsValue (by omega), hlength, hfull]
      simp [bitsOf]
    · obtain ⟨pad, hpad, heq⟩ := ih acc (waiting ++ [b]) (by omega)
      refine ⟨pad, hpad, ?_⟩
      rw [if_neg hfull, ← hlength, heq]
      simp

/-- The bits of packed bits are those bits, and less than a byte of zeros. -/
theorem bitsOf_pack (bits : List Bool) : ∃ pad < 8, bitsOf (pack bits) = bits ++ List.replicate pad false :=
  bitsOf_packFrom [] [] bits (by decide)

/-! ### Streams -/

namespace BitStream

variable {s : BitStream}

/-- The bits that are left in a stream, which is less than a byte ahead of whole bytes. -/
structure Holds (s : BitStream) (bits : List Bool) : Prop where
  short : s.pending.length < 8
  bits_eq : s.pending ++ bitsOf s.bytes = bits

theorem holds_bytes (bytes : Bytes) : (⟨[], bytes⟩ : BitStream).Holds (bitsOf bytes) :=
  ⟨Nat.zero_lt_succ 7, rfl⟩

theorem Holds.next? {b : Bool} {rest : List Bool} (h : s.Holds (b :: rest)) :
    ∃ s', s.next? = some (b, s') ∧ s'.Holds rest := by
  obtain ⟨hshort, hbits⟩ := h
  obtain ⟨pending, bytes⟩ := s
  cases pending with
  | cons a pending =>
    rw [List.cons_append, List.cons.injEq] at hbits
    obtain ⟨rfl, hbits⟩ := hbits
    exact ⟨⟨pending, bytes⟩, rfl, Nat.lt_of_succ_lt hshort, hbits⟩
  | nil =>
    cases bytes with
    | nil => cases hbits
    | cons byte bytes =>
      -- the next byte begins
      rw [List.nil_append, bitsOf_cons] at hbits
      cases hbyte : byteBits byte with
      | nil => simp [byteBits] at hbyte
      | cons a pending =>
        rw [hbyte, List.cons_append, List.cons.injEq] at hbits
        obtain ⟨rfl, hbits⟩ := hbits
        have hlength : (a :: pending).length = 8 := by rw [← hbyte]; simp [byteBits]
        refine ⟨⟨pending, bytes⟩, by simp only [BitStream.next?, hbyte], ?_, hbits⟩
        show pending.length < 8
        rw [List.length_cons] at hlength
        omega

theorem Holds.take? {bits rest : List Bool} (h : s.Holds (bits ++ rest)) :
    ∃ s', s.take? bits.length = some (bitsValue bits, s') ∧ s'.Holds rest := by
  induction bits generalizing s with
  | nil => exact ⟨s, rfl, h⟩
  | cons b bits ih =>
    obtain ⟨s₁, hnext, h₁⟩ := h.next?
    obtain ⟨s₂, htake, h₂⟩ := ih h₁
    refine ⟨s₂, ?_, h₂⟩
    rw [List.length_cons, BitStream.take?, hnext]
    dsimp only
    rw [htake]
    rfl

/-- With less than a byte left before some bytes, these bytes are what follows. -/
theorem Holds.bytes_eq {pad : List Bool} {bytes : Bytes} (h : s.Holds (pad ++ bitsOf bytes)) (hpad : pad.length < 8) :
    s.bytes = bytes := by
  have hlength := congrArg List.length h.bits_eq
  rw [List.length_append, List.length_append, length_bitsOf, length_bitsOf] at hlength
  have hshort := h.short
  have hsame : s.pending.length = pad.length := by omega
  exact bitsOf_injective (List.append_inj h.bits_eq hsame).2

end BitStream

end ResultCache.Deflate
