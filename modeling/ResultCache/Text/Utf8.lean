import ResultCache.Text.Hex

/-!
# UTF-8

The bytes of a text and the text of well-formed bytes.  `decodeLossy` also reads ill-formed bytes: each maximal
part of a sequence that cannot be continued becomes one U+FFFD.
-/

namespace ResultCache.Text

/-- The bytes of a text. -/
def utf8 (s : String) : Bytes :=
  s.toByteArray.data.toList

/-- The text of the bytes, if they are well formed. -/
def ofUtf8? (bs : Bytes) : Option String :=
  String.fromUTF8? ⟨bs.toArray⟩

/-- The number of bytes of a text. -/
def byteLength (s : String) : Nat :=
  (utf8 s).length

@[simp] theorem ofUtf8?_utf8 (s : String) : ofUtf8? (utf8 s) = some s := by
  have h : (⟨(utf8 s).toArray⟩ : ByteArray) = s.toByteArray := by simp [utf8]
  rw [ofUtf8?, h]
  simp [String.fromUTF8?, s.isValidUTF8, String.fromUTF8]

/-- The bytes tell texts apart. -/
theorem utf8_injective {s t : String} (h : utf8 s = utf8 t) : s = t := by
  have := congrArg ofUtf8? h
  simpa using this

/-- What a first byte says of its sequence: the count of bytes to come, the bits it gives, and the range of the
second byte. -/
private def leadByte? (b : UInt8) : Option (Nat × Nat × Nat × Nat) :=
  let n := b.toNat
  if 0xC2 ≤ n ∧ n ≤ 0xDF then some (1, n - 0xC0, 0x80, 0xBF)
  else if n = 0xE0 then some (2, 0, 0xA0, 0xBF)
  else if n = 0xED then some (2, 0xD, 0x80, 0x9F)
  else if 0xE1 ≤ n ∧ n ≤ 0xEF then some (2, n - 0xE0, 0x80, 0xBF)
  else if n = 0xF0 then some (3, 0, 0x90, 0xBF)
  else if 0xF1 ≤ n ∧ n ≤ 0xF3 then some (3, n - 0xF0, 0x80, 0xBF)
  else if n = 0xF4 then some (3, 4, 0x80, 0x8F)
  else none

/-- Reads `more` further bytes of a sequence whose value so far is `acc`; `none` when one is missing.  The rest
starts at the byte that did not fit. -/
private def continuation (acc : Nat) (lo hi : Nat) : Nat → Bytes → Option Nat × Bytes
  | 0, bs => (some acc, bs)
  | _ + 1, [] => (none, [])
  | more + 1, b :: bs =>
    if lo ≤ b.toNat ∧ b.toNat ≤ hi then continuation (64 * acc + b.toNat % 64) 0x80 0xBF more bs
    else (none, b :: bs)

private theorem continuation_length (acc lo hi more : Nat) (bs : Bytes) :
    (continuation acc lo hi more bs).2.length ≤ bs.length := by
  induction more generalizing acc lo hi bs with
  | zero => simp [continuation]
  | succ more ih =>
    cases bs with
    | nil => simp [continuation]
    | cons b bs =>
      rw [continuation]
      split
      · exact Nat.le_succ_of_le (ih _ _ _ _)
      · simp

/-- Reads any bytes; an ill-formed part becomes U+FFFD. -/
def decodeLossy (bs : Bytes) : List Char :=
  match bs with
  | [] => []
  | b :: rest =>
    if b.toNat < 0x80 then Char.ofNat b.toNat :: decodeLossy rest
    else
      match leadByte? b with
      | none => '\uFFFD' :: decodeLossy rest
      | some (more, acc, lo, hi) =>
        -- reading goes on at the byte that did not fit, which may begin a character of its own
        have := continuation_length acc lo hi more rest
        let read := continuation acc lo hi more rest
        let c := match read.1 with
          | some n => Char.ofNat n
          | none => '\uFFFD'
        c :: decodeLossy read.2
termination_by bs.length
decreasing_by all_goals simp_all +arith

end ResultCache.Text
