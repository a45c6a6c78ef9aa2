import ResultCache.Proofs.Json.Encoding

/-!
# The order of texts

Texts are in the order of their bytes (`utf8_lt_utf8_iff`): a smaller character has smaller bytes, whatever comes after
it.
-/

namespace ResultCache.Text

/-- Bytes are compared at the first place where they differ. -/
private theorem ofNat_cons_lt {m n : Nat} (hn : n < 256) {a b : Bytes} (hle : m ≤ n) (h : m = n → a < b) :
    UInt8.ofNat m :: a < UInt8.ofNat n :: b := by
  have hm : m < 256 := Nat.lt_of_le_of_lt hle hn
  rw [List.cons_lt_cons_iff, UInt8.lt_iff_toNat_lt, UInt8.toNat_ofNat_of_lt' hm, UInt8.toNat_ofNat_of_lt' hn]
  rcases Nat.lt_or_eq_of_le hle with hlt | heq
  · exact .inl hlt
  · exact .inr ⟨congrArg UInt8.ofNat heq, h heq⟩

/-- The bytes of a smaller character are smaller, whatever follows. -/
theorem utf8EncodeChar_append_lt {c d : Char} (h : c < d) (a b : Bytes) :
    String.utf8EncodeChar c ++ a < String.utf8EncodeChar d ++ b := by
  have hval : c.val.toNat < d.val.toNat := h
  have hmax : d.val.toNat < 0x110000 := by
    have := d.valid
    simp only [UInt32.isValidChar, Nat.isValidChar] at this
    omega
  rw [String.utf8EncodeChar, String.utf8EncodeChar]
  generalize c.val.toNat = v at hval
  generalize d.val.toNat = w at hval hmax
  -- a character of more bytes has a larger first byte, and of two with as many the first byte that differs decides
  split
  · split
    · exact ofNat_cons_lt (by omega) (by omega) fun _ => by omega
    · split
      · exact ofNat_cons_lt (by omega) (by omega) fun _ => by omega
      · split <;> exact ofNat_cons_lt (by omega) (by omega) fun _ => by omega
  · split
    · split
      · omega
      · split
        · exact ofNat_cons_lt (by omega) (by omega) fun _ => ofNat_cons_lt (by omega) (by omega) fun _ => by omega
        · split <;> exact ofNat_cons_lt (by omega) (by omega) fun _ => by omega
    · split
      · split
        · omega
        · split
          · omega
          · split
            · exact ofNat_cons_lt (by omega) (by omega) fun _ => ofNat_cons_lt (by omega) (by omega) fun _ =>
                ofNat_cons_lt (by omega) (by omega) fun _ => by omega
            · exact ofNat_cons_lt (by omega) (by omega) fun _ => by omega
      · split
        · omega
        · split
          · omega
          · split
            · omega
            · exact ofNat_cons_lt (by omega) (by omega) fun _ => ofNat_cons_lt (by omega) (by omega) fun _ =>
                ofNat_cons_lt (by omega) (by omega) fun _ => ofNat_cons_lt (by omega) (by omega) fun _ => by omega

theorem encode_lt_encode {cs ds : List Char} (h : cs < ds) : encode cs < encode ds := by
  induction cs generalizing ds with
  | nil =>
    cases ds with
    | nil => exact absurd h (List.lt_irrefl _)
    | cons d ds =>
      have hd : String.utf8EncodeChar d ≠ [] := by
        rw [String.utf8EncodeChar]
        repeat' split
        all_goals simp
      obtain ⟨b, bs, hbs⟩ := List.exists_cons_of_ne_nil hd
      rw [encode_cons, encode_nil, hbs]
      exact List.nil_lt_cons ..
  | cons c cs ih =>
    cases ds with
    | nil => exact absurd h (List.not_lt_nil _)
    | cons d ds =>
      rw [encode_cons, encode_cons]
      rcases List.cons_lt_cons_iff.1 h with hlt | ⟨rfl, hlt⟩
      · exact utf8EncodeChar_append_lt hlt _ _
      · exact List.append_left_lt (ih hlt)

/-- Texts are in the order of their bytes. -/
theorem utf8_lt_utf8_iff {s t : String} : utf8 s < utf8 t ↔ s < t := by
  rw [utf8_eq_encode, utf8_eq_encode, String.lt_iff]
  refine ⟨fun h => Decidable.byContradiction fun hn => ?_, encode_lt_encode⟩
  rcases List.le_iff_lt_or_eq.1 (List.not_lt.1 hn) with hlt | heq
  · exact List.lt_asymm h (encode_lt_encode hlt)
  · rw [heq] at h
    exact List.lt_irrefl _ h

end ResultCache.Text
