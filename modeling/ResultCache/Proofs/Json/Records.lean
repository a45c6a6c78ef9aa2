import ResultCache.Json.Record
import ResultCache.Proofs.Json.Values

/-!
# Records read back

A record that is written as an object with one field for each slot, in any order, is read to the draft that the slots
make of the fields (`readWith_render`).  What every slot keeps holds of every draft that is read
(`readWith_preserves`).
-/

namespace ResultCache.Json

open ResultCache.Text

/-! ### Kinds of fields -/

theorem readString_render (s : String) (rest : Bytes) : readString (encode (str s).render ++ rest) = .ok (s, rest) := by
  rw [render, encode_quoted, readString, skipSpace_cons (by decide)]
  dsimp only
  rw [if_pos rfl, scanString?_flatMap]

theorem skipSpace_render {v : Json} (h : v.Readable) (rest : Bytes) :
    skipSpace (encode v.render ++ rest) = encode v.render ++ rest := by
  obtain ⟨b, bs, heq, hspace, -⟩ := encode_render_cons h
  rw [heq, List.cons_append, skipSpace_cons hspace]

theorem readUInt64_render {n : Nat} (h : n < 2 ^ 64) {rest : Bytes} (hrest : EndsNumber rest) :
    readUInt64 (encode (nat n).render ++ rest) = .ok (n, rest) := by
  have hreadable : (nat n).Readable := ⟨by omega, by omega⟩
  have hscalar : (nat n).IsScalar := trivial
  rw [readUInt64, skipSpace_render hreadable, scanScalar?_render hscalar hreadable hrest]
  dsimp only [nat]
  rw [if_pos (Int.natCast_nonneg n), Int.toNat_natCast]

/-- A whole number that is meant is below `2 ^ 64`. -/
theorem lt_of_value? {s : Spelled} {m : Int} (h : s.value? = some (int m)) : m < 2 ^ 64 := by
  rw [Spelled.value?] at h
  split at h
  · rename_i hfits
    simp only [Bool.and_eq_true, decide_eq_true_eq] at hfits
    cases h
    exact Int.ofNat_lt.2 hfits.2
  · split at h
    · cases h
      omega
    · dsimp only at h
      split at h <;> cases h

theorem lt_of_scanNumber? {bs rest : Bytes} {m : Int} (h : scanNumber? bs = some (int m, rest)) : m < 2 ^ 64 := by
  rw [scanNumber?] at h
  split at h
  · cases h
  · obtain ⟨v, hv, heq⟩ := Option.map_eq_some_iff.1 h
    cases heq
    exact lt_of_value? hv

theorem lt_of_scanScalar? {bs rest : Bytes} {m : Int} (h : scanScalar? bs = some (int m, rest)) : m < 2 ^ 64 := by
  cases bs with
  | nil => cases h
  | cons b bs =>
    rw [scanScalar?] at h
    split at h
    · obtain ⟨_, _, heq⟩ := Option.map_eq_some_iff.1 h
      cases heq
    · split at h
      · exact lt_of_scanNumber? h
      · rw [scanWord?] at h
        split at h
        · cases h
        · split at h
          · cases h
          · obtain ⟨_, _, heq⟩ := Option.map_eq_some_iff.1 h
            cases heq

/-- A whole number that is read fits 64 bits. -/
theorem lt_of_readUInt64 {bs rest : Bytes} {n : Nat} (h : readUInt64 bs = .ok (n, rest)) : n < 2 ^ 64 := by
  rw [readUInt64] at h
  split at h
  · rename_i m more hscan
    have hm := lt_of_scanScalar? hscan
    split at h
    · cases h
      omega
    · cases h
  · cases h

theorem readName_render {α : Type} {named? : String → Option α} {s : String} {a : α} (h : named? s = some a)
    (levels : Nat) (rest : Bytes) : readName named? levels (encode (str s).render ++ rest) = .ok (a, rest) := by
  have hread := readString_render s rest
  rw [render, encode_quoted] at hread ⊢
  rw [readName, skipSpace_cons (by decide)]
  dsimp only
  rw [if_pos rfl, hread]
  dsimp only
  rw [h]

/-! ### Slots -/

/-- What a slot puts into the draft is what is read. -/
theorem Slot.read_of_iff {σ α : Type} {name : String} {needed : Bool} {get : σ → Option α} {put : σ → α → σ}
    {value : Bytes → Except Fault (α × Bytes)} {s s' : σ} {bs rest : Bytes} :
    (Slot.of name needed get put value).read s bs = .ok (s', rest) ↔ ∃ a, value bs = .ok (a, rest) ∧ put s a = s' := by
  rw [Slot.of]
  dsimp only
  cases value bs with
  | error e => simp
  | ok r =>
    obtain ⟨a, more⟩ := r
    constructor
    · intro h
      cases h
      exact ⟨a, rfl, rfl⟩
    · rintro ⟨b, hb, rfl⟩
      cases hb
      rfl

theorem readSlot_of_find? {σ : Type} {slots : List (Slot σ)} {name : String} {slot : Slot σ} {s : σ} {bs : Bytes}
    {r : σ × Bytes} (hslot : slots.find? (·.name == name) = some slot) (hfree : slot.filled s = false)
    (hread : slot.read s bs = .ok r) : readSlot slots name s (ascii ':' :: bs) = .ok r := by
  rw [readSlot, hslot]
  dsimp only
  rw [hfree, if_neg (by decide), afterColon_cons]
  exact hread

/-- An object is read to the draft to which its fields take the empty one. -/
theorem readWith_render {σ α : Type} {slots : List (Slot σ)} {draft s : σ} {finish? : σ → Option α} {a : α}
    {fields : List (String × Json)} (hfields : Takes (readSlot slots) draft fields s)
    (hfilled : ∀ slot ∈ slots, slot.filled s = true) (hfinish : finish? s = some a) (levels : Nat) (rest : Bytes) :
    readWith slots draft finish? (levels + 1) (encode (obj fields).render ++ rest) = .ok (a, rest) := by
  have hnone : (slots.any fun slot => slot.needed && !slot.filled s) = false := by
    rw [List.any_eq_false]
    intro slot hslot
    rw [hfilled slot hslot]
    simp
  rw [encode_render_obj, readWith, readRecord, skipSpace_cons (by decide)]
  dsimp only
  rw [if_pos rfl, if_neg (by omega), readObject_render hfields rest]
  dsimp only
  rw [hnone, if_neg (by decide)]
  dsimp only
  rw [hfinish]

/-! ### Invariants of drafts -/

variable {σ : Type} {P : σ → Prop}

theorem readFields_preserves {κ : Type} {name : Bytes → Option (κ × Bytes)}
    {field : κ → σ → Bytes → Except Fault (σ × Bytes)}
    (hfield : ∀ k s bs s' rest, P s → field k s bs = .ok (s', rest) → P s') {fuel : Nat} {s s' : σ} {bs rest : Bytes}
    (hs : P s) (h : readFields name field fuel s bs = .ok (s', rest)) : P s' := by
  induction fuel generalizing s bs with
  | zero => cases h
  | succ fuel ih =>
    rw [readFields] at h
    split at h
    · cases h
    · split at h
      · cases h
      · split at h
        · cases h
        · split at h
          · cases h
          · rename_i s₁ more hread
            have hs₁ := hfield _ _ _ _ _ hs hread
            split at h
            · cases h
            · split at h
              · cases h
                exact hs₁
              · split at h
                · exact ih hs₁ h
                · cases h

theorem readSlots_preserves {slots : List (Slot σ)}
    (hslots : ∀ slot ∈ slots, ∀ s bs s' rest, P s → slot.read s bs = .ok (s', rest) → P s') {first : Bool} {s s' : σ}
    {bs rest : Bytes} (hs : P s) (h : readSlots first slots s bs = .ok (s', rest)) : P s' := by
  induction slots generalizing first s bs with
  | nil =>
    rw [readSlots] at h
    split at h
    · cases h
    · split at h
      · cases h
        exact hs
      · cases h
  | cons slot slots ih =>
    rw [readSlots] at h
    split at h
    · cases h
    · split at h
      · split at h
        · cases h
        · cases h
          exact hs
      · split at h
        · cases h
        · dsimp only at h
          generalize (if first = true then _ else skipSpace _) = value at h
          split at h
          · cases h
          · split at h
            · cases h
            · rename_i s₁ more hread
              have hs₁ := hslots slot List.mem_cons_self _ _ _ _ hs hread
              exact ih (fun slot hslot => hslots slot (List.mem_cons_of_mem _ hslot)) hs₁ h

/-- A field of an object is only read into a slot that is free. -/
theorem readSlot_preserves {slots : List (Slot σ)}
    (hslots : ∀ slot ∈ slots, ∀ s bs s' rest, P s → slot.filled s = false → slot.read s bs = .ok (s', rest) → P s')
    (name : String) (s : σ) (bs : Bytes) (s' : σ) (rest : Bytes) (hs : P s)
    (h : readSlot slots name s bs = .ok (s', rest)) : P s' := by
  rw [readSlot] at h
  split at h
  · -- the value of an unknown field is passed over
    rw [colonThen] at h
    split at h
    · cases h
    · split at h
      · cases h
      · cases h
        exact hs
  · rename_i slot hfind
    split at h
    · cases h
    · rename_i hfree
      rw [Bool.not_eq_true] at hfree
      split at h
      · cases h
      · exact hslots slot (List.mem_of_find?_eq_some hfind) _ _ _ _ hs hfree h

theorem readObject_preserves {κ : Type} {name : Bytes → Option (κ × Bytes)}
    {field : κ → σ → Bytes → Except Fault (σ × Bytes)}
    (hfield : ∀ k s bs s' rest, P s → field k s bs = .ok (s', rest) → P s') {s s' : σ} {bs rest : Bytes}
    (hs : P s) (h : readObject name field s bs = .ok (s', rest)) : P s' := by
  rw [readObject] at h
  split at h
  · cases h
  · split at h
    · cases h
      exact hs
    · exact readFields_preserves hfield hs h

theorem readRecord_preserves {slots : List (Slot σ)} {levels : Nat}
    (hslots : ∀ slot ∈ slots, ∀ s bs s' rest, P s → slot.read s bs = .ok (s', rest) → P s') {s s' : σ}
    {bs rest : Bytes} (hs : P s) (h : readRecord slots s levels bs = .ok (s', rest)) : P s' := by
  rw [readRecord] at h
  split at h
  · cases h
  · split at h
    · split at h
      · cases h
      · split at h
        · cases h
        · rename_i s₁ more hobject
          have hslots' : ∀ slot ∈ slots, ∀ s bs s' rest, P s → slot.filled s = false →
              slot.read s bs = .ok (s', rest) → P s' :=
            fun slot hslot s bs s' rest hs _ => hslots slot hslot s bs s' rest hs
          have hs₁ : P s₁ := readObject_preserves (readSlot_preserves hslots') hs hobject
          split at h
          · cases h
          · cases h
            exact hs₁
    · split at h
      · split at h
        · cases h
        · exact readSlots_preserves hslots hs h
      · cases h

/-- What every slot keeps holds of the draft of a record that is read. -/
theorem readWith_preserves {α : Type} {slots : List (Slot σ)} {draft : σ} {finish? : σ → Option α} {levels : Nat}
    {bs rest : Bytes} {a : α}
    (hslots : ∀ slot ∈ slots, ∀ s bs s' rest, P s → slot.read s bs = .ok (s', rest) → P s') (hdraft : P draft)
    (h : readWith slots draft finish? levels bs = .ok (a, rest)) : ∃ s, P s ∧ finish? s = some a := by
  rw [readWith] at h
  split at h
  · cases h
  · rename_i s more hread
    split at h
    · cases h
    · rename_i v hfinish
      cases h
      exact ⟨s, readRecord_preserves hslots hdraft hread, hfinish⟩

/-- The fields of an object after the first one start from the draft to which the first one leads. -/
theorem readObject_cons_preserves {field : String → σ → Bytes → Except Fault (σ × Bytes)} {s s₁ s' : σ} {name : String}
    {v : Json} {fields : List (String × Json)} {rest more : Bytes}
    (hfirst : ∀ rest, EndsNumber rest → field name s (ascii ':' :: (encode v.render ++ rest)) = .ok (s₁, rest))
    (hfield : ∀ k s bs s' rest, P s → field k s bs = .ok (s', rest) → P s') (hs₁ : P s₁)
    (h : readObject scanString? field s (encode (renderFields ((name, v) :: fields)) ++ ascii '}' :: rest) =
      .ok (s', more)) : P s' := by
  rw [encode_renderFields_cons, readObject, skipSpace_cons (by decide)] at h
  dsimp only at h
  rw [if_neg (by decide), readFields, skipSpace_cons (by decide)] at h
  dsimp only at h
  rw [if_neg (by simp), scanString?_flatMap] at h
  dsimp only at h
  cases fields with
  | nil =>
    rw [List.isEmpty_nil, if_pos rfl, hfirst _ (endsNumber_cons (by decide))] at h
    dsimp only at h
    rw [skipSpace_cons (by decide)] at h
    dsimp only at h
    rw [if_pos rfl] at h
    cases h
    exact hs₁
  | cons q fields =>
    rw [List.isEmpty_cons, if_neg (by decide), hfirst _ (endsNumber_cons (by decide))] at h
    dsimp only at h
    rw [skipSpace_cons (by decide)] at h
    dsimp only at h
    rw [if_neg (by decide), if_pos rfl] at h
    exact readFields_preserves hfield hs₁ h

/-- What the first field of an object brings about, and slots that are still free keep, holds of the draft. -/
theorem readWith_cons_preserves {α : Type} {slots : List (Slot σ)} {draft s₁ : σ} {finish? : σ → Option α}
    {levels : Nat} {name : String} {v : Json} {fields : List (String × Json)} {rest more : Bytes} {a : α}
    (hfirst : ∀ rest, EndsNumber rest →
      readSlot slots name draft (ascii ':' :: (encode v.render ++ rest)) = .ok (s₁, rest))
    (hslots : ∀ slot ∈ slots, ∀ s bs s' rest, P s → slot.filled s = false → slot.read s bs = .ok (s', rest) → P s')
    (hs₁ : P s₁)
    (h : readWith slots draft finish? levels (encode (obj ((name, v) :: fields)).render ++ rest) = .ok (a, more)) :
    ∃ s, P s ∧ finish? s = some a := by
  rw [encode_render_obj, readWith, readRecord, skipSpace_cons (by decide)] at h
  dsimp only at h
  rw [if_pos rfl] at h
  split at h
  · cases h
  · rename_i s rest hread
    split at h
    · cases h
    · rename_i b hfinish
      cases h
      split at hread
      · cases hread
      · split at hread
        · cases hread
        · rename_i s' rest' hobject
          split at hread
          · cases hread
          · cases hread
            exact ⟨s, readObject_cons_preserves hfirst (readSlot_preserves hslots) hs₁ hobject, hfinish⟩

end ResultCache.Json
