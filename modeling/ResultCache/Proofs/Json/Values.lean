import ResultCache.Json.Reader
import ResultCache.Proofs.Json.Numbers
import ResultCache.Proofs.Json.Strings

/-!
# Values read back

The compact text of a value is read to the value (`readValue_render`), wherever it stands in a document, if the value
is nested no deeper than the reader goes.  The induction is on the depth that the reader still allows; the items of an
array and the fields of an object are read one after the other, the fields each to the end of those before it.
-/

namespace ResultCache

namespace Assoc

variable {α : Type}

/-- A key beyond all others is put at the end. -/
theorem insert_of_forall_lt {key : String} {value : α} {l : List (String × α)} (h : ∀ p ∈ l, p.1 < key) :
    insert key value l = l ++ [(key, value)] := by
  induction l with
  | nil => rfl
  | cons p rest ih =>
    obtain ⟨k, v⟩ := p
    have hlt : k < key := h _ List.mem_cons_self
    have hne : key ≠ k := fun heq => String.lt_irrefl k (heq ▸ hlt)
    have hnlt : ¬ key < k := fun hgt => String.lt_irrefl k (String.lt_trans hlt hgt)
    rw [insert, if_neg hne, if_neg hnlt, ih fun p hp => h p (List.mem_cons_of_mem _ hp), List.cons_append]

end Assoc

namespace Json

open ResultCache.Text

/-- A value such as a document can have: whole numbers fit 64 bits, and the names of fields ascend.  Of its doubles it
is asked that their text reads back. -/
def Readable : Json → Prop
  | int n => -(2 ^ 63) ≤ n ∧ n < 2 ^ 64
  | float x => FloatReads x
  | arr items => readableItems items
  | obj fields => Assoc.Sorted fields ∧ readableFields fields
  | _ => True
where
  readableItems : List Json → Prop
    | [] => True
    | v :: vs => v.Readable ∧ readableItems vs
  readableFields : List (String × Json) → Prop
    | [] => True
    | (_, v) :: rest => v.Readable ∧ readableFields rest

theorem Readable.item {items : List Json} (h : (arr items).Readable) : ∀ v ∈ items, v.Readable := by
  induction items with
  | nil => simp
  | cons v vs ih =>
    obtain ⟨hv, hvs⟩ : v.Readable ∧ (arr vs).Readable := h
    intro w hw
    rcases List.mem_cons.1 hw with rfl | hw
    · exact hv
    · exact ih hvs w hw

theorem Readable.field {fields : List (String × Json)} (h : (obj fields).Readable) : ∀ p ∈ fields, p.2.Readable := by
  obtain ⟨-, h⟩ := h
  induction fields with
  | nil => simp
  | cons p rest ih =>
    obtain ⟨hp, hrest⟩ : p.2.Readable ∧ Readable.readableFields rest := h
    intro q hq
    rcases List.mem_cons.1 hq with rfl | hq
    · exact hp
    · exact ih hrest q hq

theorem depth_item_lt {items : List Json} {v : Json} (h : v ∈ items) : v.depth < (arr items).depth := by
  have hle : v.depth ≤ depth.depthItems items := by
    induction items with
    | nil => cases h
    | cons w vs ih =>
      rw [depth.depthItems]
      rcases List.mem_cons.1 h with rfl | h
      · exact Nat.le_max_left ..
      · exact Nat.le_trans (ih h) (Nat.le_max_right ..)
  rw [depth]
  omega

theorem depth_field_lt {fields : List (String × Json)} {p : String × Json} (h : p ∈ fields) :
    p.2.depth < (obj fields).depth := by
  have hle : p.2.depth ≤ depth.depthFields fields := by
    induction fields with
    | nil => cases h
    | cons q rest ih =>
      rw [depth.depthFields]
      rcases List.mem_cons.1 h with rfl | h
      · exact Nat.le_max_left ..
      · exact Nat.le_trans (ih h) (Nat.le_max_right ..)
  rw [depth]
  omega

/-! ### Scalars -/

theorem skipSpace_cons {b : UInt8} {bs : Bytes} (h : isSpaceByte b = false) : skipSpace (b :: bs) = b :: bs :=
  List.dropWhile_cons_of_neg (by simp [h])

/-- A byte with which a value may begin that is neither array nor object. -/
def BeginsScalar (b : UInt8) : Prop :=
  isSpaceByte b = false ∧ b ≠ ascii '[' ∧ b ≠ ascii '{' ∧ b ≠ ascii ']'

theorem beginsScalar_of_isDigitByte {b : UInt8} (h : isDigitByte b = true) : BeginsScalar b := by
  refine ⟨Bool.eq_false_iff.2 fun hspace => ?_, ?_, ?_, ?_⟩
  · simp only [isSpaceByte, Bool.or_eq_true, beq_iff_eq] at hspace
    rcases hspace with ((rfl | rfl) | rfl) | rfl <;> exact absurd h (by decide)
  all_goals
    rintro rfl
    exact absurd h (by decide)

theorem after?_eq_some {w : UInt8} {ws bs rest : Bytes} {b : UInt8} (h : after? (w :: ws) (b :: bs) = some rest) :
    b = w := by
  rw [after?] at h
  split at h
  · exact (‹w = b›).symm
  · cases h

/-- What is scanned as a scalar begins like one. -/
theorem beginsScalar_of_scanScalar? {b : UInt8} {bs : Bytes} {r : Json × Bytes}
    (h : scanScalar? (b :: bs) = some r) : BeginsScalar b := by
  rw [scanScalar?] at h
  split at h
  · rename_i hquote
    subst hquote
    exact ⟨by decide, by decide, by decide, by decide⟩
  split at h
  · rename_i hnumber
    rcases hnumber with rfl | hdigit
    · exact ⟨by decide, by decide, by decide, by decide⟩
    · exact beginsScalar_of_isDigitByte hdigit
  · have hb : b = ascii 'n' ∨ b = ascii 't' ∨ b = ascii 'f' := by
      rw [scanWord?] at h
      split at h
      · exact .inl (after?_eq_some ‹_›)
      · split at h
        · exact .inr (.inl (after?_eq_some ‹_›))
        · obtain ⟨rest, hrest, -⟩ := Option.map_eq_some_iff.1 h
          exact .inr (.inr (after?_eq_some hrest))
    rcases hb with rfl | rfl | rfl <;> exact ⟨by decide, by decide, by decide, by decide⟩

/-- What is scanned as a number begins like one. -/
theorem scanScalar?_of_scanNumber? {bs rest : Bytes} {v : Json} (h : scanNumber? bs = some (v, rest)) :
    scanScalar? bs = some (v, rest) := by
  cases bs with
  | nil => cases h
  | cons b bs =>
    have hb : b = ascii '-' ∨ isDigitByte b = true := by
      by_cases hminus : b = ascii '-'
      · exact .inl hminus
      · right
        rw [scanNumber?, scanSpelled?, if_neg hminus, scanUnsigned?] at h
        cases hdigit : isDigitByte b with
        | true => rfl
        | false => simp [hdigit] at h
    have hquote : b ≠ ascii '"' := by
      rintro rfl
      exact absurd hb (by decide)
    rw [scanScalar?, if_neg hquote, if_pos hb]
    exact h

theorem readValue_of_scanScalar? {levels : Nat} {bs : Bytes} {r : Json × Bytes} (h : scanScalar? bs = some r) :
    readValue levels bs = .ok r := by
  cases bs with
  | nil => cases h
  | cons b bs =>
    obtain ⟨hspace, harray, hobject, -⟩ := beginsScalar_of_scanScalar? h
    rw [readValue.eq_def]
    dsimp only
    rw [skipSpace_cons hspace]
    dsimp only
    rw [if_neg harray, if_neg hobject, h]

/-- Neither an array nor an object. -/
def IsScalar : Json → Prop
  | arr _ => False
  | obj _ => False
  | _ => True

/-- The text of a scalar is scanned to it. -/
theorem scanScalar?_render {v : Json} (hv : v.IsScalar) (h : v.Readable) {rest : Bytes} (hrest : EndsNumber rest) :
    scanScalar? (encode v.render ++ rest) = some (v, rest) := by
  cases v with
  | null => rfl
  | bool b => cases b <;> rfl
  | int n =>
    rw [render]
    exact scanScalar?_of_scanNumber? (scanNumber?_append hrest (scanNumber?_decimalInt h.1 h.2))
  | float x =>
    rw [render]
    exact scanScalar?_of_scanNumber? (scanNumber?_append hrest h)
  | str s =>
    rw [render, encode_quoted, scanScalar?, if_pos rfl, scanString?_flatMap]
    rfl
  | arr items => cases hv
  | obj fields => cases hv

/-- The text of a value begins with a byte that is no space and closes no array. -/
theorem encode_render_cons {v : Json} (h : v.Readable) :
    ∃ b bs, encode v.render = b :: bs ∧ isSpaceByte b = false ∧ b ≠ ascii ']' := by
  have scalar : v.IsScalar → ∃ b bs, encode v.render = b :: bs ∧ isSpaceByte b = false ∧ b ≠ ascii ']' := by
    intro hv
    have hend : EndsNumber [] := by simp [EndsNumber]
    have hscan := scanScalar?_render hv h hend
    rw [List.append_nil] at hscan
    cases heq : encode v.render with
    | nil =>
      rw [heq] at hscan
      cases hscan
    | cons b bs =>
      rw [heq] at hscan
      obtain ⟨hspace, -, -, hclose⟩ := beginsScalar_of_scanScalar? hscan
      exact ⟨b, bs, rfl, hspace, hclose⟩
  cases v with
  | arr items =>
    refine ⟨ascii '[', encode (renderItems items ++ [']']), ?_, by decide, by decide⟩
    rw [render, List.cons_append]
    exact encode_cons_ascii (by decide) _
  | obj fields =>
    refine ⟨ascii '{', encode (renderFields fields ++ ['}']), ?_, by decide, by decide⟩
    rw [render, List.cons_append]
    exact encode_cons_ascii (by decide) _
  | _ => exact scalar trivial

/-! ### Arrays and objects -/

/-- A reader reads the text of a value, whatever follows that cannot belong to it. -/
def Reads (read : Bytes → Except Fault (Json × Bytes)) (v : Json) : Prop :=
  ∀ rest, EndsNumber rest → read (encode v.render ++ rest) = .ok (v, rest)

theorem encode_renderItems_cons (v : Json) (vs : List Json) (rest : Bytes) :
    encode (renderItems (v :: vs)) ++ ascii ']' :: rest = encode v.render ++
      (if vs.isEmpty then ascii ']' :: rest else ascii ',' :: (encode (renderItems vs) ++ ascii ']' :: rest)) := by
  rw [renderItems, encode_append, List.append_assoc]
  congr 1
  split
  · rfl
  · rw [encode_cons_ascii (by decide)]
    rfl

theorem readItems_render {read : Bytes → Except Fault (Json × Bytes)} {items : List Json} (hne : items ≠ [])
    (h : ∀ v ∈ items, Reads read v) {fuel : Nat} (hfuel : items.length ≤ fuel) (acc : List Json) (rest : Bytes) :
    readItems (consItem read) fuel acc (encode (renderItems items) ++ ascii ']' :: rest) =
      .ok (items.reverse ++ acc, rest) := by
  induction items generalizing fuel acc with
  | nil => exact absurd rfl hne
  | cons v vs ih =>
    obtain ⟨fuel, rfl⟩ : ∃ n, fuel = n + 1 := ⟨fuel - 1, by rw [List.length_cons] at hfuel; omega⟩
    have hread := h v List.mem_cons_self
    rw [encode_renderItems_cons, readItems, consItem]
    cases vs with
    | nil =>
      rw [List.isEmpty_nil, if_pos rfl, hread _ (endsNumber_cons (by decide))]
      dsimp only
      rw [skipSpace_cons (by decide)]
      exact if_pos rfl
    | cons w vs =>
      rw [List.isEmpty_cons, if_neg (by decide), hread _ (endsNumber_cons (by decide))]
      dsimp only
      rw [skipSpace_cons (by decide)]
      dsimp only
      rw [if_neg (by decide), if_pos rfl, ih (by simp) (fun u hu => h u (List.mem_cons_of_mem _ hu))
        (by simp only [List.length_cons] at hfuel ⊢; omega), List.reverse_cons (a := v), List.append_assoc]
      rfl

/-- An array has no more items than its text has bytes. -/
theorem length_le_renderItems {items : List Json} (h : ∀ v ∈ items, v.Readable) :
    items.length ≤ (encode (renderItems items)).length := by
  induction items with
  | nil => exact Nat.zero_le _
  | cons v vs ih =>
    obtain ⟨b, bs, heq, -, -⟩ := encode_render_cons (h v List.mem_cons_self)
    have hvs := ih fun u hu => h u (List.mem_cons_of_mem _ hu)
    rw [renderItems, encode_append, heq]
    cases vs with
    | nil => exact Nat.le_add_left ..
    | cons w vs =>
      rw [List.isEmpty_cons, if_neg (by decide), encode_cons_ascii (by decide)]
      simp only [List.length_append, List.length_cons] at hvs ⊢
      omega

theorem readArray_render {read : Bytes → Except Fault (Json × Bytes)} {items : List Json}
    (hreadable : ∀ v ∈ items, v.Readable) (h : ∀ v ∈ items, Reads read v) (rest : Bytes) :
    readArray (consItem read) [] (encode (renderItems items) ++ ascii ']' :: rest) = .ok (items.reverse, rest) := by
  cases items with
  | nil =>
    rw [renderItems, encode_nil, List.nil_append, readArray, skipSpace_cons (by decide)]
    exact if_pos rfl
  | cons v vs =>
    obtain ⟨b, bs, heq, hspace, hclose⟩ := encode_render_cons (hreadable v List.mem_cons_self)
    have hlength := length_le_renderItems hreadable
    obtain ⟨bs', hbs⟩ : ∃ bs', encode (renderItems (v :: vs)) ++ ascii ']' :: rest = b :: bs' := by
      rw [encode_renderItems_cons, heq]
      exact ⟨_, rfl⟩
    rw [readArray, hbs, skipSpace_cons hspace]
    dsimp only
    rw [if_neg hclose, ← hbs, readItems_render (List.cons_ne_nil v vs) h
      (by rw [List.length_append]; omega), List.append_nil]

theorem encode_renderFields_cons (name : String) (v : Json) (fields : List (String × Json)) (rest : Bytes) :
    encode (renderFields ((name, v) :: fields)) ++ ascii '}' :: rest =
      ascii '"' :: (encode (name.toList.flatMap escapeChar) ++ ascii '"' :: ascii ':' :: (encode v.render ++
        (if fields.isEmpty then ascii '}' :: rest
          else ascii ',' :: (encode (renderFields fields) ++ ascii '}' :: rest)))) := by
  have htail : encode (if fields.isEmpty then [] else ',' :: renderFields fields) ++ ascii '}' :: rest =
      if fields.isEmpty then ascii '}' :: rest
        else ascii ',' :: (encode (renderFields fields) ++ ascii '}' :: rest) := by
    split
    · rfl
    · rw [encode_cons_ascii (by decide)]
      rfl
  rw [renderFields, encode_append, encode_append, List.append_assoc, List.append_assoc, encode_quoted, htail,
    encode_cons_ascii (by decide)]
  rfl

theorem afterColon_cons (bs : Bytes) : afterColon (ascii ':' :: bs) = .ok bs := by
  rw [afterColon, skipSpace_cons (by decide)]
  exact if_pos rfl

/-- Some fields take a state to another one, each read from its text after the name. -/
inductive Takes {σ : Type} (field : String → σ → Bytes → Except Fault (σ × Bytes)) :
    σ → List (String × Json) → σ → Prop where
  | nil (s : σ) : Takes field s [] s
  | cons {s s' s'' : σ} {name : String} {v : Json} {fields : List (String × Json)}
      (first : ∀ rest, EndsNumber rest → field name s (ascii ':' :: (encode v.render ++ rest)) = .ok (s', rest))
      (others : Takes field s' fields s'') : Takes field s ((name, v) :: fields) s''

theorem readFields_render {σ : Type} {field : String → σ → Bytes → Except Fault (σ × Bytes)} {s s' : σ}
    {fields : List (String × Json)} (hne : fields ≠ []) (h : Takes field s fields s') {fuel : Nat}
    (hfuel : fields.length ≤ fuel) (rest : Bytes) :
    readFields scanString? field fuel s (encode (renderFields fields) ++ ascii '}' :: rest) = .ok (s', rest) := by
  induction h generalizing fuel with
  | nil => exact absurd rfl hne
  | @cons s₁ s₂ s₃ name v fields first others ih =>
    obtain ⟨fuel, rfl⟩ : ∃ n, fuel = n + 1 := ⟨fuel - 1, by rw [List.length_cons] at hfuel; omega⟩
    rw [encode_renderFields_cons, readFields, skipSpace_cons (by decide)]
    dsimp only
    rw [if_neg (by simp), scanString?_flatMap]
    dsimp only
    cases fields with
    | nil =>
      cases others
      rw [List.isEmpty_nil, if_pos rfl, first _ (endsNumber_cons (by decide))]
      dsimp only
      rw [skipSpace_cons (by decide)]
      exact if_pos rfl
    | cons q fields =>
      rw [List.isEmpty_cons, if_neg (by decide), first _ (endsNumber_cons (by decide))]
      dsimp only
      rw [skipSpace_cons (by decide)]
      dsimp only
      rw [if_neg (by decide), if_pos rfl]
      exact ih (by simp) (by simp only [List.length_cons] at hfuel ⊢; omega)

/-- An object has no more fields than its text has bytes. -/
theorem length_le_renderFields (fields : List (String × Json)) :
    fields.length ≤ (encode (renderFields fields)).length := by
  induction fields with
  | nil => exact Nat.zero_le _
  | cons p fields ih =>
    obtain ⟨name, v⟩ := p
    rw [renderFields, encode_append, encode_append, encode_cons_ascii (by decide)]
    cases fields with
    | nil =>
      simp only [List.length_append, List.length_cons, List.length_nil]
      omega
    | cons q fields =>
      rw [List.isEmpty_cons, if_neg (by decide), encode_cons_ascii (by decide)]
      simp only [List.length_append, List.length_cons] at ih ⊢
      omega

theorem readObject_render {σ : Type} {field : String → σ → Bytes → Except Fault (σ × Bytes)} {s s' : σ}
    {fields : List (String × Json)} (h : Takes field s fields s') (rest : Bytes) :
    readObject scanString? field s (encode (renderFields fields) ++ ascii '}' :: rest) = .ok (s', rest) := by
  cases fields with
  | nil =>
    cases h
    rw [renderFields, encode_nil, List.nil_append, readObject, skipSpace_cons (by decide)]
    exact if_pos rfl
  | cons p fields =>
    obtain ⟨name, v⟩ := p
    have hlength := length_le_renderFields ((name, v) :: fields)
    obtain ⟨bs, hbs⟩ : ∃ bs, encode (renderFields ((name, v) :: fields)) ++ ascii '}' :: rest = ascii '"' :: bs := by
      rw [encode_renderFields_cons]
      exact ⟨_, rfl⟩
    rw [readObject, hbs, skipSpace_cons (by decide)]
    dsimp only
    rw [if_neg (by decide), ← hbs]
    exact readFields_render (by simp) h (by rw [List.length_append]; omega) rest

theorem encode_render_obj (fields : List (String × Json)) (rest : Bytes) :
    encode (obj fields).render ++ rest = ascii '{' :: (encode (renderFields fields) ++ ascii '}' :: rest) := by
  rw [render, List.cons_append, encode_cons_ascii (by decide), encode_append, List.cons_append, List.append_assoc]
  rfl

theorem encode_render_arr (items : List Json) (rest : Bytes) :
    encode (arr items).render ++ rest = ascii '[' :: (encode (renderItems items) ++ ascii ']' :: rest) := by
  rw [render, List.cons_append, encode_cons_ascii (by decide), encode_append, List.cons_append, List.append_assoc]
  rfl

/-- Fields that ascend are each put behind those before it. -/
theorem takes_insert {read : Bytes → Except Fault (Json × Bytes)} (done : List (String × Json))
    {fields : List (String × Json)}
    (hsorted : Assoc.Sorted (done ++ fields)) (h : ∀ p ∈ fields, Reads read p.2) :
    Takes (fun name => colonThen read fun acc v => Assoc.insert name v acc) done fields (done ++ fields) := by
  induction fields generalizing done with
  | nil =>
    rw [List.append_nil]
    exact .nil done
  | cons p fields ih =>
    obtain ⟨name, v⟩ := p
    have hlast : ∀ q ∈ done, q.1 < name := fun q hq =>
      (List.pairwise_append.1 hsorted).2.2 q hq (name, v) List.mem_cons_self
    rw [List.append_cons] at hsorted ⊢
    refine .cons (fun rest hrest => ?_) (ih _ hsorted fun p hp => h p (List.mem_cons_of_mem _ hp))
    have hread := h (name, v) List.mem_cons_self rest hrest
    dsimp only at hread
    rw [colonThen, afterColon_cons]
    dsimp only
    rw [hread]
    dsimp only
    rw [Assoc.insert_of_forall_lt hlast]

/-! ### Values -/

/-- The text of a value is read to the value, if it is not nested too deep. -/
theorem readValue_render {levels : Nat} {v : Json} (hdepth : v.depth ≤ levels) (h : v.Readable) :
    Reads (readValue levels) v := by
  induction levels generalizing v with
  | zero =>
    -- only a scalar needs no level
    have hscalar : v.IsScalar := by
      cases v with
      | arr items =>
        rw [depth] at hdepth
        omega
      | obj fields =>
        rw [depth] at hdepth
        omega
      | _ => trivial
    exact fun rest hrest => readValue_of_scanScalar? (scanScalar?_render hscalar h hrest)
  | succ levels ih =>
    intro rest hrest
    have scalar : v.IsScalar → readValue (levels + 1) (encode v.render ++ rest) = .ok (v, rest) :=
      fun hv => readValue_of_scanScalar? (scanScalar?_render hv h hrest)
    cases v with
    | arr items =>
      have hitems : ∀ v ∈ items, Reads (readValue levels) v := fun v hv =>
        ih (Nat.le_of_lt_succ (Nat.lt_of_lt_of_le (depth_item_lt hv) hdepth)) (h.item v hv)
      rw [encode_render_arr, readValue.eq_def]
      dsimp only
      rw [skipSpace_cons (by decide)]
      dsimp only
      rw [if_pos rfl, readArray_render h.item hitems rest]
      dsimp only
      rw [List.reverse_reverse]
    | obj fields =>
      have hfields : ∀ p ∈ fields, Reads (readValue levels) p.2 := fun p hp =>
        ih (Nat.le_of_lt_succ (Nat.lt_of_lt_of_le (depth_field_lt hp) hdepth)) (h.field p hp)
      have htakes := takes_insert [] h.1 hfields
      rw [List.nil_append] at htakes
      rw [encode_render_obj, readValue.eq_def]
      dsimp only
      rw [skipSpace_cons (by decide)]
      dsimp only
      rw [if_neg (by decide), if_pos rfl, readObject_render htakes rest]
    | null => exact scalar trivial
    | bool b => exact scalar trivial
    | int n => exact scalar trivial
    | float x => exact scalar trivial
    | str s => exact scalar trivial

theorem bytes_eq_encode (v : Json) : v.bytes = encode v.render :=
  utf8_ofList _

/-- A document of a value that is not nested too deep is read to the value. -/
theorem parse_bytes {v : Json} (hdepth : v.depth ≤ maxDepth) (h : v.Readable) : parse v.bytes = .ok v := by
  have hread := readValue_render hdepth h [] (by simp [EndsNumber])
  rw [List.append_nil, ← bytes_eq_encode] at hread
  rw [parse, hread]
  rfl

end Json

end ResultCache
