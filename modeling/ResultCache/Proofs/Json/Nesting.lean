import ResultCache.Proofs.Json.Values

/-!
# Values nested too deep

The text of a value is written at any depth of nesting, but read only up to the depth that the reader allows: beyond it
the reader fails (`readValue_deep`).  It reads what stands before the first item that is nested too deep and fails at
that, so the failure is carried up from the innermost array or object (`readItems_refuses`, `readFields_refuses`).
Hence the document of a value that is nested deeper than `maxDepth` is refused (`parse_bytes_deep`).
-/

namespace ResultCache.Json

open ResultCache.Text

/-- A reader fails on the text of a value, whatever follows that cannot belong to it. -/
def Refuses (read : Bytes → Except Fault (Json × Bytes)) (v : Json) : Prop :=
  ∀ rest, EndsNumber rest → ∃ e, read (encode v.render ++ rest) = .error e

theorem exists_deep_item {items : List Json} {levels : Nat} (h : levels + 1 < (arr items).depth) :
    ∃ v ∈ items, levels < v.depth := by
  rw [depth] at h
  have hdepth : levels < depth.depthItems items := by omega
  clear h
  induction items with
  | nil =>
    rw [depth.depthItems] at hdepth
    omega
  | cons v vs ih =>
    rw [depth.depthItems] at hdepth
    rcases Nat.lt_or_ge levels v.depth with hv | hv
    · exact ⟨v, List.mem_cons_self, hv⟩
    · obtain ⟨w, hw, hdeep⟩ := ih (by omega)
      exact ⟨w, List.mem_cons_of_mem _ hw, hdeep⟩

theorem exists_deep_field {fields : List (String × Json)} {levels : Nat} (h : levels + 1 < (obj fields).depth) :
    ∃ p ∈ fields, levels < p.2.depth := by
  rw [depth] at h
  have hdepth : levels < depth.depthFields fields := by omega
  clear h
  induction fields with
  | nil =>
    rw [depth.depthFields] at hdepth
    omega
  | cons p rest ih =>
    rw [depth.depthFields] at hdepth
    rcases Nat.lt_or_ge levels p.2.depth with hp | hp
    · exact ⟨p, List.mem_cons_self, hp⟩
    · obtain ⟨q, hq, hdeep⟩ := ih (by omega)
      exact ⟨q, List.mem_cons_of_mem _ hq, hdeep⟩

/-- Of some things one of which has a property, one is the first. -/
theorem exists_first {α : Type} {P : α → Prop} [DecidablePred P] {l : List α} (h : ∃ a ∈ l, P a) :
    ∃ before a after, l = before ++ a :: after ∧ P a ∧ ∀ b ∈ before, ¬P b := by
  obtain ⟨a, ha⟩ := Option.isSome_iff_exists.1 (List.find?_isSome.2 (by simpa using h) : (l.find? (P ·)).isSome)
  obtain ⟨hP, before, after, heq, hbefore⟩ := List.find?_eq_some_iff_append.1 ha
  exact ⟨before, a, after, heq, by simpa using hP, fun b hb => by simpa using hbefore b hb⟩

/-! ### Arrays and objects -/

/-- What is refused behind what is read makes the array fail. -/
theorem readItems_refuses {read : Bytes → Except Fault (Json × Bytes)} {before after : List Json} {v : Json}
    (hbefore : ∀ w ∈ before, Reads read w) (hv : Refuses read v) (fuel : Nat) (acc : List Json) (rest : Bytes) :
    ∃ e, readItems (consItem read) fuel acc (encode (renderItems (before ++ v :: after)) ++ ascii ']' :: rest) =
      .error e := by
  induction fuel generalizing before acc with
  | zero => exact ⟨_, rfl⟩
  | succ fuel ih =>
    cases before with
    | nil =>
      obtain ⟨e, he⟩ : ∃ e, read (encode (renderItems (v :: after)) ++ ascii ']' :: rest) = .error e := by
        rw [encode_renderItems_cons]
        split
        · exact hv _ (endsNumber_cons (by decide))
        · exact hv _ (endsNumber_cons (by decide))
      rw [List.nil_append, readItems, consItem, he]
      exact ⟨e, rfl⟩
    | cons w before =>
      have hread := hbefore w List.mem_cons_self
      have hmore : (before ++ v :: after).isEmpty = false := by simp
      rw [List.cons_append, encode_renderItems_cons, hmore, if_neg (by decide), readItems, consItem,
        hread _ (endsNumber_cons (by decide))]
      dsimp only
      rw [skipSpace_cons (by decide)]
      dsimp only
      rw [if_neg (by decide), if_pos rfl]
      exact ih (fun u hu => hbefore u (List.mem_cons_of_mem _ hu)) (w :: acc)

theorem readArray_refuses {read : Bytes → Except Fault (Json × Bytes)} {before after : List Json} {v : Json}
    (hreadable : ∀ w ∈ before ++ v :: after, w.Readable) (hbefore : ∀ w ∈ before, Reads read w) (hv : Refuses read v)
    (rest : Bytes) :
    ∃ e, readArray (consItem read) [] (encode (renderItems (before ++ v :: after)) ++ ascii ']' :: rest) =
      .error e := by
  obtain ⟨w, others, heq⟩ : ∃ w others, before ++ v :: after = w :: others := by cases before <;> exact ⟨_, _, rfl⟩
  obtain ⟨b, bs, hw, hspace, hclose⟩ := encode_render_cons (hreadable w (heq ▸ List.mem_cons_self))
  obtain ⟨bs', hbytes⟩ : ∃ bs', encode (renderItems (before ++ v :: after)) ++ ascii ']' :: rest = b :: bs' := by
    rw [heq, encode_renderItems_cons, hw]
    exact ⟨_, rfl⟩
  rw [readArray, hbytes, skipSpace_cons hspace]
  dsimp only
  rw [if_neg hclose, ← hbytes]
  exact readItems_refuses hbefore hv _ _ rest

/-- A field that fails behind some that are taken makes the object fail. -/
theorem readFields_refuses {σ : Type} {field : String → σ → Bytes → Except Fault (σ × Bytes)} {s s' : σ}
    {before after : List (String × Json)} {name : String} {v : Json} (hbefore : Takes field s before s')
    (hfield : ∀ rest, EndsNumber rest → ∃ e, field name s' (ascii ':' :: (encode v.render ++ rest)) = .error e)
    (fuel : Nat) (rest : Bytes) :
    ∃ e, readFields scanString? field fuel s
      (encode (renderFields (before ++ (name, v) :: after)) ++ ascii '}' :: rest) = .error e := by
  induction hbefore generalizing fuel with
  | nil s =>
    cases fuel with
    | zero => exact ⟨_, rfl⟩
    | succ fuel =>
      obtain ⟨e, he⟩ : ∃ e, field name s (ascii ':' :: (encode v.render ++ (if after.isEmpty then ascii '}' :: rest
          else ascii ',' :: (encode (renderFields after) ++ ascii '}' :: rest)))) = .error e := by
        split
        · exact hfield _ (endsNumber_cons (by decide))
        · exact hfield _ (endsNumber_cons (by decide))
      rw [List.nil_append, encode_renderFields_cons, readFields, skipSpace_cons (by decide)]
      dsimp only
      rw [if_neg (by simp), scanString?_flatMap]
      dsimp only
      rw [he]
      exact ⟨e, rfl⟩
  | @cons s₁ s₂ s₃ name' w fields first _ ih =>
    cases fuel with
    | zero => exact ⟨_, rfl⟩
    | succ fuel =>
      have hmore : (fields ++ (name, v) :: after).isEmpty = false := by simp
      rw [List.cons_append, encode_renderFields_cons, hmore, if_neg (by decide), readFields, skipSpace_cons (by decide)]
      dsimp only
      rw [if_neg (by simp), scanString?_flatMap]
      dsimp only
      rw [first _ (endsNumber_cons (by decide))]
      dsimp only
      rw [skipSpace_cons (by decide)]
      dsimp only
      rw [if_neg (by decide), if_pos rfl]
      exact ih hfield fuel

theorem readObject_refuses {σ : Type} {field : String → σ → Bytes → Except Fault (σ × Bytes)} {s s' : σ}
    {before after : List (String × Json)} {name : String} {v : Json} (hbefore : Takes field s before s')
    (hfield : ∀ rest, EndsNumber rest → ∃ e, field name s' (ascii ':' :: (encode v.render ++ rest)) = .error e)
    (rest : Bytes) :
    ∃ e, readObject scanString? field s (encode (renderFields (before ++ (name, v) :: after)) ++ ascii '}' :: rest) =
      .error e := by
  obtain ⟨bs, hbs⟩ : ∃ bs, encode (renderFields (before ++ (name, v) :: after)) ++ ascii '}' :: rest =
      ascii '"' :: bs := by
    cases before <;> exact ⟨_, encode_renderFields_cons ..⟩
  rw [readObject, hbs, skipSpace_cons (by decide)]
  dsimp only
  rw [if_neg (by decide), ← hbs]
  exact readFields_refuses hbefore hfield _ rest

/-! ### Values -/

/-- The text of a value that is nested too deep is refused. -/
theorem readValue_deep {levels : Nat} {v : Json} (hdeep : levels < v.depth) (h : v.Readable) :
    Refuses (readValue levels) v := by
  induction levels generalizing v with
  | zero =>
    intro rest _
    cases v with
    | arr items =>
      rw [encode_render_arr, readValue.eq_def]
      dsimp only
      rw [skipSpace_cons (by decide)]
      exact ⟨_, rfl⟩
    | obj fields =>
      rw [encode_render_obj, readValue.eq_def]
      dsimp only
      rw [skipSpace_cons (by decide)]
      exact ⟨_, rfl⟩
    | _ => exact absurd hdeep (Nat.lt_irrefl 0)
  | succ levels ih =>
    intro rest _
    cases v with
    | arr items =>
      obtain ⟨before, v, after, rfl, hv, hbefore⟩ := exists_first (exists_deep_item hdeep)
      have hreads : ∀ w ∈ before, Reads (readValue levels) w := fun w hw =>
        readValue_render (Nat.le_of_not_lt (hbefore w hw)) (h.item w (List.mem_append_left _ hw))
      have hrefuses : Refuses (readValue levels) v := ih hv (h.item v (by simp))
      obtain ⟨e, he⟩ := readArray_refuses h.item hreads hrefuses rest
      rw [encode_render_arr, readValue.eq_def]
      dsimp only
      rw [skipSpace_cons (by decide)]
      dsimp only
      rw [if_pos rfl, he]
      exact ⟨e, rfl⟩
    | obj fields =>
      obtain ⟨before, ⟨name, v⟩, after, rfl, hv, hbefore⟩ := exists_first (exists_deep_field hdeep)
      have hreads : ∀ p ∈ before, Reads (readValue levels) p.2 := fun p hp =>
        readValue_render (Nat.le_of_not_lt (hbefore p hp)) (h.field p (List.mem_append_left _ hp))
      have hrefuses : Refuses (readValue levels) v := ih hv (h.field (name, v) (by simp))
      have htakes := takes_insert [] (List.pairwise_append.1 h.1).1 hreads
      have hfield : ∀ rest, EndsNumber rest → ∃ e, colonThen (readValue levels) (fun acc v => Assoc.insert name v acc)
          ([] ++ before) (ascii ':' :: (encode v.render ++ rest)) = .error e := by
        intro rest hrest
        obtain ⟨e, he⟩ := hrefuses rest hrest
        rw [colonThen, afterColon_cons]
        dsimp only
        rw [he]
        exact ⟨e, rfl⟩
      obtain ⟨e, he⟩ := @readObject_refuses _ _ _ _ before after name v htakes hfield rest
      rw [encode_render_obj, readValue.eq_def]
      dsimp only
      rw [skipSpace_cons (by decide)]
      dsimp only
      rw [if_neg (by decide), if_pos rfl, he]
      exact ⟨e, rfl⟩
    | _ => exact absurd hdeep (Nat.not_lt_zero _)

/-- The document of a value that is nested too deep is refused. -/
theorem parse_bytes_deep {v : Json} (hdeep : maxDepth < v.depth) (h : v.Readable) : ∃ e, parse v.bytes = .error e := by
  obtain ⟨e, he⟩ := readValue_deep hdeep h [] (by simp [EndsNumber])
  rw [List.append_nil, ← bytes_eq_encode] at he
  exact ⟨e, by rw [parse, he]; rfl⟩

end ResultCache.Json
