import Mathlib.Data.List.Perm.Basic
import ResultCache.Proofs.Json.Distinct
import ResultCache.Proofs.Json.Objects
import ResultCache.Request.Key

/-!
# Canonical payloads decide sameness

Two payloads ask for the same (`Payload.Same`) if they differ only in volatile fields and in the order of array items,
at any depth.  This is so exactly if their canonical forms are one (`canonical_complete`): an array is sorted by texts,
which tell its items apart, so that the order in which they came is lost and nothing else is.
-/

namespace ResultCache

namespace Payload

open ResultCache.Json

variable {volatileFields : List String}

/-- Two payloads ask for the same.  Scalars are equal; the items of one array do so one by one with those of the other
one in some order; and of fields that are not volatile, the same are there, and their values do so. -/
inductive Same (volatileFields : List String) : Json → Json → Prop where
  | scalar {v : Json} (hv : v.IsScalar) : Same volatileFields v v
  | arr {items other items' : List Json} (hlength : items.length = other.length)
      (heach : ∀ v w, (v, w) ∈ items.zip other → Same volatileFields v w) (hperm : other.Perm items') :
    Same volatileFields (.arr items) (.arr items')
  | obj {fields fields' : List (String × Json)}
      (hnames : ∀ name, name ∉ volatileFields → (name ∈ fields.map (·.1) ↔ name ∈ fields'.map (·.1)))
      (heach : ∀ name v w, name ∉ volatileFields → (name, v) ∈ fields → (name, w) ∈ fields' →
        Same volatileFields v w) :
    Same volatileFields (.obj fields) (.obj fields')

/-! ### Sorting by texts -/

theorem sortByText_perm (items : List Json) : (sortByText items).Perm items := by
  have h := (List.mergeSort_perm (items.map fun v => (v.text, v)) fun a b => a.1 ≤ b.1).map (·.2)
  rw [List.map_map] at h
  exact h.trans (List.Perm.of_eq (List.map_id items))

theorem pairwise_sortByText (items : List Json) : (sortByText items).Pairwise fun v w => v.text ≤ w.text := by
  have hperm := List.mergeSort_perm (items.map fun v => (v.text, v)) fun a b => a.1 ≤ b.1
  have hsorted := @List.pairwise_mergeSort (String × Json) (fun a b => decide (a.1 ≤ b.1))
    (fun a b c => by simpa using String.le_trans) (fun a b => by simpa using String.le_total a.1 b.1)
    (items.map fun v => (v.text, v))
  have htext : ∀ p ∈ (items.map fun v => (v.text, v)).mergeSort fun a b => decide (a.1 ≤ b.1), p.1 = p.2.text := by
    intro p hp
    obtain ⟨v, -, rfl⟩ := List.mem_map.1 (hperm.subset hp)
    rfl
  rw [sortByText, List.pairwise_map]
  refine hsorted.imp_of_mem fun {p q} hp hq hle => ?_
  rw [← htext p hp, ← htext q hq]
  exact of_decide_eq_true hle

/-- Values that are told apart by their texts are sorted to one list in whatever order they come. -/
theorem sortByText_eq_of_perm {items items' : List Json} (hperm : items.Perm items')
    (hwf : ∀ v ∈ items, v.WellFormed) : sortByText items = sortByText items' := by
  have hall := (sortByText_perm items).trans (hperm.trans (sortByText_perm items').symm)
  refine hall.eq_of_pairwise (fun v w hv hw hvw hwv => ?_) (pairwise_sortByText items) (pairwise_sortByText items')
  have hv' := hwf v ((sortByText_perm items).subset hv)
  have hw' := hwf w (hperm.symm.subset ((sortByText_perm items').subset hw))
  exact (text_inj hv' hw').1 (String.le_antisymm hvw hwv)

/-! ### What is canonical -/

theorem canonicalItems_eq_map (items : List Json) :
    canonicalItems volatileFields items = items.map (canonical volatileFields) := by
  induction items with
  | nil => rfl
  | cons v vs ih => rw [canonicalItems, ih, List.map_cons]

theorem canonicalFields_eq_map (fields : List (String × Json)) :
    canonicalFields volatileFields fields = (fields.filter fun p => !volatileFields.contains p.1).map
      fun p => (p.1, canonical volatileFields p.2) := by
  induction fields with
  | nil => rfl
  | cons p rest ih =>
    obtain ⟨name, v⟩ := p
    rw [canonicalFields, ih, List.filter_cons]
    cases volatileFields.contains name <;> rfl

theorem mem_canonicalFields {fields : List (String × Json)} {name : String} {v : Json} :
    (name, v) ∈ canonicalFields volatileFields fields ↔
      name ∉ volatileFields ∧ ∃ w, (name, w) ∈ fields ∧ canonical volatileFields w = v := by
  rw [canonicalFields_eq_map, List.mem_map]
  simp only [List.mem_filter, Prod.exists, Prod.mk.injEq]
  constructor
  · rintro ⟨name, w, ⟨hw, hname⟩, rfl, rfl⟩
    exact ⟨by simpa using hname, w, hw, rfl⟩
  · rintro ⟨hname, w, hw, rfl⟩
    exact ⟨name, w, ⟨hw, by simpa using hname⟩, rfl, rfl⟩

theorem exists_of_mem_sortByText {items : List Json} {w : Json}
    (h : w ∈ sortByText (items.map (canonical volatileFields))) : ∃ v ∈ items, canonical volatileFields v = w :=
  List.mem_map.1 ((sortByText_perm _).subset h)

theorem sorted_canonicalFields {fields : List (String × Json)} (h : Assoc.Sorted fields) :
    Assoc.Sorted (canonicalFields volatileFields fields) := by
  rw [canonicalFields_eq_map]
  exact List.pairwise_map.2 (h.filter _)

/-- The fields that count are made into the same if, name by name, their values are. -/
theorem canonicalFields_eq_iff {fields fields' : List (String × Json)} (h : Assoc.Sorted fields)
    (h' : Assoc.Sorted fields') :
    canonicalFields volatileFields fields = canonicalFields volatileFields fields' ↔
      ∀ name, name ∉ volatileFields → ∀ u, (∃ v, (name, v) ∈ fields ∧ canonical volatileFields v = u) ↔
        ∃ w, (name, w) ∈ fields' ∧ canonical volatileFields w = u := by
  constructor
  · intro heq name hname u
    have hiff := @mem_canonicalFields volatileFields fields name u
    rw [heq, mem_canonicalFields] at hiff
    simpa [hname] using hiff.symm
  · intro hmade
    refine (sorted_canonicalFields h).eq_of_mem_iff (sorted_canonicalFields h') ?_
    rintro ⟨name, u⟩
    rw [mem_canonicalFields, mem_canonicalFields]
    exact and_congr_right fun hname => hmade name hname u

theorem canonical_of_isScalar {v : Json} (h : v.IsScalar) : canonical volatileFields v = v := by
  cases v with
  | arr items => cases h
  | obj fields => cases h
  | _ => rw [canonical] <;> simp

theorem canonical_arr (items : List Json) :
    canonical volatileFields (.arr items) = .arr (sortByText (items.map (canonical volatileFields))) := by
  rw [canonical, canonicalItems_eq_map]

theorem isScalar_canonical_iff {v : Json} : (canonical volatileFields v).IsScalar ↔ v.IsScalar := by
  cases v with
  | arr items => rw [canonical]; rfl
  | obj fields => rw [canonical]; rfl
  | _ => rw [canonical] <;> simp

/-- What is canonical of a value such as a program can hold is one too. -/
theorem wellFormed_canonical {v : Json} (h : v.WellFormed) : (canonical volatileFields v).WellFormed := by
  have scalar : ∀ {v : Json}, v.IsScalar → v.WellFormed → (canonical volatileFields v).WellFormed := by
    intro v hv h
    rw [canonical_of_isScalar hv]
    exact h
  induction h with
  | null => exact scalar trivial .null
  | bool b => exact scalar trivial (.bool b)
  | int hlow hhigh => exact scalar trivial (.int hlow hhigh)
  | float hfinite => exact scalar trivial (.float hfinite)
  | str s => exact scalar trivial (.str s)
  | arr _ ih =>
    rw [canonical_arr]
    refine .arr fun w hw => ?_
    obtain ⟨v, hv, rfl⟩ := exists_of_mem_sortByText hw
    exact ih v hv
  | obj hsorted _ ih =>
    rw [canonical]
    refine .obj (sorted_canonicalFields hsorted) fun p hp => ?_
    obtain ⟨-, w, hw, heq⟩ := mem_canonicalFields.1 hp
    rw [← heq]
    exact ih _ hw

/-- Items are related one by one to those of some order of the other ones if they are to be made into the same. -/
theorem map_canonical_perm_iff {items items' : List Json} :
    (items.map (canonical volatileFields)).Perm (items'.map (canonical volatileFields)) ↔
      ∃ other : List Json, items.length = other.length ∧
        (∀ v w, (v, w) ∈ items.zip other → canonical volatileFields v = canonical volatileFields w) ∧
        other.Perm items' := by
  have heach : ∀ other : List Json,
      items.map (canonical volatileFields) = other.map (canonical volatileFields) ↔ items.length = other.length ∧
        ∀ v w, (v, w) ∈ items.zip other → canonical volatileFields v = canonical volatileFields w := by
    intro other
    rw [← congrFun₂ List.forall₂_eq_eq_eq, List.forall₂_map_left_iff, List.forall₂_map_right_iff,
      List.forall₂_iff_zip]
  have hcomp := List.eq_map_comp_perm (canonical volatileFields)
  rw [← congrFun₂ hcomp (items.map (canonical volatileFields)) items']
  constructor
  · rintro ⟨other, heq, hperm⟩
    obtain ⟨hlength, heach⟩ := (heach other).1 heq
    exact ⟨other, hlength, heach, hperm⟩
  · rintro ⟨other, hlength, hzip, hperm⟩
    exact ⟨other, (heach other).2 ⟨hlength, hzip⟩, hperm⟩

/-! ### Sameness -/

theorem Same.canonical_eq {a b : Json} (h : Same volatileFields a b) (ha : a.WellFormed) (hb : b.WellFormed) :
    canonical volatileFields a = canonical volatileFields b := by
  induction h with
  | scalar hv => rfl
  | @arr items other items' hlength _ hperm ih =>
    cases ha with
    | arr hitems =>
    cases hb with
    | arr hitems' =>
    have heach : ∀ v w, (v, w) ∈ items.zip other → canonical volatileFields v = canonical volatileFields w :=
      fun v w hvw => ih v w hvw (hitems v (List.of_mem_zip hvw).1)
        (hitems' w (hperm.subset (List.of_mem_zip hvw).2))
    rw [canonical_arr, canonical_arr]
    refine congrArg Json.arr (sortByText_eq_of_perm (map_canonical_perm_iff.2 ⟨other, hlength, heach, hperm⟩) ?_)
    intro v hv
    obtain ⟨w, hw, rfl⟩ := List.mem_map.1 hv
    exact wellFormed_canonical (hitems w hw)
  | @obj fields fields' hnames _ ih =>
    cases ha with
    | obj hsorted hfields =>
    cases hb with
    | obj hsorted' hfields' =>
    rw [canonical, canonical]
    refine congrArg Json.obj ((canonicalFields_eq_iff hsorted hsorted').2 fun name hname u => ⟨?_, ?_⟩)
    · rintro ⟨v, hv, rfl⟩
      obtain ⟨⟨_, w⟩, hw, rfl⟩ := List.mem_map.1 ((hnames name hname).1 (List.mem_map_of_mem hv))
      exact ⟨w, hw, (ih _ v w hname hv hw (hfields _ hv) (hfields' _ hw)).symm⟩
    · rintro ⟨w, hw, rfl⟩
      obtain ⟨⟨_, v⟩, hv, rfl⟩ := List.mem_map.1 ((hnames name hname).2 (List.mem_map_of_mem hw))
      exact ⟨v, hv, ih _ v w hname hv hw (hfields _ hv) (hfields' _ hw)⟩

theorem same_of_canonical_eq {a b : Json} (ha : a.WellFormed) (hb : b.WellFormed)
    (h : canonical volatileFields a = canonical volatileFields b) : Same volatileFields a b := by
  have scalar : ∀ {a b : Json}, a.IsScalar → canonical volatileFields a = canonical volatileFields b →
      Same volatileFields a b := by
    intro a b hscalar h
    have hb : b.IsScalar := isScalar_canonical_iff.1 (h ▸ isScalar_canonical_iff.2 hscalar)
    rw [canonical_of_isScalar hscalar, canonical_of_isScalar hb] at h
    exact h ▸ .scalar hscalar
  induction ha generalizing b with
  | @arr items _ ih =>
    cases hb with
    | @arr items' hitems' =>
      rw [canonical_arr, canonical_arr, Json.arr.injEq] at h
      -- what is sorted to one list was the same up to order
      have hsorted := (sortByText_perm (items.map (canonical volatileFields))).symm.trans
        ((List.Perm.of_eq h).trans (sortByText_perm _))
      obtain ⟨other, hlength, heach, hperm⟩ := map_canonical_perm_iff.1 hsorted
      refine .arr hlength (fun v w hvw => ?_) hperm
      have hw : w ∈ items' := hperm.subset (List.of_mem_zip hvw).2
      exact ih v (List.of_mem_zip hvw).1 (hitems' w hw) (heach v w hvw)
    | _ => simp [canonical] at h
  | @obj fields hsorted _ ih =>
    cases hb with
    | @obj fields' hsorted' hfields' =>
      rw [canonical, canonical, Json.obj.injEq] at h
      have hmade := (canonicalFields_eq_iff hsorted hsorted').1 h
      refine .obj (fun name hname => ?_) fun name v w hname hv hw => ?_
      · simp only [List.mem_map, Prod.exists, exists_and_right, exists_eq_right]
        constructor
        · rintro ⟨v, hv⟩
          obtain ⟨w, hw, -⟩ := (hmade name hname _).1 ⟨v, hv, rfl⟩
          exact ⟨w, hw⟩
        · rintro ⟨w, hw⟩
          obtain ⟨v, hv, -⟩ := (hmade name hname _).2 ⟨w, hw, rfl⟩
          exact ⟨v, hv⟩
      · obtain ⟨w', hw', heq⟩ := (hmade name hname _).1 ⟨v, hv, rfl⟩
        rw [hsorted'.value_unique hw' hw] at heq
        exact ih _ hv (hfields' _ hw) heq.symm
    | _ => simp [canonical] at h
  | _ => exact scalar trivial h

/-- Canonical forms are those of the values that ask for the same. -/
theorem canonical_eq_iff {a b : Json} (ha : a.WellFormed) (hb : b.WellFormed) :
    canonical volatileFields a = canonical volatileFields b ↔ Same volatileFields a b :=
  ⟨same_of_canonical_eq ha hb, fun h => h.canonical_eq ha hb⟩

theorem canonical_canonical {v : Json} (h : v.WellFormed) :
    canonical volatileFields (canonical volatileFields v) = canonical volatileFields v := by
  have scalar : ∀ {v : Json}, v.IsScalar →
      canonical volatileFields (canonical volatileFields v) = canonical volatileFields v := by
    intro v hv
    rw [canonical_of_isScalar (isScalar_canonical_iff.2 hv)]
  induction h with
  | @arr items hitems ih =>
    -- the items of a canonical form are canonical, and stand in order
    have hfixed : ∀ w ∈ sortByText (items.map (canonical volatileFields)), canonical volatileFields w = w := by
      intro w hw
      obtain ⟨v, hv, rfl⟩ := exists_of_mem_sortByText hw
      exact ih v hv
    have hwf : ∀ w ∈ sortByText (items.map (canonical volatileFields)), w.WellFormed := by
      intro w hw
      obtain ⟨v, hv, rfl⟩ := exists_of_mem_sortByText hw
      exact wellFormed_canonical (hitems v hv)
    rw [canonical_arr, canonical_arr, List.map_congr_left hfixed, List.map_id']
    exact congrArg Json.arr (sortByText_eq_of_perm (sortByText_perm _) hwf)
  | @obj fields hsorted _ ih =>
    rw [canonical, canonical]
    refine congrArg Json.obj ((canonicalFields_eq_iff (sorted_canonicalFields hsorted) hsorted).2 ?_)
    intro name hname u
    simp only [mem_canonicalFields]
    constructor
    · rintro ⟨_, ⟨-, v, hv, rfl⟩, rfl⟩
      exact ⟨v, hv, (ih _ hv).symm⟩
    · rintro ⟨v, hv, rfl⟩
      exact ⟨_, ⟨hname, v, hv, rfl⟩, ih _ hv⟩
  | _ => exact scalar trivial

/-- What is canonical asks for the same. -/
theorem same_canonical {v : Json} (h : v.WellFormed) : Same volatileFields (canonical volatileFields v) v :=
  same_of_canonical_eq (wellFormed_canonical h) h (canonical_canonical h)

/-! ### Changes that make no difference -/

/-- One change of a payload, at some depth: fields are written in another order, items stand in another order, or
volatile fields come, go or have other values. -/
inductive Change (volatileFields : List String) : Json → Json → Prop where
  | reorderFields {fields fields' : List (String × Json)} (hnames : (fields.map (·.1)).Nodup)
      (hperm : fields.Perm fields') : Change volatileFields (.ofFields fields) (.ofFields fields')
  | reorderItems {items items' : List Json} (hperm : items.Perm items') :
    Change volatileFields (.arr items) (.arr items')
  | setVolatile {fields fields' : List (String × Json)}
      (hsame : ∀ p : String × Json, p.1 ∉ volatileFields → (p ∈ fields ↔ p ∈ fields')) :
    Change volatileFields (.obj fields) (.obj fields')
  | item {v w : Json} (before after : List Json) (h : Change volatileFields v w) :
    Change volatileFields (.arr (before ++ v :: after)) (.arr (before ++ w :: after))
  | field {v w : Json} (before : List (String × Json)) (name : String) (after : List (String × Json))
      (h : Change volatileFields v w) :
    Change volatileFields (.obj (before ++ (name, v) :: after)) (.obj (before ++ (name, w) :: after))

theorem Change.canonical_eq {a b : Json} (h : Change volatileFields a b) (ha : a.WellFormed) (hb : b.WellFormed) :
    canonical volatileFields a = canonical volatileFields b := by
  induction h with
  | reorderFields hnames hperm => rw [Json.ofFields_perm hnames hperm]
  | @reorderItems items items' hperm =>
    cases ha with
    | arr hitems =>
    rw [canonical_arr, canonical_arr]
    refine congrArg Json.arr (sortByText_eq_of_perm (hperm.map _) fun w hw => ?_)
    obtain ⟨v, hv, rfl⟩ := List.mem_map.1 hw
    exact wellFormed_canonical (hitems v hv)
  | @setVolatile fields fields' hsame =>
    cases ha with
    | obj hsorted _ =>
    cases hb with
    | obj hsorted' _ =>
    rw [canonical, canonical]
    refine congrArg Json.obj ((canonicalFields_eq_iff hsorted hsorted').2 fun name hname u => ?_)
    exact exists_congr fun v => and_congr_left fun _ => hsame (name, v) hname
  | @item v w before after _ ih =>
    cases ha with
    | arr hitems =>
    cases hb with
    | arr hitems' =>
    have heq := ih (hitems v (by simp)) (hitems' w (by simp))
    rw [canonical_arr, canonical_arr, List.map_append, List.map_append, List.map_cons, List.map_cons, heq]
  | @field v w before name after _ ih =>
    cases ha with
    | obj _ hfields =>
    cases hb with
    | obj _ hfields' =>
    have heq := ih (hfields (name, v) (by simp)) (hfields' (name, w) (by simp))
    simp only [canonical, canonicalFields_eq_map, List.filter_append, List.filter_cons, List.map_append]
    cases volatileFields.contains name <;> simp [heq]

theorem Same.isNull_eq {a b : Json} (h : Same volatileFields a b) : a.isNull = b.isNull := by
  cases h with
  | scalar hv => rfl
  | arr _ _ _ => rfl
  | obj _ _ => rfl

/-- Payloads that ask for the same have one key with any resource and scope. -/
theorem Same.key_eq {a b : Json} (h : Same volatileFields a b) (ha : a.WellFormed) (hb : b.WellFormed) (r : Request) :
    { r with payload := some a }.key volatileFields = { r with payload := some b }.key volatileFields := by
  have hdigest : digest volatileFields a = digest volatileFields b := by rw [digest, digest, h.canonical_eq ha hb]
  have hend : { r with payload := some a }.digestChars volatileFields =
      { r with payload := some b }.digestChars volatileFields := by
    have hnull := h.isNull_eq
    simp only [Request.digestChars, Request.payload?, Option.filter_some]
    cases hb : b.isNull <;> simp [hnull, hb, hdigest]
  rw [Request.key, Request.key, Request.keyChars, Request.keyChars, hend]

/-- Canonical forms decide whether payloads ask for the same.  The canonical form of a payload asks for the same as the
payload and is its own canonical form; the digest and the key depend on nothing else, so that no reordering and no
change of volatile fields alters them; and payloads that do not ask for the same have two canonical texts. -/
theorem canonical_complete (volatileFields : List String) {a b : Json} (ha : a.WellFormed) (hb : b.WellFormed) :
    (canonical volatileFields a = canonical volatileFields b ↔ Same volatileFields a b) ∧
      Same volatileFields (canonical volatileFields a) a ∧
      canonical volatileFields (canonical volatileFields a) = canonical volatileFields a ∧
      (Same volatileFields a b → digest volatileFields a = digest volatileFields b ∧
        ∀ r : Request, { r with payload := some a }.key volatileFields =
          { r with payload := some b }.key volatileFields) ∧
      (Change volatileFields a b → Same volatileFields a b) ∧
      (¬ Same volatileFields a b → (canonical volatileFields a).text ≠ (canonical volatileFields b).text) := by
  have hiff := @canonical_eq_iff volatileFields a b ha hb
  refine ⟨hiff, same_canonical ha, canonical_canonical ha, fun h => ⟨?_, h.key_eq ha hb⟩,
    fun h => hiff.1 (h.canonical_eq ha hb), fun h htext => h (hiff.1 ?_)⟩
  · rw [digest, digest, h.canonical_eq ha hb]
  · exact (text_inj (wellFormed_canonical ha) (wellFormed_canonical hb)).1 htext

/-- A payload with a time stamp at two depths, and one that says the same at another time in another order. -/
private def asked : Json :=
  .obj [("jobs", .arr [.obj [("id", .int 1), ("ts", .int 10)], .float ⟨0x3FF8000000000000⟩]), ("ts", .null)]

private def askedAgain : Json :=
  .obj [("jobs", .arr [.float ⟨0x3FF8000000000000⟩, .obj [("id", .int 1)]])]

private theorem same_asked : Same ["ts"] asked askedAgain := by
  have hjob : Same ["ts"] (.obj [("id", .int 1), ("ts", .int 10)]) (.obj [("id", .int 1)]) := by
    refine .obj (fun name hname => ?_) fun name v w hname hv hw => ?_
    · simp only [List.mem_singleton] at hname
      simp [hname]
    · simp only [List.mem_cons, List.not_mem_nil, Prod.mk.injEq, or_false] at hname hv hw
      obtain ⟨rfl, rfl⟩ := hw
      obtain ⟨-, rfl⟩ := hv.resolve_right fun h => hname h.1
      exact .scalar trivial
  refine .obj (fun name hname => ?_) fun name v w hname hv hw => ?_
  · simp only [List.mem_singleton] at hname
    simp [hname]
  · simp only [List.mem_cons, List.not_mem_nil, Prod.mk.injEq, or_false] at hname hv hw
    obtain ⟨rfl, rfl⟩ := hw
    obtain ⟨-, rfl⟩ := hv.resolve_right fun h => hname h.1
    have hother : [Json.obj [("id", .int 1)], .float ⟨0x3FF8000000000000⟩].Perm
        [.float ⟨0x3FF8000000000000⟩, .obj [("id", .int 1)]] := List.Perm.swap _ _ _
    refine .arr (by simp) (fun v w hvw => ?_) hother
    simp only [List.zip_cons_cons, List.zip_nil_left, List.mem_cons, List.not_mem_nil, Prod.mk.injEq, or_false] at hvw
    rcases hvw with ⟨rfl, rfl⟩ | ⟨rfl, rfl⟩
    · exact hjob
    · exact .scalar trivial

theorem canonical_complete_asked :
    digest ["ts"] asked = digest ["ts"] askedAgain ∧ ∀ r : Request,
      { r with payload := some asked }.key ["ts"] = { r with payload := some askedAgain }.key ["ts"] := by
  have hfloat : (Json.float ⟨0x3FF8000000000000⟩).WellFormed := .float (by decide)
  have hone : (Json.int 1).WellFormed := .int (by decide) (by decide)
  have hten : (Json.int 10).WellFormed := .int (by decide) (by decide)
  have hasked : asked.WellFormed := by
    refine .obj (List.pairwise_pair.2 (by decide)) ?_
    simp only [List.forall_mem_cons]
    refine ⟨.arr ?_, .null, by simp⟩
    simp only [List.forall_mem_cons]
    refine ⟨.obj (List.pairwise_pair.2 (by decide)) ?_, hfloat, by simp⟩
    simp only [List.forall_mem_cons]
    exact ⟨hone, hten, by simp⟩
  have hagain : askedAgain.WellFormed := by
    refine .obj (List.pairwise_singleton _ _) ?_
    simp only [List.forall_mem_cons]
    refine ⟨.arr ?_, by simp⟩
    simp only [List.forall_mem_cons]
    refine ⟨hfloat, .obj (List.pairwise_singleton _ _) ?_, by simp⟩
    simp only [List.forall_mem_cons]
    exact ⟨hone, by simp⟩
  obtain ⟨-, -, -, hkey, -, -⟩ := canonical_complete ["ts"] hasked hagain
  exact hkey same_asked

end Payload

end ResultCache
