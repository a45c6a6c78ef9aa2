import ResultCache.Proofs.Json.Doubles
import ResultCache.Proofs.Json.Values

/-!
# Texts tell values apart

The values that a program can hold are well-formed: whole numbers fit 64 bits, doubles are finite, and each name of a
field stands once, in its place.  Their texts are read back at some depth of nesting, so no two of them have one text
(`text_inj`).
-/

namespace ResultCache.Json

/-- A value such as a program can hold. -/
inductive WellFormed : Json → Prop where
  | null : WellFormed null
  | bool (b : Bool) : WellFormed (bool b)
  | int {n : Int} (hlow : -(2 ^ 63) ≤ n) (hhigh : n < 2 ^ 64) : WellFormed (int n)
  | float {x : Binary64} (hfinite : x.isFinite = true) : WellFormed (float x)
  | str (s : String) : WellFormed (str s)
  | arr {items : List Json} (hitems : ∀ v ∈ items, WellFormed v) : WellFormed (arr items)
  | obj {fields : List (String × Json)} (hsorted : Assoc.Sorted fields) (hfields : ∀ p ∈ fields, WellFormed p.2) :
    WellFormed (obj fields)

theorem readable_arr_iff {items : List Json} : (arr items).Readable ↔ ∀ v ∈ items, v.Readable := by
  refine ⟨Readable.item, fun h => ?_⟩
  induction items with
  | nil => trivial
  | cons v vs ih => exact ⟨h v List.mem_cons_self, ih fun w hw => h w (List.mem_cons_of_mem _ hw)⟩

theorem readable_obj_iff {fields : List (String × Json)} :
    (obj fields).Readable ↔ Assoc.Sorted fields ∧ ∀ p ∈ fields, p.2.Readable := by
  refine ⟨fun h => ⟨h.1, h.field⟩, ?_⟩
  rintro ⟨hsorted, h⟩
  refine ⟨hsorted, ?_⟩
  clear hsorted
  induction fields with
  | nil => trivial
  | cons p rest ih => exact ⟨h p List.mem_cons_self, ih fun q hq => h q (List.mem_cons_of_mem _ hq)⟩

theorem WellFormed.readable {v : Json} (h : v.WellFormed) : v.Readable := by
  induction h with
  | null => trivial
  | bool b => trivial
  | int hlow hhigh => exact ⟨hlow, hhigh⟩
  | float hfinite => exact floatReads_of_isFinite hfinite
  | str s => trivial
  | arr _ ih => exact readable_arr_iff.2 ih
  | obj hsorted _ ih => exact readable_obj_iff.2 ⟨hsorted, ih⟩

/-- No two values that are well-formed have one text. -/
theorem text_inj {a b : Json} (ha : a.WellFormed) (hb : b.WellFormed) : a.text = b.text ↔ a = b := by
  refine ⟨fun h => ?_, congrArg text⟩
  have hrender : a.render = b.render := String.ofList_injective h
  have hread_a := readValue_render (Nat.le_max_left a.depth b.depth) ha.readable [] (by simp [EndsNumber])
  have hread_b := readValue_render (Nat.le_max_right a.depth b.depth) hb.readable [] (by simp [EndsNumber])
  rw [hrender, hread_b, Except.ok.injEq, Prod.mk.injEq] at hread_a
  exact hread_a.1.symm

end ResultCache.Json
