import ResultCache.Codec
import ResultCache.Proofs.Json.Values

/-!
# Run lengths undone

What the run lengths of some bytes stand for are those bytes (`expandFrom?_runsFrom`), and so the codec that writes
them restores every value that a document can have.
-/

namespace ResultCache.Codec

/-- Some runs in reverse, and the bytes that they stand for. -/
inductive Runs : Bytes → Bytes → Prop where
  | nil : Runs [] []
  | run {acc bs : Bytes} (h : Runs acc bs) (count b : UInt8) :
      Runs (b :: count :: acc) (bs ++ List.replicate count.toNat b)

theorem expandFrom?_append {acc bs : Bytes} (h : Runs acc bs) (x rest : Bytes) :
    expandFrom? x (acc.reverse ++ rest) = expandFrom? (bs.reverse ++ x) rest := by
  induction h generalizing rest with
  | nil => rfl
  | run h count b ih =>
    rw [List.reverse_cons, List.reverse_cons, List.append_assoc, List.append_assoc, ih, List.reverse_append,
      List.reverse_replicate, List.append_assoc]
    rfl

/-- Each further byte lengthens the last run or starts a new one. -/
theorem runs_runsFrom {acc done : Bytes} (h : Runs acc done) (bs : Bytes) :
    ∃ runs, runsFrom acc bs = runs.reverse ∧ Runs runs (done ++ bs) := by
  induction bs generalizing acc done with
  | nil =>
    rw [List.append_nil]
    exact ⟨acc, rfl, h⟩
  | cons b bs ih =>
    have start : Runs (b :: 1 :: acc) (done ++ [b]) := h.run 1 b
    rw [List.append_cons]
    cases h with
    | nil => exact ih start
    | run h count last =>
      rw [runsFrom]
      split
      · rename_i hlonger
        obtain ⟨rfl, hcount⟩ := hlonger
        have hsucc : (count + 1).toNat = count.toNat + 1 := by
          rw [UInt8.lt_iff_toNat_lt] at hcount
          rw [UInt8.toNat_add]
          have : (255 : UInt8).toNat = 255 := rfl
          have : (1 : UInt8).toNat = 1 := rfl
          omega
        have longer := h.run (count + 1) last
        rw [hsucc, List.replicate_succ', ← List.append_assoc] at longer
        exact ih longer
      · exact ih start

/-- The run lengths of some bytes stand for those bytes. -/
theorem expandFrom?_runsFrom (bs : Bytes) : expandFrom? [] (runsFrom [] bs) = some bs := by
  obtain ⟨runs, hruns, h⟩ := runs_runsFrom .nil bs
  have hexpand := expandFrom?_append h [] []
  rw [List.append_nil, List.nil_append, List.append_nil] at hexpand
  rw [hruns, hexpand, expandFrom?, List.reverse_reverse]

/-- Run lengths restore every value that a document can have. -/
theorem runLength_restores {v : Json} (hdepth : v.depth ≤ Json.maxDepth) (h : v.Readable) : runLength.Restores v := by
  intro bs hbs
  cases hbs
  show (expandFrom? [] (runsFrom [] v.bytes)).bind document? = some v
  rw [expandFrom?_runsFrom, Option.bind_some, document?, Json.parse_bytes hdepth h]

end ResultCache.Codec
