import ResultCache.Proofs.Json.Nesting
import ResultCache.Proofs.Json.Records
import ResultCache.Proofs.Time.Texts
import ResultCache.Snapshot

/-!
# Records of entries read back

The record of a snapshot is read to the snapshot (`parse_record`), if its value is nested no deeper than a record
allows, which has one level of its own; otherwise it is no record (`parse_record_deep`).  Whatever is read has a time
to live of 64 bits (`ttlMillis_lt`), and the record of a snapshot never passes for one of another key
(`key_of_parse_record`).
-/

namespace ResultCache.Snapshot

open ResultCache.Text

/-- A field of a record whose slot is not filled yet is read by the slot. -/
theorem readSlot_slots {α : Type} {levels : Nat} {name : String} {needed : Bool} {get : Draft → Option α}
    {put : Draft → α → Draft} {value : Bytes → Except Json.Fault (α × Bytes)} {d : Draft} {a : α} {bs rest : Bytes}
    (hslot : (slots levels).find? (·.name == name) = some (.of name needed get put value)) (hfree : get d = none)
    (hread : value bs = .ok (a, rest)) :
    Json.readSlot (slots levels) name d (Json.ascii ':' :: bs) = .ok (put d a, rest) := by
  have hempty : (Json.Slot.of name needed get put value).filled d = false := by
    rw [Json.Slot.of]
    exact Option.isSome_eq_false_iff.2 (Option.isNone_iff_eq_none.2 hfree)
  exact Json.readSlot_of_find? hslot hempty (Json.Slot.read_of_iff.2 ⟨a, hread, rfl⟩)

/-- The record of a snapshot is read to the snapshot. -/
theorem parse_record {s : Snapshot} (hdepth : s.value.depth < Json.maxDepth) (hvalue : s.value.Readable)
    (hcreated : Time.readInstant? (Time.instantText s.created) = some s.created) (httl : s.ttlMillis < 2 ^ 64) :
    parse s.record = .ok s := by
  have created : ∀ rest, readCreated (encode (Json.str (Time.instantText s.created)).render ++ rest) =
      .ok (s.created, rest) := by
    intro rest
    rw [readCreated, Json.readString_render]
    dsimp only
    rw [hcreated]
  have hfields : Json.Takes (Json.readSlot (slots (Json.maxDepth - 1))) {}
      [("key", .str s.key), ("source_identifier", .str s.source), ("value", s.value),
        ("created_at", .str (Time.instantText s.created)), ("ttl_ms", .nat s.ttlMillis),
        ("priority", .str s.priority.name)]
      ⟨some s.key, some s.source, some s.value, some s.created, some s.ttlMillis, some s.priority⟩ := by
    refine .cons (fun rest _ => readSlot_slots rfl rfl (Json.readString_render ..)) ?_
    refine .cons (fun rest _ => readSlot_slots rfl rfl (Json.readString_render ..)) ?_
    refine .cons (fun rest hrest =>
      readSlot_slots rfl rfl (Json.readValue_render (Nat.le_pred_of_lt hdepth) hvalue rest hrest)) ?_
    refine .cons (fun rest _ => readSlot_slots rfl rfl (created rest)) ?_
    refine .cons (fun rest hrest => readSlot_slots rfl rfl (Json.readUInt64_render httl hrest)) ?_
    refine .cons (fun rest _ => readSlot_slots rfl rfl (Json.readName_render s.priority.named?_name _ _)) ?_
    exact .nil _
  have hfinish : Draft.finish? ⟨some s.key, some s.source, some s.value, some s.created, some s.ttlMillis,
      some s.priority⟩ = some s := rfl
  have hread := Json.readWith_render hfields (by simp [slots, Json.Slot.of]) hfinish (Json.maxDepth - 1) []
  rw [parse, record, Json.bytes_eq_encode, toJson]
  rw [List.append_nil] at hread
  rw [show Json.maxDepth = Json.maxDepth - 1 + 1 from rfl, Nat.add_sub_cancel, hread]
  rfl

/-- The record of a value that is nested too deep is refused. -/
theorem parse_record_deep {s : Snapshot} (hdeep : Json.maxDepth ≤ s.value.depth) (hvalue : s.value.Readable) :
    ∃ e, parse s.record = .error e := by
  have htakes : Json.Takes (Json.readSlot (slots (Json.maxDepth - 1))) {}
      [("key", .str s.key), ("source_identifier", .str s.source)] { key := some s.key, source := some s.source } := by
    refine .cons (fun rest _ => readSlot_slots rfl rfl (Json.readString_render ..)) ?_
    refine .cons (fun rest _ => readSlot_slots rfl rfl (Json.readString_render ..)) ?_
    exact .nil _
  have hrefuses : Json.Refuses (Json.readValue (Json.maxDepth - 1)) s.value := Json.readValue_deep hdeep hvalue
  have hfield : ∀ rest, Json.EndsNumber rest → ∃ e, Json.readSlot (slots (Json.maxDepth - 1)) "value"
      { key := some s.key, source := some s.source } (Json.ascii ':' :: (encode s.value.render ++ rest)) =
        .error e := by
    intro rest hrest
    obtain ⟨e, he⟩ := hrefuses rest hrest
    have hslot : (slots (Json.maxDepth - 1)).find? (·.name == "value") = some (.of "value" true (·.value)
        (fun d v => { d with value := some v }) (Json.readValue (Json.maxDepth - 1))) := rfl
    refine ⟨e, ?_⟩
    rw [Json.readSlot, hslot]
    simp only [Json.Slot.of, Option.isSome_none, Bool.false_eq_true, if_false, Json.afterColon_cons, he]
  obtain ⟨e, he⟩ := @Json.readObject_refuses _ _ _ _ _
    [("created_at", .str (Time.instantText s.created)), ("ttl_ms", .nat s.ttlMillis),
      ("priority", .str s.priority.name)] _ _ htakes hfield []
  rw [List.cons_append, List.cons_append, List.nil_append] at he
  refine ⟨e, ?_⟩
  rw [parse, record, Json.bytes_eq_encode, toJson, ← List.append_nil (encode _), Json.encode_render_obj, Json.readWith,
    Json.readRecord, Json.skipSpace_cons (by decide)]
  dsimp only
  rw [if_pos rfl, if_neg (by decide), he]
  rfl

/-- Either the value of a snapshot is nested no deeper than a record allows and its record is read to it, or the record
is refused. -/
theorem parse_record_cases {s : Snapshot} (hvalue : s.value.Readable)
    (hcreated : Time.readInstant? (Time.instantText s.created) = some s.created) (httl : s.ttlMillis < 2 ^ 64) :
    s.value.depth < Json.maxDepth ∧ parse s.record = .ok s ∨
      Json.maxDepth ≤ s.value.depth ∧ ∃ e, parse s.record = .error e := by
  rcases Nat.lt_or_ge s.value.depth Json.maxDepth with hdepth | hdeep
  · exact .inl ⟨hdepth, parse_record hdepth hvalue hcreated httl⟩
  · exact .inr ⟨hdeep, parse_record_deep hdeep hvalue⟩

theorem readWith_of_parse {bs : Bytes} {s : Snapshot} (h : parse bs = .ok s) :
    ∃ rest, Json.readWith (slots (Json.maxDepth - 1)) {} Draft.finish? Json.maxDepth bs = .ok (s, rest) := by
  rw [parse, Json.complete.eq_def] at h
  split at h
  · cases h
  · split at h
    · cases h
      exact ⟨_, ‹_›⟩
    · cases h

/-- The time to live in a record fits 64 bits. -/
theorem ttlMillis_lt {bs : Bytes} {s : Snapshot} (h : parse bs = .ok s) : s.ttlMillis < 2 ^ 64 := by
  obtain ⟨rest, hread⟩ := readWith_of_parse h
  have hslots : ∀ slot ∈ slots (Json.maxDepth - 1), ∀ (d : Draft) (bs : Bytes) (d' : Draft) (rest : Bytes),
      (∀ n ∈ d.ttlMillis, n < 2 ^ 64) → slot.read d bs = .ok (d', rest) → ∀ n ∈ d'.ttlMillis, n < 2 ^ 64 := by
    -- only one slot changes the time to live
    intro slot hslot d bs d' rest hd hread
    simp only [slots, List.mem_cons, List.not_mem_nil, or_false] at hslot
    rcases hslot with rfl | rfl | rfl | rfl | rfl | rfl <;> obtain ⟨a, ha, rfl⟩ := Json.Slot.read_of_iff.1 hread
    case inr.inr.inr.inr.inl =>
      intro n hn
      cases hn
      exact Json.lt_of_readUInt64 ha
    all_goals exact hd
  obtain ⟨d, hd, hfinish⟩ := Json.readWith_preserves hslots (by simp) hread
  simp only [Draft.finish?, Option.bind_eq_bind, Option.bind_eq_some_iff, Option.pure_def, Option.some.injEq] at hfinish
  obtain ⟨_, _, _, _, _, _, _, _, n, hn, _, _, rfl⟩ := hfinish
  exact hd n hn

/-- The record of a snapshot is read to a snapshot of the same key, if it is read at all. -/
theorem key_of_parse_record {s s' : Snapshot} (h : parse s.record = .ok s') : s'.key = s.key := by
  obtain ⟨rest, hread⟩ := readWith_of_parse h
  have hslots : ∀ slot ∈ slots (Json.maxDepth - 1), ∀ (d : Draft) (bs : Bytes) (d' : Draft) (rest : Bytes),
      d.key = some s.key → slot.filled d = false → slot.read d bs = .ok (d', rest) → d'.key = some s.key := by
    -- the key comes first, and a second one is refused
    intro slot hslot d bs d' rest hd hfree hread
    simp only [slots, List.mem_cons, List.not_mem_nil, or_false] at hslot
    rcases hslot with rfl | rfl | rfl | rfl | rfl | rfl
    · rw [Json.Slot.of] at hfree
      dsimp only at hfree
      rw [hd] at hfree
      cases hfree
    all_goals
      obtain ⟨a, -, rfl⟩ := Json.Slot.read_of_iff.1 hread
      exact hd
  rw [record, Json.bytes_eq_encode, toJson, ← List.append_nil (encode _)] at hread
  obtain ⟨d, hd, hfinish⟩ := Json.readWith_cons_preserves (P := fun d : Draft => d.key = some s.key)
    (fun rest _ => readSlot_slots rfl rfl (Json.readString_render s.key rest)) hslots rfl hread
  simp only [Draft.finish?, Option.bind_eq_bind, Option.bind_eq_some_iff, Option.pure_def, Option.some.injEq] at hfinish
  obtain ⟨key, hkey, _, _, _, _, _, _, _, _, _, _, rfl⟩ := hfinish
  rw [hd] at hkey
  exact (Option.some.inj hkey).symm

end ResultCache.Snapshot
