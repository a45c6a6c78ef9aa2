import ResultCache.Json.Reader

/-!
# Reading records

A record is written as an object with named fields in any order, or as an array of their values in a fixed order.
Its fields are described by `Slot`s, each of which fills a part of a draft.  An unknown field is skipped; a field
given twice, a needed field left out and a value of another kind are a mismatch, and whichever fault stands first in
the text is the one reported.
-/

namespace ResultCache.Json

/-- The fault of a value of another kind than wanted.  A scalar is read to its end first, so that a broken one is
malformed. -/
def wrongKind (bs : Bytes) : Fault :=
  match skipSpace bs with
  | [] => .malformed
  | b :: rest =>
    if b = ascii '[' ∨ b = ascii '{' then .mismatch
    else
      match scanScalar? (b :: rest) with
      | none => .malformed
      | some _ => .mismatch

/-- The name of a field, after blanks. -/
def fieldName? (bs : Bytes) : Option (String × Bytes) :=
  match skipSpace bs with
  | [] => none
  | b :: rest => if b = ascii '"' then scanString? rest else none

def readString (bs : Bytes) : Except Fault (String × Bytes) :=
  match skipSpace bs with
  | [] => .error .malformed
  | b :: rest =>
    if b = ascii '"' then
      match scanString? rest with
      | none => .error .malformed
      | some r => .ok r
    else .error (wrongKind (b :: rest))

/-- Reads a whole number of 64 bits without sign. -/
def readUInt64 (bs : Bytes) : Except Fault (Nat × Bytes) :=
  let bs := skipSpace bs
  match scanScalar? bs with
  | some (int n, rest) => if 0 ≤ n then .ok (n.toNat, rest) else .error .mismatch
  | _ => .error (wrongKind bs)

/-- Reads `null` as nothing and anything else as something. -/
def readOption {α : Type} (read : Bytes → Except Fault (α × Bytes)) (bs : Bytes) :
    Except Fault (Option α × Bytes) :=
  let bs := skipSpace bs
  match bs with
  | [] => .error .malformed
  | b :: _ =>
    if b = ascii 'n' then
      match scanWord? bs with
      | none => .error .malformed
      | some (_, rest) => .ok (none, rest)
    else
      match read bs with
      | .error e => .error e
      | .ok (v, rest) => .ok (some v, rest)

/-- Reads one of a set of names: a string, or an object whose only field has that name and the value `null`.  What is
not a string cannot name a field. -/
def readName {α : Type} (named? : String → Option α) (levels : Nat) (bs : Bytes) : Except Fault (α × Bytes) :=
  match skipSpace bs with
  | [] => .error .malformed
  | b :: rest =>
    if b = ascii '"' then
      match readString (b :: rest) with
      | .error e => .error e
      | .ok (s, rest) =>
        match named? s with
        | none => .error .mismatch
        | some v => .ok (v, rest)
    else if b ≠ ascii '{' ∨ levels = 0 then .error .malformed
    else
      match fieldName? rest with
      | none => .error .malformed
      | some (s, rest) =>
        match named? s with
        | none => .error .mismatch
        | some v =>
          match afterColon rest with
          | .error e => .error e
          | .ok rest =>
            match scanScalar? (skipSpace rest) with
            | some (null, rest) =>
              match skipSpace rest with
              | [] => .error .malformed
              | b :: rest => if b = ascii '}' then .ok (v, rest) else .error .malformed
            | _ => .error (wrongKind rest)

/-- One field of a record that is collected in a draft of type `σ`. -/
structure Slot (σ : Type) where
  name : String
  /-- Whether the record has to have the field. -/
  needed : Bool
  /-- Whether the draft has the field already. -/
  filled : σ → Bool
  /-- Reads the value into the draft. -/
  read : σ → Bytes → Except Fault (σ × Bytes)

namespace Slot

/-- A slot whose value is read on its own and then put in. -/
def of {σ α : Type} (name : String) (needed : Bool) (get : σ → Option α) (put : σ → α → σ)
    (value : Bytes → Except Fault (α × Bytes)) : Slot σ where
  name := name
  needed := needed
  filled s := (get s).isSome
  read s bs :=
    match value bs with
    | .error e => .error e
    | .ok (v, rest) => .ok (put s v, rest)

end Slot

/-- The field of a name, with its value. -/
def readSlot {σ : Type} (slots : List (Slot σ)) (name : String) (s : σ) (bs : Bytes) : Except Fault (σ × Bytes) :=
  match slots.find? (·.name == name) with
  | none => colonThen (skipValue bs.length) (fun s _ => s) s bs
  | some slot =>
    if slot.filled s then .error .mismatch
    else
      match afterColon bs with
      | .error e => .error e
      | .ok rest => slot.read s rest

/-- The values of a record in the order of its slots, after the opening bracket. -/
def readSlots {σ : Type} (first : Bool) : List (Slot σ) → σ → Bytes → Except Fault (σ × Bytes)
  | [], s, bs =>
    match skipSpace bs with
    | [] => .error .malformed
    | b :: rest => if b = ascii ']' then .ok (s, rest) else .error .malformed
  | slot :: slots, s, bs =>
    match skipSpace bs with
    | [] => .error .malformed
    | b :: rest =>
      if b = ascii ']' then
        if (slot :: slots).any (·.needed) then .error .mismatch else .ok (s, rest)
      else if !first && b != ascii ',' then .error .malformed
      else
        let value := if first then b :: rest else skipSpace rest
        if value.head? == some (ascii ']') then .error .malformed
        else
          match slot.read s value with
          | .error e => .error e
          | .ok (s, rest) => readSlots false slots s rest

/-- Reads a record with at most `levels` arrays and objects open, itself included. -/
def readRecord {σ : Type} (slots : List (Slot σ)) (draft : σ) (levels : Nat) (bs : Bytes) :
    Except Fault (σ × Bytes) :=
  match skipSpace bs with
  | [] => .error .malformed
  | b :: rest =>
    if b = ascii '{' then
      if levels = 0 then .error .malformed
      else
        match readObject scanString? (readSlot slots) draft rest with
        | .error e => .error e
        | .ok (s, rest) =>
          if slots.any fun slot => slot.needed && !slot.filled s then .error .mismatch else .ok (s, rest)
    else if b = ascii '[' then
      if levels = 0 then .error .malformed else readSlots true slots draft rest
    else .error (wrongKind (b :: rest))

/-- Reads a record and makes a value of its draft. -/
def readWith {σ α : Type} (slots : List (Slot σ)) (draft : σ) (finish? : σ → Option α) (levels : Nat) (bs : Bytes) :
    Except Fault (α × Bytes) :=
  match readRecord slots draft levels bs with
  | .error e => .error e
  | .ok (s, rest) =>
    match finish? s with
    | none => .error .mismatch
    | some v => .ok (v, rest)

end ResultCache.Json
