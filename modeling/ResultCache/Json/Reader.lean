import ResultCache.Json.Scan

/-!
# Reading JSON documents

A reader takes the bytes of a document apart from the front.  It fails in one of two ways: the text is no JSON, or it
is JSON of another shape than wanted; what stands first in the text decides which.  Arrays and objects may be nested
127 deep.  `parse` reads a whole document.
-/

namespace ResultCache.Json

/-- Why a document was refused. -/
inductive Fault where
  /-- The text is no JSON text, or ends too early, or is nested too deep. -/
  | malformed
  /-- The text says something else than wanted. -/
  | mismatch
deriving DecidableEq

/-- The deepest nesting of arrays and objects that is read. -/
def maxDepth : Nat :=
  127

/-- Reads the items of an array after its opening bracket.  Each is handed the state so far; `fuel` bounds their
number. -/
def readItems {σ : Type} (item : σ → Bytes → Except Fault (σ × Bytes)) :
    Nat → σ → Bytes → Except Fault (σ × Bytes)
  | 0, _, _ => .error .malformed
  | fuel + 1, s, bs =>
    match item s bs with
    | .error e => .error e
    | .ok (s, rest) =>
      match skipSpace rest with
      | [] => .error .malformed
      | b :: rest =>
        if b = ascii ']' then .ok (s, rest)
        else if b = ascii ',' then readItems item fuel s rest
        else .error .malformed

/-- Reads an array after its opening bracket. -/
def readArray {σ : Type} (item : σ → Bytes → Except Fault (σ × Bytes)) (s : σ) (bs : Bytes) :
    Except Fault (σ × Bytes) :=
  match skipSpace bs with
  | [] => .error .malformed
  | b :: rest => if b = ascii ']' then .ok (s, rest) else readItems item (bs.length + 1) s (b :: rest)

/-- The rest after a colon. -/
def afterColon (bs : Bytes) : Except Fault Bytes :=
  match skipSpace bs with
  | [] => .error .malformed
  | b :: rest => if b = ascii ':' then .ok rest else .error .malformed

/-- Reads the fields of an object from the first name on.  `name` reads a name after its quote, and `field` the
value. -/
def readFields {σ κ : Type} (name : Bytes → Option (κ × Bytes))
    (field : κ → σ → Bytes → Except Fault (σ × Bytes)) : Nat → σ → Bytes → Except Fault (σ × Bytes)
  | 0, _, _ => .error .malformed
  | fuel + 1, s, bs =>
    match skipSpace bs with
    | [] => .error .malformed
    | b :: rest =>
      if b ≠ ascii '"' then .error .malformed
      else
        match name rest with
        | none => .error .malformed
        | some (k, rest) =>
          match field k s rest with
          | .error e => .error e
          | .ok (s, rest) =>
            match skipSpace rest with
            | [] => .error .malformed
            | b :: rest =>
              if b = ascii '}' then .ok (s, rest)
              else if b = ascii ',' then readFields name field fuel s rest
              else .error .malformed

/-- Reads an object after its opening brace. -/
def readObject {σ κ : Type} (name : Bytes → Option (κ × Bytes))
    (field : κ → σ → Bytes → Except Fault (σ × Bytes)) (s : σ) (bs : Bytes) : Except Fault (σ × Bytes) :=
  match skipSpace bs with
  | [] => .error .malformed
  | b :: rest => if b = ascii '}' then .ok (s, rest) else readFields name field (bs.length + 1) s (b :: rest)

/-- A field whose value is read by `value` and then taken up. -/
def colonThen {σ α : Type} (value : Bytes → Except Fault (α × Bytes)) (take : σ → α → σ) (s : σ) (bs : Bytes) :
    Except Fault (σ × Bytes) :=
  match afterColon bs with
  | .error e => .error e
  | .ok rest =>
    match value rest with
    | .error e => .error e
    | .ok (v, rest) => .ok (take s v, rest)

/-- Puts the value that is read before those already read. -/
def consItem (read : Bytes → Except Fault (Json × Bytes)) (acc : List Json) (bs : Bytes) :
    Except Fault (List Json × Bytes) :=
  match read bs with
  | .error e => .error e
  | .ok (v, rest) => .ok (v :: acc, rest)

/-- The three words of JSON. -/
def scanWord? (bs : Bytes) : Option (Json × Bytes) :=
  match after? [ascii 'n', ascii 'u', ascii 'l', ascii 'l'] bs with
  | some rest => some (null, rest)
  | none =>
    match after? [ascii 't', ascii 'r', ascii 'u', ascii 'e'] bs with
    | some rest => some (bool true, rest)
    | none => (after? [ascii 'f', ascii 'a', ascii 'l', ascii 's', ascii 'e'] bs).map (bool false, ·)

/-- A value that is neither array nor object, from its first byte on. -/
def scanScalar? (bs : Bytes) : Option (Json × Bytes) :=
  match bs with
  | [] => none
  | b :: rest =>
    if b = ascii '"' then (scanString? rest).map fun (s, rest) => (str s, rest)
    else if b = ascii '-' ∨ isDigitByte b then scanNumber? bs
    else scanWord? bs

/-- Reads a value with at most `levels` arrays and objects open inside it. -/
def readValue : Nat → Bytes → Except Fault (Json × Bytes)
  | levels, bs =>
    match skipSpace bs with
    | [] => .error .malformed
    | b :: rest =>
      if b = ascii '[' then
        match levels with
        | 0 => .error .malformed
        | levels + 1 =>
          match readArray (consItem (readValue levels)) [] rest with
          | .error e => .error e
          | .ok (acc, rest) => .ok (arr acc.reverse, rest)
      else if b = ascii '{' then
        match levels with
        | 0 => .error .malformed
        | levels + 1 =>
          let field (name : String) := colonThen (readValue levels) fun acc v => Assoc.insert name v acc
          match readObject scanString? field [] rest with
          | .error e => .error e
          | .ok (acc, rest) => .ok (obj acc, rest)
      else
        match scanScalar? (b :: rest) with
        | none => .error .malformed
        | some r => .ok r

/-- The rest after a value whose content does not matter.  The depth of nesting is bounded by `fuel` only, and
numbers may be of any size. -/
def skipValue : Nat → Bytes → Except Fault (Unit × Bytes)
  | fuel, bs =>
    match skipSpace bs with
    | [] => .error .malformed
    | b :: rest =>
      if b = ascii '[' then
        match fuel with
        | 0 => .error .malformed
        | fuel + 1 => readArray (fun _ bs => skipValue fuel bs) () rest
      else if b = ascii '{' then
        match fuel with
        | 0 => .error .malformed
        | fuel + 1 =>
          let name (bs : Bytes) := (skipString? bs).map ((), ·)
          readObject name (fun _ => colonThen (skipValue fuel) fun s _ => s) () rest
      else
        let skipped :=
          if b = ascii '"' then skipString? rest
          else if b = ascii '-' ∨ isDigitByte b then (scanSpelled? (b :: rest)).map (·.2)
          else (scanWord? (b :: rest)).map (·.2)
        match skipped with
        | none => .error .malformed
        | some rest => .ok ((), rest)

/-- A document is a value with nothing but space around it. -/
def complete {α : Type} (read : Except Fault (α × Bytes)) : Except Fault α :=
  match read with
  | .error e => .error e
  | .ok (v, rest) => if (skipSpace rest).isEmpty then .ok v else .error .malformed

/-- The value of a document. -/
def parse (bs : Bytes) : Except Fault Json :=
  complete (readValue maxDepth bs)

/-- The value of a document given as text. -/
def parseText (s : String) : Except Fault Json :=
  parse (Text.utf8 s)

end ResultCache.Json
