import ResultCache.Score

/-!
# Choosing what to remove

A pass takes entries in the order of their scores, and of their keys where the scores are equal, until it has freed
what is needed and has taken its least number; it never takes more than its cap, and never a protected entry.
-/

namespace ResultCache

/-- What has to be freed. -/
structure Target where
  bytes : Nat
  entries : Nat
deriving DecidableEq

namespace Target

def none : Target :=
  ⟨0, 0⟩

end Target

/-- The bounds of one pass. -/
structure PassLimits where
  /-- How many entries a pass takes at least. -/
  minCount : Nat
  /-- The largest part of all entries that a pass takes. -/
  maxFraction : Float

namespace PassLimits

def default : PassLimits :=
  ⟨1, 0.5⟩

/-- The number of whole entries in the given part of `total`, but at least one. -/
def cap (l : PassLimits) (total : Nat) : Nat :=
  max (countAsFloat total * l.maxFraction).floor.toUInt64.toNat 1

theorem one_le_cap (l : PassLimits) (total : Nat) : 1 ≤ l.cap total :=
  Nat.le_max_right _ _

/-- Equality as numbers. -/
def same (a b : PassLimits) : Bool :=
  a.minCount == b.minCount && a.maxFraction == b.maxFraction

end PassLimits

namespace Victims

/-- The order of removal: by score, then by key. -/
def goesBefore (w : Weights) (now : Instant) (a b : Entry) : Bool :=
  let x := a.rank w now
  let y := b.rank w now
  x < y || (x == y && a.key ≤ b.key)

/-- The entries that may be removed, in the order of removal. -/
def candidates (w : Weights) (now : Instant) (entries : List Entry) : List Entry :=
  (entries.filter fun e => !e.isProtected now).mergeSort (goesBefore w now)

/-- Takes entries from the front.  `taken` and `freed` tell what was taken before. -/
def takeFrom (cap least bytes : Nat) (taken freed : Nat) : List Entry → List Entry
  | [] => []
  | e :: rest =>
    if cap ≤ taken then []
    else if bytes ≤ freed ∧ least ≤ taken then []
    else e :: takeFrom cap least bytes (taken + 1) (freed + e.size) rest

/-- The entries that one pass removes, in the order of removal. -/
def select (w : Weights) (limits : PassLimits) (now : Instant) (target : Target) (entries : List Entry) :
    List Entry :=
  takeFrom (limits.cap entries.length) (max limits.minCount target.entries) target.bytes 0 0
    (candidates w now entries)

/-- What is taken is a beginning of the list. -/
theorem takeFrom_isPrefix (cap least bytes taken freed : Nat) (l : List Entry) :
    takeFrom cap least bytes taken freed l <+: l := by
  induction l generalizing taken freed with
  | nil => exact List.nil_prefix
  | cons e rest ih =>
    rw [takeFrom]
    split
    · exact List.nil_prefix
    · split
      · exact List.nil_prefix
      · exact List.cons_prefix_cons.2 ⟨rfl, ih _ _⟩

/-- What a pass selects is among the entries and not protected. -/
theorem mem_select {w : Weights} {limits : PassLimits} {now : Instant} {target : Target} {entries : List Entry}
    {e : Entry} (h : e ∈ select w limits now target entries) : e ∈ entries ∧ e.isProtected now = false := by
  have := (takeFrom_isPrefix ..).subset h
  rw [candidates, List.mem_mergeSort, List.mem_filter] at this
  simpa using this

/-- A pass that has something to free removes an entry if there is one that is not protected. -/
theorem select_ne_nil {w : Weights} {limits : PassLimits} {now : Instant} {target : Target} {entries : List Entry}
    (ht : target ≠ .none) {e : Entry} (he : e ∈ entries) (hfree : e.isProtected now = false) :
    select w limits now target entries ≠ [] := by
  have hmem : e ∈ candidates w now entries := by
    rw [candidates, List.mem_mergeSort, List.mem_filter]
    simp [he, hfree]
  have hcap := limits.one_le_cap entries.length
  rw [select]
  cases h : candidates w now entries with
  | nil => simp [h] at hmem
  | cons first rest =>
    rw [takeFrom, if_neg (by omega), if_neg ?_]
    · simp
    · obtain ⟨bytes, count⟩ := target
      simp only [ne_eq, Target.none, Target.mk.injEq] at ht
      dsimp only
      omega

end Victims

end ResultCache
