import ResultCache.Text.Blank

/-!
# Resources

A resource is a free text that names what a request asks for.  Its normal form leaves out the query and the fragment,
the blanks at both ends, and the slashes at the end; what is only slashes becomes one slash.
-/

namespace ResultCache.Resource

open ResultCache.Text

/-- The part before the first question mark or number sign, without blanks at its ends. -/
def path (cs : List Char) : List Char :=
  trimChars (cs.takeWhile fun c => c != '?' && c != '#')

/-- The normal form of a resource, as characters. -/
def normalizeChars (cs : List Char) : List Char :=
  let trimmed := dropEndWhile (· == '/') (path cs)
  if trimmed.isEmpty && (path cs).head? == some '/' then ['/'] else trimmed

def normalize (resource : String) : String :=
  String.ofList (normalizeChars resource.toList)

/-- A normal form has neither query nor fragment. -/
theorem not_mem_normalizeChars {cs : List Char} : '?' ∉ normalizeChars cs ∧ '#' ∉ normalizeChars cs := by
  have hpath : ∀ c ∈ path cs, c ≠ '?' ∧ c ≠ '#' := by
    intro c hc
    have h1 : c ∈ (cs.takeWhile fun c => c != '?' && c != '#').dropWhile isBlank := by
      rw [path, trimChars, dropEndWhile, List.mem_reverse] at hc
      exact List.mem_reverse.1 ((List.dropWhile_sublist _).subset hc)
    have h2 := (List.dropWhile_sublist _).subset h1
    have h3 := List.all_eq_true.1 List.all_takeWhile c h2
    simpa using h3
  have htrim : ∀ c ∈ dropEndWhile (· == '/') (path cs), c ≠ '?' ∧ c ≠ '#' := by
    intro c hc
    rw [dropEndWhile, List.mem_reverse] at hc
    exact hpath c (List.mem_reverse.1 ((List.dropWhile_sublist _).subset hc))
  rw [normalizeChars]
  split
  · decide
  · exact ⟨fun h => (htrim _ h).1 rfl, fun h => (htrim _ h).2 rfl⟩

end ResultCache.Resource
