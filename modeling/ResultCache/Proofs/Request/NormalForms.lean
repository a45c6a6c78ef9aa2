import ResultCache.Http.Body
import ResultCache.Proofs.Text.Trimming

/-!
# Normal forms of accepted resources

A normal form has no query and no fragment, no blank in front, and no slash at its end unless it is one slash.  It is
the normal form of itself exactly if it has no blank at its end either (`Resource.normalizeChars_eq_self_iff`); it has
one if a blank stands before the last slashes, which are dropped after the blanks (`Resource.last_normalizeChars_iff`).
It is empty if nothing stands before the query or the fragment, and such a resource is accepted, since the check looks
at the whole text (`Http.LookupBody.source_of_accepted`).
-/

namespace ResultCache

namespace Resource

open ResultCache.Text

variable {cs : List Char}

theorem isTrimmed_path (cs : List Char) : IsTrimmed (path cs) :=
  isTrimmed_trimChars _

/-! ### What is left of a path -/

/-- A path of slashes becomes one slash. -/
theorem normalizeChars_of_slashes (hne : path cs ≠ []) (h : ∀ c ∈ path cs, c = '/') : normalizeChars cs = ['/'] := by
  have hnil : dropEndWhile (· == '/') (path cs) = [] := by
    rw [dropEndWhile_eq_rdropWhile, List.rdropWhile_eq_nil_iff]
    exact fun c hc => by simp [h c hc]
  have hhead : (path cs).head? = some '/' := by
    rw [List.head?_eq_some_head hne, h _ (List.head_mem hne)]
  simp [normalizeChars, hnil, hhead]

/-- Any other path loses the slashes at its end. -/
theorem normalizeChars_of_ne_nil (h : dropEndWhile (· == '/') (path cs) ≠ []) :
    normalizeChars cs = dropEndWhile (· == '/') (path cs) := by
  simp [normalizeChars, List.isEmpty_eq_false_iff.2 h]

theorem normalizeChars_cases (cs : List Char) :
    path cs = [] ∧ normalizeChars cs = [] ∨ path cs ≠ [] ∧ normalizeChars cs = ['/'] ∨
      dropEndWhile (· == '/') (path cs) ≠ [] ∧ normalizeChars cs = dropEndWhile (· == '/') (path cs) := by
  by_cases hpath : path cs = []
  · exact .inl ⟨hpath, by simp [normalizeChars, hpath, dropEndWhile]⟩
  · by_cases hdrop : dropEndWhile (· == '/') (path cs) = []
    · rw [dropEndWhile_eq_rdropWhile, List.rdropWhile_eq_nil_iff] at hdrop
      exact .inr (.inl ⟨hpath, normalizeChars_of_slashes hpath fun c hc => by simpa using hdrop c hc⟩)
    · exact .inr (.inr ⟨hdrop, normalizeChars_of_ne_nil hdrop⟩)

theorem normalizeChars_eq_nil_iff : normalizeChars cs = [] ↔ path cs = [] := by
  rcases normalizeChars_cases cs with ⟨hpath, heq⟩ | ⟨hpath, heq⟩ | ⟨hdrop, heq⟩
  · rw [hpath, heq]
  · simp [hpath, heq]
  · have hpath : path cs ≠ [] := fun h => hdrop (by rw [h]; rfl)
    rw [heq]
    exact iff_of_false hdrop hpath

theorem first_normalizeChars {c : Char} (h : c ∈ (normalizeChars cs).head?) : isBlank c = false := by
  rcases normalizeChars_cases cs with ⟨-, heq⟩ | ⟨-, heq⟩ | ⟨-, heq⟩
  · simp [heq] at h
  · have hc : '/' = c := by simpa [heq] using h
    rw [← hc]
    decide
  · rw [heq] at h
    exact (isTrimmed_path cs).first c (head?_of_isPrefix (dropEndWhile_isPrefix _ _) h)

theorem eq_slash_of_last (h : '/' ∈ (normalizeChars cs).getLast?) : normalizeChars cs = ['/'] := by
  rcases normalizeChars_cases cs with ⟨-, heq⟩ | ⟨-, heq⟩ | ⟨-, heq⟩
  · simp [heq] at h
  · exact heq
  · rw [heq] at h
    exact absurd (last_dropEndWhile h) (by decide)

/-! ### Blanks at the end -/

/-- Whether a blank stands before the slashes at the end of a text. -/
def HasBlankBeforeSlashes (cs : List Char) : Prop :=
  ∃ front blank slashes, cs = front ++ blank :: slashes ∧ isBlank blank = true ∧ ∀ c ∈ slashes, c = '/'

/-- A blank at the end of a normal form stood before the slashes that were dropped. -/
theorem last_normalizeChars_iff :
    (∀ c ∈ (normalizeChars cs).getLast?, isBlank c = false) ↔ ¬HasBlankBeforeSlashes (path cs) := by
  constructor
  · rintro h ⟨front, blank, slashes, hpath, hblank, hslashes⟩
    have hdrop : dropEndWhile (· == '/') (path cs) = front ++ [blank] := by
      have hne : blank ≠ '/' := by
        rintro rfl
        exact absurd hblank (by decide)
      rw [hpath, ← List.singleton_append, ← List.append_assoc, dropEndWhile_append fun c hc => by simp [hslashes c hc],
        dropEndWhile_eq_self_iff]
      simpa using hne
    have hnormal : normalizeChars cs = _ := normalizeChars_of_ne_nil (by simp [hdrop])
    exact absurd (h blank (by simp [hnormal, hdrop])) (by simp [hblank])
  · intro h c hc
    rcases normalizeChars_cases cs with ⟨-, heq⟩ | ⟨-, heq⟩ | ⟨-, heq⟩
    · simp [heq] at hc
    · have hslash : '/' = c := by simpa [heq] using hc
      rw [← hslash]
      decide
    · by_contra hblank
      rw [Bool.not_eq_false] at hblank
      rw [heq] at hc
      obtain ⟨front, hfront⟩ := List.getLast?_eq_some_iff.1 hc
      have hwhole := dropEndWhile_append_takeWhile (· == '/') (path cs)
      rw [hfront, List.append_assoc] at hwhole
      refine h ⟨front, c, _, hwhole.symm, hblank, fun d hd => ?_⟩
      simpa using List.mem_takeWhile_imp (List.mem_reverse.1 hd)

/-- A normal form is its own path, but for blanks at its end. -/
theorem path_normalizeChars (cs : List Char) : path (normalizeChars cs) = trimChars (normalizeChars cs) := by
  have hall : ∀ c ∈ normalizeChars cs, (c != '?' && c != '#') = true := by
    intro c hc
    obtain ⟨hquery, hfragment⟩ := @not_mem_normalizeChars cs
    rw [Bool.and_eq_true, bne_iff_ne, bne_iff_ne]
    exact ⟨fun h => hquery (h ▸ hc), fun h => hfragment (h ▸ hc)⟩
  rw [path, List.takeWhile_eq_self_iff.2 hall]

/-- A normal form is the normal form of itself exactly if it does not end with a blank. -/
theorem normalizeChars_eq_self_iff :
    normalizeChars (normalizeChars cs) = normalizeChars cs ↔
      ∀ c ∈ (normalizeChars cs).getLast?, isBlank c = false := by
  obtain ⟨n, hn⟩ : ∃ n, normalizeChars cs = n := ⟨_, rfl⟩
  have hpath : path n = trimChars n := hn ▸ path_normalizeChars cs
  have hfirst : ∀ c ∈ n.head?, isBlank c = false := fun c hc => first_normalizeChars (hn ▸ hc)
  have hslash : '/' ∈ n.getLast? → n = ['/'] := fun h => hn ▸ eq_slash_of_last (hn ▸ h)
  rw [hn]
  constructor
  · -- a normal form begins the path that it is taken from, and no path ends with a blank
    intro h
    have hself : n = trimChars n := by
      rcases normalizeChars_cases n with ⟨hnil, heq⟩ | ⟨hne, heq⟩ | ⟨-, heq⟩
      · rw [← hpath, hnil, ← h, heq]
      · rw [← h, heq]
        decide
      · have hprefix := dropEndWhile_isPrefix (· == '/') (path n)
        rw [← heq, h, hpath] at hprefix
        refine hprefix.eq_of_length_le ?_
        exact (dropEndWhile_isPrefix _ _).length_le.trans (List.dropWhile_suffix _).length_le
    exact (trimChars_eq_self_iff.1 hself.symm).last
  · intro hlast
    rw [trimChars_eq_self_iff.2 ⟨hfirst, hlast⟩] at hpath
    by_cases hnil : n = []
    · rw [hnil]
      decide
    · by_cases hend : '/' ∈ n.getLast?
      · rw [hslash hend]
        decide
      · have hdrop : dropEndWhile (· == '/') n = n := by
          rw [dropEndWhile_eq_self_iff]
          intro c hc
          rw [beq_eq_false_iff_ne]
          rintro rfl
          exact hend hc
        rw [normalizeChars_of_ne_nil (by rwa [hpath, hdrop]), hpath, hdrop]

/-! ### Empty paths -/

/-- Of a text that is not blank the path is empty exactly if the query or the fragment begins at once. -/
theorem path_eq_nil_iff (h : trimChars cs ≠ []) :
    path cs = [] ↔ ∃ c ∈ (cs.dropWhile isBlank).head?, c = '?' ∨ c = '#' := by
  rw [path, trimChars_eq_nil_iff]
  rw [Ne, trimChars_eq_nil_iff] at h
  induction cs with
  | nil => exact absurd (by simp) h
  | cons c cs ih =>
    cases hblank : isBlank c with
    | true =>
      have hplain : (c != '?' && c != '#') = true := by
        rw [Bool.and_eq_true, bne_iff_ne, bne_iff_ne]
        constructor
        · rintro rfl
          exact absurd hblank (by decide)
        · rintro rfl
          exact absurd hblank (by decide)
      have hrest : ¬∀ d ∈ cs, isBlank d = true := fun hall => h (List.forall_mem_cons.2 ⟨hblank, hall⟩)
      rw [List.takeWhile_cons, if_pos hplain, List.dropWhile_cons_of_pos hblank, List.forall_mem_cons, ← ih hrest]
      exact and_iff_right hblank
    | false =>
      rw [List.dropWhile_cons_of_neg (by simp [hblank])]
      by_cases hplain : c = '?' ∨ c = '#'
      · have hstop : ¬(c != '?' && c != '#') = true := by
          rcases hplain with rfl | rfl <;> decide
        rw [List.takeWhile_cons, if_neg hstop]
        simpa using hplain
      · have hgo : (c != '?' && c != '#') = true := by simpa [not_or] using hplain
        rw [List.takeWhile_cons, if_pos hgo]
        simp [hblank, not_or.1 hplain]

/-! ### Proper normal forms -/

/-- What a normal form should be: something without query and fragment, without blanks at its ends and slashes at its
end, and its own normal form. -/
structure IsProper (n : String) : Prop where
  ne_empty : n ≠ ""
  no_query : '?' ∉ n.toList
  no_fragment : '#' ∉ n.toList
  trimmed : IsTrimmed n.toList
  eq_slash : '/' ∈ n.toList.getLast? → n = "/"
  fixed : normalize n = n

@[simp] theorem toList_normalize (resource : String) :
    (normalize resource).toList = normalizeChars resource.toList :=
  String.toList_ofList

theorem normalize_eq_self_iff {resource : String} :
    normalize (normalize resource) = normalize resource ↔ ¬HasBlankBeforeSlashes (path resource.toList) := by
  rw [← last_normalizeChars_iff, ← normalizeChars_eq_self_iff, ← String.toList_inj, toList_normalize,
    toList_normalize]

end Resource

namespace Http.LookupBody

open ResultCache.Text Resource

theorem trimChars_ne_nil {b : LookupBody} (h : b.problem? = none) : trimChars b.resource.toList ≠ [] := by
  intro hnil
  rw [problem?, hnil] at h
  cases h

/-- The normal form of an accepted resource has no query and no fragment, no blank in front, and no slash at its end
unless it is one slash.  It is empty exactly if the resource begins with its query or its fragment, but for blanks, and
it is its own normal form exactly if no blank stands before the slashes at the end of its path; otherwise it is all that
it should be. -/
theorem source_of_accepted (b : LookupBody) (h : b.problem? = none) :
    let begins := ∃ c ∈ (b.resource.toList.dropWhile isBlank).head?, c = '?' ∨ c = '#'
    let blank := HasBlankBeforeSlashes (path b.resource.toList)
    let n := b.request.source
    ('?' ∉ n.toList ∧ '#' ∉ n.toList ∧ (∀ c ∈ n.toList.head?, isBlank c = false) ∧
        ('/' ∈ n.toList.getLast? → n = "/")) ∧
      (n = "" ↔ begins) ∧ ((∃ c ∈ n.toList.getLast?, isBlank c = true) ↔ blank) ∧ (normalize n ≠ n ↔ blank) ∧
      (IsProper n ↔ ¬begins ∧ ¬blank) := by
  intro begins blank n
  have htext : n.toList = normalizeChars b.resource.toList := toList_normalize b.resource
  obtain ⟨hquery, hfragment⟩ := @not_mem_normalizeChars b.resource.toList
  have hfirst : ∀ c ∈ n.toList.head?, isBlank c = false := fun c hc => first_normalizeChars (htext ▸ hc)
  have hslash : '/' ∈ n.toList.getLast? → n = "/" := by
    intro hlast
    rw [htext] at hlast
    rw [← String.toList_inj, htext, eq_slash_of_last hlast]
    rfl
  have hempty : n = "" ↔ begins := by
    rw [← String.toList_inj, htext, String.toList_empty, normalizeChars_eq_nil_iff]
    exact path_eq_nil_iff (trimChars_ne_nil h)
  have hlast : (∀ c ∈ n.toList.getLast?, isBlank c = false) ↔ ¬blank := by
    rw [htext]
    exact last_normalizeChars_iff
  have hfixed : normalize n = n ↔ ¬blank := normalize_eq_self_iff
  rw [← htext] at hquery hfragment
  refine ⟨⟨hquery, hfragment, hfirst, hslash⟩, hempty, ?_, not_iff_comm.1 hfixed.symm, ?_⟩
  · rw [← not_iff_not, ← hlast]
    simp
  · constructor
    · intro hproper
      exact ⟨fun hbegins => hproper.ne_empty (hempty.2 hbegins), hfixed.1 hproper.fixed⟩
    · rintro ⟨hbegins, hblank⟩
      exact ⟨fun hnil => hbegins (hempty.1 hnil), hquery, hfragment, ⟨hfirst, hlast.2 hblank⟩, hslash, hfixed.2 hblank⟩

/-- A resource with blanks, slashes and a query. -/
theorem source_of_accepted_blanks :
    let b : LookupBody := ⟨" /a /b// ?c=/ #d ", none, none⟩
    b.problem? = none ∧ b.request.source = "/a /b" ∧ IsProper b.request.source := by
  intro b
  have haccepted : b.problem? = none := by decide +kernel
  have hsource : b.request.source = "/a /b" := by decide +kernel
  obtain ⟨-, hempty, -, hfixed, hproper⟩ := source_of_accepted b haccepted
  refine ⟨haccepted, hsource, hproper.2 ⟨?_, ?_⟩⟩
  · rw [← hempty, hsource]
    decide
  · rw [← hfixed, hsource, not_not]
    decide +kernel

/-- A resource that is all query. -/
private def allQuery : LookupBody :=
  ⟨"?x=1", none, none⟩

/-- A resource with a blank before its last slash. -/
private def blankBeforeSlash : LookupBody :=
  ⟨"/a /", none, none⟩

/-- Both are accepted.  The normal form of the one is empty, and that of the other ends with a blank and is not its
own. -/
theorem improper_source :
    (allQuery.problem? = none ∧ allQuery.request.source = "" ∧ ¬IsProper allQuery.request.source) ∧
      blankBeforeSlash.problem? = none ∧ blankBeforeSlash.request.source = "/a " ∧ normalize "/a " = "/a" ∧
      ¬IsProper blankBeforeSlash.request.source := by
  have hempty : allQuery.request.source = "" := by decide +kernel
  have hblank : blankBeforeSlash.request.source = "/a " := by decide +kernel
  have hagain : normalize "/a " = "/a" := by decide +kernel
  refine ⟨⟨by decide +kernel, hempty, fun h => h.ne_empty hempty⟩, by decide +kernel, hblank, hagain, fun h => ?_⟩
  have hfixed := h.fixed
  rw [hblank, hagain] at hfixed
  exact absurd hfixed (by decide)

end Http.LookupBody

end ResultCache
