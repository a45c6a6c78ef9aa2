import ResultCache.Proofs.Json.Encoding
import ResultCache.Request.Key

/-!
# Keys tell requests apart

Two requests have one key exactly if they agree in the scope, in the normal form of the resource, and in the digest of
the payload (`key_eq_key_iff`).  A key is taken apart from its front.  A scope begins with a digit and no scope with a
colon; the digits end at the first colon and tell how many bytes of scope follow; and of what is left, the normal form
of the resource ends at the first number sign, since it has none itself.
-/

namespace ResultCache

namespace Text

/-- Of two texts with equally many bytes that begin one list, each is the other. -/
theorem eq_of_append_eq {a b : String} {r s : List Char} (hlength : byteLength a = byteLength b)
    (h : a.toList ++ r = b.toList ++ s) : a = b ∧ r = s := by
  -- the longer beginning is the shorter one with characters that would have bytes of their own
  have shorter : ∀ (a b more : List Char), b = a ++ more → (encode a).length = (encode b).length → more = [] := by
    intro a b more hb hlen
    rw [hb, encode_append, List.length_append] at hlen
    cases more with
    | nil => rfl
    | cons c cs =>
      have hpos : 0 < (String.utf8EncodeChar c).length := List.length_pos_iff.2 String.utf8EncodeChar_ne_nil
      rw [encode_cons, List.length_append] at hlen
      omega
  rw [byteLength, byteLength, utf8_eq_encode, utf8_eq_encode] at hlength
  rcases List.append_eq_append_iff.1 h with ⟨more, hb, hr⟩ | ⟨more, ha, hs⟩
  · have hnil := shorter _ _ _ hb hlength
    subst hnil
    simp only [List.append_nil, List.nil_append] at hb hr
    exact ⟨(String.toList_inj.1 hb).symm, hr⟩
  · have hnil := shorter _ _ _ ha hlength.symm
    subst hnil
    simp only [List.append_nil, List.nil_append] at ha hs
    exact ⟨String.toList_inj.1 ha, hs.symm⟩

/-- A number before a colon is told from what follows. -/
theorem decimal_append_colon_inj {m n : Nat} {r s : List Char}
    (h : decimal m ++ ':' :: r = decimal n ++ ':' :: s) : m = n ∧ r = s := by
  have hcolon : ∀ (l : List Char), ∀ c ∈ (':' :: l).head?, isDigit c = false := by
    intro l c hc
    simp only [List.head?_cons, Option.mem_some_iff] at hc
    rw [← hc]
    decide
  obtain ⟨hdigits, hrest⟩ :=
    append_inj_of_run (isDigit_decimal m).2 (isDigit_decimal n).2 (hcolon r) (hcolon s) h
  exact ⟨decimal_injective hdigits, (List.cons.inj hrest).2⟩

end Text

namespace Request

open ResultCache.Text

/-- A scope with what follows it is told from no scope, by the first character. -/
theorem scopeChars_some_append_ne (scope : String) (r s : List Char) :
    scopeChars (some scope) ++ r ≠ ':' :: s := by
  intro h
  rw [scopeChars, List.append_assoc] at h
  obtain ⟨hne, hdigits⟩ := isDigit_decimal (byteLength scope)
  cases hdecimal : decimal (byteLength scope) with
  | nil => exact hne hdecimal
  | cons c cs =>
    rw [hdecimal] at h hdigits
    have hc : c = ':' := (List.cons.inj h).1
    have hdigit := hdigits c List.mem_cons_self
    rw [hc] at hdigit
    exact absurd hdigit (by decide)

/-- A scope is told from what follows it, if that begins with a colon. -/
theorem scopeChars_append_inj {a b : Option String} {r s : List Char}
    (h : scopeChars a ++ ':' :: r = scopeChars b ++ ':' :: s) : a = b ∧ r = s := by
  cases a with
  | none =>
    cases b with
    | none => exact ⟨rfl, (List.cons.inj h).2⟩
    | some b => exact absurd h.symm (scopeChars_some_append_ne b _ _)
  | some a =>
    cases b with
    | none => exact absurd h (scopeChars_some_append_ne a _ _)
    | some b =>
      simp only [scopeChars, List.append_assoc, List.cons_append] at h
      obtain ⟨hlength, htexts⟩ := decimal_append_colon_inj h
      obtain ⟨hab, hrest⟩ := eq_of_append_eq hlength htexts
      exact ⟨congrArg some hab, (List.cons.inj hrest).2⟩

/-- A normal form is told from the digest after it, which begins with a number sign if there is one. -/
theorem normalizeChars_append_inj {volatileFields : List String} {a b : Request} {cs ds : List Char}
    (h : Resource.normalizeChars cs ++ a.digestChars volatileFields =
      Resource.normalizeChars ds ++ b.digestChars volatileFields) :
    Resource.normalizeChars cs = Resource.normalizeChars ds ∧
      a.digestChars volatileFields = b.digestChars volatileFields := by
  have hnormal : ∀ cs, ∀ c ∈ Resource.normalizeChars cs, (c != '#') = true := by
    intro cs c hc
    have := (@Resource.not_mem_normalizeChars cs).2
    rw [bne_iff_ne]
    rintro rfl
    exact this hc
  have hdigest : ∀ r : Request, ∀ c ∈ (r.digestChars volatileFields).head?, (c != '#') = false := by
    intro r c hc
    unfold digestChars at hc
    split at hc
    · simp at hc
    · simp only [List.head?_cons, Option.mem_some_iff] at hc
      simp [← hc]
  exact append_inj_of_run (hnormal cs) (hnormal ds) (hdigest a) (hdigest b) h

/-- The end of a key tells whether there is a payload, and its digest. -/
theorem digestChars_eq_iff {volatileFields : List String} {a b : Request} :
    a.digestChars volatileFields = b.digestChars volatileFields ↔
      (a.payload? = none ∧ b.payload? = none) ∨
        ∃ v w, a.payload? = some v ∧ b.payload? = some w ∧
          Payload.digest volatileFields v = Payload.digest volatileFields w := by
  unfold digestChars
  cases a.payload? <;> cases b.payload? <;> simp

/-- Two requests have one key exactly if they have one scope, where no scope is not the empty one, one normal form of
the resource, and either no payload but null, or payloads with one digest. -/
theorem key_eq_key_iff (volatileFields : List String) (a b : Request) :
    a.key volatileFields = b.key volatileFields ↔
      a.scope = b.scope ∧ a.source = b.source ∧
        ((a.payload? = none ∧ b.payload? = none) ∨
          ∃ v w, a.payload? = some v ∧ b.payload? = some w ∧
            Payload.digest volatileFields v = Payload.digest volatileFields w) := by
  rw [key, key, source, source, Resource.normalize, Resource.normalize, String.ofList_inj, String.ofList_inj,
    ← digestChars_eq_iff]
  constructor
  · intro h
    obtain ⟨hscope, hrest⟩ := scopeChars_append_inj h
    obtain ⟨hsource, hdigest⟩ := normalizeChars_append_inj (List.cons.inj hrest).2
    exact ⟨hscope, hsource, hdigest⟩
  · rintro ⟨hscope, hsource, hdigest⟩
    rw [keyChars, keyChars, hscope, hsource, hdigest]

/-- The length before a scope keeps a scope with colons apart from a resource with colons. -/
example : Request.key [] ⟨"/r", none, some "a::b"⟩ ≠ Request.key [] ⟨"b::/r", none, some "a"⟩ := by
  decide +kernel

end Request

end ResultCache
