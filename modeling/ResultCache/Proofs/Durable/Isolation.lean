import ResultCache.Proofs.Durable.WriteBehind

/-!
# Namespaces that share a store

A tier owns the keys that begin with its namespace and a colon; it touches no others (`Tier.uses_get`) and looks at no
others (`Tier.uses_without`).  So two namespaces are isolated exactly if no key belongs to both
(`Tier.isolated_iff_apart`).  Different names without colons are, but all that belongs to a namespace that goes on after
a colon belongs to the shorter one as well.
-/

namespace ResultCache

variable {σ : Type} {store : Store σ} {space other : String}

namespace Store

/-- A store in which the records under the keys with a certain beginning are not found. -/
def without (store : Store σ) (start : String) : Store σ :=
  store.withFaults ⟨fun _ _ => false, beginsWith start⟩

theorem without_delete (store : Store σ) (start : String) : (store.without start).delete = store.delete :=
  rfl

theorem without_list (store : Store σ) (start : String) : (store.without start).list = store.list :=
  rfl

theorem without_get {start key : String} (h : beginsWith start key = false) (s : σ) :
    (store.without start).get key s = store.get key s := by
  show (if beginsWith start key = true then _ else _) = _
  rw [h]
  rfl

end Store

namespace WriteOp

/-- An operation reads no records. -/
theorem apply_without (store : Store σ) (start : String) (op : WriteOp) (s : σ) :
    op.apply (store.without start) space s = op.apply store space s := by
  have hdelete : ∀ keys s, deleteAll (store.without start) keys s = deleteAll store keys s := by
    intro keys
    induction keys with
    | nil => exact fun _ => rfl
    | cons key keys ih => exact fun s => by simp only [deleteAll, store.without_delete, ih]
  cases op with
  | put key record => rfl
  | delete key => rfl
  | clear => simp only [apply, store.without_list, hdelete]
  | barrier ticket => rfl

end WriteOp

namespace Tier

variable {t : Tier}

/-- What may be done with a tier that has its writer. -/
inductive Use where
  | move (m : Move)
  | rehydrate (now : Instant)

/-- What was found by loading, and the tier and the contents of its store, after some uses. -/
def uses (store : Store σ) : List Use → Tier → σ → List Rehydrated × Tier × σ
  | [], t, s => ([], t, s)
  | .move m :: us, t, s => uses store us (t.move store s m).1 (t.move store s m).2
  | .rehydrate now :: us, t, s =>
    let (found, s) := t.rehydrate store now s
    let (others, after) := uses store us t s
    (found :: others, after)

/-- No key belongs to both of two namespaces. -/
def Apart (space other : String) : Prop :=
  ∀ key, beginsWith (space ++ ":") key = true → beginsWith (other ++ ":") key = false

/-- However a tier of one namespace is used, the records of another one stay as they are, and nothing depends on them:
all would be the same if they could not be found. -/
def Isolated (store : Store σ) (space other : String) : Prop :=
  ∀ (t : Tier) (us : List Use) (s : σ), t.space = space →
    (∀ key, store.get (other ++ ":" ++ key) (uses store us t s).2.2 = store.get (other ++ ":" ++ key) s) ∧
      uses (store.without (other ++ ":")) us t s = uses store us t s

/-! ### What is left alone -/

theorem applyCount_space (store : Store σ) (count : Nat) (t : Tier) (s : σ) :
    (applyCount store count t s).1.space = t.space := by
  induction count generalizing t s with
  | zero => rfl
  | succ count ih => exact (ih ..).trans (applyNext_spec store t s).2.1

theorem move_space (store : Store σ) (t : Tier) (s : σ) (m : Move) : (t.move store s m).1.space = t.space := by
  cases m with
  | put snapshot => exact t.send_space _
  | delete key => exact t.send_space _
  | clear => exact t.send_space _
  | barrier => exact t.send_space _
  | writeNext => exact (applyNext_spec store t s).2.1
  | write =>
    simp only [move, write]
    split
    · exact applyCount_space ..
    · rfl

theorem move_get (hsep : store.Separate) {x : String} (hx : beginsWith t.start x = false) (s : σ) (m : Move) :
    store.get x (t.move store s m).2 = store.get x s := by
  cases m with
  | writeNext =>
    simp only [move, applyNext]
    split
    · rfl
    · exact WriteOp.get_apply hsep hx _ s
  | write =>
    simp only [move, write]
    split
    · show store.get x (applyCount store t.pending.length t s).2 = _
      rw [applyCount_eq_foldl]
      exact WriteOp.get_foldl_apply hsep hx _ s
    · rfl
  | _ => rfl

theorem rehydrateKeys_get (hsep : store.Separate) {start x : String} (hx : beginsWith start x = false) (now : Instant)
    (keys : List String) (hkeys : ∀ key ∈ keys, beginsWith start key = true) (found : Rehydrated) (s : σ) :
    store.get x (rehydrateKeys store now keys found s).2 = store.get x s := by
  induction keys generalizing found s with
  | nil => rfl
  | cons key keys ih =>
    have hne : x ≠ key := by
      rintro rfl
      rw [hkeys x List.mem_cons_self] at hx
      cases hx
    have first : store.get x (rehydrateKey store now key found s).2 = store.get x s := by
      rw [rehydrateKey]
      split
      · rfl
      · rfl
      · split
        · exact hsep.get_delete key x s hne
        · split
          · rfl
          · exact hsep.get_delete key x s hne
    exact (ih (fun key h => hkeys key (List.mem_cons_of_mem _ h)) _ _).trans first

theorem rehydrate_get (hsep : store.Separate) {x : String} (hx : beginsWith t.start x = false) (now : Instant)
    (s : σ) : store.get x (t.rehydrate store now s).2 = store.get x s := by
  rw [rehydrate]
  split
  · rfl
  · rename_i keys hlist
    exact rehydrateKeys_get hsep hx now keys (hsep.beginsWith_of_list _ s keys hlist) _ s

/-- No use of a tier touches what stands under keys of others. -/
theorem uses_get (hsep : store.Separate) {x : String} (us : List Use) (hx : beginsWith t.start x = false) (s : σ) :
    store.get x (uses store us t s).2.2 = store.get x s := by
  induction us generalizing t s with
  | nil => rfl
  | cons u us ih =>
    cases u with
    | move m =>
      have hstart : (t.move store s m).1.start = t.start := congrArg (· ++ ":") (move_space store t s m)
      exact (ih (hstart.symm ▸ hx) _).trans (move_get hsep hx s m)
    | rehydrate now => exact (ih hx _).trans (rehydrate_get hsep hx now s)

/-! ### What is not looked at -/

theorem move_without (store : Store σ) (start : String) (t : Tier) (s : σ) (m : Move) :
    t.move (store.without start) s m = t.move store s m := by
  have hnext : ∀ (t : Tier) s, t.applyNext (store.without start) s = t.applyNext store s := by
    intro t s
    simp only [applyNext, WriteOp.apply_without]
  have hcount : ∀ count (t : Tier) s, applyCount (store.without start) count t s = applyCount store count t s := by
    intro count
    induction count with
    | zero => exact fun _ _ => rfl
    | succ count ih => exact fun t s => by simp only [applyCount, hnext, ih]
  cases m with
  | writeNext => exact hnext t s
  | write => simp only [move, write, applyAll, hcount]
  | _ => rfl

theorem rehydrateKeys_without {start : String} (now : Instant) (keys : List String)
    (hkeys : ∀ key ∈ keys, beginsWith start key = false) (found : Rehydrated) (s : σ) :
    rehydrateKeys (store.without start) now keys found s = rehydrateKeys store now keys found s := by
  induction keys generalizing found s with
  | nil => rfl
  | cons key keys ih =>
    have first : rehydrateKey (store.without start) now key found s = rehydrateKey store now key found s := by
      simp only [rehydrateKey, Store.without_get (hkeys key List.mem_cons_self), store.without_delete]
    simp only [rehydrateKeys, first, ih fun key h => hkeys key (List.mem_cons_of_mem _ h)]

theorem uses_without (hsep : store.Separate) (hapart : Apart t.space other) (us : List Use) (s : σ) :
    uses (store.without (other ++ ":")) us t s = uses store us t s := by
  induction us generalizing t s with
  | nil => rfl
  | cons u us ih =>
    cases u with
    | move m =>
      have hspace := move_space store t s m
      rw [uses, uses, move_without, ih (hspace.symm ▸ hapart)]
    | rehydrate now =>
      have hfound : t.rehydrate (store.without (other ++ ":")) now s = t.rehydrate store now s := by
        simp only [rehydrate, store.without_list]
        split
        · rfl
        · rename_i keys hlist
          exact rehydrateKeys_without now keys
            (fun key hkey => hapart key (hsep.beginsWith_of_list _ s keys hlist key hkey)) _ s
      simp only [uses, hfound, ih hapart]

/-! ### When namespaces are isolated -/

theorem Apart.symm (h : Apart space other) : Apart other space := by
  intro key hother
  cases hspace : beginsWith (space ++ ":") key with
  | false => rfl
  | true => exact hother.symm.trans (h key hspace)

/-- A key belongs to both namespaces only if the one begins with the other, up to the colon. -/
theorem apart_iff : Apart space other ↔
    beginsWith (space ++ ":") (other ++ ":") = false ∧ beginsWith (other ++ ":") (space ++ ":") = false := by
  have hself : ∀ start, beginsWith start start = true :=
    fun start => List.isPrefixOf_iff_prefix.2 (List.prefix_refl _)
  constructor
  · exact fun h => ⟨h.symm _ (hself _), h _ (hself _)⟩
  · rintro ⟨hspace, hother⟩ key hkey
    cases hboth : beginsWith (other ++ ":") key with
    | false => rfl
    | true =>
      rw [beginsWith, List.isPrefixOf_iff_prefix] at hkey hboth
      rcases List.prefix_or_prefix_of_prefix hkey hboth with h | h
      · rw [beginsWith, List.isPrefixOf_iff_prefix.2 h] at hspace
        cases hspace
      · rw [beginsWith, List.isPrefixOf_iff_prefix.2 h] at hother
        cases hother

/-- Of what begins with a name without colons and a colon, that name is what stands before the first colon. -/
private theorem takeWhile_of_beginsWith {space key : String} (hspace : ':' ∉ space.toList)
    (h : beginsWith (space ++ ":") key = true) : key.toList.takeWhile (· != ':') = space.toList := by
  obtain ⟨rest, rfl⟩ := MemoryStore.beginsWith_iff.1 h
  have hall : ∀ c ∈ space.toList, (c != ':') = true := fun c hc => bne_iff_ne.2 fun heq => hspace (heq ▸ hc)
  rw [String.toList_append, String.toList_append, List.append_assoc, List.takeWhile_append_of_pos hall]
  simp

theorem apart_of_no_colon (hspace : ':' ∉ space.toList) (hother : ':' ∉ other.toList) (hne : space ≠ other) :
    Apart space other := by
  intro key hkey
  cases hboth : beginsWith (other ++ ":") key with
  | false => rfl
  | true =>
    have hsame := (takeWhile_of_beginsWith hspace hkey).symm.trans (takeWhile_of_beginsWith hother hboth)
    exact absurd (String.toList_inj.1 hsame) hne

/-- Namespaces are isolated in every store that keeps its records apart exactly if no key belongs to both. -/
theorem isolated_iff_apart (space other : String) :
    (∀ (σ : Type) (store : Store σ), store.Separate → Isolated store space other) ↔ Apart space other := by
  constructor
  · intro hisolated key hkey
    cases hboth : beginsWith (other ++ ":") key with
    | false => rfl
    | true =>
      -- a record that both own is cleared by the one and lost to the other
      obtain ⟨rest, rfl⟩ := MemoryStore.beginsWith_iff.1 hkey
      obtain ⟨own, hown⟩ := MemoryStore.beginsWith_iff.1 hboth
      obtain ⟨m, hm⟩ : ∃ m, MemoryStore.empty.put (space ++ ":" ++ rest) [] = m := ⟨_, rfl⟩
      have hthere : MemoryStore.store.record? (space ++ ":") m rest = some [] := by
        rw [← hm]
        exact MemoryStore.get?_put.trans (if_pos rfl)
      have hsorted : Assoc.Sorted m.records := hm ▸ Assoc.sorted_insert List.Pairwise.nil
      have hcleared : MemoryStore.store.record? (space ++ ":") (WriteOp.clear.apply MemoryStore.store space m) rest =
          none :=
        congrFun (WriteOp.apply_spec (MemoryStore.faultless (space ++ ":")) .clear hsorted).2 rest
      have hkept : MemoryStore.store.get (other ++ ":" ++ own) (WriteOp.clear.apply MemoryStore.store space m) =
          MemoryStore.store.get (other ++ ":" ++ own) m :=
        (hisolated _ _ MemoryStore.separate (ofSpace space) [.move .clear, .move .write] m rfl).1 own
      have hsame : MemoryStore.store.record? (space ++ ":") (WriteOp.clear.apply MemoryStore.store space m) rest =
          MemoryStore.store.record? (space ++ ":") m rest := by
        rw [Store.record?, Store.record?, hown, hkept]
      rw [hcleared, hthere] at hsame
      cases hsame
  · intro hapart σ store hsep t us s hspace
    subst hspace
    refine ⟨fun key => uses_get hsep us ?_ s, uses_without hsep hapart us s⟩
    exact hapart.symm _ (MemoryStore.beginsWith_iff.2 ⟨key, rfl⟩)

/-- A result under the key `k`, and another one under the key `b:k`. -/
private def early : Snapshot :=
  ⟨"k", "/a", .bool true, .epoch, 1000, .high⟩

private def late : Snapshot :=
  ⟨"b:k", "/a", .null, .epoch, 1000, .high⟩

/-- What is put into one of two different namespaces is removed, overwritten and loaded by a tier of the other one. -/
theorem nested_namespace_not_isolated :
    let s := (uses MemoryStore.store [.move (.put early), .move .write] (ofSpace "a:b") .empty).2.2
    let other (us : List Use) := uses MemoryStore.store us (ofSpace "a") s
    "a" ≠ "a:b" ∧ s.get? "a:b:k" = some early.record ∧
      (other [.move .clear, .move .write]).2.2.get? "a:b:k" = none ∧
      (other [.move (.put late), .move .write]).2.2.get? "a:b:k" = some late.record ∧ late.record ≠ early.record ∧
      (other [.rehydrate .epoch]).1.map (·.live.map Snapshot.key) = [["k"]] := by
  decide +kernel

end Tier

end ResultCache
