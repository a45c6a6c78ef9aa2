import Mathlib.Data.List.Nodup
import Mathlib.Data.List.Range
import ResultCache.Proofs.Durable.Queue
import ResultCache.Proofs.Durable.Separation

/-!
# The order of what is written

Whatever is issued to a tier and however far its writer has come, the issued operations are those that are done and
those that are queued, in one order, and the store is what the done ones make of it (`Tier.History`).  A barrier is
reached as soon as the writer has done all operations before it and takes it up.  What the operations make of one record
is decided by the last of them that touches its key (`WriteOp.foldl_effect_eq_some_iff`).
-/

namespace ResultCache

variable {σ : Type} {store : Store σ} {space : String} {good : σ → Prop}

namespace WriteOp

/-- The ticket of a barrier. -/
def ticket? : WriteOp → Option Nat
  | barrier ticket => some ticket
  | _ => none

/-- Whether an operation decides on the record of a key. -/
def Touches (key : String) : WriteOp → Prop
  | put k _ => k = key
  | delete k => k = key
  | clear => True
  | barrier _ => False

/-- The last operation of some that touches a key puts a record. -/
def LastPut (ops : List WriteOp) (key : String) (record : Bytes) : Prop :=
  ∃ before after, ops = before ++ put key record :: after ∧ ∀ op ∈ after, ¬op.Touches key

theorem effect_of_not_touches {key : String} {op : WriteOp} (h : ¬op.Touches key) (records : String → Option Bytes) :
    op.effect records key = records key := by
  cases op with
  | put k record => exact if_neg (Ne.symm h)
  | delete k => exact if_neg (Ne.symm h)
  | clear => exact absurd trivial h
  | barrier ticket => rfl

/-- A record that is there after an operation that touches its key was put by it. -/
theorem eq_put_of_effect {key : String} {op : WriteOp} (h : op.Touches key) {records : String → Option Bytes}
    {record : Bytes} : op.effect records key = some record ↔ op = put key record := by
  cases op with
  | put k r =>
    obtain rfl : k = key := h
    simp [effect]
  | delete k =>
    obtain rfl : k = key := h
    simp [effect]
  | clear => simp [effect]
  | barrier ticket => exact h.elim

/-- After some operations a record is there if the last of them that touches its key put it, or if it was there and none
touches it. -/
theorem foldl_effect_eq_some_iff {ops : List WriteOp} {records : String → Option Bytes} {key : String}
    {record : Bytes} : ops.foldl effect records key = some record ↔
      LastPut ops key record ∨ records key = some record ∧ ∀ op ∈ ops, ¬op.Touches key := by
  induction ops using List.reverseRecOn with
  | nil => simp [LastPut]
  | append_singleton ops op ih =>
    rw [List.foldl_concat]
    by_cases htouches : op.Touches key
    · rw [eq_put_of_effect htouches]
      constructor
      · rintro rfl
        exact .inl ⟨ops, [], rfl, by simp⟩
      · rintro (⟨before, after, heq, hafter⟩ | ⟨-, huntouched⟩)
        · rcases List.eq_nil_or_concat after with rfl | ⟨after', last, rfl⟩
          · exact List.singleton_inj.1 (List.append_inj' heq rfl).2
          · rw [List.concat_eq_append, ← List.cons_append, ← List.append_assoc] at heq
            obtain rfl := List.singleton_inj.1 (List.append_inj' heq rfl).2
            exact absurd htouches (hafter op (by simp))
        · exact absurd htouches (huntouched op (by simp))
    · rw [effect_of_not_touches htouches, ih]
      refine or_congr ⟨?_, ?_⟩ (and_congr_right fun _ => ?_)
      · rintro ⟨before, after, rfl, hafter⟩
        refine ⟨before, after ++ [op], by simp, fun op' hop' => ?_⟩
        rcases List.mem_append.1 hop' with hop' | hop'
        · exact hafter op' hop'
        · exact List.mem_singleton.1 hop' ▸ htouches
      · rintro ⟨before, after, heq, hafter⟩
        rcases List.eq_nil_or_concat after with rfl | ⟨after', last, rfl⟩
        · exact absurd (List.singleton_inj.1 (List.append_inj' heq rfl).2 ▸ rfl) htouches
        · rw [List.concat_eq_append, ← List.cons_append, ← List.append_assoc] at heq
          exact ⟨before, after', (List.append_inj' heq rfl).1, fun op' hop' => hafter op' (by simp [hop'])⟩
      · simp [or_imp, forall_and, htouches]

/-! ### Other namespaces -/

theorem get_deleteAll (hsep : store.Separate) {start x : String} (hx : beginsWith start x = false) (keys : List String)
    (hkeys : ∀ key ∈ keys, beginsWith start key = true) (s : σ) :
    store.get x (deleteAll store keys s) = store.get x s := by
  induction keys generalizing s with
  | nil => rfl
  | cons key keys ih =>
    have hne : x ≠ key := by
      rintro rfl
      rw [hkeys x List.mem_cons_self] at hx
      cases hx
    have hdelete := hsep.get_delete key x s hne
    rw [deleteAll]
    split
    · rename_i s' heq
      rw [heq] at hdelete
      exact (ih (fun key h => hkeys key (List.mem_cons_of_mem _ h)) s').trans hdelete
    · rename_i s' heq
      rw [heq] at hdelete
      exact hdelete

/-- An operation leaves what stands under keys that do not begin with the namespace. -/
theorem get_apply (hsep : store.Separate) {x : String} (hx : beginsWith (space ++ ":") x = false) (op : WriteOp)
    (s : σ) : store.get x (op.apply store space s) = store.get x s := by
  have hne : ∀ key, x ≠ space ++ ":" ++ key := by
    rintro key rfl
    rw [MemoryStore.beginsWith_iff.2 ⟨key, rfl⟩] at hx
    cases hx
  cases op with
  | put key record => exact hsep.get_put _ x record s (hne key)
  | delete key => exact hsep.get_delete _ x s (hne key)
  | clear =>
    rw [apply]
    split
    · rfl
    · rename_i keys hlist
      exact get_deleteAll hsep hx keys (hsep.beginsWith_of_list _ s keys hlist) s
  | barrier ticket => rfl

theorem get_foldl_apply (hsep : store.Separate) {x : String} (hx : beginsWith (space ++ ":") x = false)
    (ops : List WriteOp) (s : σ) :
    store.get x (ops.foldl (fun s op => op.apply store space s) s) = store.get x s := by
  induction ops generalizing s with
  | nil => rfl
  | cons op ops ih => exact (ih _).trans (get_apply hsep hx op s)

end WriteOp

namespace Tier

/-! ### Moves -/

/-- What may happen to a tier that has its writer: something is queued, or the writer is at work. -/
inductive Move where
  | put (s : Snapshot)
  | delete (key : String)
  | clear
  | barrier
  /-- The writer does the first operation that is queued. -/
  | writeNext
  /-- The writer does all that is queued. -/
  | write

/-- The operation that a move issues. -/
def issued? (t : Tier) : Move → Option WriteOp
  | .put s => some (.put s.key s.record)
  | .delete key => some (.delete key)
  | .clear => some .clear
  | .barrier => some (.barrier t.tickets)
  | _ => none

/-- The tier and the contents of its store after a move. -/
def move (store : Store σ) (t : Tier) (s : σ) : Move → Tier × σ
  | .put snapshot => (t.put snapshot, s)
  | .delete key => (t.delete key, s)
  | .clear => (t.clear, s)
  | .barrier => (t.barrier.2, s)
  | .writeNext => t.applyNext store s
  | .write => (t.write store s).2

/-- The tier and the contents of its store after some moves, with all that the moves issue. -/
def moves (store : Store σ) : List Move → Tier → σ → List WriteOp × Tier × σ
  | [], t, s => ([], t, s)
  | m :: ms, t, s =>
    let (issued, after) := moves store ms (t.move store s m).1 (t.move store s m).2
    ((t.issued? m).toList ++ issued, after)

/-- What was issued to a tier, of which the first part is done and the rest is queued: the store is what the done
operations have made of it, and the barriers that are reached are the done ones.  Each barrier has its own ticket. -/
structure History (store : Store σ) (space : String) (s₀ : σ) (issued applied : List WriteOp) (t : Tier) (s : σ) :
    Prop where
  space_eq : t.space = space
  connected : t.connected = true
  issued_eq : issued = applied ++ t.pending
  contents_eq : s = applied.foldl (fun s op => op.apply store space s) s₀
  resolved_iff : ∀ ticket, t.isResolved ticket = true ↔ .barrier ticket ∈ applied
  tickets_eq : issued.filterMap WriteOp.ticket? = List.range t.tickets

namespace History

variable {s₀ s : σ} {issued applied : List WriteOp} {t : Tier}

theorem start (store : Store σ) (space : String) (s₀ : σ) : History store space s₀ [] [] (ofSpace space) s₀ :=
  ⟨rfl, rfl, rfl, rfl, fun ticket => by simp [isResolved, ofSpace], rfl⟩

/-- Something other than a barrier is issued. -/
theorem send (h : History store space s₀ issued applied t s) {op : WriteOp} (hop : op.ticket? = none) :
    History store space s₀ (issued ++ [op]) applied (t.send op) s := by
  have hsend : t.send op = { t with pending := t.pending ++ [op] } := if_pos h.connected
  rw [hsend]
  refine ⟨h.space_eq, h.connected, ?_, h.contents_eq, h.resolved_iff, ?_⟩
  · rw [h.issued_eq, List.append_assoc]
  · rw [List.filterMap_append, h.tickets_eq, List.filterMap_cons_none hop, List.filterMap_nil, List.append_nil]

theorem barrier (h : History store space s₀ issued applied t s) :
    History store space s₀ (issued ++ [.barrier t.tickets]) applied t.barrier.2 s := by
  have hsend : t.send (.barrier t.tickets) = { t with pending := t.pending ++ [.barrier t.tickets] } :=
    if_pos h.connected
  rw [Tier.barrier, hsend]
  refine ⟨h.space_eq, h.connected, ?_, h.contents_eq, h.resolved_iff, ?_⟩
  · rw [h.issued_eq, List.append_assoc]
  · rw [List.filterMap_append, h.tickets_eq, List.range_succ]
    rfl

theorem writeNext (h : History store space s₀ issued applied t s) :
    ∃ applied', History store space s₀ issued applied' (t.applyNext store s).1 (t.applyNext store s).2 ∧
      (t.applyNext store s).1.pending = t.pending.drop 1 := by
  cases hpending : t.pending with
  | nil =>
    have hsame : t.applyNext store s = (t, s) := by simp only [applyNext, hpending]
    rw [hsame]
    exact ⟨applied, h, hpending⟩
  | cons op rest =>
    -- the operation goes from the queue to those that are done
    refine ⟨applied ++ [op], ?_, by simp only [applyNext, hpending, List.drop_succ_cons, List.drop_zero]⟩
    have hissued : issued = applied ++ [op] ++ rest := by
      rw [h.issued_eq, hpending, List.append_assoc]
      rfl
    have hcontents : op.apply store t.space s = (applied ++ [op]).foldl (fun s op => op.apply store space s) s₀ := by
      rw [List.foldl_concat, ← h.contents_eq, h.space_eq]
    have hresolved : ∀ ticket, (t.applyNext store s).1.isResolved ticket = true ↔
        .barrier ticket ∈ applied ++ [op] := by
      intro ticket
      have hbefore := h.resolved_iff ticket
      simp only [isResolved, List.contains_iff_mem] at hbefore ⊢
      cases op with
      | barrier n => simp [applyNext, hpending, hbefore, or_comm]
      | _ => simp [applyNext, hpending, hbefore]
    refine ⟨?_, ?_, ?_, ?_, hresolved, ?_⟩ <;> simp only [applyNext, hpending]
    · exact h.space_eq
    · exact h.connected
    · exact hissued
    · exact hcontents
    · exact h.tickets_eq

theorem writeCount (h : History store space s₀ issued applied t s) (count : Nat) :
    ∃ applied', History store space s₀ issued applied' (applyCount store count t s).1 (applyCount store count t s).2 ∧
      (applyCount store count t s).1.pending = t.pending.drop count := by
  induction count generalizing applied t s with
  | zero => exact ⟨applied, h, rfl⟩
  | succ count ih =>
    obtain ⟨_, h', hpending⟩ := h.writeNext
    obtain ⟨applied', h'', hpending'⟩ := ih h'
    exact ⟨applied', h'', by rw [applyCount, hpending', hpending, List.drop_drop, Nat.add_comm]⟩

/-- Once the writer has done all that is queued, all that was issued is done. -/
theorem write (h : History store space s₀ issued applied t s) :
    History store space s₀ issued issued (t.write store s).2.1 (t.write store s).2.2 ∧
      (t.write store s).2.1.pending = [] := by
  have hwrite : (t.write store s).2 = applyCount store t.pending.length t s := by
    rw [Tier.write, if_pos h.connected]
    rfl
  obtain ⟨applied', h', hpending⟩ := h.writeCount t.pending.length
  rw [List.drop_length] at hpending
  have hall : applied' = issued := by rw [h'.issued_eq, hpending, List.append_nil]
  rw [hwrite]
  exact ⟨hall ▸ h', hpending⟩

/-- A move adds what it issues to the history. -/
theorem move (h : History store space s₀ issued applied t s) (m : Move) :
    ∃ applied', History store space s₀ (issued ++ (t.issued? m).toList) applied' (t.move store s m).1
      (t.move store s m).2 := by
  have same : issued ++ ([] : List WriteOp) = issued := List.append_nil _
  cases m with
  | put snapshot => exact ⟨applied, h.send rfl⟩
  | delete key => exact ⟨applied, h.send rfl⟩
  | clear => exact ⟨applied, h.send rfl⟩
  | barrier => exact ⟨applied, h.barrier⟩
  | writeNext =>
    obtain ⟨applied', h', -⟩ := h.writeNext
    exact ⟨applied', same.symm ▸ h'⟩
  | write => exact ⟨issued, same.symm ▸ h.write.1⟩

theorem moves (h : History store space s₀ issued applied t s) (ms : List Move) :
    ∃ applied', History store space s₀ (issued ++ (moves store ms t s).1) applied' (moves store ms t s).2.1
      (moves store ms t s).2.2 := by
  induction ms generalizing issued applied t s with
  | nil => exact ⟨applied, (List.append_nil issued).symm ▸ h⟩
  | cons m ms ih =>
    obtain ⟨_, h'⟩ := h.move m
    obtain ⟨applied', h''⟩ := ih h'
    rw [List.append_assoc] at h''
    exact ⟨applied', h''⟩

/-- A barrier was issued once. -/
theorem not_mem_of_split (h : History store space s₀ issued applied t s) {before after : List WriteOp} {ticket : Nat}
    (hissued : issued = before ++ .barrier ticket :: after) :
    .barrier ticket ∉ before ∧ .barrier ticket ∉ after := by
  have hnodup : (issued.filterMap WriteOp.ticket?).Nodup := h.tickets_eq ▸ List.nodup_range
  rw [hissued, List.filterMap_append, List.filterMap_cons_some (show (WriteOp.barrier ticket).ticket? = some ticket
    from rfl), List.nodup_middle, List.nodup_cons, ← List.filterMap_append] at hnodup
  have hmem : ∀ op ∈ before ++ after, op ≠ .barrier ticket := by
    rintro op hop rfl
    exact hnodup.1 (List.mem_filterMap.2 ⟨_, hop, rfl⟩)
  exact ⟨fun hb => hmem _ (List.mem_append_left _ hb) rfl, fun ha => hmem _ (List.mem_append_right _ ha) rfl⟩

/-- A barrier is reached exactly if it is done with all that was issued before it. -/
theorem isResolved_iff (h : History store space s₀ issued applied t s) {before after : List WriteOp} {ticket : Nat}
    (hissued : issued = before ++ .barrier ticket :: after) :
    t.isResolved ticket = true ↔ before ++ [.barrier ticket] <+: applied := by
  rw [h.resolved_iff]
  constructor
  · intro hmem
    obtain ⟨first, others, happlied⟩ := List.append_of_mem hmem
    have hsplit : issued = first ++ .barrier ticket :: (others ++ t.pending) := by
      rw [h.issued_eq, happlied, List.append_assoc, List.cons_append]
    obtain ⟨hfirst, hothers⟩ := h.not_mem_of_split hsplit
    obtain ⟨rfl, -⟩ := (List.append_cons_inj_of_notMem hfirst hothers).1 (hsplit.symm.trans hissued)
    exact ⟨others, by rw [happlied, List.append_assoc, List.singleton_append]⟩
  · rintro ⟨rest, rfl⟩
    simp

/-- If all that was issued before a barrier is done and the barrier is not reached, then it is what the writer does
next. -/
theorem pending_eq_of_not_isResolved (h : History store space s₀ issued applied t s) {before after : List WriteOp}
    {ticket : Nat} (hissued : issued = before ++ .barrier ticket :: after) (hdone : before <+: applied)
    (hnot : t.isResolved ticket = false) :
    t.pending = .barrier ticket :: after ∧ (t.applyNext store s).1.isResolved ticket = true := by
  obtain ⟨rest, rfl⟩ := hdone
  have htail : rest ++ t.pending = .barrier ticket :: after := by
    have := h.issued_eq.symm.trans hissued
    rw [List.append_assoc] at this
    exact List.append_cancel_left this
  have hpending : t.pending = .barrier ticket :: after := by
    cases rest with
    | nil => exact htail
    | cons op rest =>
      have hop : op = .barrier ticket := (List.cons.inj htail).1
      have hreached := (h.resolved_iff ticket).2 (by simp [hop])
      rw [hnot] at hreached
      cases hreached
  exact ⟨hpending, by simp [isResolved, applyNext, hpending]⟩

end History

/-- Whatever is issued to a tier over a faultless store, and wherever the work of its writer falls in between, the store
is what the operations that are done make of its first contents, and these are the first of those issued, in their
order.  A barrier is reached exactly if it is done with all that was issued before it; once these are done it is reached
or is what the writer does next.  A key of the namespace holds what the last done operation that touches it put, or what
it held at first if none touches it; other keys hold what they held at first.  When nothing is queued, all that was
issued is done, and that is so after the writer did all. -/
theorem moves_keep_order (hstore : store.Faultless (space ++ ":") good) (hsep : store.Separate) {s₀ : σ}
    (hgood : good s₀) (ms : List Move) :
    let issued := (moves store ms (ofSpace space) s₀).1
    let t := (moves store ms (ofSpace space) s₀).2.1
    let s := (moves store ms (ofSpace space) s₀).2.2
    ∃ applied, issued = applied ++ t.pending ∧ s = applied.foldl (fun s op => op.apply store space s) s₀ ∧
      (∀ before ticket after, issued = before ++ .barrier ticket :: after →
        (t.isResolved ticket = true ↔ before ++ [.barrier ticket] <+: applied) ∧
          (before <+: applied → t.isResolved ticket = true ∨ (t.applyNext store s).1.isResolved ticket = true)) ∧
      (∀ key record, store.get (space ++ ":" ++ key) s = .ok (some record) ↔
        WriteOp.LastPut applied key record ∨
          store.get (space ++ ":" ++ key) s₀ = .ok (some record) ∧ ∀ op ∈ applied, ¬op.Touches key) ∧
      (∀ x, beginsWith (space ++ ":") x = false → store.get x s = store.get x s₀) ∧
      (t.pending = [] → applied = issued) ∧ (t.write store s).2.1.pending = [] := by
  intro issued t s
  obtain ⟨applied, h⟩ := (History.start store space s₀).moves ms
  rw [List.nil_append] at h
  have h : History store space s₀ issued applied t s := h
  obtain ⟨hgood', hrecords⟩ := WriteOp.foldl_apply_spec hstore applied hgood
  rw [← h.contents_eq] at hgood' hrecords
  refine ⟨applied, h.issued_eq, h.contents_eq, fun before ticket after hissued => ⟨h.isResolved_iff hissued, ?_⟩,
    fun key record => ?_, fun x hx => ?_, fun hdrained => ?_, h.write.2⟩
  · intro hdone
    cases hnot : t.isResolved ticket with
    | true => exact .inl rfl
    | false => exact .inr (h.pending_eq_of_not_isResolved hissued hdone hnot).2
  · rw [hstore.get_eq s key hgood', hstore.get_eq s₀ key hgood, Except.ok.injEq, Except.ok.injEq, hrecords]
    exact WriteOp.foldl_effect_eq_some_iff
  · rw [h.contents_eq]
    exact WriteOp.get_foldl_apply hsep hx applied s₀
  · rw [h.issued_eq, hdrained, List.append_nil]

/-- A record of another namespace, whose name begins alike, and one of this namespace. -/
private def neighbours : MemoryStore :=
  (MemoryStore.empty.put "ab:k" [1]).put "a:old" [2]

/-- A record is put, a barrier is queued behind it and taken up, and a removal and another barrier wait. -/
private def interleaved : List Move :=
  [.put ⟨"k", "/a", .null, .epoch, 1000, .high⟩, .barrier, .writeNext, .delete "k", .writeNext, .barrier]

theorem moves_keep_order_interleaved :
    let t := (moves MemoryStore.store interleaved (ofSpace "a") neighbours).2.1
    let s := (moves MemoryStore.store interleaved (ofSpace "a") neighbours).2.2
    t.isResolved 0 = true ∧ t.isResolved 1 = false ∧ t.pending.length = 2 ∧
      MemoryStore.store.get "ab:k" s = MemoryStore.store.get "ab:k" neighbours ∧
      (t.write MemoryStore.store s).2.1.pending = [] := by
  intro t s
  have hsorted : Assoc.Sorted neighbours.records := Assoc.sorted_insert (Assoc.sorted_insert List.Pairwise.nil)
  obtain ⟨_, -, -, -, -, hother, -, hdrained⟩ :=
    moves_keep_order (MemoryStore.faultless ("a" ++ ":")) MemoryStore.separate hsorted interleaved
  exact ⟨by decide +kernel, by decide +kernel, by decide +kernel, hother "ab:k" (by decide +kernel), hdrained⟩

end Tier

end ResultCache
