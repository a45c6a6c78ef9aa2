import ResultCache.Proofs.Durable.Faultless
import ResultCache.Tier

/-!
# What is queued

The settled contents of a store are those it has once everything that is queued is done (`Tier.settle`).  Queueing an
operation does it on the settled contents, and a step of the writer leaves them as they are: however far the writer
is behind, only the order of the queue counts.  What an operation does to the records is its `effect`, and a record
that is not there comes back by nothing but a put (`WriteOp.foldl_effect_eq_none`).
-/

namespace ResultCache

variable {σ : Type} {store : Store σ} {space : String} {good : σ → Prop}

namespace WriteOp

theorem deleteAll_spec (hstore : store.Faultless (space ++ ":") good) (keys : List String) {s : σ} (hs : good s) :
    good (deleteAll store (keys.map (space ++ ":" ++ ·)) s) ∧
      ∀ x, store.record? (space ++ ":") (deleteAll store (keys.map (space ++ ":" ++ ·)) s) x =
        if x ∈ keys then none else store.record? (space ++ ":") s x := by
  induction keys generalizing s with
  | nil => exact ⟨hs, fun x => (if_neg List.not_mem_nil).symm⟩
  | cons key keys ih =>
    have hok := hstore.delete_ok s key hs
    obtain ⟨hgood, hrecord⟩ := ih (hstore.good_delete s key hs)
    rw [List.map_cons, deleteAll]
    split
    · rename_i s' heq
      rw [heq] at hgood hrecord
      refine ⟨hgood, fun x => ?_⟩
      have hdelete := hstore.record?_delete s key x hs
      rw [heq] at hdelete
      rw [hrecord, hdelete]
      by_cases hx : x = key <;> by_cases hmem : x ∈ keys <;> simp [hx, hmem]
    · rename_i heq
      rw [heq] at hok
      cases hok

/-- What an operation does to the records. -/
def effect (records : String → Option Bytes) : WriteOp → String → Option Bytes
  | put key record => fun x => if x = key then some record else records x
  | delete key => fun x => if x = key then none else records x
  | clear => fun _ => none
  | barrier _ => records

theorem apply_spec (hstore : store.Faultless (space ++ ":") good) (op : WriteOp) {s : σ} (hs : good s) :
    good (op.apply store space s) ∧ store.record? (space ++ ":") (op.apply store space s) =
      op.effect (store.record? (space ++ ":") s) := by
  cases op with
  | put key record => exact ⟨hstore.good_put s key record hs, funext fun x => hstore.record?_put s key record x hs⟩
  | delete key => exact ⟨hstore.good_delete s key hs, funext fun x => hstore.record?_delete s key x hs⟩
  | clear =>
    obtain ⟨keys, hlist, -, hkeys⟩ := hstore.list_eq s hs
    obtain ⟨hgood, hrecord⟩ := deleteAll_spec hstore keys hs
    rw [apply, hlist]
    refine ⟨hgood, funext fun x => (hrecord x).trans ?_⟩
    by_cases hx : x ∈ keys
    · exact if_pos hx
    · rw [if_neg hx]
      rw [hkeys, Bool.not_eq_true, Option.isSome_eq_false_iff, Option.isNone_iff_eq_none] at hx
      exact hx
  | barrier ticket => exact ⟨hs, rfl⟩

theorem foldl_apply_spec (hstore : store.Faultless (space ++ ":") good) (ops : List WriteOp) {s : σ} (hs : good s) :
    good (ops.foldl (fun s op => op.apply store space s) s) ∧
      store.record? (space ++ ":") (ops.foldl (fun s op => op.apply store space s) s) =
        ops.foldl effect (store.record? (space ++ ":") s) := by
  induction ops generalizing s with
  | nil => exact ⟨hs, rfl⟩
  | cons op ops ih =>
    obtain ⟨hgood, hrecord⟩ := apply_spec hstore op hs
    rw [List.foldl_cons, List.foldl_cons, ← hrecord]
    exact ih hgood

/-- Whether an operation puts a record under a key. -/
def Puts (key : String) : WriteOp → Prop
  | put k _ => k = key
  | _ => False

/-- A record that is not there is only there again after an operation that puts one. -/
theorem foldl_effect_eq_none {records : String → Option Bytes} {key : String} {ops : List WriteOp}
    (hops : ∀ op ∈ ops, ¬op.Puts key) (h : records key = none) : ops.foldl effect records key = none := by
  induction ops generalizing records with
  | nil => exact h
  | cons op ops ih =>
    refine ih (fun op hop => hops op (List.mem_cons_of_mem _ hop)) ?_
    have hop := hops op List.mem_cons_self
    cases op with
    | put k record => exact (if_neg fun hk => hop hk.symm).trans h
    | delete k =>
      dsimp only [effect]
      split
      · rfl
      · exact h
    | clear => rfl
    | barrier ticket => exact h

/-- A record that is there after some operations was put by one of them, or was there before. -/
theorem put_mem_of_foldl_effect {records : String → Option Bytes} {key : String} {record : Bytes} {ops : List WriteOp}
    (h : ops.foldl effect records key = some record) : put key record ∈ ops ∨ records key = some record := by
  induction ops generalizing records with
  | nil => exact .inr h
  | cons op ops ih =>
    rcases ih h with hmem | hrecord
    · exact .inl (List.mem_cons_of_mem _ hmem)
    · cases op with
      | put k record' =>
        dsimp only [effect] at hrecord
        split at hrecord
        · rename_i hk
          cases hrecord
          exact .inl (hk ▸ List.mem_cons_self)
        · exact .inr hrecord
      | delete k =>
        dsimp only [effect] at hrecord
        split at hrecord
        · cases hrecord
        · exact .inr hrecord
      | clear => cases hrecord
      | barrier ticket => exact .inr hrecord

/-- Where there were fewer records, there are none afterwards that are not there otherwise. -/
theorem foldl_effect_of_fewer {records fewer : String → Option Bytes}
    (h : ∀ key, fewer key = records key ∨ fewer key = none) (ops : List WriteOp) (key : String) :
    ops.foldl effect fewer key = ops.foldl effect records key ∨ ops.foldl effect fewer key = none := by
  induction ops generalizing records fewer with
  | nil => exact h key
  | cons op ops ih =>
    refine ih fun x => ?_
    cases op with
    | put k record =>
      dsimp only [effect]
      split
      · exact .inl rfl
      · exact h x
    | delete k =>
      dsimp only [effect]
      split
      · exact .inl rfl
      · exact h x
    | clear => exact .inl rfl
    | barrier ticket => exact h x

/-- Barriers change no records. -/
theorem foldl_effect_of_barriers {ops : List WriteOp} (hops : ∀ op ∈ ops, ∃ ticket, op = barrier ticket)
    (records : String → Option Bytes) : ops.foldl effect records = records := by
  induction ops generalizing records with
  | nil => rfl
  | cons op ops ih =>
    obtain ⟨ticket, rfl⟩ := hops op List.mem_cons_self
    exact ih (fun op hop => hops op (List.mem_cons_of_mem _ hop)) records

end WriteOp

namespace Tier

/-- The contents of the store once all that is queued is done. -/
def settle (store : Store σ) (t : Tier) (s : σ) : σ :=
  t.pending.foldl (fun s op => op.apply store t.space s) s

/-- The settled records, by the keys of their entries. -/
def settled? (store : Store σ) (t : Tier) (s : σ) : String → Option Bytes :=
  store.record? t.start (t.settle store s)

theorem good_settle {t : Tier} (hstore : store.Faultless t.start good) {s : σ} (hs : good s) :
    good (t.settle store s) :=
  (WriteOp.foldl_apply_spec hstore t.pending hs).1

/-- What is settled is what the queue makes of the records. -/
theorem settled?_eq_foldl {t : Tier} (hstore : store.Faultless t.start good) {s : σ} (hs : good s) :
    t.settled? store s = t.pending.foldl WriteOp.effect (store.record? t.start s) :=
  (WriteOp.foldl_apply_spec hstore t.pending hs).2

/-- What is queued is done last. -/
theorem settled?_send {t : Tier} (hstore : store.Faultless t.start good) (hconnected : t.connected = true)
    (op : WriteOp) {s : σ} (hs : good s) : (t.send op).settled? store s = op.effect (t.settled? store s) := by
  have hsettle : (t.send op).settle store s = op.apply store t.space (t.settle store s) := by
    rw [settle, send, if_pos hconnected]
    exact List.foldl_concat ..
  have hstart : (t.send op).start = t.start := by
    rw [send, if_pos hconnected]
    rfl
  rw [settled?, settled?, hsettle, hstart]
  exact (WriteOp.apply_spec hstore op (good_settle hstore hs)).2

theorem send_connected (t : Tier) (op : WriteOp) : (t.send op).connected = t.connected := by
  rw [send]
  split <;> rfl

theorem send_space (t : Tier) (op : WriteOp) : (t.send op).space = t.space := by
  rw [send]
  split <;> rfl

/-- Queues some operations one after the other. -/
def sendAll (t : Tier) (ops : List WriteOp) : Tier :=
  ops.foldl send t

theorem sendAll_eq {t : Tier} (hconnected : t.connected = true) (ops : List WriteOp) :
    t.sendAll ops = { t with pending := t.pending ++ ops } := by
  rw [sendAll]
  induction ops generalizing t with
  | nil => rw [List.foldl_nil, List.append_nil]
  | cons op ops ih =>
    rw [List.foldl_cons, ih (t := t.send op) ((t.send_connected op).trans hconnected), send, if_pos hconnected]
    dsimp only
    rw [List.append_assoc]
    rfl

/-- Without a writer nothing is queued. -/
theorem sendAll_of_disconnected {t : Tier} (hconnected : t.connected = false) (ops : List WriteOp) :
    t.sendAll ops = t := by
  have hsend (op : WriteOp) : t.send op = t := by
    rw [send, hconnected]
    rfl
  rw [sendAll]
  induction ops with
  | nil => rfl
  | cons op ops ih => rw [List.foldl_cons, hsend, ih]

/-- What is sent stands behind what was queued, if there is a writer; nothing else of the tier changes. -/
theorem sendAll_eq_queued (t : Tier) (ops : List WriteOp) :
    t.sendAll ops = { t with pending := if t.connected then t.pending ++ ops else t.pending } := by
  by_cases hconnected : t.connected = true
  · rw [if_pos hconnected, sendAll_eq hconnected]
  · rw [if_neg hconnected, sendAll_of_disconnected (Bool.eq_false_iff.2 hconnected)]

theorem settled?_sendAll {t : Tier} (hstore : store.Faultless t.start good) (hconnected : t.connected = true)
    (ops : List WriteOp) {s : σ} (hs : good s) :
    (t.sendAll ops).settled? store s = ops.foldl WriteOp.effect (t.settled? store s) := by
  rw [sendAll_eq hconnected, settled?_eq_foldl hstore hs]
  have hstore' : store.Faultless ({ t with pending := t.pending ++ ops } : Tier).start good := hstore
  rw [settled?_eq_foldl hstore' hs]
  exact List.foldl_append

/-- A step of the writer leaves what is settled as it is, and the tier where it is. -/
theorem applyNext_spec (store : Store σ) (t : Tier) (s : σ) :
    (t.applyNext store s).1.settle store (t.applyNext store s).2 = t.settle store s ∧
      (t.applyNext store s).1.space = t.space ∧ (t.applyNext store s).1.connected = t.connected := by
  cases hpending : t.pending with
  | nil =>
    have hsame : t.applyNext store s = (t, s) := by simp only [applyNext, hpending]
    rw [hsame]
    exact ⟨rfl, rfl, rfl⟩
  | cons op rest =>
    obtain ⟨resolved, hnext⟩ : ∃ resolved, t.applyNext store s =
        ({ t with pending := rest, resolved }, op.apply store t.space s) := by
      simp only [applyNext, hpending]
      exact ⟨_, rfl⟩
    rw [hnext, settle, settle, hpending]
    exact ⟨rfl, rfl, rfl⟩

theorem good_applyNext {t : Tier} (hstore : store.Faultless t.start good) {s : σ} (hs : good s) :
    good (t.applyNext store s).2 := by
  rw [applyNext]
  split
  · exact hs
  · exact (WriteOp.apply_spec hstore _ hs).1

/-- The same for any number of steps, at the end of which what was queued first is done. -/
theorem applyCount_spec (count : Nat) {t : Tier} (hstore : store.Faultless t.start good) {s : σ} (hs : good s) :
    (applyCount store count t s).1.settle store (applyCount store count t s).2 = t.settle store s ∧
      (applyCount store count t s).1.space = t.space ∧ (applyCount store count t s).1.connected = t.connected ∧
      (applyCount store count t s).1.pending = t.pending.drop count ∧ good (applyCount store count t s).2 := by
  induction count generalizing t s with
  | zero => exact ⟨rfl, rfl, rfl, rfl, hs⟩
  | succ count ih =>
    obtain ⟨hsettle, hspace, hconnected⟩ := applyNext_spec store t s
    have hstart : (t.applyNext store s).1.start = t.start := congrArg (· ++ ":") hspace
    have hpending : (t.applyNext store s).1.pending = t.pending.drop 1 := by
      rw [applyNext]
      split
      · rename_i hnil
        rw [hnil]
        rfl
      · rename_i hcons
        rw [hcons]
        rfl
    obtain ⟨h1, h2, h3, h4, h5⟩ := ih (t := (t.applyNext store s).1) (hstart ▸ hstore) (good_applyNext hstore hs)
    rw [applyCount]
    refine ⟨h1.trans hsettle, h2.trans hspace, h3.trans hconnected, ?_, h5⟩
    rw [h4, hpending, List.drop_drop, Nat.add_comm]

/-- Some steps do what was queued first. -/
theorem applyCount_eq_foldl (store : Store σ) (count : Nat) (t : Tier) (s : σ) :
    (applyCount store count t s).2 = (t.pending.take count).foldl (fun s op => op.apply store t.space s) s := by
  induction count generalizing t s with
  | zero => rfl
  | succ count ih =>
    rw [applyCount, ih, applyNext]
    split
    · rename_i hnil
      simp only [hnil, List.take_nil]
    · rename_i hcons
      simp only [hcons, List.take_succ_cons, List.foldl_cons]

/-- Once all that is queued is done, the store has its settled contents. -/
theorem applyAll_eq_settle {t : Tier} (hstore : store.Faultless t.start good) {s : σ} (hs : good s) :
    (t.applyAll store s).2.2 = t.settle store s := by
  obtain ⟨hsettle, -, -, hpending, -⟩ := applyCount_spec t.pending.length hstore hs
  rw [List.drop_length] at hpending
  rw [settle, hpending] at hsettle
  exact hsettle

end Tier

end ResultCache
