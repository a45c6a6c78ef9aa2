import ResultCache.Proofs.Durable.Separation
import ResultCache.Store.Memory

/-!
# A directory answers as a store in memory

Without a limit on names a directory keeps the records of a store in memory in files of their own
(`Directory.Mirrors`), beside files of others, as long as these have no names of records or temporary files
(`Directory.Reserved`).  Every call keeps to that, and is answered in both in the same way, also after the directory is
opened again and after a put that ended between its two halves (`Directory.answers_eq_memory`).
-/

namespace ResultCache

/-- What is removed may as well have been put in before. -/
theorem Assoc.erase_insert {α : Type} (key : String) (value : α) (l : List (String × α)) :
    erase key (insert key value l) = erase key l := by
  induction l with
  | nil => simp [insert, erase]
  | cons p rest ih =>
    obtain ⟨k, v⟩ := p
    rw [erase, erase] at ih
    rw [insert]
    split
    · rename_i hk
      simp [erase, hk]
    · split
      · simp [erase]
      · rw [erase, erase, List.filter_cons, List.filter_cons, ih]

/-! ### Names -/

namespace Text

theorem byteLength_append (a b : String) : byteLength (a ++ b) = byteLength a + byteLength b := by
  simp [byteLength, utf8]

theorem eq_of_splitLast? {sep : Char} {cs a b : List Char} (h : splitLast? sep cs = some (a, b)) :
    cs = a ++ sep :: b := by
  induction cs generalizing a b with
  | nil => cases h
  | cons c cs ih =>
    rw [splitLast?] at h
    cases hrest : splitLast? sep cs with
    | none =>
      rw [hrest] at h
      by_cases hc : c = sep
      · simp_all
      · simp [hc] at h
    | some ab =>
      obtain ⟨a', b'⟩ := ab
      rw [hrest] at h
      cases h
      rw [ih hrest]
      rfl

/-- What can be read as bytes is an even number of digits. -/
theorem digits_of_hexDecode? {cs : List Char} {bs : Bytes} (h : hexDecode? cs = some bs) :
    cs.length % 2 = 0 ∧ (cs.all fun c => (hexValue? c).isSome) = true := by
  induction cs using hexDecode?.induct generalizing bs with
  | case1 => exact ⟨rfl, rfl⟩
  | case2 => cases h
  | case3 hi lo cs ih =>
    rw [hexDecode?] at h
    obtain ⟨a, ha, h⟩ := Option.bind_eq_some_iff.1 h
    obtain ⟨b, hb, h⟩ := Option.bind_eq_some_iff.1 h
    obtain ⟨rest, hrest, -⟩ := Option.bind_eq_some_iff.1 h
    obtain ⟨heven, hdigits⟩ := ih hrest
    refine ⟨by rw [List.length_cons, List.length_cons]; omega, ?_⟩
    rw [List.all_cons, List.all_cons, ha, hb, hdigits]
    rfl

end Text

namespace Directory

/-- The names that a store makes and reads: an even number of digits of either case with one of its two endings. -/
def Reserved (name : String) : Prop :=
  ∃ digits : List Char, digits.length % 2 = 0 ∧ (digits.all fun c => (Text.hexValue? c).isSome) = true ∧
    (name = String.ofList digits ++ ".rec" ∨ name = String.ofList digits ++ ".tmp")

/-- The digits of a reserved name are all but its last four characters. -/
theorem reserved_iff {name : String} :
    let digits := name.toList.take (name.toList.length - 4)
    (digits.length % 2 = 0 ∧ (digits.all fun c => (Text.hexValue? c).isSome) = true ∧
        (name = String.ofList digits ++ ".rec" ∨ name = String.ofList digits ++ ".tmp")) ↔ Reserved name := by
  refine ⟨fun h => ⟨_, h⟩, ?_⟩
  rintro ⟨digits, heven, hdigits, hname⟩
  have htake : name.toList.take (name.toList.length - 4) = digits := by
    rcases hname with rfl | rfl <;> simp
  rw [htake]
  exact ⟨heven, hdigits, hname⟩

instance (name : String) : Decidable (Reserved name) :=
  decidable_of_iff _ reserved_iff

/-- The names of the files of a key. -/
def IsOwn (name : String) : Prop :=
  ∃ key, key ≠ "" ∧ (name = recordName key ∨ name = temporaryName key)

variable {key name : String}

theorem temporaryName_of_ne (hkey : key ≠ "") : temporaryName key = stem key ++ ".tmp" :=
  if_neg (by simpa using hkey)

theorem IsOwn.reserved (h : IsOwn name) : Reserved name := by
  obtain ⟨key, hkey, hname⟩ := h
  rw [temporaryName_of_ne hkey] at hname
  obtain ⟨heven, hdigits⟩ := Text.digits_of_hexDecode? (Text.hexDecode?_hexEncode (Text.utf8 key))
  exact ⟨_, heven, hdigits, hname⟩

/-- The key of a record is read back from its name. -/
theorem keyOfName?_recordName (hkey : key ≠ "") : keyOfName? (recordName key) = some key := by
  have hname : (recordName key).toList = Text.hexEncode (Text.utf8 key) ++ '.' :: ['r', 'e', 'c'] := by
    rw [recordName, String.toList_append, stem, String.toList_ofList]
    rfl
  have hdigits : (Text.hexEncode (Text.utf8 key)).isEmpty = false := by
    rw [List.isEmpty_eq_false_iff]
    intro hnil
    have hbytes := Text.hexDecode?_hexEncode (Text.utf8 key)
    rw [hnil] at hbytes
    exact hkey (Text.utf8_injective (Option.some.inj hbytes).symm)
  rw [keyOfName?, hname, Text.splitLast?_append (by decide)]
  simp [hdigits, Text.hexDecode?_hexEncode]

/-- A temporary file is not read as a record. -/
theorem keyOfName?_temporaryName (key : String) : keyOfName? (temporaryName key) = none := by
  by_cases hkey : key = ""
  · rw [hkey]
    decide
  · have hname : (temporaryName key).toList = (stem key).toList ++ '.' :: ['t', 'm', 'p'] := by
      rw [temporaryName_of_ne hkey, String.toList_append]
      rfl
    rw [keyOfName?, hname, Text.splitLast?_append (by decide)]
    simp

theorem reserved_of_keyOfName? (h : keyOfName? name = some key) : Reserved name := by
  rw [keyOfName?] at h
  cases hsplit : Text.splitLast? '.' name.toList with
  | none => simp [hsplit] at h
  | some parts =>
    obtain ⟨digits, ending⟩ := parts
    simp only [hsplit] at h
    split at h
    · cases h
    · rename_i hending
      simp only [Bool.or_eq_true, bne_iff_ne, ne_eq, not_or, not_not] at hending
      obtain ⟨bs, hbs, -⟩ := Option.bind_eq_some_iff.1 h
      obtain ⟨heven, hdigits⟩ := Text.digits_of_hexDecode? hbs
      refine ⟨digits, heven, hdigits, .inl ?_⟩
      rw [← String.toList_inj, Text.eq_of_splitLast? hsplit, hending.2, String.toList_append, String.toList_ofList]
      rfl

/-! ### The halves of a put -/

/-- The first half of a put: the record is written to its temporary file. -/
def writeTemporary (key : String) (record : Bytes) (d : Directory) : Except StoreError Unit × Directory :=
  match d.place with
  | .folder nodes =>
    if !d.allows (temporaryName key) then (.error .unavailable, d)
    else
      match nodes.lookup (temporaryName key) with
      | some .folder => (.error .unavailable, d)
      | _ => (.ok (), { d with place := .folder (Assoc.insert (temporaryName key) (.file record) nodes) })
  | _ => (.error .unavailable, d)

/-- The second half of a put: the temporary file takes the place of the record. -/
def renameTemporary (key : String) (d : Directory) : Except StoreError Unit × Directory :=
  match d.place with
  | .folder nodes =>
    match nodes.lookup (temporaryName key), nodes.lookup (recordName key) with
    | some (.file _), some .folder => (.error .unavailable, d)
    | some (.file record), _ =>
      (.ok (), { d with
        place := .folder (Assoc.insert (recordName key) (.file record) (Assoc.erase (temporaryName key) nodes)) })
    | _, _ => (.error .unavailable, d)
  | _ => (.error .unavailable, d)

/-- The name of a record is not longer than that of its temporary file. -/
theorem byteLength_recordName_le (key : String) :
    Text.byteLength (recordName key) ≤ Text.byteLength (temporaryName key) := by
  rw [temporaryName]
  split
  · rename_i hkey
    rw [String.isEmpty_iff.1 hkey]
    decide
  · rw [recordName, Text.byteLength_append, Text.byteLength_append]
    exact Nat.le_refl _

/-- The temporary file that was written takes the place of the record unless a folder is there. -/
theorem renameTemporary_written (key : String) (record : Bytes) (nodes : List (String × Node))
    (nameLimit : Option Nat) :
    renameTemporary key ⟨.folder (Assoc.insert (temporaryName key) (.file record) nodes), nameLimit⟩ =
      match nodes.lookup (recordName key) with
      | some .folder =>
        (.error .unavailable, ⟨.folder (Assoc.insert (temporaryName key) (.file record) nodes), nameLimit⟩)
      | _ =>
        (.ok (), ⟨.folder (Assoc.insert (recordName key) (.file record) (Assoc.erase (temporaryName key) nodes)),
          nameLimit⟩) := by
  have hrecord : (Assoc.insert (temporaryName key) (.file record) nodes).lookup (recordName key) =
      nodes.lookup (recordName key) := Assoc.lookup_insert.trans (if_neg (recordName_ne_temporaryName key key))
  have htemporary : (Assoc.insert (temporaryName key) (.file record) nodes).lookup (temporaryName key) =
      some (.file record) := Assoc.lookup_insert.trans (if_pos rfl)
  simp only [renameTemporary, hrecord, htemporary, Assoc.erase_insert]
  cases nodes.lookup (recordName key) with
  | none => rfl
  | some node => cases node <;> rfl

/-- A put is its two halves one after the other. -/
theorem put_eq_halves (key : String) (record : Bytes) (d : Directory) :
    put key record d =
      match writeTemporary key record d with
      | (.ok (), d) => renameTemporary key d
      | (.error e, d) => (.error e, d) := by
  obtain ⟨place, nameLimit⟩ := d
  cases place with
  | missing => rfl
  | occupied => rfl
  | folder nodes =>
    have hallows : Directory.allows ⟨.folder nodes, nameLimit⟩ (temporaryName key) = true →
        Directory.allows ⟨.folder nodes, nameLimit⟩ (recordName key) = true := by
      cases nameLimit with
      | none => exact id
      | some limit =>
        simp only [allows, decide_eq_true_eq]
        exact Nat.le_trans (byteLength_recordName_le key)
    simp only [put, writeTemporary]
    cases htemporary : Directory.allows ⟨.folder nodes, nameLimit⟩ (temporaryName key) with
    | false => rfl
    | true =>
      simp only [hallows htemporary, Bool.and_self, Bool.not_true, Bool.false_eq_true, if_false]
      -- unless a folder is in the way, what is renamed was just written
      cases hrecord : nodes.lookup (recordName key) with
      | none =>
        rcases nodes.lookup (temporaryName key) with - | content | - <;> simp only [renameTemporary_written, hrecord]
      | some node =>
        rcases nodes.lookup (temporaryName key) with - | content | - <;> cases node <;>
          simp only [renameTemporary_written, hrecord]

end Directory

/-! ### Use of a store -/

/-- What is done with a store. -/
inductive StoreEvent where
  | put (key : String) (record : Bytes)
  | get (key : String)
  | delete (key : String)
  | list (start : String)
  /-- The store is left and opened again. -/
  | reopen
  /-- A put ends before its second half. -/
  | interruptedPut (key : String) (record : Bytes)

/-- What comes of it. -/
inductive StoreAnswer where
  | done (r : Except StoreError Unit)
  | record (r : Except StoreError (Option Bytes))
  | keys (r : Except StoreError (List String))
  /-- Nothing is told. -/
  | silence
deriving DecidableEq

/-- The key of an event that has one. -/
def StoreEvent.key? : StoreEvent → Option String
  | put key _ => some key
  | get key => some key
  | delete key => some key
  | list _ => none
  | reopen => none
  | interruptedPut key _ => some key

/-- A store that may be left, and opened again. -/
structure LastingStore (σ : Type) where
  calls : Store σ
  reopen : σ → Except StoreError Unit × σ
  /-- What a put leaves that ends before its second half. -/
  interruptedPut : String → Bytes → σ → σ

namespace LastingStore

variable {σ : Type}

def answer (store : LastingStore σ) (s : σ) : StoreEvent → StoreAnswer × σ
  | .put key record => (.done (store.calls.put key record s).1, (store.calls.put key record s).2)
  | .get key => (.record (store.calls.get key s), s)
  | .delete key => (.done (store.calls.delete key s).1, (store.calls.delete key s).2)
  | .list start => (.keys (store.calls.list start s), s)
  | .reopen => (.done (store.reopen s).1, (store.reopen s).2)
  | .interruptedPut key record => (.silence, store.interruptedPut key record s)

/-- The answers to some events one after the other, and what is then in the store. -/
def answers (store : LastingStore σ) : List StoreEvent → σ → List StoreAnswer × σ
  | [], s => ([], s)
  | event :: events, s =>
    let (answer, s) := store.answer s event
    let (rest, s) := store.answers events s
    (answer :: rest, s)

end LastingStore

/-- A store in memory is there all the time, and a put has no halves. -/
def MemoryStore.lasting : LastingStore MemoryStore where
  calls := store
  reopen m := (.ok (), m)
  interruptedPut _ _ m := m

namespace Directory

def lasting : LastingStore Directory where
  calls := store
  reopen d :=
    match d.openAt with
    | .ok d => (.ok (), d)
    | .error e => (.error e, d)
  interruptedPut key record d := (writeTemporary key record d).2

/-! ### Files and records -/

/-- What stands in a directory beside the files of others: a file for each record, and temporary files. -/
structure Mirrors (foreign : List (String × Node)) (m : MemoryStore) (nodes : List (String × Node)) : Prop where
  unreserved : ∀ node ∈ foreign, ¬Reserved node.1
  sorted : Assoc.Sorted nodes
  sorted_records : Assoc.Sorted m.records
  get?_empty : m.get? "" = none
  lookup_recordName : ∀ key, key ≠ "" → nodes.lookup (recordName key) = (m.get? key).map .file
  lookup_temporaryName_ne : ∀ key, key ≠ "" → nodes.lookup (temporaryName key) ≠ some .folder
  lookup_other : ∀ name, ¬IsOwn name → nodes.lookup name = foreign.lookup name

variable {foreign nodes : List (String × Node)} {m : MemoryStore} {key : String}

theorem isOwn_recordName (hkey : key ≠ "") : IsOwn (recordName key) :=
  ⟨key, hkey, .inl rfl⟩

theorem isOwn_temporaryName (hkey : key ≠ "") : IsOwn (temporaryName key) :=
  ⟨key, hkey, .inr rfl⟩

theorem ne_of_not_isOwn {name : String} (h : ¬IsOwn name) (hkey : key ≠ "") :
    name ≠ recordName key ∧ name ≠ temporaryName key :=
  ⟨fun heq => h ⟨key, hkey, .inl heq⟩, fun heq => h ⟨key, hkey, .inr heq⟩⟩

/-- At first there are the files of others only. -/
theorem mirrors_empty (hsorted : Assoc.Sorted foreign) (hforeign : ∀ node ∈ foreign, ¬Reserved node.1) :
    Mirrors foreign .empty foreign := by
  have hnone : ∀ name, IsOwn name → foreign.lookup name = none := fun name hname => by
    rw [Assoc.lookup_eq_none_iff, List.mem_map]
    rintro ⟨node, hnode, rfl⟩
    exact hforeign node hnode hname.reserved
  refine ⟨hforeign, hsorted, .nil, rfl, fun key hkey => hnone _ (isOwn_recordName hkey), fun key hkey => ?_,
    fun _ _ => rfl⟩
  rw [hnone _ (isOwn_temporaryName hkey)]
  nofun

namespace Mirrors

theorem writeTemporary (h : Mirrors foreign m nodes) (hkey : key ≠ "") (record : Bytes) :
    Mirrors foreign m (Assoc.insert (temporaryName key) (.file record) nodes) where
  unreserved := h.unreserved
  sorted := Assoc.sorted_insert h.sorted
  sorted_records := h.sorted_records
  get?_empty := h.get?_empty
  lookup_recordName x hx := by
    rw [Assoc.lookup_insert, if_neg (recordName_ne_temporaryName key x)]
    exact h.lookup_recordName x hx
  lookup_temporaryName_ne x hx := by
    rw [Assoc.lookup_insert]
    split
    · nofun
    · exact h.lookup_temporaryName_ne x hx
  lookup_other name hname := by
    rw [Assoc.lookup_insert, if_neg (ne_of_not_isOwn hname hkey).2]
    exact h.lookup_other name hname

theorem put (h : Mirrors foreign m nodes) (hkey : key ≠ "") (record : Bytes) :
    Mirrors foreign (m.put key record)
      (Assoc.insert (recordName key) (.file record) (Assoc.erase (temporaryName key) nodes)) where
  unreserved := h.unreserved
  sorted := Assoc.sorted_insert (List.Pairwise.filter _ h.sorted)
  sorted_records := Assoc.sorted_insert h.sorted_records
  get?_empty := by rw [MemoryStore.get?_put, if_neg hkey.symm, h.get?_empty]
  lookup_recordName x hx := by
    rw [Assoc.lookup_insert, Assoc.lookup_erase, if_neg (recordName_ne_temporaryName key x), MemoryStore.get?_put]
    by_cases heq : x = key
    · rw [if_pos (congrArg recordName heq), if_pos heq]
      rfl
    · rw [if_neg (recordName_ne heq), if_neg heq]
      exact h.lookup_recordName x hx
  lookup_temporaryName_ne x hx := by
    rw [Assoc.lookup_insert, if_neg (recordName_ne_temporaryName x key).symm, Assoc.lookup_erase]
    split
    · nofun
    · exact h.lookup_temporaryName_ne x hx
  lookup_other name hname := by
    rw [Assoc.lookup_insert, if_neg (ne_of_not_isOwn hname hkey).1, Assoc.lookup_erase,
      if_neg (ne_of_not_isOwn hname hkey).2]
    exact h.lookup_other name hname

theorem delete (h : Mirrors foreign m nodes) (hkey : key ≠ "") :
    Mirrors foreign (m.delete key) (Assoc.erase (recordName key) nodes) where
  unreserved := h.unreserved
  sorted := List.Pairwise.filter _ h.sorted
  sorted_records := List.Pairwise.filter _ h.sorted_records
  get?_empty := by rw [MemoryStore.get?_delete, if_neg hkey.symm, h.get?_empty]
  lookup_recordName x hx := by
    rw [Assoc.lookup_erase, MemoryStore.get?_delete]
    by_cases heq : x = key
    · rw [if_pos (congrArg recordName heq), if_pos heq]
      rfl
    · rw [if_neg (recordName_ne heq), if_neg heq]
      exact h.lookup_recordName x hx
  lookup_temporaryName_ne x hx := by
    rw [Assoc.lookup_erase, if_neg (recordName_ne_temporaryName x key).symm]
    exact h.lookup_temporaryName_ne x hx
  lookup_other name hname := by
    rw [Assoc.lookup_erase, if_neg (ne_of_not_isOwn hname hkey).1]
    exact h.lookup_other name hname

/-- What is read as the name of a record is the name that the store gives to it. -/
theorem keyOfName?_eq_some_iff (h : Mirrors foreign m nodes) {name : String} (hname : name ∈ nodes.map Prod.fst) :
    keyOfName? name = some key ↔ key ≠ "" ∧ name = recordName key := by
  constructor
  · intro hkey
    have hown : IsOwn name := by
      refine Classical.byContradiction fun hother => ?_
      have hforeign : name ∈ foreign.map Prod.fst := by
        refine Decidable.byContradiction fun hnone => ?_
        rw [← Assoc.lookup_eq_none_iff, ← h.lookup_other name hother, Assoc.lookup_eq_none_iff] at hnone
        exact hnone hname
      obtain ⟨node, hnode, rfl⟩ := List.mem_map.1 hforeign
      exact h.unreserved node hnode (reserved_of_keyOfName? hkey)
    obtain ⟨x, hx, rfl | rfl⟩ := hown
    · rw [keyOfName?_recordName hx, Option.some.injEq] at hkey
      exact hkey ▸ ⟨hx, rfl⟩
    · rw [keyOfName?_temporaryName] at hkey
      cases hkey
  · rintro ⟨hkey, rfl⟩
    exact keyOfName?_recordName hkey

theorem mem_keys_iff (h : Mirrors foreign m nodes) :
    key ∈ nodes.filterMap (fun node => keyOfName? node.1) ↔ key ∈ m.records.map Prod.fst := by
  have hrecord : key ∈ m.records.map Prod.fst ↔ m.get? key ≠ none := by
    rw [MemoryStore.get?, ne_eq, Assoc.lookup_eq_none_iff, not_not]
  rw [hrecord, List.mem_filterMap]
  constructor
  · rintro ⟨node, hnode, hkey⟩
    have hname : node.1 ∈ nodes.map Prod.fst := List.mem_map_of_mem hnode
    obtain ⟨hne, heq⟩ := (h.keyOfName?_eq_some_iff hname).1 hkey
    have hlookup := h.lookup_recordName key hne
    intro hnone
    rw [hnone, Option.map_none, ← heq, Assoc.lookup_eq_none_iff] at hlookup
    exact hlookup hname
  · intro hsome
    have hne : key ≠ "" := fun heq => hsome (heq ▸ h.get?_empty)
    obtain ⟨record, hget⟩ := Option.ne_none_iff_exists'.1 hsome
    have hlookup := h.lookup_recordName key hne
    rw [hget, Option.map_some] at hlookup
    exact ⟨_, Assoc.mem_of_lookup hlookup, keyOfName?_recordName hne⟩

/-- The keys that are read from the names are those of the records, in some order. -/
theorem keys_perm (h : Mirrors foreign m nodes) :
    (nodes.filterMap fun node => keyOfName? node.1).Perm (m.records.map Prod.fst) := by
  refine (List.perm_ext_iff_of_nodup ?_ h.sorted_records.nodup_keys).2 fun key => h.mem_keys_iff
  refine List.pairwise_filterMap.2 (List.Pairwise.imp_of_mem ?_ h.sorted)
  rintro node node' hnode hnode' hlt key hkey _ hkey' rfl
  have hname := ((h.keyOfName?_eq_some_iff (List.mem_map_of_mem hnode)).1 hkey).2
  have hname' := ((h.keyOfName?_eq_some_iff (List.mem_map_of_mem hnode')).1 hkey').2
  rw [hname, hname'] at hlt
  exact String.lt_irrefl _ hlt

theorem list_eq (h : Mirrors foreign m nodes) (start : String) (nameLimit : Option Nat) :
    list start ⟨.folder nodes, nameLimit⟩ = .ok (m.keys start) := by
  have hperm : ((nodes.filterMap fun node => keyOfName? node.1).filter (beginsWith start)).Perm (m.keys start) :=
    h.keys_perm.filter (beginsWith start)
  have hkeys : (m.keys start).Pairwise (· < ·) := List.Pairwise.filter _ (List.pairwise_map.2 h.sorted_records)
  simp only [list]
  obtain ⟨found, hfound⟩ : ∃ found, (nodes.filterMap fun node => keyOfName? node.1).filter (beginsWith start) = found :=
    ⟨_, rfl⟩
  rw [hfound] at hperm ⊢
  have hsorted : (found.mergeSort (· ≤ ·)).Pairwise (· ≤ ·) :=
    (List.pairwise_mergeSort (fun a b c => by simpa using String.le_trans)
      (fun a b => by simpa using String.le_total a b) found).imp of_decide_eq_true
  have hle : (m.keys start).Pairwise (· ≤ ·) := hkeys.imp fun hlt => String.not_lt.1 (String.lt_asymm hlt)
  exact congrArg Except.ok (((List.mergeSort_perm found _).trans hperm).eq_of_pairwise
    (fun _ _ _ _ => String.le_antisymm) hsorted hle)

theorem get_eq (h : Mirrors foreign m nodes) (hkey : key ≠ "") :
    get key ⟨.folder nodes, none⟩ = .ok (m.get? key) := by
  simp only [get, allows, h.lookup_recordName key hkey]
  cases m.get? key <;> rfl

theorem writeTemporary_eq (h : Mirrors foreign m nodes) (hkey : key ≠ "") (record : Bytes) :
    Directory.writeTemporary key record ⟨.folder nodes, none⟩ =
      (.ok (), ⟨.folder (Assoc.insert (temporaryName key) (.file record) nodes), none⟩) := by
  simp only [Directory.writeTemporary, allows]
  cases hlookup : nodes.lookup (temporaryName key) with
  | none => rfl
  | some node =>
    cases node with
    | file content => rfl
    | folder => exact absurd hlookup (h.lookup_temporaryName_ne key hkey)

theorem put_eq (h : Mirrors foreign m nodes) (hkey : key ≠ "") (record : Bytes) :
    Directory.put key record ⟨.folder nodes, none⟩ =
      (.ok (), ⟨.folder (Assoc.insert (recordName key) (.file record) (Assoc.erase (temporaryName key) nodes)),
        none⟩) := by
  rw [put_eq_halves, h.writeTemporary_eq hkey record]
  dsimp only
  rw [renameTemporary_written, h.lookup_recordName key hkey]
  cases m.get? key <;> rfl

theorem delete_eq (h : Mirrors foreign m nodes) (hkey : key ≠ "") :
    Directory.delete key ⟨.folder nodes, none⟩ =
      (.ok (), ⟨.folder (Assoc.erase (recordName key) nodes), none⟩) := by
  have hlookup := h.lookup_recordName key hkey
  simp only [Directory.delete, allows, hlookup]
  cases hget : m.get? key with
  | none =>
    -- there is nothing to remove
    rw [hget, Option.map_none, Assoc.lookup_eq_none_iff] at hlookup
    have herase : Assoc.erase (recordName key) nodes = nodes := List.filter_eq_self.2 fun node hnode => by
      rw [bne_iff_ne]
      exact fun heq => hlookup (heq ▸ List.mem_map_of_mem hnode)
    rw [herase]
    rfl
  | some record => rfl

/-- Both stores answer an event in the same way, and what is in the one is still what is in the other. -/
theorem answer_eq (h : Mirrors foreign m nodes) {event : StoreEvent} (hkey : event.key? ≠ some "") :
    ∃ nodes', lasting.answer ⟨.folder nodes, none⟩ event =
        ((MemoryStore.lasting.answer m event).1, ⟨.folder nodes', none⟩) ∧
      Mirrors foreign (MemoryStore.lasting.answer m event).2 nodes' := by
  have hne : ∀ {key}, event.key? = some key → key ≠ "" := fun h heq => hkey (h.trans (congrArg some heq))
  cases event with
  | put key record =>
    refine ⟨_, ?_, h.put (hne rfl) record⟩
    show (StoreAnswer.done (Directory.put key record _).1, (Directory.put key record _).2) = _
    rw [h.put_eq (hne rfl)]
    rfl
  | get key =>
    exact ⟨nodes, congrArg (fun r => (StoreAnswer.record r, _)) (h.get_eq (hne rfl)), h⟩
  | delete key =>
    refine ⟨_, ?_, h.delete (hne rfl)⟩
    show (StoreAnswer.done (Directory.delete key _).1, (Directory.delete key _).2) = _
    rw [h.delete_eq (hne rfl)]
    rfl
  | list start => exact ⟨nodes, congrArg (fun r => (StoreAnswer.keys r, _)) (h.list_eq start none), h⟩
  | reopen => exact ⟨nodes, rfl, h⟩
  | interruptedPut key record =>
    refine ⟨_, ?_, h.writeTemporary (hne rfl) record⟩
    show (StoreAnswer.silence, (Directory.writeTemporary key record _).2) = _
    rw [h.writeTemporary_eq (hne rfl)]
    rfl

theorem answers_eq (h : Mirrors foreign m nodes) {events : List StoreEvent}
    (hkeys : ∀ event ∈ events, event.key? ≠ some "") :
    ∃ nodes', lasting.answers events ⟨.folder nodes, none⟩ =
        ((MemoryStore.lasting.answers events m).1, ⟨.folder nodes', none⟩) ∧
      Mirrors foreign (MemoryStore.lasting.answers events m).2 nodes' := by
  induction events generalizing m nodes with
  | nil => exact ⟨nodes, rfl, h⟩
  | cons event events ih =>
    obtain ⟨hkey, hkeys⟩ := List.forall_mem_cons.1 hkeys
    obtain ⟨nodes', hanswer, h'⟩ := h.answer_eq hkey
    obtain ⟨last, hanswers, hlast⟩ := ih h' hkeys
    refine ⟨last, ?_, hlast⟩
    simp only [LastingStore.answers, hanswer, hanswers]

end Mirrors

/-- What stands under a name. -/
def node? (d : Directory) (name : String) : Option Node :=
  match d.place with
  | .folder nodes => nodes.lookup name
  | _ => none

/-- A directory without a limit on names, beside any files of others with names that are not reserved, answers as a
store in memory that was empty at first, whatever is done with it under keys that are not empty, and leaves those files
as they are.  A put is two halves, and if it ends after the first one, what is read and listed is as before. -/
theorem answers_eq_memory (hsorted : Assoc.Sorted foreign) (hforeign : ∀ node ∈ foreign, ¬Reserved node.1)
    {events : List StoreEvent} (hkeys : ∀ event ∈ events, event.key? ≠ some "") :
    let result := lasting.answers events ⟨.folder foreign, none⟩
    let d := result.2
    result.1 = (MemoryStore.lasting.answers events .empty).1 ∧
      (∀ name, ¬Reserved name → d.node? name = foreign.lookup name) ∧
      ∀ key record, key ≠ "" → ∃ d', writeTemporary key record d = (.ok (), d') ∧
        put key record d = renameTemporary key d' ∧ (∀ x, x ≠ "" → get x d' = get x d) ∧
        ∀ start, list start d' = list start d := by
  obtain ⟨nodes, hanswers, h⟩ := (mirrors_empty hsorted hforeign).answers_eq hkeys
  simp only [hanswers]
  refine ⟨trivial, fun name hname => h.lookup_other name fun hown => hname hown.reserved, fun key record hkey => ?_⟩
  have hwrite := h.writeTemporary_eq hkey record
  have h' := h.writeTemporary hkey record
  refine ⟨_, hwrite, ?_, fun x hx => (h'.get_eq hx).trans (h.get_eq hx).symm,
    fun start => (h'.list_eq start none).trans (h.list_eq start none).symm⟩
  rw [put_eq_halves, hwrite]

/-- Files that no store has written, one of them with the ending of a record. -/
private def strangers : List (String × Node) :=
  [("README.txt", .file [104, 105]), ("zz-not-hex.rec", .file [104, 105])]

/-- A record is written twice, the second time in vain, and another one is removed. -/
private def visits : List StoreEvent :=
  [.put "memo:/api/é" [1], .put "memo:.rec" [2], .interruptedPut "memo:/api/é" [3], .reopen, .delete "memo:.rec",
    .get "memo:/api/é", .list "memo:"]

theorem answers_eq_memory_visits :
    (∀ node ∈ strangers, ¬Reserved node.1) ∧ (∀ event ∈ visits, event.key? ≠ some "") ∧
      (lasting.answers visits ⟨.folder strangers, none⟩).1 =
        [.done (.ok ()), .done (.ok ()), .silence, .done (.ok ()), .done (.ok ()), .record (.ok (some [1])),
          .keys (.ok ["memo:/api/é"])] := by
  have hsorted : Assoc.Sorted strangers := List.pairwise_pair.2 (by decide)
  have hforeign : ∀ node ∈ strangers, ¬Reserved node.1 := by decide
  have hkeys : ∀ event ∈ visits, event.key? ≠ some "" := by decide
  obtain ⟨hanswers, -, -⟩ := answers_eq_memory hsorted hforeign hkeys
  refine ⟨hforeign, hkeys, hanswers.trans ?_⟩
  decide +kernel

end Directory

end ResultCache
