import HybridLog.Chain.Exonum
import HybridLog.Ledger.Append

/-!
# What the Exonum services keep

A write of a service touches three indexes: the history of its caller, the map of the records and
the order of the keys. They are those of a ledger of the accepted transactions, whoever calls and
whatever the arguments are; transactions that fail leave no trace.
-/

namespace HybridLog

open Ledger

/-! ### Calls -/

/-- What a service sees of a call. There is no transaction if another service calls. -/
structure ExecutionContext where
  caller : Address
  transactionHash : Option TxHash

inductive ExecutionError
  | unauthorizedCaller
  | service (err : WriteError)
deriving DecidableEq

/-- What the services differ in: the message they take and the record they keep. -/
structure Service (A R : Type) where
  contentHash : A → List Char
  record : A → TxHash → Bytes → ℕ → Bytes → R
  recordHash : R → List Char
  historyLen : R → ℕ
  historyHash : R → Bytes
  recordHash_record : ∀ arg tx key len hash, recordHash (record arg tx key len hash) = hexEncode key
  historyLen_record : ∀ arg tx key len hash, historyLen (record arg tx key len hash) = len
  historyHash_record : ∀ arg tx key len hash, historyHash (record arg tx key len hash) = hash

def logService : Service WriteLog LogRecord where
  contentHash := WriteLog.contentHash
  record := WriteLog.record
  recordHash := LogRecord.contentHash
  historyLen := LogRecord.historyLen
  historyHash := LogRecord.historyHash
  recordHash_record _ _ _ _ _ := rfl
  historyLen_record _ _ _ _ _ := rfl
  historyHash_record _ _ _ _ _ := rfl

def hashService : Service WriteHash HashRecord where
  contentHash := WriteHash.contentHash
  record := WriteHash.record
  recordHash := HashRecord.contentHash
  historyLen := HashRecord.historyLen
  historyHash := HashRecord.historyHash
  recordHash_record _ _ _ _ _ := rfl
  historyLen_record _ _ _ _ _ := rfl
  historyHash_record _ _ _ _ _ := rfl

def batchService : Service WriteBatch BatchRecord where
  contentHash := WriteBatch.contentHash
  record := WriteBatch.record
  recordHash := BatchRecord.contentHash
  historyLen := BatchRecord.historyLen
  historyHash := BatchRecord.historyHash
  recordHash_record _ _ _ _ _ := rfl
  historyLen_record _ _ _ _ _ := rfl
  historyHash_record _ _ _ _ _ := rfl

namespace Service

variable {A R : Type} (m : Service A R) (objectHash : ObjectHash)

/-- `write` with `extract_info`. -/
def write (s : ServiceSchema R) (context : ExecutionContext) (arg : A) :
    Except ExecutionError (ServiceSchema R) :=
  match context.transactionHash with
  | none => .error .unauthorizedCaller
  | some txHash =>
    (s.write objectHash (m.contentHash arg) (m.record arg txHash) context.caller txHash).mapError
      .service

/-- A call whose execution fails leaves the indexes as they are. -/
def call (s : ServiceSchema R) (x : ExecutionContext × A) : Option (ServiceSchema R) :=
  (m.write objectHash s x.1 x.2).toOption

/-- The entry a call offers: the key and the transaction. -/
def entry (x : ExecutionContext × A) : Option (Entry Bytes Address (TxHash × A)) :=
  match x.1.transactionHash, parseHash (m.contentHash x.2) with
  | some txHash, some key => some ⟨key, x.1.caller, txHash, x.2⟩
  | _, _ => none

/-- The transactions of an account. -/
def transactions (l : List (Entry Bytes Address (TxHash × A))) (a : Address) : List TxHash :=
  (history l a).map fun e => e.value.1

/-- The record of an entry that follows others. -/
def recordOf (before : List (Entry Bytes Address (TxHash × A)))
    (e : Entry Bytes Address (TxHash × A)) : R :=
  m.record e.value.2 e.value.1 e.key (transactions before e.account ++ [e.value.1]).length
    (objectHash (transactions before e.account ++ [e.value.1]))

end Service

/-- The record of a key in the proof map. -/
def ServiceSchema.get {R : Type} (s : ServiceSchema R) (key : Bytes) : Option R :=
  s.records.lookup key

/-- The indexes of a service are those of a ledger. -/
structure ServiceSchema.Holds {A R : Type} (m : Service A R) (objectHash : ObjectHash)
    (s : ServiceSchema R) (l : List (Entry Bytes Address (TxHash × A))) : Prop where
  ordered : s.ordered = Ledger.keys l
  keys : s.keys = Ledger.keys l
  record : ∀ pre e post, l = pre ++ e :: post → s.get e.key = some (m.recordOf objectHash pre e)
  history : ∀ a, s.submitterHistory a = Service.transactions l a

namespace Service

variable {A R : Type} {m : Service A R} {objectHash : ObjectHash}
  {s s' : ServiceSchema R} {l : List (Entry Bytes Address (TxHash × A))}
  {x : ExecutionContext × A}

/-- A call that succeeds stores the record of its entry. -/
lemma call_eq_some (h : m.call objectHash s x = some s') :
    ∃ txHash key, x.1.transactionHash = some txHash ∧ parseHash (m.contentHash x.2) = some key ∧
      key ∉ s.keys ∧ s' = s.store objectHash key (m.record x.2 txHash key) x.1.caller txHash := by
  rw [call, write] at h
  cases htx : x.1.transactionHash with
  | none =>
    simp only [htx] at h
    cases h
  | some txHash =>
    simp only [htx, ServiceSchema.write] at h
    cases hkey : parseHash (m.contentHash x.2) with
    | none =>
      simp only [hkey] at h
      cases h
    | some key =>
      simp only [hkey] at h
      by_cases hnew : key ∈ s.keys
      · rw [if_pos hnew] at h
        cases h
      · rw [if_neg hnew] at h
        exact ⟨txHash, key, rfl, rfl, hnew, (Option.some.inj h).symm⟩

/-- A call fails where there is no transaction, no hash or already a record. -/
lemma isSome_call : (m.call objectHash s x).isSome ↔ ∃ e, m.entry x = some e ∧ e.key ∉ s.keys := by
  rw [call, write, entry]
  cases x.1.transactionHash with
  | none =>
    constructor
    · intro h
      cases h
    · rintro ⟨e, he, -⟩
      cases he
  | some txHash =>
    simp only [ServiceSchema.write]
    cases parseHash (m.contentHash x.2) with
    | none =>
      constructor
      · intro h
        cases h
      · rintro ⟨e, he, -⟩
        cases he
    | some key =>
      dsimp only
      by_cases hnew : key ∈ s.keys
      · rw [if_pos hnew]
        constructor
        · intro h
          cases h
        · rintro ⟨e, he, hkey⟩
          cases he
          exact absurd hnew hkey
      · rw [if_neg hnew]
        exact ⟨fun _ => ⟨_, rfl, hnew⟩, fun _ => rfl⟩

lemma transactions_concat (l : List (Entry Bytes Address (TxHash × A)))
    (e : Entry Bytes Address (TxHash × A)) (a : Address) :
    transactions (l ++ [e]) a =
      if a = e.account then transactions l a ++ [e.value.1] else transactions l a := by
  rw [transactions, history_concat]
  split
  · rw [List.map_append]
    rfl
  · rfl

lemma lookup_concat {records : List (Bytes × R)} {key : Bytes} (r : R)
    (h : key ∉ records.map Prod.fst) (k : Bytes) :
    (records ++ [(key, r)]).lookup k = if k = key then some r else records.lookup k := by
  rw [List.lookup_append]
  split
  · next hk =>
    subst hk
    have hnone : records.lookup k = none := by
      apply List.lookup_eq_none_iff.mpr
      intro p hp
      have hne : k ≠ p.1 := fun heq => h (heq ▸ List.mem_map_of_mem hp)
      simpa using hne
    simp [hnone]
  · next hk =>
    have hbeq : (k == key) = false := by simpa using hk
    simp [List.lookup_cons, hbeq]

/-- A call that succeeds adds its entry. -/
lemma holds_call (h : s.Holds m objectHash l) (hcall : m.call objectHash s x = some s')
    {e : Entry Bytes Address (TxHash × A)} (he : m.entry x = some e) :
    s'.Holds m objectHash (l ++ [e]) := by
  obtain ⟨txHash, key, htx, hkey, hnew, rfl⟩ := call_eq_some hcall
  simp only [entry, htx, hkey] at he
  cases he
  constructor
  · rw [ServiceSchema.store, h.ordered, keys_append]
    rfl
  · rw [ServiceSchema.keys, ServiceSchema.store, List.map_append, keys_append, ← h.keys]
    rfl
  · intro pre e post hsplit
    rw [ServiceSchema.get, ServiceSchema.store]
    dsimp only
    rw [lookup_concat _ hnew]
    rcases List.eq_nil_or_concat post with rfl | ⟨post, last, rfl⟩
    · obtain ⟨rfl, he⟩ := List.append_inj' hsplit rfl
      obtain rfl := List.singleton_inj.mp he
      rw [if_pos rfl, recordOf, h.history]
    · rw [List.concat_eq_append, ← List.cons_append, ← List.append_assoc] at hsplit
      obtain ⟨rfl, -⟩ := List.append_inj' hsplit rfl
      have hne : e.key ≠ key := by
        rintro rfl
        apply hnew
        rw [h.keys]
        exact key_mem_keys (by simp)
      rw [if_neg hne]
      exact h.record pre e post rfl
  · intro a
    rw [transactions_concat, ServiceSchema.store]
    dsimp only
    split
    · next ha =>
      subst ha
      rw [Function.update_self, h.history]
    · next ha => rw [Function.update_of_ne ha, h.history]

lemma keepsLedger (m : Service A R) (objectHash : ObjectHash) :
    Keeps (fun _ => True) m.entry (m.call objectHash) (fun s l => s.Holds m objectHash l) where
  accepts h _ := by
    rw [isSome_call, h.keys]
  appends h _ hcall he := holds_call h hcall he

lemma holds_empty : (ServiceSchema.empty : ServiceSchema R).Holds m objectHash [] := by
  constructor
  · rfl
  · rfl
  · intro pre e post h
    simp at h
  · exact fun _ => rfl

/-! ### Runs -/

/-- The indexes after some calls. -/
def after (m : Service A R) (objectHash : ObjectHash) (calls : List (ExecutionContext × A)) :
    ServiceSchema R := run (m.call objectHash) .empty calls

/-- The calls that do not fail. -/
def accepted (m : Service A R) (objectHash : ObjectHash) (calls : List (ExecutionContext × A)) :
    List (ExecutionContext × A) := Ledger.accepted (m.call objectHash) .empty calls

/-- The calls of an account that do not fail. -/
def acceptedBy (m : Service A R) (objectHash : ObjectHash) (calls : List (ExecutionContext × A))
    (a : Address) : List (ExecutionContext × A) :=
  (m.accepted objectHash calls).filter fun x => x.1.caller = a

/-- The hashes of the transactions that make some calls. -/
def transactionHashes (calls : List (ExecutionContext × A)) : List TxHash :=
  calls.filterMap fun x => x.1.transactionHash

/-- The ledger of a run. -/
def entries (m : Service A R) (objectHash : ObjectHash) (calls : List (ExecutionContext × A)) :
    List (Entry Bytes Address (TxHash × A)) :=
  (m.accepted objectHash calls).filterMap m.entry

variable {calls pre post : List (ExecutionContext × A)}

lemma holds_after (m : Service A R) (objectHash : ObjectHash)
    (calls : List (ExecutionContext × A)) :
    (m.after objectHash calls).Holds m objectHash (m.entries objectHash calls) :=
  ((m.keepsLedger objectHash).ledger holds_empty fun _ _ => trivial).1

lemma nodup_entries (calls : List (ExecutionContext × A)) :
    (keys (m.entries objectHash calls)).Nodup :=
  ((m.keepsLedger objectHash).ledger holds_empty fun _ _ => trivial).2

lemma entry_eq_some {e : Entry Bytes Address (TxHash × A)} (h : m.entry x = some e) :
    x.1.transactionHash = some e.value.1 ∧ parseHash (m.contentHash x.2) = some e.key ∧
      e.account = x.1.caller ∧ e.value.2 = x.2 := by
  rw [entry] at h
  cases htx : x.1.transactionHash with
  | none =>
    simp only [htx] at h
    cases h
  | some txHash =>
    cases hkey : parseHash (m.contentHash x.2) with
    | none =>
      simp only [htx, hkey] at h
      cases h
    | some key =>
      simp only [htx, hkey] at h
      cases h
      exact ⟨rfl, rfl, rfl, rfl⟩

/-- An accepted call offers an entry. -/
lemma entry_of_accepted (hx : x ∈ m.accepted objectHash calls) : ∃ e, m.entry x = some e := by
  obtain ⟨s₁, s₂, hx⟩ := exists_step_of_mem_accepted hx
  obtain ⟨e, he, -⟩ := isSome_call.mp (Option.isSome_of_eq_some hx)
  exact ⟨e, he⟩

/-- The transactions of an account are those of its accepted calls. -/
lemma transactions_entries (calls : List (ExecutionContext × A)) (a : Address) :
    transactions (m.entries objectHash calls) a =
      transactionHashes (m.acceptedBy objectHash calls a) := by
  have h : ∀ x ∈ m.accepted objectHash calls, ∃ e, m.entry x = some e :=
    fun x hx => entry_of_accepted hx
  rw [transactions, entries, acceptedBy, transactionHashes]
  generalize m.accepted objectHash calls = xs at h
  induction xs with
  | nil => rfl
  | cons x xs ih =>
    obtain ⟨e, he⟩ := h x (by simp)
    obtain ⟨htx, -, haccount, -⟩ := entry_eq_some he
    have hxs := ih fun y hy => h y (by simp [hy])
    rw [List.filterMap_cons_some he, history, List.filter_cons, List.filter_cons, haccount]
    split
    · rw [List.map_cons, List.filterMap_cons, htx, ← hxs, history]
    · exact hxs

/-- Every accepted call has a transaction. -/
lemma length_transactionHashes (calls : List (ExecutionContext × A)) (a : Address) :
    (transactionHashes (m.acceptedBy objectHash calls a)).length =
      (m.acceptedBy objectHash calls a).length := by
  apply List.filterMap_length_eq_length.mpr
  intro x hx
  obtain ⟨e, he⟩ := entry_of_accepted (List.mem_of_mem_filter hx)
  exact Option.isSome_of_eq_some (entry_eq_some he).1

/-- What an accepted call adds to the ledger, before other calls follow. -/
lemma entries_split (post : List (ExecutionContext × A)) {e : Entry Bytes Address (TxHash × A)}
    (hx : (m.call objectHash (m.after objectHash pre) x).isSome) (he : m.entry x = some e) :
    ∃ rest, m.entries objectHash (pre ++ x :: post) = m.entries objectHash pre ++ e :: rest := by
  obtain ⟨s', hs'⟩ := Option.isSome_iff_exists.mp hx
  refine ⟨(Ledger.accepted (m.call objectHash) s' post).filterMap m.entry, ?_⟩
  rw [entries, accepted, Ledger.accepted_split hs', List.filterMap_append,
    List.filterMap_cons_some he, entries, accepted]

/-- The ledger only grows. -/
lemma entries_initial (pre post : List (ExecutionContext × A)) :
    m.entries objectHash pre <+: m.entries objectHash (pre ++ post) := by
  rw [entries, entries, accepted, accepted, accepted_append, List.filterMap_append]
  exact List.prefix_append _ _

end Service

namespace ServiceSchema.Holds

variable {A R : Type} {m : Service A R} {objectHash : ObjectHash} {s : ServiceSchema R}
  {l : List (Entry Bytes Address (TxHash × A))} {k : Bytes} {r : R}

/-- A record is that of an entry. -/
lemma get_eq_some (h : s.Holds m objectHash l) (hk : s.get k = some r) :
    ∃ pre e post, l = pre ++ e :: post ∧ e.key = k ∧ r = m.recordOf objectHash pre e := by
  have hmem : k ∈ Ledger.keys l := by
    rw [← h.keys]
    by_contra hnew
    have hnone : s.get k = none := by
      apply List.lookup_eq_none_iff.mpr
      intro p hp
      have hne : k ≠ p.1 := fun heq => hnew (heq ▸ List.mem_map_of_mem hp)
      simpa using hne
    rw [hnone] at hk
    cases hk
  obtain ⟨e, he, rfl⟩ := List.mem_map.mp hmem
  obtain ⟨pre, post, hsplit⟩ := List.append_of_mem he
  have hrecord := h.record pre e post hsplit
  exact ⟨pre, e, post, hsplit, rfl, Option.some.inj (hk.symm.trans hrecord)⟩

lemma isSome_get (h : s.Holds m objectHash l) : (s.get k).isSome ↔ k ∈ Ledger.keys l := by
  constructor
  · intro hk
    obtain ⟨r, hr⟩ := Option.isSome_iff_exists.mp hk
    obtain ⟨pre, e, post, rfl, rfl, -⟩ := h.get_eq_some hr
    exact key_mem_keys (by simp)
  · intro hk
    obtain ⟨e, he, rfl⟩ := List.mem_map.mp hk
    obtain ⟨pre, post, hsplit⟩ := List.append_of_mem he
    rw [h.record pre e post hsplit]
    rfl

/-- A record stays when the ledger grows. -/
lemma get_of_initial (h : s.Holds m objectHash l) {s' : ServiceSchema R}
    {l' : List (Entry Bytes Address (TxHash × A))} (h' : s'.Holds m objectHash l')
    (hl : l <+: l') (hk : s.get k = some r) : s'.get k = some r := by
  obtain ⟨pre, e, post, rfl, rfl, rfl⟩ := h.get_eq_some hk
  obtain ⟨more, rfl⟩ := hl
  exact h'.record pre e (post ++ more) (by simp)

/-- The accounts with a history are those of the entries. -/
lemma submitters_finite (h : s.Holds m objectHash l) :
    {a | s.submitterHistory a ≠ []}.Finite := by
  apply (l.map Entry.account).finite_toSet.subset
  intro a ha
  have hne : Ledger.history l a ≠ [] := by
    intro hnil
    apply ha
    rw [h.history, Service.transactions, hnil, List.map_nil]
  obtain ⟨e, he⟩ := List.exists_mem_of_ne_nil _ hne
  obtain ⟨hmem, haccount⟩ := List.mem_filter.mp he
  rw [← (of_decide_eq_true haccount : e.account = a)]
  exact List.mem_map_of_mem hmem

lemma sum_length (h : s.Holds m objectHash l) :
    ∑ a ∈ h.submitters_finite.toFinset, (s.submitterHistory a).length = s.ordered.length := by
  have hlen (a : Address) : (s.submitterHistory a).length = (Ledger.history l a).length := by
    rw [h.history, Service.transactions, List.length_map]
  simp only [hlen]
  rw [h.ordered, length_keys]
  apply sum_length_history
  intro e he
  rw [Set.Finite.mem_toFinset]
  show s.submitterHistory e.account ≠ []
  rw [← List.length_pos_iff_ne_nil, hlen]
  exact List.length_pos_of_mem (List.mem_filter.mpr ⟨he, decide_eq_true rfl⟩)

end ServiceSchema.Holds

/-! ### The indexes in step -/

/-- The transactions an account has made before a call, and that of the call. -/
def Service.transactionsBehind {A R : Type} (m : Service A R) (objectHash : ObjectHash)
    (pre : List (ExecutionContext × A)) (x : ExecutionContext × A) : List TxHash :=
  Service.transactionHashes (m.acceptedBy objectHash pre x.1.caller ++ [x])

/-- The order, the map and the histories of a service tell the same after some calls. -/
structure Service.InStep {A R : Type} (m : Service A R) (objectHash : ObjectHash)
    (calls : List (ExecutionContext × A)) : Prop where
  nodup : (m.after objectHash calls).ordered.Nodup
  mem_ordered : ∀ k, k ∈ (m.after objectHash calls).ordered ↔
    k ∈ (m.after objectHash calls).records.map Prod.fst
  isSome_get : ∀ k, ((m.after objectHash calls).get k).isSome ↔
    k ∈ (m.after objectHash calls).ordered
  /-- A record names its key in lower-case hexadecimal. -/
  recordHash : ∀ k r, (m.after objectHash calls).get k = some r → m.recordHash r = hexEncode k
  finite : {a | (m.after objectHash calls).submitterHistory a ≠ []}.Finite
  /-- The histories of all submitters together are as long as the order. -/
  sum : ∑ a ∈ finite.toFinset, ((m.after objectHash calls).submitterHistory a).length =
    (m.after objectHash calls).ordered.length
  history : ∀ a, (m.after objectHash calls).submitterHistory a =
    Service.transactionHashes (m.acceptedBy objectHash calls a)
  /-- The record of the `k`th accepted write of a submitter has the length `k` and the hash over
  the submitter's first `k` transactions. -/
  recorded : ∀ pre x post key, calls = pre ++ x :: post →
    (m.call objectHash (m.after objectHash pre) x).isSome →
    parseHash (m.contentHash x.2) = some key →
    ∃ r, (m.after objectHash calls).get key = some r ∧
      m.historyLen r = (m.acceptedBy objectHash pre x.1.caller).length + 1 ∧
      (m.transactionsBehind objectHash pre x).length = m.historyLen r ∧
      m.historyHash r = objectHash (m.transactionsBehind objectHash pre x)
  /-- A record is never overwritten. -/
  kept : ∀ pre post k r, calls = pre ++ post → (m.after objectHash pre).get k = some r →
    (m.after objectHash calls).get k = some r
  /-- A call fails without a transaction, with an argument that is no hash of 32 bytes, and when
  the key has a record. -/
  fails : ∀ pre x post, calls = pre ++ x :: post →
    (m.call objectHash (m.after objectHash pre) x = none ↔
      x.1.transactionHash = none ∨ parseHash (m.contentHash x.2) = none ∨
      ∃ k, parseHash (m.contentHash x.2) = some k ∧ k ∈ (m.after objectHash pre).ordered)
  unchanged : ∀ pre x post, calls = pre ++ x :: post →
    m.call objectHash (m.after objectHash pre) x = none →
    m.after objectHash (pre ++ [x]) = m.after objectHash pre

namespace Service

variable {A R : Type} {m : Service A R} {objectHash : ObjectHash}
  {pre post : List (ExecutionContext × A)} {x : ExecutionContext × A}

lemma call_eq_none : m.call objectHash (m.after objectHash pre) x = none ↔
    x.1.transactionHash = none ∨ parseHash (m.contentHash x.2) = none ∨
    ∃ k, parseHash (m.contentHash x.2) = some k ∧ k ∈ (m.after objectHash pre).ordered := by
  have hkeys : (m.after objectHash pre).keys = (m.after objectHash pre).ordered :=
    (holds_after m objectHash pre).keys.trans (holds_after m objectHash pre).ordered.symm
  rw [← Option.not_isSome_iff_eq_none, isSome_call, hkeys, entry]
  cases x.1.transactionHash with
  | none => simp
  | some txHash =>
    cases parseHash (m.contentHash x.2) with
    | none => simp
    | some key => simp

lemma recorded_after {key : Bytes} (hx : (m.call objectHash (m.after objectHash pre) x).isSome)
    (hkey : parseHash (m.contentHash x.2) = some key) :
    ∃ r, (m.after objectHash (pre ++ x :: post)).get key = some r ∧
      m.historyLen r = (m.acceptedBy objectHash pre x.1.caller).length + 1 ∧
      (m.transactionsBehind objectHash pre x).length = m.historyLen r ∧
      m.historyHash r = objectHash (m.transactionsBehind objectHash pre x) := by
  obtain ⟨e, he, -⟩ := isSome_call.mp hx
  obtain ⟨htx, hkey', haccount, -⟩ := entry_eq_some he
  obtain rfl : e.key = key := Option.some.inj (hkey'.symm.trans hkey)
  obtain ⟨rest, hrest⟩ := entries_split post hx he
  have hbehind : m.transactionsBehind objectHash pre x =
      transactions (m.entries objectHash pre) e.account ++ [e.value.1] := by
    rw [transactionsBehind, transactionHashes, List.filterMap_append, haccount,
      transactions_entries, transactionHashes]
    simp [htx]
  have hlen : (m.transactionsBehind objectHash pre x).length =
      (m.acceptedBy objectHash pre x.1.caller).length + 1 := by
    rw [hbehind, List.length_append, haccount, transactions_entries, length_transactionHashes,
      List.length_singleton]
  refine ⟨_, (holds_after m objectHash _).record _ _ _ hrest, ?_, ?_, ?_⟩
  · rw [recordOf, m.historyLen_record, ← hbehind, hlen]
  · rw [recordOf, m.historyLen_record, ← hbehind]
  · rw [recordOf, m.historyHash_record, ← hbehind]

lemma inStep (m : Service A R) (objectHash : ObjectHash) (calls : List (ExecutionContext × A)) :
    m.InStep objectHash calls := by
  have hholds := holds_after m objectHash calls
  constructor
  · rw [hholds.ordered]
    exact nodup_entries calls
  · intro k
    rw [hholds.ordered, ← ServiceSchema.keys, hholds.keys]
  · intro k
    rw [hholds.isSome_get, hholds.ordered]
  · intro k r hr
    obtain ⟨pre, e, post, -, rfl, rfl⟩ := hholds.get_eq_some hr
    exact m.recordHash_record ..
  · exact hholds.sum_length
  · intro a
    rw [hholds.history, transactions_entries]
  · rintro pre x post key rfl hx hkey
    exact recorded_after hx hkey
  · rintro pre post k r rfl hr
    exact (holds_after m objectHash pre).get_of_initial hholds (entries_initial pre post) hr
  · intro pre x post _
    exact call_eq_none
  · intro pre x post _ hx
    rw [after, run_append, run_cons, run_nil, ← after, hx, Option.getD_none]

end Service

/-- The three services keep their indexes in step, whatever is called by whom. -/
theorem services_in_step (objectHash : ObjectHash) :
    (∀ calls, logService.InStep objectHash calls) ∧
    (∀ calls, hashService.InStep objectHash calls) ∧
    ∀ calls, batchService.InStep objectHash calls :=
  ⟨logService.inStep objectHash, hashService.inStep objectHash, batchService.inStep objectHash⟩

end HybridLog
