import HybridLog.Core.LogStorage
import HybridLog.Wire.Protobuf

/-!
# The Exonum node and its services

The three services differ in the message they take and in the record they keep. A transaction of
a block whose arguments do not decode as the message of its service, or whose write returns an
error, changes nothing; the explorer calls it committed all the same.
-/

namespace HybridLog

open Js Protobuf

/-- The key of an account. -/
abbrev Address := Bytes

/-- `ProofListIndex::object_hash` over transaction hashes. -/
abbrev ObjectHash := List TxHash → Bytes

/-! ### Hashes as arguments -/

def hexDigit (c : Char) : Option ℕ :=
  if '0' ≤ c ∧ c ≤ '9' then some (c.toNat - '0'.toNat)
  else if 'a' ≤ c ∧ c ≤ 'f' then some (c.toNat - 'a'.toNat + 10)
  else if 'A' ≤ c ∧ c ≤ 'F' then some (c.toNat - 'A'.toNat + 10)
  else none

/-- `hex::decode` -/
def hexDecode : List Char → Option Bytes
  | [] => some []
  | [_] => none
  | c :: d :: cs =>
    match hexDigit c, hexDigit d, hexDecode cs with
    | some hi, some lo, some bs => some (UInt8.ofNat (16 * hi + lo) :: bs)
    | _, _, _ => none

def parseHash (s : List Char) : Option Bytes := (hexDecode s).filter fun bs => bs.length = 32

/-- `hex::encode`, as the characters of a record. -/
def hexEncode (bs : Bytes) : List Char := chars (toHex bs)

/-! ### The tables of a service -/

inductive WriteError
  | invalidHash
  | duplicateRecord
deriving DecidableEq

/-- The tables of a service whose records are of type `R`. -/
structure ServiceSchema (R : Type) where
  records : List (Bytes × R)
  submitterHistory : Address → List TxHash
  ordered : List Bytes

namespace ServiceSchema

variable {R : Type}

def empty : ServiceSchema R := ⟨[], fun _ => [], []⟩

def keys (s : ServiceSchema R) : List Bytes := s.records.map Prod.fst

/-- `store_log`, `store_hash`, `store_batch`: a record knows the length and the hash of the
history of its submitter. -/
def store (s : ServiceSchema R) (objectHash : ObjectHash) (key : Bytes)
    (record : ℕ → Bytes → R) (submitter : Address) (transaction : TxHash) : ServiceSchema R :=
  let history := s.submitterHistory submitter ++ [transaction]
  { records := s.records ++ [(key, record history.length (objectHash history))]
    submitterHistory := Function.update s.submitterHistory submitter history
    ordered := s.ordered ++ [key] }

/-- `write`: the argument `contentHash` must be a hash without a record. -/
def write (s : ServiceSchema R) (objectHash : ObjectHash) (contentHash : List Char)
    (record : Bytes → ℕ → Bytes → R) (submitter : Address) (transaction : TxHash) :
    Except WriteError (ServiceSchema R) :=
  match parseHash contentHash with
  | none => .error .invalidHash
  | some key =>
    if key ∈ s.keys then .error .duplicateRecord
    else .ok (s.store objectHash key (record key) submitter transaction)

end ServiceSchema

/-! ### Messages and records -/

structure WriteLog where
  contentHash : List Char
  level : List Char
  source : List Char
  messagePreview : List Char
  seed : ℕ
  message : List Char
  metadataJson : List Char

structure WriteHash where
  contentHash : List Char
  level : List Char
  messagePreview : List Char
  seed : ℕ

structure WriteBatch where
  contentHash : List Char
  seed : ℕ
  startId : List Char
  endId : List Char
  count : ℕ
  debugCount : ℕ
  infoCount : ℕ
  warnCount : ℕ
  errorCount : ℕ
  criticalCount : ℕ
  maxSeverity : List Char

def WriteLog.decode (args : Bytes) : Option WriteLog := do
  let fs ← fields args
  return ⟨← getString 1 fs, ← getString 2 fs, ← getString 3 fs, ← getString 4 fs,
    ← getUint 64 5 fs, ← getString 6 fs, ← getString 7 fs⟩

def WriteHash.decode (args : Bytes) : Option WriteHash := do
  let fs ← fields args
  return ⟨← getString 1 fs, ← getString 2 fs, ← getString 3 fs, ← getUint 64 4 fs⟩

def WriteBatch.decode (args : Bytes) : Option WriteBatch := do
  let fs ← fields args
  return ⟨← getString 1 fs, ← getUint 64 2 fs, ← getString 3 fs, ← getString 4 fs,
    ← getUint 32 5 fs, ← getUint 32 6 fs, ← getUint 32 7 fs, ← getUint 32 8 fs,
    ← getUint 32 9 fs, ← getUint 32 10 fs, ← getString 11 fs⟩

structure LogRecord where
  contentHash : List Char
  level : List Char
  source : List Char
  messagePreview : List Char
  historyLen : ℕ
  historyHash : Bytes
  message : List Char
  metadataJson : List Char
  txHash : TxHash

structure HashRecord where
  contentHash : List Char
  level : List Char
  messagePreview : List Char
  historyLen : ℕ
  historyHash : Bytes
  txHash : TxHash

structure BatchRecord where
  contentHash : List Char
  historyLen : ℕ
  historyHash : Bytes
  txHash : TxHash
  startId : List Char
  endId : List Char
  count : ℕ
  debugCount : ℕ
  infoCount : ℕ
  warnCount : ℕ
  errorCount : ℕ
  criticalCount : ℕ
  maxSeverity : List Char

def WriteLog.record (arg : WriteLog) (tx : TxHash) (key : Bytes) (historyLen : ℕ)
    (historyHash : Bytes) : LogRecord where
  contentHash := hexEncode key
  level := arg.level
  source := arg.source
  messagePreview := arg.messagePreview.take 256
  historyLen := historyLen
  historyHash := historyHash
  message := arg.message
  metadataJson := arg.metadataJson
  txHash := tx

def WriteHash.record (arg : WriteHash) (tx : TxHash) (key : Bytes) (historyLen : ℕ)
    (historyHash : Bytes) : HashRecord where
  contentHash := hexEncode key
  level := arg.level
  messagePreview := arg.messagePreview.take 256
  historyLen := historyLen
  historyHash := historyHash
  txHash := tx

def WriteBatch.record (arg : WriteBatch) (tx : TxHash) (key : Bytes) (historyLen : ℕ)
    (historyHash : Bytes) : BatchRecord where
  contentHash := hexEncode key
  historyLen := historyLen
  historyHash := historyHash
  txHash := tx
  startId := arg.startId
  endId := arg.endId
  count := arg.count
  debugCount := arg.debugCount
  infoCount := arg.infoCount
  warnCount := arg.warnCount
  errorCount := arg.errorCount
  criticalCount := arg.criticalCount
  maxSeverity := arg.maxSeverity

/-! ### The node -/

/-- The service instances, with ids 100, 101 and 102. -/
inductive ExonumService
  | log
  | hash
  | batch
deriving DecidableEq

/-- A call of method 0 of a service. -/
structure ExonumTx where
  service : ExonumService
  args : Bytes
  author : Address
deriving DecidableEq

structure Exonum where
  logs : ServiceSchema LogRecord
  hashes : ServiceSchema HashRecord
  batches : ServiceSchema BatchRecord
  /-- The transactions the node has accepted. -/
  txs : List (TxHash × ExonumTx)
  /-- Those that are in a block. -/
  committed : List TxHash

namespace Exonum

def empty : Exonum := ⟨.empty, .empty, .empty, [], []⟩

def keys (n : Exonum) : ExonumService → List Bytes
  | .log => n.logs.keys
  | .hash => n.hashes.keys
  | .batch => n.batches.keys

/-- The node answers a transaction with its hash: different transactions have different ones. -/
def submit (n : Exonum) (tx : ExonumTx) (h : TxHash) : Option Exonum :=
  match n.txs.lookup h with
  | none => some { n with txs := n.txs ++ [(h, tx)] }
  | some tx' => if tx' = tx then some n else none

/-- What a transaction does when it is executed. -/
def execute (objectHash : ObjectHash) (n : Exonum) (h : TxHash) (tx : ExonumTx) : Exonum :=
  match tx.service with
  | .log => match WriteLog.decode tx.args with
    | none => n
    | some arg => match n.logs.write objectHash arg.contentHash (arg.record h) tx.author h with
      | .ok logs => { n with logs := logs }
      | .error _ => n
  | .hash => match WriteHash.decode tx.args with
    | none => n
    | some arg => match n.hashes.write objectHash arg.contentHash (arg.record h) tx.author h with
      | .ok hashes => { n with hashes := hashes }
      | .error _ => n
  | .batch => match WriteBatch.decode tx.args with
    | none => n
    | some arg => match n.batches.write objectHash arg.contentHash (arg.record h) tx.author h with
      | .ok batches => { n with batches := batches }
      | .error _ => n

/-- A block includes the transaction with hash `h`. -/
def commit (objectHash : ObjectHash) (n : Exonum) (h : TxHash) : Option Exonum :=
  match n.txs.lookup h with
  | none => none
  | some tx =>
    if h ∈ n.committed then none
    else some { execute objectHash n h tx with committed := n.committed ++ [h] }

end Exonum

/-- The key a transaction writes, if its arguments are in order. -/
def ExonumTx.key? (tx : ExonumTx) : Option Bytes :=
  match tx.service with
  | .log => (WriteLog.decode tx.args).bind fun arg => parseHash arg.contentHash
  | .hash => (WriteHash.decode tx.args).bind fun arg => parseHash arg.contentHash
  | .batch => (WriteBatch.decode tx.args).bind fun arg => parseHash arg.contentHash

/-! ### Hashes in hexadecimal -/

lemma hexUnit_digit : ∀ n < 16,
    isHigh (hexUnit n) = false ∧ hexDigit (unitChar (hexUnit n)) = some n := by
  decide

lemma hexDecode_chars (bs : Bytes) : hexDecode (chars (toHex bs)) = some bs := by
  induction bs with
  | nil => rfl
  | cons b bs ih =>
    have hb := b.toNat_lt
    obtain ⟨hi, hhi⟩ := hexUnit_digit (b.toNat / 16) (by omega)
    obtain ⟨lo, hlo⟩ := hexUnit_digit (b.toNat % 16) (by omega)
    rw [toHex] at ih
    rw [toHex, List.flatMap_cons, hexByte, List.cons_append, List.cons_append, List.nil_append,
      chars_cons hi, chars_cons lo, hexDecode, hhi, hlo, ih]
    simp only [Nat.div_add_mod, UInt8.ofNat_toNat]

lemma hexDigit_toLower (c : Char) : hexDigit c.toLower = hexDigit c := by
  by_cases h : 'A' ≤ c ∧ c ≤ 'Z'
  · obtain ⟨n, hn, rfl⟩ : ∃ n < 26, c = Char.ofNat (65 + n) := by
      refine ⟨c.toNat - 65, ?_, ?_⟩
      · have hle : c.toNat ≤ 90 := h.2
        omega
      · have hge : 65 ≤ c.toNat := h.1
        rw [Nat.add_sub_cancel' hge, Char.ofNat_toNat]
    revert n
    decide
  · delta Char.toLower
    rw [dif_neg]
    exact fun hupper => h ⟨hupper.1, hupper.2⟩

/-- The case of its letters makes no difference to a text. -/
lemma hexDecode_map_toLower : ∀ s : List Char, hexDecode (s.map Char.toLower) = hexDecode s
  | [] => rfl
  | [_] => rfl
  | c :: d :: cs => by
    rw [List.map_cons, List.map_cons, hexDecode, hexDecode, hexDigit_toLower, hexDigit_toLower,
      hexDecode_map_toLower cs]

/-- A hash can be spelled with small and with capital letters. -/
lemma parseHash_spelling {s : List Char} {key : Bytes} (hlen : key.length = 32)
    (h : s.map Char.toLower = hexEncode key) : parseHash s = some key := by
  rw [parseHash, ← hexDecode_map_toLower, h, hexEncode, hexDecode_chars]
  simp [hlen]

/-- A digest is read as the hash it is the text of. -/
lemma parseHash_digest {s : JsString} (h : IsDigest s) :
    parseHash (chars s) = some (bufferFromHex s) := by
  obtain ⟨b, hb, rfl⟩ := h
  rw [parseHash, hexDecode_chars, bufferFromHex_toHex]
  simp [hb]

/-! ### What a write changes -/

namespace ServiceSchema

variable {R : Type} {s s' : ServiceSchema R} {objectHash : ObjectHash} {contentHash : List Char}
  {record : Bytes → ℕ → Bytes → R} {submitter : Address} {tx : TxHash}

/-- A write that succeeds adds one record. -/
lemma write_ok (h : s.write objectHash contentHash record submitter tx = .ok s') :
    ∃ key, parseHash contentHash = some key ∧ key ∉ s.keys ∧ ∃ len hash,
      s'.records = s.records ++ [(key, record key len hash)] := by
  rw [write] at h
  cases hp : parseHash contentHash with
  | none => simp [hp] at h
  | some key =>
    simp only [hp] at h
    split at h
    · cases h
    · next hnew => exact ⟨key, rfl, hnew, _, _, by rw [← Except.ok.inj h]; rfl⟩

/-- A write that fails although its argument is a hash finds a record. -/
lemma write_error {key : Bytes} {err : WriteError}
    (h : s.write objectHash contentHash record submitter tx = .error err)
    (hkey : parseHash contentHash = some key) : key ∈ s.keys := by
  rw [write, hkey] at h
  by_contra hnew
  simp [hnew] at h

end ServiceSchema

namespace Exonum

/-- The tables and the transactions of a node only grow. -/
structure Le (n n' : Exonum) : Prop where
  logs : n.logs.records ⊆ n'.logs.records
  hashes : n.hashes.records ⊆ n'.hashes.records
  batches : n.batches.records ⊆ n'.batches.records
  txs : ∀ h tx, n.txs.lookup h = some tx → n'.txs.lookup h = some tx
  committed : n.committed ⊆ n'.committed

lemma Le.refl (n : Exonum) : Le n n :=
  ⟨List.Subset.refl _, List.Subset.refl _, List.Subset.refl _, fun _ _ h => h,
    List.Subset.refl _⟩

lemma Le.trans {a b c : Exonum} (h : Le a b) (h' : Le b c) : Le a c :=
  ⟨List.Subset.trans h.logs h'.logs, List.Subset.trans h.hashes h'.hashes,
    List.Subset.trans h.batches h'.batches, fun i tx hi => h'.txs i tx (h.txs i tx hi),
    List.Subset.trans h.committed h'.committed⟩

lemma Le.keys {n n' : Exonum} (h : Le n n') (service : ExonumService) :
    n.keys service ⊆ n'.keys service := by
  cases service with
  | log => exact List.map_subset _ h.logs
  | hash => exact List.map_subset _ h.hashes
  | batch => exact List.map_subset _ h.batches

variable {n n' : Exonum} {objectHash : ObjectHash} {h : TxHash} {tx : ExonumTx}

lemma le_of_submit (hn : n.submit tx h = some n') : Le n n' ∧ n'.txs.lookup h = some tx := by
  rw [submit] at hn
  cases hl : n.txs.lookup h with
  | none =>
    rw [hl] at hn
    cases hn
    refine ⟨⟨List.Subset.refl _, List.Subset.refl _, List.Subset.refl _, fun i t hi => ?_,
      List.Subset.refl _⟩, ?_⟩
    · simp only [List.lookup_append, hi, Option.some_or]
    · simp [List.lookup_append, hl]
  | some tx' =>
    rw [hl] at hn
    simp only at hn
    split at hn
    · next heq =>
      cases hn
      exact ⟨.refl n, heq ▸ hl⟩
    · cases hn

lemma le_execute (objectHash : ObjectHash) (n : Exonum) (h : TxHash) (tx : ExonumTx) :
    Le n (execute objectHash n h tx) := by
  rw [execute]
  split
  · split
    · exact .refl n
    · split
      · next logs hw =>
        obtain ⟨_, _, _, _, _, hr⟩ := ServiceSchema.write_ok hw
        exact { Le.refl n with logs := by simp [hr] }
      · exact .refl n
  · split
    · exact .refl n
    · split
      · next hashes hw =>
        obtain ⟨_, _, _, _, _, hr⟩ := ServiceSchema.write_ok hw
        exact { Le.refl n with hashes := by simp [hr] }
      · exact .refl n
  · split
    · exact .refl n
    · split
      · next batches hw =>
        obtain ⟨_, _, _, _, _, hr⟩ := ServiceSchema.write_ok hw
        exact { Le.refl n with batches := by simp [hr] }
      · exact .refl n

lemma le_commit (hn : n.commit objectHash h = some n') : Le n n' := by
  rw [commit] at hn
  split at hn
  · cases hn
  · split at hn
    · cases hn
    · cases hn
      have hle := le_execute objectHash n h ‹_›
      exact { hle with committed := List.subset_append_left _ _ }

/-- After the execution of a transaction whose arguments are in order its key has a record. -/
lemma key_mem_execute {key : Bytes} (hkey : tx.key? = some key) :
    key ∈ (execute objectHash n h tx).keys tx.service := by
  rw [ExonumTx.key?] at hkey
  rw [execute]
  cases hs : tx.service <;> simp only [hs] at hkey ⊢
  all_goals
    obtain ⟨arg, harg, hparse⟩ := Option.bind_eq_some_iff.mp hkey
    simp only [harg]
    split
    · next hw =>
      obtain ⟨key', hkey', _, _, _, hr⟩ := ServiceSchema.write_ok hw
      rw [hparse] at hkey'
      simp [keys, ServiceSchema.keys, hr, Option.some.inj hkey']
    · next hw => exact ServiceSchema.write_error hw hparse

/-- The body of a log record. -/
def body (r : LogRecord) : List Char × List Char := (r.message, r.metadataJson)

/-- A new log record has the body its transaction was given. -/
lemma mem_logs_execute {key : Bytes} {r : LogRecord}
    (hr : (key, r) ∈ (execute objectHash n h tx).logs.records) :
    (key, r) ∈ n.logs.records ∨ tx.service = .log ∧ tx.key? = some key ∧
      ∃ arg, WriteLog.decode tx.args = some arg ∧ body r = (arg.message, arg.metadataJson) := by
  rw [execute] at hr
  cases hs : tx.service with
  | log =>
    simp only [hs] at hr
    split at hr
    · exact .inl hr
    · next arg harg =>
      split at hr
      · next hw =>
        obtain ⟨key', hkey', _, len, hash, hrecords⟩ := ServiceSchema.write_ok hw
        rw [hrecords] at hr
        rcases List.mem_append.mp hr with hr | hr
        · exact .inl hr
        · obtain ⟨rfl, rfl⟩ := Prod.mk.inj (List.mem_singleton.mp hr)
          refine .inr ⟨rfl, ?_, arg, harg, rfl⟩
          rw [ExonumTx.key?, hs]
          simp only [harg, Option.bind_some, hkey']
      · exact .inl hr
  | hash =>
    simp only [hs] at hr
    split at hr
    · exact .inl hr
    · split at hr <;> exact .inl hr
  | batch =>
    simp only [hs] at hr
    split at hr
    · exact .inl hr
    · split at hr <;> exact .inl hr

/-- What holds of a node that started empty: a transaction of a block has left a record if its
arguments are in order, and each log record comes from a transaction. -/
structure Ok (n : Exonum) : Prop where
  executed : ∀ h ∈ n.committed, ∃ tx, n.txs.lookup h = some tx ∧
    ∀ key, tx.key? = some key → key ∈ n.keys tx.service
  recorded : ∀ key r, (key, r) ∈ n.logs.records → ∃ h tx arg, n.txs.lookup h = some tx ∧
    tx.service = .log ∧ tx.key? = some key ∧ WriteLog.decode tx.args = some arg ∧
      body r = (arg.message, arg.metadataJson)

lemma Ok.empty : Ok .empty := ⟨by simp [Exonum.empty], by simp [Exonum.empty, ServiceSchema.empty]⟩

lemma Ok.submit (hok : Ok n) (hn : n.submit tx h = some n') : Ok n' := by
  obtain ⟨hle, _⟩ := le_of_submit hn
  have hsame : n'.committed = n.committed ∧ n'.logs = n.logs := by
    rw [Exonum.submit] at hn
    split at hn
    · cases hn
      exact ⟨rfl, rfl⟩
    · split at hn
      · cases hn
        exact ⟨rfl, rfl⟩
      · cases hn
  refine ⟨fun i hi => ?_, fun key r hr => ?_⟩
  · obtain ⟨t, ht, hkeys⟩ := hok.executed i (hsame.1 ▸ hi)
    exact ⟨t, hle.txs i t ht, fun key hkey => hle.keys _ (hkeys key hkey)⟩
  · obtain ⟨i, t, arg, ht, hrest⟩ := hok.recorded key r (hsame.2 ▸ hr)
    exact ⟨i, t, arg, hle.txs i t ht, hrest⟩

lemma Ok.commit (hok : Ok n) (hn : n.commit objectHash h = some n') : Ok n' := by
  have hle := le_commit hn
  rw [Exonum.commit] at hn
  split at hn
  · cases hn
  · next tx htx =>
    split at hn
    · cases hn
    · cases hn
      refine ⟨fun i hi => ?_, fun key r hr => ?_⟩
      · rcases List.mem_append.mp hi with hi | hi
        · obtain ⟨t, ht, hkeys⟩ := hok.executed i hi
          exact ⟨t, hle.txs i t ht, fun key hkey => hle.keys _ (hkeys key hkey)⟩
        · obtain rfl := List.mem_singleton.mp hi
          exact ⟨tx, hle.txs i tx htx, fun key hkey => key_mem_execute hkey⟩
      · rcases mem_logs_execute hr with hr | ⟨hs, hkey, arg, harg, hbody⟩
        · obtain ⟨i, t, arg, ht, hrest⟩ := hok.recorded key r hr
          exact ⟨i, t, arg, hle.txs i t ht, hrest⟩
        · exact ⟨h, tx, arg, hle.txs h tx htx, hs, hkey, harg, hbody⟩

end Exonum

end HybridLog
