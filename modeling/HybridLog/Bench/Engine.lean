import HybridLog.Api.Server
import HybridLog.Bench.Drivers
import Mathlib.Data.Rat.Floor

/-!
# The benchmark engine

A cell of a benchmark writes its entries with one of the drivers and then queries the database
about them. `cell_completes_iff` says which cells return a result that accounts for every write:
the queries about the status of a hybrid strategy go to its leaf table, and the batched tables of
PostgreSQL have no column for it. Times and the figures computed from them are left out, and so
are writes that throw.
-/

namespace HybridLog

open Js Async

/-! ### Tables of PostgreSQL -/

inductive Table
  | log (t : LogTable)
  | batches (s : Side)
deriving DecidableEq

inductive Column
  | id | timestamp | level | source | message | metadata | createdAt
  | contentHash
  | anchorStatus | anchorTxHash | anchorBlock | anchoredAt
  | batchRoot | leafIndex
  | merkleRoot | startId | endId | logCount
  | debugCount | infoCount | warnCount | errorCount | criticalCount | maxSeverity
deriving DecidableEq

/-- The columns that `initialize` creates. -/
def Table.columns : Table → List Column
  | .log .offchain => [.id, .timestamp, .level, .source, .message, .metadata, .createdAt]
  | .log (.anchored _) => [.id, .timestamp, .level, .source, .message, .metadata, .createdAt,
      .contentHash, .anchorStatus, .anchorTxHash, .anchorBlock, .anchoredAt]
  | .log (.batched _) => [.id, .timestamp, .level, .source, .message, .metadata, .createdAt,
      .contentHash, .batchRoot, .leafIndex]
  | .batches _ => [.merkleRoot, .startId, .endId, .logCount, .debugCount, .infoCount, .warnCount,
      .errorCount, .criticalCount, .maxSeverity, .anchorStatus, .anchorTxHash, .anchorBlock,
      .anchoredAt, .createdAt]

/-- Tables touched by a strategy. -/
def tablesFor : LogStrategy → List Table
  | .databaseOnly => [.log .offchain]
  | .hybridPrivate => [.log (.anchored .priv)]
  | .hybridPublic => [.log (.anchored .pub)]
  | .hybridPrivateBatch => [.log (.batched .priv), .batches .priv]
  | .hybridPublicBatch => [.log (.batched .pub), .batches .pub]
  | _ => []

/-- The table that holds the content of the entries. -/
def leafTableFor (s : LogStrategy) : Option Table := (tablesFor s).head?

/-! ### Configurations -/

structure BenchmarkConfig where
  strategy : LogStrategy
  mode : WriteMode
  concurrency : ℕ
  totalWrites : ℕ
  batchSize : ℕ
  db : Option Db
  tamperPercent : Option ℚ

/-- Whether the storages and clients that an engine is given are there. -/
structure BenchmarkEngine where
  /-- Of a storage, whether it has a `writeBatch`. -/
  storages : LogStrategy → Option Bool
  mqClient : Bool
  pgAdapter : Bool
  mongoAdapter : Bool

/-- The adapter that a cell queries. -/
def BenchmarkEngine.adapter (engine : BenchmarkEngine) (cfg : BenchmarkConfig) : Option Db :=
  match cfg.db.getD .postgres with
  | .mongo => if engine.mongoAdapter then some .mongo else none
  | .postgres => if engine.pgAdapter then some .postgres else none

/-- What a cell does not determine itself. -/
structure BenchEnv where
  id : ℕ → JsString
  time : ℕ → JsDate
  metadata : ℕ → JsonValue
  /-- What the storage answers. -/
  answers : BatchAnswers
  /-- The success of the replies that come before the timeout. -/
  replies : List Bool

def benchSources : List JsString :=
  [ofString "api-gateway", ofString "auth-service", ofString "data-pipeline", ofString "scheduler",
    ofString "worker"]

def generateLogs (env : BenchEnv) (count : ℕ) : List LogEntry :=
  (List.range count).map fun i =>
    .create (env.id i) (env.time i) (levelNames.getD (i % 5) infoLevel)
      (benchSources.getD (i % 5) [])
      (ofString ("Benchmark log entry #" ++ toString i ++ " at " ++ toString (env.time i).ms))
      (some (env.metadata i))

/-! ### Requests -/

structure VerifyAnswer where
  valid : Bool
  details : String

inductive BenchReq
  /-- `Date.now() >= deadline` -/
  | late
  /-- `Math.floor(Math.random() * (i + 1))` -/
  | random (i : ℕ)
  | countByStatus (table : Table) (status : AnchorStatus)
  | avgExposureWindowMs (table : Table)
  | tableSizeBytes (table : Table)
  | tamperLog (id : JsString) (table : Table)
  /-- The storage looks an entry up in its table, if it has one. -/
  | verifyLog (id : JsString) (table : Option Table)

abbrev BenchReq.Resp : BenchReq → Type
  | .late => Bool
  | .random i => Fin (i + 1)
  | .countByStatus _ _ => Except JsError ℕ
  | .avgExposureWindowMs _ => Except JsError ℚ
  | .tableSizeBytes _ => Except JsError ℕ
  | .tamperLog _ _ => Except JsError Bool
  | .verifyLog _ _ => Except JsError VerifyAnswer

/-- The columns a query names, with the table it is sent to. -/
def BenchReq.named : BenchReq → Option (Table × List Column)
  | .late | .random _ | .verifyLog _ none => none
  | .countByStatus table _ => some (table, [.anchorStatus])
  | .avgExposureWindowMs table => some (table, [.anchoredAt, .createdAt, .anchorStatus])
  | .tableSizeBytes table => some (table, [])
  | .tamperLog _ table => some (table, [.message, .id])
  | .verifyLog _ (some table) => some (table, [.id])

/-- The query names columns of its table only; MongoDB does not mind. -/
def BenchReq.Valid (adapter : Option Db) (e : BenchReq) : Prop :=
  adapter = some .postgres → ∀ q ∈ e.named, ∀ c ∈ q.2, c ∈ q.1.columns

def BenchReq.succeeds : (e : BenchReq) → e.Resp → Bool
  | .late, _ | .random _, _ => true
  | .countByStatus _ _, r | .tableSizeBytes _, r => r.isOk
  | .avgExposureWindowMs _, r => r.isOk
  | .tamperLog _ _, r => r.isOk
  | .verifyLog _ _, r => r.isOk

/-- A query is rejected exactly if it names a missing column. -/
def BenchReq.admits (adapter : Option Db) (e : BenchReq) (r : e.Resp) : Prop :=
  e.succeeds r ↔ e.Valid adapter

abbrev BenchTask := Task BenchReq BenchReq.Resp JsError

def late : BenchTask Bool := Task.request .late .ok

def random (i : ℕ) : BenchTask (Fin (i + 1)) := Task.request (.random i) .ok

def countByStatus (table : Table) (status : AnchorStatus) : BenchTask ℕ :=
  Task.request (.countByStatus table status) id

def avgExposureWindowMs (table : Table) : BenchTask ℚ :=
  Task.request (.avgExposureWindowMs table) id

def tableSizeBytes (table : Table) : BenchTask ℕ := Task.request (.tableSizeBytes table) id

def tamperLog (id : JsString) (table : Table) : BenchTask Bool :=
  Task.request (.tamperLog id table) fun r => r

def verifyEntry (id : JsString) (table : Option Table) : BenchTask VerifyAnswer :=
  Task.request (.verifyLog id table) fun r => r

/-! ### The queries after the writes -/

/-- Wait for the confirm queue to settle; between two polls two seconds pass, so that `n` polls
are left until the deadline. -/
def awaitSettled (table : Table) : ℕ → BenchTask Unit
  | 0 => pure ()
  | n + 1 => do
    if ← late then return ()
    let stillPending ← countByStatus table .pending
    if stillPending = 0 then return ()
    awaitSettled table n

/-- The polls that fit into two minutes. -/
def maxPolls : ℕ := 120000 / 2000

/-- `exposureWindowMs` -/
def exposureWindow (adapter : Option Db) (cfg : BenchmarkConfig) (successCount : ℕ) :
    BenchTask ℚ :=
  match adapter, leafTableFor cfg.strategy with
  | some _, some leaf =>
    if cfg.strategy.isHybrid && 0 < successCount then do
      awaitSettled leaf maxPolls
      avgExposureWindowMs leaf
    else pure 0
  | _, _ => pure 0

def sizes : List Table → BenchTask ℕ
  | [] => pure 0
  | t :: ts => do
    let size ← tableSizeBytes t
    let rest ← sizes ts
    return size + rest

/-- The size of the tables the strategy wrote to. -/
def storageOverhead (adapter : Option Db) (cfg : BenchmarkConfig) : BenchTask ℕ :=
  if adapter.isSome then sizes (tablesFor cfg.strategy) else pure 0

/-- `[pool[i], pool[j]] = [pool[j], pool[i]]` -/
def swap (pool : List JsString) (i j : ℕ) : List JsString :=
  (pool.set i (pool.getD j [])).set j (pool.getD i [])

/-- The loop of `pickRandomIds`, from index `i` down. -/
def shuffle : ℕ → List JsString → BenchTask (List JsString)
  | 0, pool => pure pool
  | i + 1, pool => do
    let j ← random (i + 1)
    shuffle i (swap pool (i + 1) j)

def pickRandomIds (logs : List LogEntry) (n : ℕ) : BenchTask (List JsString) := do
  let pool ← shuffle (logs.length - 1) (logs.map LogEntry.id)
  return pool.take (min n pool.length)

inductive TamperType
  | update
  | notApplicable
deriving DecidableEq

structure TamperedLog where
  id : JsString
  beforeMessage : JsString
  afterMessage : JsString
  tamperType : TamperType
  detected : Bool
  verifyDetails : String

def LogStrategy.isPureChain : LogStrategy → Bool
  | .privateChain | .publicChain => true
  | _ => false

/-- Nothing is recorded where there is no table to tamper with. -/
def tamperOne (adapter : Option Db) (cfg : BenchmarkConfig) (logs : List LogEntry) (id : JsString) :
    BenchTask (Option TamperedLog) :=
  let beforeMessage := ((logs.find? fun l => l.id = id).map LogEntry.message).getD []
  if cfg.strategy.isPureChain then
    pure (some ⟨id, beforeMessage, beforeMessage, .notApplicable, true,
      "Chain is immutable — log content cannot be modified"⟩)
  else match adapter, leafTableFor cfg.strategy with
    | some _, some leaf => do
      let _ ← tamperLog id leaf
      let r ← verifyEntry id (some leaf)
      return some ⟨id, beforeMessage, beforeMessage ++ ofString " [tampered]", .update, !r.valid,
        r.details⟩
    | _, _ => pure none

def tamperAll (adapter : Option Db) (cfg : BenchmarkConfig) (logs : List LogEntry) :
    List JsString → BenchTask (List TamperedLog)
  | [] => pure []
  | id :: ids => do
    let tampered ← tamperOne adapter cfg logs id
    let rest ← tamperAll adapter cfg logs ids
    return tampered.toList ++ rest

def BenchmarkConfig.percent (cfg : BenchmarkConfig) : ℚ :=
  max 0 (min 100 (cfg.tamperPercent.getD 10))

/-- The tamper sub-test. -/
def tamperTest (adapter : Option Db) (cfg : BenchmarkConfig) (logs : List LogEntry)
    (successCount : ℕ) : BenchTask (List TamperedLog) :=
  if 0 < successCount && 0 < cfg.percent then do
    let tamperCount := max 1 ⌈successCount * cfg.percent / 100⌉
    let sampleIds ← pickRandomIds logs tamperCount.toNat
    tamperAll adapter cfg logs sampleIds
  else pure []

def verifyAll (leaf : Option Table) : List JsString → BenchTask Unit
  | [] => pure ()
  | id :: ids => do
    let _ ← verifyEntry id leaf
    verifyAll leaf ids

/-- The verification-time sample, of entries that were not tampered with if there are any. -/
def verifySample (cfg : BenchmarkConfig) (logs : List LogEntry) (tamperedLogs : List TamperedLog)
    (successCount : ℕ) : BenchTask Unit :=
  if 0 < successCount && 0 < logs.length then
    let cleanLogs := logs.filter fun l => tamperedLogs.all fun t => t.id ≠ l.id
    let pool := if 0 < cleanLogs.length then cleanLogs else logs
    verifyAll (leafTableFor cfg.strategy) ((pool.take (min 10 pool.length)).map LogEntry.id)
  else pure ()

structure BenchmarkResult where
  strategy : LogStrategy
  mode : WriteMode
  concurrency : ℕ
  totalWrites : ℕ
  successCount : ℕ
  failureCount : ℤ
  storageOverheadBytes : ℕ
  tamperPercent : ℚ
  tamperedSamples : ℕ
  detectedSamples : ℕ
  tamperedLogs : List TamperedLog
  integrityExposureWindowMs : ℚ

/-- What `run` does once the writes are settled. -/
def queries (adapter : Option Db) (cfg : BenchmarkConfig) (logs : List LogEntry)
    (successCount : ℕ) (failureCount : ℤ) : BenchTask BenchmarkResult := do
  let exposureWindowMs ← exposureWindow adapter cfg successCount
  let storageBytes ← storageOverhead adapter cfg
  let tamperedLogs ← tamperTest adapter cfg logs successCount
  verifySample cfg logs tamperedLogs successCount
  return {
    strategy := cfg.strategy
    mode := cfg.mode
    concurrency := cfg.concurrency
    totalWrites := cfg.totalWrites
    successCount := successCount
    failureCount := failureCount
    storageOverheadBytes := storageBytes
    tamperPercent := cfg.percent
    tamperedSamples := tamperedLogs.length
    detectedSamples := tamperedLogs.countP TamperedLog.detected
    tamperedLogs := tamperedLogs
    integrityExposureWindowMs := exposureWindowMs }

/-! ### When the queries succeed -/

section Queries

variable {adapter : Option Db} {cfg : BenchmarkConfig} {logs : List LogEntry} {α β : Type}

/-- Whatever the answers, the task resolves. -/
def Safe (adapter : Option Db) (p : BenchTask α) : Prop :=
  p.Resolves (BenchReq.admits adapter) fun _ => True

lemma Safe.bind {p : BenchTask α} {f : α → BenchTask β} (h : Safe adapter p)
    (hf : ∀ a, Safe adapter (f a)) : Safe adapter (p >>= f) :=
  Task.Resolves.bind h fun a _ => hf a

lemma safe_pure (a : α) : Safe adapter (pure a : BenchTask α) := Task.resolves_pure trivial

/-- A query that names no missing column is answered. -/
lemma safe_request {e : BenchReq} {k : e.Resp → Except JsError α} (hvalid : e.Valid adapter)
    (hsome : ∃ r, e.succeeds r) (hk : ∀ r, e.succeeds r → ∃ a, k r = .ok a) :
    Safe adapter (Task.request e k) := by
  refine Task.resolves_request ?_ fun r hr => ?_
  · obtain ⟨r, hr⟩ := hsome
    exact ⟨r, iff_of_true hr hvalid⟩
  · obtain ⟨a, ha⟩ := hk r (hr.mpr hvalid)
    exact ⟨a, ha, trivial⟩

lemma exists_ok {x : Except JsError α} (h : x.isOk = true) : ∃ a, x = .ok a := by
  cases x with
  | ok a => exact ⟨a, rfl⟩
  | error err => cases h

lemma valid_of_unnamed {e : BenchReq} (h : e.named = none) : e.Valid adapter := by
  intro _ q hq
  rw [h] at hq
  cases hq

lemma valid_of_named {e : BenchReq} {table : Table} {cols : List Column}
    (h : e.named = some (table, cols)) (hcols : ∀ c ∈ cols, c ∈ table.columns) :
    e.Valid adapter := by
  intro _ q hq
  rw [h, Option.mem_some_iff] at hq
  rw [← hq]
  exact hcols

lemma safe_late : Safe adapter late :=
  safe_request (valid_of_unnamed rfl) ⟨false, rfl⟩ fun r _ => ⟨r, rfl⟩

lemma safe_random (i : ℕ) : Safe adapter (random i) :=
  safe_request (valid_of_unnamed rfl) ⟨0, rfl⟩ fun r _ => ⟨r, rfl⟩

lemma safe_countByStatus {table : Table} {status : AnchorStatus}
    (h : (BenchReq.countByStatus table status).Valid adapter) :
    Safe adapter (countByStatus table status) :=
  safe_request h ⟨.ok 0, rfl⟩ fun _ hr => exists_ok hr

lemma safe_avgExposureWindowMs {table : Table}
    (h : (BenchReq.avgExposureWindowMs table).Valid adapter) :
    Safe adapter (avgExposureWindowMs table) :=
  safe_request h ⟨.ok 0, rfl⟩ fun _ hr => exists_ok hr

lemma safe_tableSizeBytes (table : Table) : Safe adapter (tableSizeBytes table) :=
  safe_request (valid_of_named rfl fun _ h => absurd h List.not_mem_nil) ⟨.ok 0, rfl⟩
    fun _ hr => exists_ok hr

lemma exists_log_of_leaf {s : LogStrategy} {leaf : Table} (h : leafTableFor s = some leaf) :
    ∃ t, leaf = .log t := by
  cases s <;> cases h <;> exact ⟨_, rfl⟩

lemma mem_columns_log (t : LogTable) : .message ∈ (Table.log t).columns ∧
    .id ∈ (Table.log t).columns := by
  cases t <;> simp [Table.columns]

lemma safe_tamperLog (id : JsString) (t : LogTable) : Safe adapter (tamperLog id (.log t)) := by
  refine safe_request (valid_of_named rfl fun c hc => ?_) ⟨.ok true, rfl⟩ fun _ hr => exists_ok hr
  obtain ⟨hmessage, hid⟩ := mem_columns_log t
  simp only [List.mem_cons, List.not_mem_nil, or_false] at hc
  rcases hc with rfl | rfl
  · exact hmessage
  · exact hid

lemma safe_verifyEntry (id : JsString) (s : LogStrategy) :
    Safe adapter (verifyEntry id (leafTableFor s)) := by
  refine safe_request ?_ ⟨.ok ⟨true, ""⟩, rfl⟩ fun _ hr => exists_ok hr
  cases hleaf : leafTableFor s with
  | none => exact valid_of_unnamed rfl
  | some leaf =>
    obtain ⟨t, rfl⟩ := exists_log_of_leaf hleaf
    refine valid_of_named rfl fun c hc => ?_
    rw [List.mem_singleton.mp hc]
    exact (mem_columns_log t).2

lemma safe_awaitSettled {table : Table}
    (h : (BenchReq.countByStatus table .pending).Valid adapter) (n : ℕ) :
    Safe adapter (awaitSettled table n) := by
  induction n with
  | zero => exact safe_pure ()
  | succ n ih =>
    refine safe_late.bind fun b => ?_
    cases b with
    | true => exact safe_pure ()
    | false =>
      refine (safe_countByStatus h).bind fun k => ?_
      by_cases hk : k = 0
      · rw [if_pos hk]
        exact safe_pure ()
      · rw [if_neg hk]
        exact ih

/-- The leaf table of a hybrid strategy has the columns about anchoring unless it is a batched
one. -/
lemma mem_columns_anchored {s : LogStrategy} {leaf : Table} (hhybrid : s.isHybrid = true)
    (hbatch : s.isBatch = false) (h : leafTableFor s = some leaf) :
    ∀ c ∈ [Column.anchoredAt, .createdAt, .anchorStatus], c ∈ leaf.columns := by
  cases s <;> simp [LogStrategy.isHybrid, LogStrategy.isBatch, leafTableFor, tablesFor]
    at hhybrid hbatch h <;> subst h <;> simp [Table.columns]

lemma safe_exposureWindow {successCount : ℕ}
    (h : ¬ (cfg.strategy.isBatch = true ∧ adapter = some .postgres ∧ 0 < successCount)) :
    Safe adapter (exposureWindow adapter cfg successCount) := by
  unfold exposureWindow
  cases hadapter : adapter with
  | none => exact safe_pure 0
  | some db =>
    cases hleaf : leafTableFor cfg.strategy with
    | none => exact safe_pure 0
    | some leaf =>
      simp only
      by_cases hcond : (cfg.strategy.isHybrid && decide (0 < successCount)) = true
      · rw [if_pos hcond]
        rw [Bool.and_eq_true, decide_eq_true_iff] at hcond
        have hcols : some db = some .postgres →
            ∀ c ∈ [Column.anchoredAt, .createdAt, .anchorStatus], c ∈ leaf.columns := by
          intro hdb
          refine mem_columns_anchored hcond.1 ?_ hleaf
          rw [← Bool.not_eq_true]
          exact fun hb => h ⟨hb, hadapter.trans hdb, hcond.2⟩
        have hcount : (BenchReq.countByStatus leaf .pending).Valid (some db) := by
          intro hdb q hq c hc
          rw [← Option.some.inj hq] at hc ⊢
          rw [List.mem_singleton.mp hc]
          exact hcols hdb _ (by decide)
        have havg : (BenchReq.avgExposureWindowMs leaf).Valid (some db) := by
          intro hdb q hq c hc
          rw [← Option.some.inj hq] at hc ⊢
          exact hcols hdb c hc
        exact (safe_awaitSettled hcount maxPolls).bind fun _ => safe_avgExposureWindowMs havg
      · rw [if_neg hcond]
        exact safe_pure 0

lemma safe_sizes (tables : List Table) : Safe adapter (sizes tables) := by
  induction tables with
  | nil => exact safe_pure 0
  | cons t ts ih =>
    exact (safe_tableSizeBytes t).bind fun _ => ih.bind fun _ => safe_pure _

lemma safe_storageOverhead : Safe adapter (storageOverhead adapter cfg) := by
  rw [storageOverhead]
  split
  · exact safe_sizes _
  · exact safe_pure 0

lemma safe_shuffle (i : ℕ) (pool : List JsString) : Safe adapter (shuffle i pool) := by
  induction i generalizing pool with
  | zero => exact safe_pure pool
  | succ i ih => exact (safe_random (i + 1)).bind fun j => ih _

lemma safe_tamperOne (id : JsString) : Safe adapter (tamperOne adapter cfg logs id) := by
  unfold tamperOne
  by_cases hpure : cfg.strategy.isPureChain = true
  · rw [if_pos hpure]
    exact safe_pure _
  · rw [if_neg hpure]
    have hverify : Safe adapter (verifyEntry id (leafTableFor cfg.strategy)) :=
      safe_verifyEntry id cfg.strategy
    cases adapter with
    | none => exact safe_pure none
    | some db =>
      cases hleaf : leafTableFor cfg.strategy with
      | none => exact safe_pure none
      | some leaf =>
        rw [hleaf] at hverify
        obtain ⟨t, rfl⟩ := exists_log_of_leaf hleaf
        exact (safe_tamperLog id t).bind fun _ => hverify.bind fun _ => safe_pure _

lemma safe_tamperAll (ids : List JsString) : Safe adapter (tamperAll adapter cfg logs ids) := by
  induction ids with
  | nil => exact safe_pure []
  | cons id ids ih => exact (safe_tamperOne id).bind fun _ => ih.bind fun _ => safe_pure _

lemma safe_tamperTest (successCount : ℕ) :
    Safe adapter (tamperTest adapter cfg logs successCount) := by
  rw [tamperTest]
  by_cases hcond : (decide (0 < successCount) && decide (0 < cfg.percent)) = true
  · rw [if_pos hcond]
    refine Safe.bind ((safe_shuffle _ _).bind fun _ => safe_pure _) fun ids => ?_
    exact safe_tamperAll ids
  · rw [if_neg hcond]
    exact safe_pure []

lemma safe_verifyAll (ids : List JsString) :
    Safe adapter (verifyAll (leafTableFor cfg.strategy) ids) := by
  induction ids with
  | nil => exact safe_pure ()
  | cons id ids ih => exact (safe_verifyEntry id cfg.strategy).bind fun _ => ih

lemma safe_verifySample (tamperedLogs : List TamperedLog) (successCount : ℕ) :
    Safe adapter (verifySample cfg logs tamperedLogs successCount) := by
  rw [verifySample]
  by_cases hcond : (decide (0 < successCount) && decide (0 < logs.length)) = true
  · rw [if_pos hcond]
    exact safe_verifyAll _
  · rw [if_neg hcond]
    exact safe_pure ()

/-- The result carries the counters. -/
lemma queries_resolves (logs : List LogEntry) {successCount : ℕ} (failureCount : ℤ)
    (h : ¬ (cfg.strategy.isBatch = true ∧ adapter = some .postgres ∧ 0 < successCount)) :
    (queries adapter cfg logs successCount failureCount).Resolves (BenchReq.admits adapter)
      fun r => r.successCount = successCount ∧ r.failureCount = failureCount := by
  refine Task.Resolves.bind (safe_exposureWindow h) fun _ _ => ?_
  refine Task.Resolves.bind safe_storageOverhead fun _ _ => ?_
  refine Task.Resolves.bind (safe_tamperTest successCount) fun tamperedLogs _ => ?_
  refine Task.Resolves.bind (safe_verifySample tamperedLogs successCount) fun _ _ => ?_
  exact Task.resolves_pure ⟨rfl, rfl⟩

/-- No batched table of PostgreSQL has a status. -/
lemma not_valid_countByStatus {s : LogStrategy} {leaf : Table} (hbatch : s.isBatch = true)
    (h : leafTableFor s = some leaf) (status : AnchorStatus) :
    ¬ (BenchReq.countByStatus leaf status).Valid (some .postgres) := by
  intro hvalid
  have := hvalid rfl _ rfl .anchorStatus (List.mem_singleton_self _)
  cases s <;> simp [LogStrategy.isBatch, leafTableFor, tablesFor] at hbatch h <;> subst h <;>
    simp [Table.columns] at this

lemma awaitSettled_mayReject {table : Table} {n : ℕ}
    (h : ¬ (BenchReq.countByStatus table .pending).Valid adapter) :
    (awaitSettled table (n + 1)).MayReject (BenchReq.admits adapter) := by
  have hlate : BenchReq.late.admits adapter false := iff_of_true rfl (valid_of_unnamed rfl)
  refine Task.mayReject_request_bind hlate rfl ?_
  have hcount : (BenchReq.countByStatus table .pending).admits adapter (Except.error "") :=
    iff_of_false Bool.false_ne_true h
  have hreject : (countByStatus table .pending).MayReject (BenchReq.admits adapter) :=
    Task.mayReject_request hcount rfl
  exact hreject.bind _

/-- After a success the queries of a batched strategy on PostgreSQL may be rejected. -/
lemma queries_mayReject {successCount : ℕ} {failureCount : ℤ}
    (hbatch : cfg.strategy.isBatch = true) (hpos : 0 < successCount) :
    (queries (some .postgres) cfg logs successCount failureCount).MayReject
      (BenchReq.admits (some .postgres)) := by
  refine Task.MayReject.bind ?_ _
  obtain ⟨leaf, hleaf⟩ : ∃ leaf, leafTableFor cfg.strategy = some leaf := by
    cases hs : cfg.strategy <;> first | exact ⟨_, rfl⟩ | (rw [hs] at hbatch; cases hbatch)
  have hhybrid : cfg.strategy.isHybrid = true := by
    cases hs : cfg.strategy <;> first | rfl | (rw [hs] at hbatch; cases hbatch)
  unfold exposureWindow
  rw [hleaf]
  simp only [hhybrid, decide_eq_true hpos, Bool.and_true, if_true]
  exact (awaitSettled_mayReject (n := 59) (not_valid_countByStatus hbatch hleaf _)).bind _

end Queries

/-! ### A cell -/

inductive CellState
  | draining (d : Drain)
  | batching (s : WriterState)
  | writing (d : Bounded)
  | querying (p : Prog BenchReq BenchReq.Resp (Except JsError BenchmarkResult))
  | returned (r : BenchmarkResult)
  | threw (err : JsError)

section Cell

variable (engine : BenchmarkEngine) (cfg : BenchmarkConfig) (env : BenchEnv)

/-- Strategies other than the database's go through the queue if there is one. -/
def useQueue : Bool :=
  cfg.mode = .async && StorageMode.isChainStrategy (.strategy cfg.strategy) && engine.mqClient

/-- The batch writer of a cell; there is no `onFlush`. -/
def batchConfig (hasWriteBatch : Bool) : WriterConfig := ⟨cfg.batchSize, hasWriteBatch, false⟩

def cellWriter : WriterConfig := batchConfig cfg ((engine.storages cfg.strategy).getD false)

/-- `run` up to where it first waits. -/
def CellState.start : CellState :=
  match engine.storages cfg.strategy with
  | none => .threw "Error: No storage found for strategy"
  | some hasWriteBatch =>
    let logs := generateLogs env cfg.totalWrites
    -- `publishLog` throws for the strategy of the database only
    if useQueue engine cfg then .draining ⟨[], env.replies⟩
    else match cfg.mode with
      | .batch => .batching (.writeAll (batchConfig cfg hasWriteBatch) logs)
      | .async => .writing (.start cfg.concurrency cfg.totalWrites)
      -- sequential writes, whatever the configuration says
      | .sync => .writing (.start 1 cfg.totalWrites)

/-- Once the writes are settled. -/
def CellState.query (successCount : ℕ) (failureCount : ℤ) : CellState :=
  .querying (queries (engine.adapter cfg) cfg (generateLogs env cfg.totalWrites) successCount
    failureCount).run

inductive CellStep : CellState → CellState → Prop
  | reply {collected coming : List Bool} {success : Bool} :
    CellStep (.draining ⟨collected, success :: coming⟩)
      (.draining ⟨collected ++ [success], coming⟩)
  | drained {d : Drain} (h : d.Drained cfg.totalWrites) :
    CellStep (.draining d) (.query engine cfg env d.successCount (d.failureCount cfg.totalWrites))
  | batch {s s' : WriterState} (h : BatchStep (cellWriter engine cfg) env.answers s s') :
    CellStep (.batching s) (.batching s')
  /-- The last `flush` finds nothing left. -/
  | batched {s : WriterState} (h : s.Finished) (hflush : s.writer.flush.2 = []) :
    CellStep (.batching s) (.query engine cfg env s.successCount s.failureCount)
  | write {d d' : Bounded} (h : BoundedStep env.answers.log d d') :
    CellStep (.writing d) (.writing d')
  | written {d : Bounded} (h : d.Finished cfg.totalWrites) :
    CellStep (.writing d) (.query engine cfg env d.successCount d.failureCount)
  | answer {p p' : Prog BenchReq BenchReq.Resp (Except JsError BenchmarkResult)}
    (h : Prog.Step (BenchReq.admits (engine.adapter cfg)) p p') :
    CellStep (.querying p) (.querying p')
  | returns {r : BenchmarkResult} : CellStep (.querying (.pure (.ok r))) (.returned r)
  | throws {err : JsError} : CellStep (.querying (.pure (.error err))) (.threw err)

/-- Some write of the cell has a success. -/
def SomeSuccess : Prop :=
  if useQueue engine cfg then true ∈ env.replies
  else if cfg.mode = .batch then env.answers.SomeSuccess (cellWriter engine cfg) cfg.totalWrites
  else ∃ i < cfg.totalWrites, env.answers.log i

/-- The cell has returned a result that accounts for every write. -/
def CellState.Accounted (c : CellState) : Prop :=
  ∃ r, c = .returned r ∧ (r.successCount : ℤ) + r.failureCount = cfg.totalWrites

/-- The queries name a column that is missing. -/
def MissingColumn : Prop :=
  cfg.strategy.isBatch = true ∧ engine.adapter cfg = some .postgres

variable {engine cfg env}

lemma CellState.Accounted.final {c c' : CellState} (h : c.Accounted cfg) :
    ¬ CellStep engine cfg env c c' := by
  obtain ⟨r, rfl, -⟩ := h
  intro hstep
  cases hstep

/-- Where the queries resolve, so does the cell. -/
lemma resolves_inevitable {P : BenchmarkResult → Prop} {p : BenchTask BenchmarkResult}
    (h : p.Resolves (BenchReq.admits (engine.adapter cfg)) P) :
    Inevitable (CellStep engine cfg env) (fun c => ∃ r, c = .returned r ∧ P r)
      (.querying p.run) := by
  have hpure := (Prog.Must.inevitable h).embed (CellStep engine cfg env) (fun _ => True)
    CellState.querying (fun _ _ _ _ => trivial) (fun _ _ => .answer)
    (fun q c _ _ hgo hc => ?_) trivial
  · refine hpure.bind fun c hc => ?_
    obtain ⟨_, rfl, -, _, rfl, r, rfl, hr⟩ := hc
    refine .next ⟨_, .returns⟩ fun c hc => ?_
    cases hc with
    | returns => exact .now ⟨r, rfl, hr⟩
    | answer hstep => cases hstep
  · obtain ⟨q', hq'⟩ := hgo
    cases hc with
    | answer hstep => exact ⟨_, hstep, rfl⟩
    | returns => cases hq'
    | throws => cases hq'

/-- Where the queries may be rejected, the cell may throw. -/
lemma mayReject_run {p : BenchTask BenchmarkResult}
    (h : p.MayReject (BenchReq.admits (engine.adapter cfg))) :
    ∃ err, Relation.ReflTransGen (CellStep engine cfg env) (.querying p.run) (.threw err) := by
  obtain ⟨_, hrun, err, rfl⟩ := Prog.May.exists_run h
  exact ⟨err, (hrun.lift CellState.querying fun _ _ => .answer).tail .throws⟩

/-- Queries that name no missing column, or that are not made, end with a result. -/
lemma query_accounted {successCount : ℕ} {failureCount : ℤ}
    (hsum : (successCount : ℤ) + failureCount = cfg.totalWrites)
    (hsome : 0 < successCount → SomeSuccess engine cfg env)
    (h : ¬ (MissingColumn engine cfg ∧ SomeSuccess engine cfg env)) :
    Inevitable (CellStep engine cfg env) (CellState.Accounted cfg)
      (.query engine cfg env successCount failureCount) := by
  have hresolves := queries_resolves (generateLogs env cfg.totalWrites) failureCount
    fun hbad => h ⟨⟨hbad.1, hbad.2.1⟩, hsome hbad.2.2⟩
  refine (resolves_inevitable hresolves).bind fun c hc => ?_
  obtain ⟨r, rfl, hsuccess, hfailure⟩ := hc
  exact .now ⟨r, rfl, by rw [hsuccess, hfailure, hsum]⟩

/-- A success of a cell whose queries name a missing column may make it throw. -/
lemma query_throws (env : BenchEnv) {successCount : ℕ} (failureCount : ℤ)
    (hmissing : MissingColumn engine cfg) (hpos : 0 < successCount) :
    ∃ err, Relation.ReflTransGen (CellStep engine cfg env)
      (.query engine cfg env successCount failureCount) (.threw err) := by
  refine mayReject_run ?_
  rw [hmissing.2]
  exact queries_mayReject hmissing.1 hpos

/-! ### The drivers of a cell -/

/-- The counters account for every write, and there is a success exactly if some write has one. -/
def Settled (engine : BenchmarkEngine) (cfg : BenchmarkConfig) (env : BenchEnv)
    (c : CellState) : Prop :=
  ∃ successCount failureCount, c = .query engine cfg env successCount failureCount ∧
    (successCount : ℤ) + failureCount = cfg.totalWrites ∧
    (0 < successCount ↔ SomeSuccess engine cfg env)

lemma length_generateLogs (n : ℕ) : (generateLogs env n).length = n := by
  rw [generateLogs, List.length_map, List.length_range]

lemma writing_settles {max : ℕ} (hmax : 1 ≤ max) (hqueue : useQueue engine cfg = false)
    (hmode : cfg.mode ≠ .batch) : Inevitable (CellStep engine cfg env) (Settled engine cfg env)
      (.writing (.start max cfg.totalWrites)) := by
  have hfin := (bounded_finishes env.answers.log cfg.totalWrites hmax).embed
    (CellStep engine cfg env) (BoundedInv env.answers.log max cfg.totalWrites) CellState.writing
    (fun _ _ h hstep => h.step hstep) (fun _ _ => .write) (fun d c _ hopen _ hc => ?_)
    BoundedInv.start
  · refine hfin.bind fun c hc => ?_
    obtain ⟨d, rfl, hinv, hd⟩ := hc
    obtain ⟨hsum, hsome⟩ := hinv.counts hd
    refine .next ⟨_, .written hd⟩ fun c hc => ?_
    cases hc with
    | write hstep => exact absurd hstep (hinv.not_step hd)
    | written _ =>
      refine .now ⟨_, _, rfl, by exact_mod_cast hsum, ?_⟩
      rw [hsome, SomeSuccess, hqueue, if_neg Bool.false_ne_true, if_neg hmode]
  · cases hc with
    | write h => exact ⟨_, h, rfl⟩
    | written h => exact absurd h hopen

lemma batching_settles (hsize : 1 ≤ cfg.batchSize) (hqueue : useQueue engine cfg = false)
    (hmode : cfg.mode = .batch) : Inevitable (CellStep engine cfg env) (Settled engine cfg env)
      (.batching (.writeAll (cellWriter engine cfg) (generateLogs env cfg.totalWrites))) := by
  have hfin := (batch_finishes (cellWriter engine cfg) env.answers hsize
    (generateLogs env cfg.totalWrites)).embed (CellStep engine cfg env)
    (BatchInv (cellWriter engine cfg) env.answers (generateLogs env cfg.totalWrites).length)
    CellState.batching (fun _ _ h hstep => h.step hstep) (fun _ _ => .batch)
    (fun s c _ hopen _ hc => ?_) (BatchInv.start hsize _)
  · refine hfin.bind fun c hc => ?_
    obtain ⟨s, rfl, hinv, hs⟩ := hc
    obtain ⟨hsum, hsome⟩ := hinv.counts hs
    rw [length_generateLogs] at hsum hsome
    refine .next ⟨_, .batched hs (hinv.buffer_eq_nil hs)⟩ fun c hc => ?_
    cases hc with
    | batch hstep => exact absurd hstep (hinv.not_step hs)
    | batched _ _ =>
      refine .now ⟨_, _, rfl, by exact_mod_cast hsum, ?_⟩
      rw [hsome, SomeSuccess, hqueue, if_neg Bool.false_ne_true, if_pos hmode]
  · cases hc with
    | batch h => exact ⟨_, h, rfl⟩
    | batched h _ => exact absurd h hopen

/-- What follows a drain, whichever replies have been collected. -/
lemma drained_accounted (hqueue : useQueue engine cfg = true)
    (h : ¬ (MissingColumn engine cfg ∧ SomeSuccess engine cfg env)) {d : Drain}
    (hd : ∀ success ∈ d.collected, success ∈ env.replies) :
    Inevitable (CellStep engine cfg env) (CellState.Accounted cfg)
      (.query engine cfg env d.successCount (d.failureCount cfg.totalWrites)) := by
  refine query_accounted (d.counts _) (fun hpos => ?_) h
  obtain ⟨success, hmem, hsuccess⟩ := List.countP_pos_iff.mp hpos
  rw [SomeSuccess, hqueue, if_pos rfl]
  exact hd true (hsuccess ▸ hmem)

/-- Whatever replies come, the drain ends, and the queries follow. -/
lemma draining_accounted (hqueue : useQueue engine cfg = true)
    (h : ¬ (MissingColumn engine cfg ∧ SomeSuccess engine cfg env)) {collected coming : List Bool}
    (hd : ∀ success ∈ collected ++ coming, success ∈ env.replies) :
    Inevitable (CellStep engine cfg env) (CellState.Accounted cfg)
      (.draining ⟨collected, coming⟩) := by
  induction coming generalizing collected with
  | nil =>
    rw [List.append_nil] at hd
    refine .next ⟨_, .drained (.inr rfl)⟩ fun c hc => ?_
    cases hc with
    | drained _ => exact drained_accounted hqueue h hd
  | cons success coming ih =>
    refine .next ⟨_, .reply⟩ fun c hc => ?_
    cases hc with
    | reply =>
      refine ih fun x hx => hd x ?_
      rwa [List.append_assoc] at hx
    | drained _ =>
      exact drained_accounted hqueue h fun x hx => hd x (List.mem_append_left _ hx)

/-- All replies may come before the drain ends. -/
lemma draining_run (collected coming : List Bool) :
    Relation.ReflTransGen (CellStep engine cfg env) (.draining ⟨collected, coming⟩)
      (.draining ⟨collected ++ coming, []⟩) := by
  induction coming generalizing collected with
  | nil => rw [List.append_nil]
  | cons success coming ih =>
    refine Relation.ReflTransGen.head .reply ?_
    rw [List.append_cons collected success coming]
    exact ih _

/-! ### Cells -/

variable {hasWriteBatch : Bool}

/-- Without a queue a cell settles every write. -/
lemma start_settles (env : BenchEnv) (hstorage : engine.storages cfg.strategy = some hasWriteBatch)
    (hconcurrency : 1 ≤ cfg.concurrency) (hsize : 1 ≤ cfg.batchSize)
    (hqueue : useQueue engine cfg = false) :
    Inevitable (CellStep engine cfg env) (Settled engine cfg env) (.start engine cfg env) := by
  have hwriter : batchConfig cfg hasWriteBatch = cellWriter engine cfg := by
    rw [cellWriter, hstorage, Option.getD_some]
  unfold CellState.start
  simp only [hstorage, hqueue, Bool.false_eq_true, if_false]
  cases hmode : cfg.mode with
  | batch => exact hwriter ▸ batching_settles hsize hqueue hmode
  | async => exact writing_settles hconcurrency hqueue (by rw [hmode]; decide)
  | sync => exact writing_settles le_rfl hqueue (by rw [hmode]; decide)

lemma start_queue (hstorage : engine.storages cfg.strategy = some hasWriteBatch)
    (hqueue : useQueue engine cfg = true) :
    CellState.start engine cfg env = .draining ⟨[], env.replies⟩ := by
  unfold CellState.start
  simp only [hstorage, hqueue, if_true]

/-- Where no column is missing or nothing succeeds, the cell completes. -/
lemma start_accounted (hstorage : engine.storages cfg.strategy = some hasWriteBatch)
    (hconcurrency : 1 ≤ cfg.concurrency) (hsize : 1 ≤ cfg.batchSize)
    (h : ¬ (MissingColumn engine cfg ∧ SomeSuccess engine cfg env)) :
    Inevitable (CellStep engine cfg env) (CellState.Accounted cfg) (.start engine cfg env) := by
  cases hqueue : useQueue engine cfg with
  | true =>
    rw [start_queue hstorage hqueue]
    exact draining_accounted hqueue h fun success hs => hs
  | false =>
    refine (start_settles env hstorage hconcurrency hsize hqueue).bind fun c hc => ?_
    obtain ⟨successCount, failureCount, rfl, hsum, hsome⟩ := hc
    exact query_accounted hsum hsome.mp h

/-- Where a column is missing and something succeeds, the cell may throw. -/
lemma start_throws (hstorage : engine.storages cfg.strategy = some hasWriteBatch)
    (hconcurrency : 1 ≤ cfg.concurrency) (hsize : 1 ≤ cfg.batchSize)
    (hmissing : MissingColumn engine cfg) (hsome : SomeSuccess engine cfg env) :
    ∃ err, Relation.ReflTransGen (CellStep engine cfg env) (.start engine cfg env)
      (.threw err) := by
  cases hqueue : useQueue engine cfg with
  | true =>
    rw [SomeSuccess, hqueue, if_pos rfl] at hsome
    have hpos : 0 < (⟨env.replies, []⟩ : Drain).successCount :=
      List.countP_pos_iff.mpr ⟨true, hsome, rfl⟩
    obtain ⟨err, hrun⟩ := query_throws env
      ((⟨env.replies, []⟩ : Drain).failureCount cfg.totalWrites) hmissing hpos
    rw [start_queue hstorage hqueue]
    exact ⟨err, ((draining_run [] env.replies).tail (.drained (.inr rfl))).trans hrun⟩
  | false =>
    obtain ⟨c, hrun, successCount, failureCount, rfl, -, hiff⟩ :=
      (start_settles env hstorage hconcurrency hsize hqueue).exists_run
    obtain ⟨err, hthrows⟩ := query_throws env failureCount hmissing (hiff.mpr hsome)
    exact ⟨err, hrun.trans hthrows⟩

lemma not_accounted_of_throws {c : CellState} {err : JsError}
    (hrun : Relation.ReflTransGen (CellStep engine cfg env) c (.threw err)) :
    ¬ Inevitable (CellStep engine cfg env) (CellState.Accounted cfg) c := by
  refine Inevitable.not_of_stuck (fun _ _ h => h.final) hrun (fun h => ?_) fun c hc => ?_
  · obtain ⟨r, hr, -⟩ := h
    cases hr
  · cases hc

/-- However its writes are answered and whatever replies come, a cell returns a result that
accounts for every write, exactly if its queries name no missing column or nothing succeeds. -/
theorem cell_completes_iff (hstorage : engine.storages cfg.strategy = some hasWriteBatch)
    (hconcurrency : 1 ≤ cfg.concurrency) (hsize : 1 ≤ cfg.batchSize) :
    Inevitable (CellStep engine cfg env) (CellState.Accounted cfg) (.start engine cfg env) ↔
      ¬ (MissingColumn engine cfg ∧ SomeSuccess engine cfg env) := by
  constructor
  · rintro h ⟨hmissing, hsome⟩
    obtain ⟨err, hrun⟩ := start_throws hstorage hconcurrency hsize hmissing hsome
    exact not_accounted_of_throws hrun h
  · exact start_accounted hstorage hconcurrency hsize

end Cell

/-! ### A batched cell on PostgreSQL -/

/-- An engine with all storages, as the server builds it without a queue. -/
def pgEngine : BenchmarkEngine := ⟨fun s => some s.isBatch, false, true, false⟩

/-- Everything succeeds. -/
def smoothEnv : BenchEnv where
  id _ := []
  time _ := .epoch
  metadata _ := emptyObject
  answers := ⟨fun _ => true, fun _ => true⟩
  replies := []

/-- One entry, written in a batch of one. -/
def singleCell (strategy : LogStrategy) : BenchmarkConfig where
  strategy := strategy
  mode := .batch
  concurrency := 1
  totalWrites := 1
  batchSize := 1
  db := some .postgres
  tamperPercent := none

theorem database_cell_completes :
    Inevitable (CellStep pgEngine (singleCell .databaseOnly) smoothEnv)
      (CellState.Accounted (singleCell .databaseOnly))
      (.start pgEngine (singleCell .databaseOnly) smoothEnv) := by
  refine (cell_completes_iff rfl le_rfl le_rfl).mpr fun h => ?_
  cases h.1.1

/-- The queries about the batch that was written ask for a status that its table does not have. -/
theorem batched_cell_throws :
    ¬ Inevitable (CellStep pgEngine (singleCell .hybridPrivateBatch) smoothEnv)
      (CellState.Accounted (singleCell .hybridPrivateBatch))
      (.start pgEngine (singleCell .hybridPrivateBatch) smoothEnv) := by
  have hsome : SomeSuccess pgEngine (singleCell .hybridPrivateBatch) smoothEnv :=
    ⟨0, Nat.one_pos, rfl⟩
  have hmissing : MissingColumn pgEngine (singleCell .hybridPrivateBatch) := ⟨rfl, rfl⟩
  obtain ⟨err, hrun⟩ := start_throws rfl le_rfl le_rfl hmissing hsome
  exact not_accounted_of_throws hrun

end HybridLog
