import HybridLog.Async.Stateful
import HybridLog.Bench.Engine
import Mathlib.Data.List.GetD

/-!
# The tamper experiment

What a cell reports about its samples is compared with the rows of the database before and after
the queries. `tampering_measured_iff` says when each sample is a row that was changed, to the
message reported: the sample is drawn from all entries, whether written or not, and the two
databases put different messages into the rows.
-/

namespace HybridLog

open Js Async

/-! ### Rows -/

/-- The messages that the rows of the tables hold. -/
abbrev Messages := Table → JsString → Option JsString

def tamperedSuffix : JsString := ofString " [tampered]"

def tamperedText : JsString := ofString "__tampered__"

/-- What `tamperLog` makes of a message. -/
def Db.tampered : Db → JsString → JsString
  | .postgres, message => message ++ tamperedSuffix
  | .mongo, _ => tamperedText

def Messages.set (rows : Messages) (table : Table) (id message : JsString) : Messages :=
  Function.update rows table (Function.update (rows table) id (some message))

/-- `tamperLog`: `rowCount` counts the rows found, `modifiedCount` those that differ now. -/
def Db.tamperLog (db : Db) (id : JsString) (table : Table) (rows : Messages) : Messages × Bool :=
  match rows table id with
  | none => (rows, false)
  | some message => (rows.set table id (db.tampered message),
      decide (db = .postgres ∨ db.tampered message ≠ message))

/-- The database may answer the request, and the rows change if they are tampered with. -/
def Db.serves (db : Db) (rows : Messages) (e : BenchReq) (r : e.Resp) (rows' : Messages) : Prop :=
  e.admits (some db) r ∧
  match e, r with
  | .tamperLog id table, .ok modified => (rows', modified) = db.tamperLog id table rows
  | _, _ => rows' = rows

/-- The samples are distinct rows, and each of them was changed to the message reported. -/
structure Measured (leaf : Table) (rows rows' : Messages) (tamperedLogs : List TamperedLog) :
    Prop where
  distinct : (tamperedLogs.map TamperedLog.id).Nodup
  changed : ∀ t ∈ tamperedLogs, ∃ message, rows leaf t.id = some message ∧
    rows' leaf t.id ≠ some message
  reported : ∀ t ∈ tamperedLogs, rows' leaf t.id = some t.afterMessage

/-! ### Tampering with one row -/

section Rows

variable {db : Db} {id : JsString} {table : Table} {rows : Messages}

lemma Db.tamperLog_self :
    (db.tamperLog id table rows).1 table id = (rows table id).map db.tampered := by
  unfold Db.tamperLog
  cases h : rows table id with
  | none => exact h
  | some message => simp [Messages.set]

lemma Db.tamperLog_of_ne {id' : JsString} (h : id' ≠ id) :
    (db.tamperLog id table rows).1 table id' = rows table id' := by
  unfold Db.tamperLog
  cases rows table id with
  | none => rfl
  | some message => simp [Messages.set, h]

lemma tampered_ne (db : Db) (message : JsString) (h : db = .postgres) :
    db.tampered message ≠ message := by
  rw [h]
  intro heq
  have hlen := congrArg List.length heq
  rw [Db.tampered, List.length_append] at hlen
  have hsuffix : tamperedSuffix.length = 11 := by decide
  omega

/-- The two databases never leave the same message. -/
lemma append_ne_tamperedText (message : JsString) : message ++ tamperedSuffix ≠ tamperedText := by
  intro heq
  have hlast := congrArg List.getLast? heq
  rw [List.getLast?_append_of_ne_nil _ (by decide)] at hlast
  revert hlast
  decide

end Rows

/-! ### Requests -/

section Requests

variable {db : Db} {rows rows' : Messages}

/-- Where some answer is admitted, the database gives one. -/
lemma Db.exists_serves (db : Db) (rows : Messages) (e : BenchReq)
    (h : ∃ r, e.admits (some db) r) :
    ∃ r rows', e.admits (some db) r ∧ db.serves rows e r rows' := by
  obtain ⟨r, hr⟩ := h
  cases e with
  | tamperLog id table =>
    cases r with
    | ok modified =>
      exact ⟨.ok (db.tamperLog id table rows).2, (db.tamperLog id table rows).1, hr, hr, rfl⟩
    | error err => exact ⟨_, rows, hr, hr, rfl⟩
  | late | random | countByStatus | avgExposureWindowMs | tableSizeBytes | verifyLog =>
    exact ⟨r, rows, hr, hr, rfl⟩

lemma keeps_late : late.Keeps db.serves := Task.keeps_request fun _ _ _ h => h.2

lemma keeps_random (i : ℕ) : (random i).Keeps db.serves := Task.keeps_request fun _ _ _ h => h.2

lemma keeps_countByStatus (table : Table) (status : AnchorStatus) :
    (countByStatus table status).Keeps db.serves := Task.keeps_request fun _ _ _ h => h.2

lemma keeps_avgExposureWindowMs (table : Table) :
    (avgExposureWindowMs table).Keeps db.serves := Task.keeps_request fun _ _ _ h => h.2

lemma keeps_tableSizeBytes (table : Table) : (tableSizeBytes table).Keeps db.serves :=
  Task.keeps_request fun _ _ _ h => h.2

lemma keeps_verifyEntry (id : JsString) (table : Option Table) :
    (verifyEntry id table).Keeps db.serves := Task.keeps_request fun _ _ _ h => h.2

/-- A row is tampered with unless the request is rejected. -/
lemma runsTo_tamperLog {id : JsString} {table : Table} {modified : Bool}
    (h : (tamperLog id table).RunsTo db.serves rows (.ok modified) rows') :
    rows' = (db.tamperLog id table rows).1 := by
  obtain ⟨r, hserves, rfl⟩ := Task.runsTo_request.mp h
  exact congrArg Prod.fst hserves.2

/-! ### Tasks that leave the rows alone -/

lemma keeps_awaitSettled (table : Table) (n : ℕ) : (awaitSettled table n).Keeps db.serves := by
  induction n with
  | zero => exact Task.keeps_pure ()
  | succ n ih =>
    refine keeps_late.bind fun b => ?_
    cases b with
    | true => exact Task.keeps_pure ()
    | false =>
      refine (keeps_countByStatus table .pending).bind fun k => ?_
      by_cases hk : k = 0
      · rw [if_pos hk]
        exact Task.keeps_pure ()
      · rw [if_neg hk]
        exact ih

lemma keeps_exposureWindow (adapter : Option Db) (cfg : BenchmarkConfig) (successCount : ℕ) :
    (exposureWindow adapter cfg successCount).Keeps db.serves := by
  unfold exposureWindow
  split
  · split
    · exact (keeps_awaitSettled _ _).bind fun _ => keeps_avgExposureWindowMs _
    · exact Task.keeps_pure 0
  · exact Task.keeps_pure 0

lemma keeps_sizes (tables : List Table) : (sizes tables).Keeps db.serves := by
  induction tables with
  | nil => exact Task.keeps_pure 0
  | cons t ts ih => exact (keeps_tableSizeBytes t).bind fun _ => ih.bind fun _ => Task.keeps_pure _

lemma keeps_storageOverhead (adapter : Option Db) (cfg : BenchmarkConfig) :
    (storageOverhead adapter cfg).Keeps db.serves := by
  rw [storageOverhead]
  split
  · exact keeps_sizes _
  · exact Task.keeps_pure 0

lemma keeps_verifyAll (leaf : Option Table) (ids : List JsString) :
    (verifyAll leaf ids).Keeps db.serves := by
  induction ids with
  | nil => exact Task.keeps_pure ()
  | cons id ids ih => exact (keeps_verifyEntry id leaf).bind fun _ => ih

lemma keeps_verifySample (cfg : BenchmarkConfig) (logs : List LogEntry)
    (tamperedLogs : List TamperedLog) (successCount : ℕ) :
    (verifySample cfg logs tamperedLogs successCount).Keeps db.serves := by
  rw [verifySample]
  split
  · exact keeps_verifyAll _ _
  · exact Task.keeps_pure ()

lemma keeps_shuffle (i : ℕ) (pool : List JsString) : (shuffle i pool).Keeps db.serves := by
  induction i generalizing pool with
  | zero => exact Task.keeps_pure pool
  | succ i ih => exact (keeps_random (i + 1)).bind fun _ => ih _

end Requests

/-! ### Drawing a sample -/

section Sample

variable {db : Db} {rows rows' : Messages} {pool ids : List JsString}

lemma swap_perm {i j : ℕ} (hi : i < pool.length) (hj : j < pool.length) :
    (swap pool i j).Perm pool := by
  rw [swap, List.getD_eq_getElem _ _ hi, List.getD_eq_getElem _ _ hj]
  exact List.set_set_perm hi hj

/-- The loop permutes the pool. -/
lemma shuffle_perm {i : ℕ} (hi : i = 0 ∨ i < pool.length)
    (h : (shuffle i pool).RunsTo db.serves rows (.ok ids) rows') : ids.Perm pool := by
  induction i generalizing pool rows with
  | zero =>
    obtain ⟨heq, -⟩ := Task.runsTo_pure.mp h
    rw [Except.ok.inj heq]
  | succ i ih =>
    have hi : i + 1 < pool.length := hi.resolve_left (Nat.succ_ne_zero i)
    obtain ⟨j, t, -, h⟩ := Task.runsTo_bind_ok.mp h
    have hperm : (swap pool (i + 1) j).Perm pool := swap_perm hi (lt_of_lt_of_le j.isLt hi)
    refine (ih (.inr ?_) h).trans hperm
    rw [hperm.length_eq]
    exact Nat.lt_of_succ_lt hi

lemma swap_self {i : ℕ} (hi : i < pool.length) : swap pool i i = pool := by
  rw [swap, List.set_set, List.getD_eq_getElem _ _ hi, List.set_getElem_self]

lemma runsTo_random {i : ℕ} (j : Fin (i + 1)) :
    (random i).RunsTo db.serves rows (.ok j) rows :=
  Task.runsTo_request.mpr ⟨j, ⟨iff_of_true rfl (valid_of_unnamed rfl), rfl⟩, rfl⟩

/-- Some draws put the element at any place up to `i` first: all elements are left in place but
that one, which changes places with the first. -/
lemma exists_shuffle_head {i m : ℕ} (hm : m ≤ i) (hi : i < pool.length) :
    ∃ ids, (shuffle i pool).RunsTo db.serves rows (.ok ids) rows ∧ ids[0]? = pool[m]? := by
  induction i generalizing pool m with
  | zero =>
    rw [Nat.le_zero.mp hm]
    exact ⟨pool, Task.runsTo_pure.mpr ⟨rfl, rfl⟩, rfl⟩
  | succ i ih =>
    have hlt : i < pool.length := Nat.lt_of_succ_lt hi
    rcases Nat.lt_or_ge i m with hlarge | hsmall
    · have hlen : (swap pool (i + 1) 0).length = pool.length :=
        (swap_perm hi (Nat.zero_lt_of_lt hi)).length_eq
      obtain ⟨ids, hrun, hhead⟩ := ih (Nat.zero_le i) (hlen ▸ hlt)
      refine ⟨ids, Task.runsTo_bind_ok.mpr ⟨0, rows, runsTo_random 0, hrun⟩, ?_⟩
      have hm' : m = i + 1 := Nat.le_antisymm hm hlarge
      have hpos : 0 < (pool.set (i + 1) (pool.getD 0 [])).length := by
        rw [List.length_set]
        exact Nat.zero_lt_of_lt hi
      rw [hhead, hm', swap, List.getElem?_set_self hpos, List.getD_eq_getElem _ _ hi,
        List.getElem?_eq_getElem hi]
    · obtain ⟨ids, hrun, hhead⟩ := ih hsmall hlt
      refine ⟨ids, Task.runsTo_bind_ok.mpr ⟨Fin.last (i + 1), rows, runsTo_random _, ?_⟩, hhead⟩
      rwa [Fin.val_last, swap_self hi]

variable {logs : List LogEntry}

/-- The ids sampled are distinct ids of entries. -/
lemma pickRandomIds_runsTo {n : ℕ} (hids : (logs.map LogEntry.id).Nodup)
    (h : (pickRandomIds logs n).RunsTo db.serves rows (.ok ids) rows') :
    ids.Nodup ∧ (∀ id ∈ ids, id ∈ logs.map LogEntry.id) ∧ rows' = rows := by
  obtain ⟨pool, t, hshuffle, hpure⟩ := Task.runsTo_bind_ok.mp h
  obtain ⟨heq, rfl⟩ := Task.runsTo_pure.mp hpure
  rw [Except.ok.inj heq]
  have hperm : pool.Perm (logs.map LogEntry.id) := by
    refine shuffle_perm ?_ hshuffle
    rw [List.length_map]
    omega
  refine ⟨(hperm.nodup_iff.mpr hids).sublist (List.take_sublist _ _), fun id hid => ?_, ?_⟩
  · exact hperm.mem_iff.mp (List.mem_of_mem_take hid)
  · exact keeps_shuffle _ _ _ _ _ hshuffle

/-- Any entry may be sampled. -/
lemma exists_pickRandomIds {n : ℕ} {log : LogEntry} (hlog : log ∈ logs) (hn : 0 < n) :
    ∃ ids, (pickRandomIds logs n).RunsTo db.serves rows (.ok ids) rows ∧ log.id ∈ ids := by
  obtain ⟨m, hm, hget⟩ := List.getElem_of_mem (List.mem_map_of_mem (f := LogEntry.id) hlog)
  have hlen : (logs.map LogEntry.id).length = logs.length := List.length_map _
  have hi : logs.length - 1 < (logs.map LogEntry.id).length := by omega
  obtain ⟨pool, hrun, hhead⟩ : ∃ pool, (shuffle (logs.length - 1) (logs.map LogEntry.id)).RunsTo
      db.serves rows (.ok pool) rows ∧ pool[0]? = (logs.map LogEntry.id)[m]? :=
    exists_shuffle_head (by omega) hi
  refine ⟨_, Task.runsTo_bind_ok.mpr ⟨pool, rows, hrun, Task.runsTo_pure.mpr ⟨rfl, rfl⟩⟩, ?_⟩
  rw [List.getElem?_eq_getElem hm, hget] at hhead
  obtain ⟨hpos, hfirst⟩ := List.getElem?_eq_some_iff.mp hhead
  refine List.mem_of_getElem? (i := 0) ?_
  rw [List.getElem?_take_of_lt (by omega), hhead]

end Sample

/-! ### Tampering with a sample -/

section Samples

variable {db : Db} {cfg : BenchmarkConfig} {leaf : Table} {logs : List LogEntry}
  {rows rows' : Messages} {ids : List JsString}

/-- `beforeMessage` -/
def beforeMessage (logs : List LogEntry) (id : JsString) : JsString :=
  ((logs.find? fun l => l.id = id).map LogEntry.message).getD []

lemma find?_id (hids : (logs.map LogEntry.id).Nodup) {log : LogEntry} (h : log ∈ logs) :
    (logs.find? fun l => l.id = log.id) = some log := by
  cases hfind : logs.find? fun l => l.id = log.id with
  | none => simpa using List.find?_eq_none.mp hfind log h
  | some log' =>
    have hid : log'.id = log.id := of_decide_eq_true (List.find?_some hfind :)
    rw [List.inj_on_of_nodup_map hids (List.mem_of_find?_eq_some hfind) h hid]

lemma beforeMessage_of_mem (hids : (logs.map LogEntry.id).Nodup) {log : LogEntry}
    (h : log ∈ logs) : beforeMessage logs log.id = log.message := by
  rw [beforeMessage, find?_id hids h]
  rfl

lemma not_isPureChain (hleaf : leafTableFor cfg.strategy = some leaf) :
    ¬ cfg.strategy.isPureChain = true := by
  intro hpure
  cases hs : cfg.strategy <;> rw [hs] at hleaf hpure <;> cases hpure <;> cases hleaf

lemma tamperOne_runsTo (hleaf : leafTableFor cfg.strategy = some leaf) {id : JsString}
    {tampered : Option TamperedLog}
    (h : (tamperOne (some db) cfg logs id).RunsTo db.serves rows (.ok tampered) rows') :
    ∃ t, tampered = some t ∧ t.id = id ∧ t.afterMessage = beforeMessage logs id ++ tamperedSuffix ∧
      rows' = (db.tamperLog id leaf rows).1 := by
  unfold tamperOne at h
  rw [if_neg (not_isPureChain hleaf), hleaf] at h
  obtain ⟨modified, t, htamper, h⟩ := Task.runsTo_bind_ok.mp h
  obtain ⟨r, u, hverify, h⟩ := Task.runsTo_bind_ok.mp h
  obtain ⟨heq, rfl⟩ := Task.runsTo_pure.mp h
  refine ⟨_, Except.ok.inj heq, rfl, rfl, ?_⟩
  rw [keeps_verifyEntry _ _ _ _ _ hverify, runsTo_tamperLog htamper]

/-- What an experiment on the samples `ids` reports and does to the rows. -/
structure Experiment (db : Db) (leaf : Table) (logs : List LogEntry) (rows rows' : Messages)
    (ids : List JsString) (tamperedLogs : List TamperedLog) : Prop where
  ids_eq : tamperedLogs.map TamperedLog.id = ids
  reported : ∀ t ∈ tamperedLogs, t.afterMessage = beforeMessage logs t.id ++ tamperedSuffix
  tampered : ∀ id ∈ ids, rows' leaf id = (rows leaf id).map db.tampered
  others : ∀ id, id ∉ ids → rows' leaf id = rows leaf id

lemma tamperAll_runsTo (hleaf : leafTableFor cfg.strategy = some leaf) (hids : ids.Nodup)
    {tamperedLogs : List TamperedLog}
    (h : (tamperAll (some db) cfg logs ids).RunsTo db.serves rows (.ok tamperedLogs) rows') :
    Experiment db leaf logs rows rows' ids tamperedLogs := by
  induction ids generalizing rows tamperedLogs with
  | nil =>
    obtain ⟨heq, rfl⟩ := Task.runsTo_pure.mp h
    rw [Except.ok.inj heq]
    exact ⟨rfl, fun _ ht => absurd ht List.not_mem_nil, fun _ hid => absurd hid List.not_mem_nil,
      fun _ _ => rfl⟩
  | cons id ids ih =>
    obtain ⟨hid, hrestids⟩ := List.nodup_cons.mp hids
    obtain ⟨tampered, t, hone, h⟩ := Task.runsTo_bind_ok.mp h
    obtain ⟨rest, u, hrest, h⟩ := Task.runsTo_bind_ok.mp h
    obtain ⟨heq, rfl⟩ := Task.runsTo_pure.mp h
    obtain ⟨first, rfl, rfl, hafter, rfl⟩ := tamperOne_runsTo hleaf hone
    have hall := ih hrestids hrest
    rw [Except.ok.inj heq]
    constructor
    · exact congrArg (first.id :: ·) hall.ids_eq
    · intro t ht
      rcases List.mem_cons.mp ht with rfl | ht
      · exact hafter
      · exact hall.reported t ht
    · intro id' hid'
      rcases List.mem_cons.mp hid' with rfl | hid'
      · rw [hall.others _ hid, Db.tamperLog_self]
      · have hne : id' ≠ first.id := fun heq => hid (heq ▸ hid')
        rw [hall.tampered _ hid', Db.tamperLog_of_ne hne]
    · intro id' hid'
      rw [List.mem_cons, not_or] at hid'
      rw [hall.others _ hid'.2, Db.tamperLog_of_ne hid'.1]

variable {successCount : ℕ} {failureCount : ℤ}

/-- The number of samples is positive. -/
lemma tamperCount_pos (successCount : ℕ) (cfg : BenchmarkConfig) :
    0 < (max 1 ⌈successCount * cfg.percent / 100⌉).toNat := by
  omega

lemma tamperTest_cond (hpos : 0 < successCount) (hpercent : 0 < cfg.percent) :
    (decide (0 < successCount) && decide (0 < cfg.percent)) = true := by
  rw [decide_eq_true hpos, decide_eq_true hpercent]
  rfl

lemma queries_runsTo (hleaf : leafTableFor cfg.strategy = some leaf)
    (hids : (logs.map LogEntry.id).Nodup) (hpos : 0 < successCount) (hpercent : 0 < cfg.percent)
    {r : BenchmarkResult}
    (h : (queries (some db) cfg logs successCount failureCount).RunsTo db.serves rows (.ok r)
      rows') :
    ∃ ids, ids.Nodup ∧ (∀ id ∈ ids, id ∈ logs.map LogEntry.id) ∧
      Experiment db leaf logs rows rows' ids r.tamperedLogs := by
  obtain ⟨_, t₁, hexposure, h⟩ := Task.runsTo_bind_ok.mp h
  obtain ⟨_, t₂, hsizes, h⟩ := Task.runsTo_bind_ok.mp h
  obtain ⟨tamperedLogs, t₃, htest, h⟩ := Task.runsTo_bind_ok.mp h
  obtain ⟨_, t₄, hsample, h⟩ := Task.runsTo_bind_ok.mp h
  obtain ⟨heq, rfl⟩ := Task.runsTo_pure.mp h
  rw [Except.ok.inj heq]
  have h₁ : t₁ = rows := keeps_exposureWindow _ _ _ _ _ _ hexposure
  have h₂ : t₂ = t₁ := keeps_storageOverhead _ _ _ _ _ hsizes
  have h₄ : rows' = t₃ := keeps_verifySample _ _ _ _ _ _ _ hsample
  rw [h₂, h₁, tamperTest, if_pos (tamperTest_cond hpos hpercent)] at htest
  obtain ⟨ids, t, hpick, hall⟩ := Task.runsTo_bind_ok.mp htest
  obtain ⟨hnodup, hmem, rfl⟩ := pickRandomIds_runsTo hids hpick
  rw [h₄]
  exact ⟨ids, hnodup, hmem, tamperAll_runsTo hleaf hnodup hall⟩

/-- A task that is answered and leaves the rows alone has a run. -/
lemma exists_run_keeps {α : Type} {p : BenchTask α} (h : Safe (some db) p)
    (hkeeps : p.Keeps db.serves) (rows : Messages) : ∃ a, p.RunsTo db.serves rows (.ok a) rows := by
  obtain ⟨a, rows', hrun, -⟩ := Task.Resolves.exists_runsTo db.exists_serves h rows
  have hrows : rows' = rows := hkeeps _ _ _ hrun
  exact ⟨a, hrows ▸ hrun⟩

/-- Any entry may be sampled, if the queries are answered. -/
lemma exists_queries_sampling (hanswered : ¬ (cfg.strategy.isBatch = true ∧ db = .postgres))
    (hleaf : leafTableFor cfg.strategy = some leaf) (hids : (logs.map LogEntry.id).Nodup)
    (hpos : 0 < successCount) (hpercent : 0 < cfg.percent) {log : LogEntry} (hlog : log ∈ logs)
    (rows : Messages) : ∃ r rows', (queries (some db) cfg logs successCount failureCount).RunsTo
      db.serves rows (.ok r) rows' ∧ log.id ∈ r.tamperedLogs.map TamperedLog.id := by
  have hsafe : ¬ (cfg.strategy.isBatch = true ∧ some db = some .postgres ∧ 0 < successCount) :=
    fun hbad => hanswered ⟨hbad.1, Option.some.inj hbad.2.1⟩
  obtain ⟨exposureWindowMs, hexposure⟩ := exists_run_keeps (safe_exposureWindow hsafe)
    (keeps_exposureWindow (some db) cfg successCount) rows
  obtain ⟨storageBytes, hsizes⟩ := exists_run_keeps safe_storageOverhead
    (keeps_storageOverhead (some db) cfg) rows
  obtain ⟨ids, hpick, hmem⟩ := exists_pickRandomIds (n := (max 1
    ⌈successCount * cfg.percent / 100⌉).toNat) hlog (tamperCount_pos successCount cfg)
  obtain ⟨tamperedLogs, rows', hall, -⟩ := Task.Resolves.exists_runsTo db.exists_serves
    (safe_tamperAll ids) rows
  have htest : (tamperTest (some db) cfg logs successCount).RunsTo db.serves rows
      (.ok tamperedLogs) rows' := by
    rw [tamperTest, if_pos (tamperTest_cond hpos hpercent)]
    exact Task.runsTo_bind_ok.mpr ⟨ids, rows, hpick, hall⟩
  obtain ⟨_, hsample⟩ := exists_run_keeps (safe_verifySample tamperedLogs successCount)
    (keeps_verifySample cfg logs tamperedLogs successCount) rows'
  refine ⟨_, rows', Task.runsTo_bind_ok.mpr ⟨_, _, hexposure, Task.runsTo_bind_ok.mpr
    ⟨_, _, hsizes, Task.runsTo_bind_ok.mpr ⟨_, _, htest, Task.runsTo_bind_ok.mpr
      ⟨_, _, hsample, Task.runsTo_pure.mpr ⟨rfl, rfl⟩⟩⟩⟩⟩, ?_⟩
  have hexperiment := tamperAll_runsTo hleaf (pickRandomIds_runsTo hids hpick).1 hall
  exact hexperiment.ids_eq ▸ hmem

/-- The queries about a batched table of PostgreSQL end before the experiment. -/
lemma not_exposureWindow_runsTo (hbatch : cfg.strategy.isBatch = true)
    (hleaf : leafTableFor cfg.strategy = some leaf) (hpos : 0 < successCount) {x : ℚ} :
    ¬ (exposureWindow (some .postgres) cfg successCount).RunsTo Db.postgres.serves rows (.ok x)
      rows' := by
  intro h
  have hhybrid : cfg.strategy.isHybrid = true := by
    cases hs : cfg.strategy <;> rw [hs] at hbatch <;> first | rfl | cases hbatch
  have hcond : (cfg.strategy.isHybrid && decide (0 < successCount)) = true := by
    rw [hhybrid, decide_eq_true hpos]
    rfl
  unfold exposureWindow at h
  rw [hleaf] at h
  simp only at h
  rw [if_pos hcond] at h
  obtain ⟨_, t, -, h⟩ := Task.runsTo_bind_ok.mp h
  obtain ⟨r, hserves, hr⟩ := Task.runsTo_request.mp h
  have hvalid : (BenchReq.avgExposureWindowMs leaf).Valid (some .postgres) := by
    apply hserves.1.mp
    rw [BenchReq.succeeds, show r = .ok x from hr.symm]
    rfl
  have hcol : Column.anchorStatus ∈ leaf.columns :=
    hvalid rfl _ rfl .anchorStatus (by simp)
  cases hs : cfg.strategy <;> rw [hs] at hleaf hbatch <;> cases hbatch <;> cases hleaf <;>
    simp [Table.columns] at hcol

/-! ### When tampering is measured -/

variable (db cfg leaf logs rows successCount failureCount)

/-- Whatever is drawn and however the queries are answered, the samples are distinct rows that
were changed to the messages reported. -/
def MeasuresTampering : Prop :=
  ∀ r rows', (queries (some db) cfg logs successCount failureCount).RunsTo db.serves rows (.ok r)
    rows' → Measured leaf rows rows' r.tamperedLogs

variable {db cfg leaf logs rows successCount failureCount}

/-- MongoDB holds another message than the one reported. -/
lemma not_measuresTampering_mongo (hleaf : leafTableFor cfg.strategy = some leaf)
    (hids : (logs.map LogEntry.id).Nodup) (hpos : 0 < successCount)
    (hle : successCount ≤ logs.length) (hpercent : 0 < cfg.percent) :
    ¬ MeasuresTampering .mongo cfg leaf logs rows successCount failureCount := by
  intro h
  obtain ⟨log, hlog⟩ : ∃ log, log ∈ logs :=
    List.exists_mem_of_length_pos (lt_of_lt_of_le hpos hle)
  have hanswered : ¬ (cfg.strategy.isBatch = true ∧ Db.mongo = .postgres) :=
    fun hbad => Db.noConfusion hbad.2
  obtain ⟨r, rows', hrun, hmem⟩ :=
    exists_queries_sampling hanswered hleaf hids hpos hpercent hlog rows
  obtain ⟨ids, -, -, hexp⟩ := queries_runsTo hleaf hids hpos hpercent hrun
  obtain ⟨t, ht, hid⟩ := List.mem_map.mp hmem
  have hstored := (h r rows' hrun).reported t ht
  rw [hexp.tampered t.id (hexp.ids_eq ▸ List.mem_map_of_mem ht), hexp.reported t ht,
    Option.map_eq_some_iff] at hstored
  obtain ⟨message, -, heq⟩ := hstored
  exact append_ne_tamperedText _ heq.symm

/-- An entry that may be sampled must have left its row. -/
lemma MeasuresTampering.written (hbatch : ¬ cfg.strategy.isBatch = true)
    (hleaf : leafTableFor cfg.strategy = some leaf) (hids : (logs.map LogEntry.id).Nodup)
    (hpos : 0 < successCount) (hpercent : 0 < cfg.percent)
    (h : MeasuresTampering .postgres cfg leaf logs rows successCount failureCount) :
    ∀ log ∈ logs, rows leaf log.id = some log.message := by
  intro log hlog
  have hanswered : ¬ (cfg.strategy.isBatch = true ∧ Db.postgres = .postgres) :=
    fun hbad => hbatch hbad.1
  obtain ⟨r, rows', hrun, hmem⟩ :=
    exists_queries_sampling hanswered hleaf hids hpos hpercent hlog rows
  obtain ⟨ids, -, -, hexp⟩ := queries_runsTo hleaf hids hpos hpercent hrun
  obtain ⟨t, ht, hid⟩ := List.mem_map.mp hmem
  have hstored := (h r rows' hrun).reported t ht
  rw [hexp.tampered t.id (hexp.ids_eq ▸ List.mem_map_of_mem ht), hexp.reported t ht, hid,
    beforeMessage_of_mem hids hlog, Option.map_eq_some_iff] at hstored
  obtain ⟨message, hrow, heq⟩ := hstored
  rw [hrow, List.append_cancel_right heq]

/-- The experiment measures tampering exactly if it is made on PostgreSQL and every entry has left
its row there, written with success or not; about a batched strategy PostgreSQL reports nothing. -/
theorem tampering_measured_iff (hleaf : leafTableFor cfg.strategy = some leaf)
    (hids : (logs.map LogEntry.id).Nodup) (hpos : 0 < successCount)
    (hle : successCount ≤ logs.length) (hpercent : 0 < cfg.percent) :
    MeasuresTampering db cfg leaf logs rows successCount failureCount ↔
      db = .postgres ∧
        (cfg.strategy.isBatch = true ∨ ∀ log ∈ logs, rows leaf log.id = some log.message) := by
  constructor
  · intro h
    cases db with
    | mongo => exact absurd h (not_measuresTampering_mongo hleaf hids hpos hle hpercent)
    | postgres =>
      refine ⟨rfl, or_iff_not_imp_left.mpr fun hbatch => ?_⟩
      exact h.written hbatch hleaf hids hpos hpercent
  · rintro ⟨rfl, hbatch | hwritten⟩ r rows' hrun
    · obtain ⟨_, _, hexposure, -⟩ := Task.runsTo_bind_ok.mp hrun
      exact absurd hexposure (not_exposureWindow_runsTo hbatch hleaf hpos)
    · obtain ⟨ids, hnodup, hmem, hexp⟩ := queries_runsTo hleaf hids hpos hpercent hrun
      have hids_eq := hexp.ids_eq
      have hrow (t : TamperedLog) (ht : t ∈ r.tamperedLogs) : ∃ message,
          rows leaf t.id = some message ∧ beforeMessage logs t.id = message ∧
          rows' leaf t.id = some (message ++ tamperedSuffix) := by
        have hid : t.id ∈ ids := hids_eq ▸ List.mem_map_of_mem ht
        obtain ⟨log, hlog, hlogid⟩ := List.mem_map.mp (hmem _ hid)
        have hstored := hwritten log hlog
        refine ⟨log.message, hlogid ▸ hstored, hlogid ▸ beforeMessage_of_mem hids hlog, ?_⟩
        rw [hexp.tampered _ hid, ← hlogid, hstored]
        rfl
      constructor
      · exact hids_eq.symm ▸ hnodup
      · intro t ht
        obtain ⟨message, hbefore, -, hafter⟩ := hrow t ht
        refine ⟨message, hbefore, fun heq => ?_⟩
        exact tampered_ne .postgres message rfl (Option.some.inj (hafter.symm.trans heq))
      · intro t ht
        obtain ⟨message, -, hreport, hafter⟩ := hrow t ht
        rw [hafter, hexp.reported t ht, hreport]

end Samples

/-! ### Two writes -/

/-- Two entries, of which half are sampled. -/
def pairCell : BenchmarkConfig where
  strategy := .databaseOnly
  mode := .sync
  concurrency := 1
  totalWrites := 2
  batchSize := 1
  db := none
  tamperPercent := some 50

def pairLogs : List LogEntry :=
  generateLogs { smoothEnv with id := fun i => [UInt16.ofNat i] } 2

/-- The rows of some entries. -/
def rowsOf (leaf : Table) (logs : List LogEntry) : Messages := fun table id =>
  if table = leaf then (logs.find? fun l => l.id = id).map LogEntry.message else none

lemma pairLogs_nodup : (pairLogs.map LogEntry.id).Nodup := by decide

lemma pairCell_percent : 0 < pairCell.percent := by
  norm_num [BenchmarkConfig.percent, pairCell]

/-- Both entries are written. -/
theorem pair_measured : MeasuresTampering .postgres pairCell (.log .offchain) pairLogs
    (rowsOf (.log .offchain) pairLogs) 2 0 := by
  refine (tampering_measured_iff rfl pairLogs_nodup (by decide) (by decide) pairCell_percent).mpr
    ⟨rfl, .inr fun log hlog => ?_⟩
  rw [rowsOf, if_pos rfl, find?_id pairLogs_nodup hlog]
  rfl

/-- MongoDB never measures the tampering, and PostgreSQL does not if the second write has failed
and left no row. -/
theorem pair_not_measured :
    ¬ MeasuresTampering .mongo pairCell (.log .offchain) pairLogs
      (rowsOf (.log .offchain) pairLogs) 2 0 ∧
    ¬ MeasuresTampering .postgres pairCell (.log .offchain) pairLogs
      (rowsOf (.log .offchain) (pairLogs.take 1)) 1 1 := by
  constructor
  · exact not_measuresTampering_mongo rfl pairLogs_nodup (by decide) (by decide) pairCell_percent
  · intro h
    have hwritten := h.written (by decide) rfl pairLogs_nodup (by decide) pairCell_percent
    obtain ⟨log, hlog, hid⟩ : ∃ log ∈ pairLogs, log.id = [1] :=
      List.exists_of_mem_map (f := LogEntry.id) (by decide)
    have hstored := hwritten log hlog
    have hnone : rowsOf (.log .offchain) (pairLogs.take 1) (.log .offchain) [1] = none := rfl
    rw [hid, hnone] at hstored
    cases hstored

end HybridLog
