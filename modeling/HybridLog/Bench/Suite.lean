import HybridLog.Bench.Engine
import HybridLog.Bench.Report
import HybridLog.Storage.Storage

/-!
# Suites of cells

The server runs the cells of a suite one after the other, keeps their results for whoever polls, and
exports them at the end. The first cell that throws ends the suite, and the cells after it are not
run.
-/

namespace HybridLog

open Js Async

/-! ### Requests -/

structure CellRequest where
  strategy : LogStrategy
  db : Db
  mode : WriteMode
  totalWrites : Option ℕ
  concurrency : Option ℕ
  batchSize : Option ℕ
  tamperPercent : Option ℚ

structure SuiteDefaults where
  concurrency : ℕ
  totalWrites : ℕ
  batchSize : ℕ
  tamperPercent : ℚ

/-- In batch mode a hybrid strategy anchors one root for a batch. -/
def effectiveStrategy (s : LogStrategy) (m : WriteMode) : LogStrategy :=
  if m ≠ .batch then s
  else match s with
    | .hybridPrivate => .hybridPrivateBatch
    | .hybridPublic => .hybridPublicBatch
    | s => s

namespace CellRequest

variable (cell : CellRequest) (defaults : SuiteDefaults) (cfg : ServerConfig)

/-- The configuration that the engine is run with. -/
def config : BenchmarkConfig where
  strategy := effectiveStrategy cell.strategy cell.mode
  mode := cell.mode
  concurrency := cell.concurrency.getD defaults.concurrency
  totalWrites := cell.totalWrites.getD defaults.totalWrites
  batchSize := cell.batchSize.getD defaults.batchSize
  db := some cell.db
  tamperPercent := some (cell.tamperPercent.getD defaults.tamperPercent)

/-- The engine of the cell, which is given one storage. -/
def engine : BenchmarkEngine where
  storages s :=
    if s = effectiveStrategy cell.strategy cell.mode then
      (pickStorage cfg (some (.strategy s)) cell.db).map fun st => (st.writeBatch? cfg).isSome
    else none
  mqClient := cfg.mqReady
  pgAdapter := true
  mongoAdapter := cfg.mongo ≠ .notInstalled

/-- There is no adapter for the database of the cell. -/
def Skipped : Prop := cell.db = .mongo ∧ cfg.mongo = .notInstalled

instance : Decidable (cell.Skipped cfg) := inferInstanceAs (Decidable (_ ∧ _))

/-- The result of a cell that is not run. -/
def skipped : BenchmarkResult where
  strategy := cell.strategy
  mode := cell.mode
  concurrency := cell.concurrency.getD defaults.concurrency
  totalWrites := cell.totalWrites.getD defaults.totalWrites
  successCount := 0
  failureCount := cell.totalWrites.getD defaults.totalWrites
  storageOverheadBytes := 0
  tamperPercent := 0
  tamperedSamples := 0
  detectedSamples := 0
  tamperedLogs := []
  integrityExposureWindowMs := 0

end CellRequest

/-! ### Runs -/

inductive SuiteStatus
  | running
  | done
  | error
deriving DecidableEq

/-- What a poll shows. -/
structure SuiteRun where
  total : ℕ
  current : ℕ
  label : JsString
  results : List BenchmarkResult
  status : SuiteStatus
  error : Option JsError
  jsonPath : Option JsString
  csvPath : Option JsString

namespace SuiteRun

variable (run : SuiteRun)

def push (r : BenchmarkResult) : SuiteRun :=
  { run with
    results := run.results ++ [r]
    current := run.current + 1 }

def fail (err : JsError) : SuiteRun :=
  { run with
    status := .error
    error := some err }

def finish (jsonPath csvPath : JsString) : SuiteRun :=
  { run with
    jsonPath := some (basename jsonPath)
    csvPath := some (basename csvPath)
    status := .done }

end SuiteRun

/-- Where `runSuite` is. -/
inductive SuitePhase
  | between (cells : List CellRequest)
  | inCell (cell : CellRequest) (state : CellState) (rest : List CellRequest)
  | ended

structure Suite where
  run : SuiteRun
  phase : SuitePhase

/-- `POST /experiment/run-suite`, which is a bad request without cells. -/
def Suite.post (cells : List CellRequest) (label : JsString) : Option Suite :=
  if cells = [] then none
  else some ⟨⟨cells.length, 0, label, [], .running, none, none, none⟩, .between cells⟩

/-- What a suite does not determine itself. -/
structure SuiteEnv where
  /-- What the cell at a place meets. -/
  cells : ℕ → BenchEnv
  place : ExportPlace
  files : Files
  time : JsDate

section Runs

variable (cfg : ServerConfig) (defaults : SuiteDefaults) (env : SuiteEnv)

inductive SuiteStep : Suite → Suite → Prop
  | skip {run : SuiteRun} {cell : CellRequest} {rest : List CellRequest} (h : cell.Skipped cfg) :
    SuiteStep ⟨run, .between (cell :: rest)⟩ ⟨run.push (cell.skipped defaults), .between rest⟩
  | begins {run : SuiteRun} {cell : CellRequest} {rest : List CellRequest}
    (h : ¬cell.Skipped cfg) : SuiteStep ⟨run, .between (cell :: rest)⟩
      ⟨run, .inCell cell
        (.start (cell.engine cfg) (cell.config defaults) (env.cells run.current)) rest⟩
  | cell {run : SuiteRun} {cell : CellRequest} {c c' : CellState} {rest : List CellRequest}
    (h : CellStep (cell.engine cfg) (cell.config defaults) (env.cells run.current) c c') :
    SuiteStep ⟨run, .inCell cell c rest⟩ ⟨run, .inCell cell c' rest⟩
  | returned {run : SuiteRun} {cell : CellRequest} {r : BenchmarkResult}
    {rest : List CellRequest} :
    SuiteStep ⟨run, .inCell cell (.returned r) rest⟩ ⟨run.push r, .between rest⟩
  | threw {run : SuiteRun} {cell : CellRequest} {err : JsError} {rest : List CellRequest} :
    SuiteStep ⟨run, .inCell cell (.threw err) rest⟩ ⟨run.fail err, .ended⟩
  | exports {run : SuiteRun} {jsonPath csvPath : JsString}
    (h : (exportResults env.place env.files run.results run.label env.time).paths =
      some (jsonPath, csvPath)) :
    SuiteStep ⟨run, .between []⟩ ⟨run.finish jsonPath csvPath, .ended⟩
  | exportFails {run : SuiteRun} {err : JsError}
    (h : (exportResults env.place env.files run.results run.label env.time).paths = none) :
    SuiteStep ⟨run, .between []⟩ ⟨run.fail err, .ended⟩

/-- The result accounts for every write of the cell. -/
def CellRequest.Accounts (cell : CellRequest) (r : BenchmarkResult) : Prop :=
  (r.successCount : ℤ) + r.failureCount = (cell.config defaults).totalWrites

/-- The suite is done: each cell has a result, in their order. -/
structure SuiteDone (cells : List CellRequest) (s : Suite) : Prop where
  phase : s.phase = .ended
  status : s.run.status = .done
  current : s.run.current = cells.length
  results : List.Forall₂ (CellRequest.Accounts defaults) cells s.run.results
  paths : s.run.jsonPath.isSome = true ∧ s.run.csvPath.isSome = true

/-- A cell that is run has a storage and numbers that are not zero. -/
def CellRequest.Startable (cell : CellRequest) : Prop :=
  ¬cell.Skipped cfg →
    (pickStorage cfg (some (.strategy (effectiveStrategy cell.strategy cell.mode)))
      cell.db).isSome = true ∧
    1 ≤ (cell.config defaults).concurrency ∧ 1 ≤ (cell.config defaults).batchSize

/-- The cell is run, its queries name a column that is missing, and one of its writes succeeds. -/
def CellRequest.Breaks (cell : CellRequest) (i : ℕ) : Prop :=
  ¬cell.Skipped cfg ∧ MissingColumn (cell.engine cfg) (cell.config defaults) ∧
    SomeSuccess (cell.engine cfg) (cell.config defaults) (env.cells i)

/-- The files of the export can be written. -/
def SuiteEnv.Writes : Prop := env.files.mkdir = true ∧ ∀ p, env.files.takes p = true

variable {cfg defaults env}

lemma SuiteEnv.Writes.paths (h : env.Writes) (results : List BenchmarkResult) (label : JsString) :
    ∃ jsonPath csvPath, (exportResults env.place env.files results label env.time).paths =
      some (jsonPath, csvPath) := by
  cases results <;> simp [exportResults, h.1, h.2]

/-! ### What a poll shows -/

/-- The result is that of the cell: of a run of it, if it is run. -/
def CellRequest.ResultOf (cfg : ServerConfig) (defaults : SuiteDefaults) (cell : CellRequest)
    (r : BenchmarkResult) : Prop :=
  cell.Skipped cfg ∧ r = cell.skipped defaults ∨
    ¬cell.Skipped cfg ∧ ∃ e, Relation.ReflTransGen
      (CellStep (cell.engine cfg) (cell.config defaults) e)
      (.start (cell.engine cfg) (cell.config defaults) e) (.returned r)

variable (cfg defaults) in
/-- The run shows the results of the cells that have been run. -/
structure Shown (cells ran : List CellRequest) (run : SuiteRun) : Prop where
  total : run.total = cells.length
  current : run.current = ran.length
  results : List.Forall₂ (CellRequest.ResultOf cfg defaults) ran run.results

lemma Shown.push {cells ran : List CellRequest} {run : SuiteRun} {cell : CellRequest}
    {r : BenchmarkResult} (h : Shown cfg defaults cells ran run)
    (hr : cell.ResultOf cfg defaults r) :
    Shown cfg defaults cells (ran ++ [cell]) (run.push r) := by
  refine ⟨h.total, ?_, List.rel_append h.results (.cons hr .nil)⟩
  simp [SuiteRun.push, h.current]

variable (cfg defaults env) in
/-- How far a suite has come. -/
inductive Progress (cells : List CellRequest) : Suite → Prop
  | between {ran rest : List CellRequest} {run : SuiteRun} (hcells : cells = ran ++ rest)
    (hrun : Shown cfg defaults cells ran run) (hstatus : run.status = .running) :
    Progress cells ⟨run, .between rest⟩
  | inCell {ran rest : List CellRequest} {run : SuiteRun} {cell : CellRequest} {c : CellState}
    (hcells : cells = ran ++ cell :: rest) (hrun : Shown cfg defaults cells ran run)
    (hstatus : run.status = .running) (hskip : ¬cell.Skipped cfg)
    (hcell : Relation.ReflTransGen
      (CellStep (cell.engine cfg) (cell.config defaults) (env.cells run.current))
      (.start (cell.engine cfg) (cell.config defaults) (env.cells run.current)) c) :
    Progress cells ⟨run, .inCell cell c rest⟩
  | done {run : SuiteRun} (hrun : Shown cfg defaults cells cells run)
    (hstatus : run.status = .done) : Progress cells ⟨run, .ended⟩
  | failed {ran rest : List CellRequest} {run : SuiteRun} (hcells : cells = ran ++ rest)
    (hrun : Shown cfg defaults cells ran run) (hstatus : run.status = .error) :
    Progress cells ⟨run, .ended⟩

lemma Progress.step {cells : List CellRequest} {s s' : Suite}
    (h : Progress cfg defaults env cells s) (hs : SuiteStep cfg defaults env s s') :
    Progress cfg defaults env cells s' := by
  cases hs with
  | skip hskip => cases h with
    | between hcells hrun hstatus =>
      exact .between (by simp [hcells]) (hrun.push (.inl ⟨hskip, rfl⟩)) hstatus
  | begins hskip => cases h with
    | between hcells hrun hstatus => exact .inCell hcells hrun hstatus hskip .refl
  | cell hc => cases h with
    | inCell hcells hrun hstatus hskip hcell =>
      exact .inCell hcells hrun hstatus hskip (hcell.tail hc)
  | returned => cases h with
    | inCell hcells hrun hstatus hskip hcell =>
      exact .between (by simp [hcells]) (hrun.push (.inr ⟨hskip, _, hcell⟩)) hstatus
  | threw => cases h with
    | inCell hcells hrun _ _ _ => exact .failed hcells ⟨hrun.total, hrun.current, hrun.results⟩ rfl
  | exports _ => cases h with
    | between hcells hrun _ =>
      rw [List.append_nil] at hcells
      subst hcells
      exact .done ⟨hrun.total, hrun.current, hrun.results⟩ rfl
  | exportFails _ => cases h with
    | between hcells hrun _ => exact .failed hcells ⟨hrun.total, hrun.current, hrun.results⟩ rfl

lemma Progress.run {cells : List CellRequest} {s s' : Suite}
    (h : Progress cfg defaults env cells s)
    (hs : Relation.ReflTransGen (SuiteStep cfg defaults env) s s') :
    Progress cfg defaults env cells s' := by
  induction hs with
  | refl => exact h
  | tail _ hstep ih => exact ih.step hstep

/-- The suite shows the results of its first cells, of all of them if it is done. -/
lemma Progress.shown {cells : List CellRequest} {s : Suite}
    (h : Progress cfg defaults env cells s) :
    ∃ ran rest, cells = ran ++ rest ∧ Shown cfg defaults cells ran s.run ∧
      (s.run.status = .done → rest = []) ∧ (s.run.status ≠ .running → s.phase = .ended) := by
  cases h with
  | between hcells hrun hstatus => exact ⟨_, _, hcells, hrun, by simp [hstatus], by simp [hstatus]⟩
  | inCell hcells hrun hstatus _ _ =>
    exact ⟨_, _, hcells, hrun, by simp [hstatus], by simp [hstatus]⟩
  | done hrun _ => exact ⟨cells, [], by simp, hrun, by simp, by simp⟩
  | failed hcells hrun hstatus => exact ⟨_, _, hcells, hrun, by simp [hstatus], by simp⟩

/-! ### One cell -/

section Cell

variable {cell : CellRequest} {run : SuiteRun} (rest : List CellRequest)

lemma CellRequest.Startable.storage (h : cell.Startable cfg defaults) (hrun : ¬cell.Skipped cfg) :
    ∃ hasWriteBatch, (cell.engine cfg).storages (cell.config defaults).strategy =
      some hasWriteBatch := by
  obtain ⟨st, hst⟩ := Option.isSome_iff_exists.mp (h hrun).1
  exact ⟨(st.writeBatch? cfg).isSome, by simp [engine, config, hst]⟩

/-- A cell that does not break has its result, and the suite goes on. -/
lemma cell_goes_on (hstart : cell.Startable cfg defaults)
    (hgood : ¬cell.Breaks cfg defaults env run.current) :
    Inevitable (SuiteStep cfg defaults env)
      (fun s => ∃ r, cell.Accounts defaults r ∧ s = ⟨run.push r, .between rest⟩)
      ⟨run, .between (cell :: rest)⟩ := by
  by_cases hskip : cell.Skipped cfg
  · refine .next ⟨_, .skip hskip⟩ fun s hs => ?_
    cases hs with
    | skip _ => exact .now ⟨_, by simp [CellRequest.Accounts, CellRequest.skipped,
        CellRequest.config], rfl⟩
    | begins hrun => exact absurd hskip hrun
  · refine .next ⟨_, .begins hskip⟩ fun s hs => ?_
    cases hs with
    | skip h => exact absurd h hskip
    | begins _ =>
      obtain ⟨hasWriteBatch, hstorage⟩ := hstart.storage hskip
      have hcell := start_accounted hstorage (hstart hskip).2.1 (hstart hskip).2.2
        fun hbad => hgood ⟨hskip, hbad⟩
      have hsuite := hcell.embed (SuiteStep cfg defaults env) (fun _ => True)
        (fun c => ⟨run, .inCell cell c rest⟩) (fun _ _ _ _ => trivial) (fun _ _ => .cell)
        (fun c s _ _ hgo hs => ?_) trivial
      · refine hsuite.bind fun s hs => ?_
        obtain ⟨_, rfl, -, r, rfl, hr⟩ := hs
        refine .next ⟨_, .returned⟩ fun s hs => ?_
        cases hs with
        | returned => exact .now ⟨r, hr, rfl⟩
        | cell h => cases h
      · obtain ⟨c', hc'⟩ := hgo
        cases hs with
        | cell h => exact ⟨_, h, rfl⟩
        | returned => cases hc'
        | threw => cases hc'

/-- A cell that breaks may end the suite. -/
lemma cell_ends (hstart : cell.Startable cfg defaults)
    (hbad : cell.Breaks cfg defaults env run.current) :
    ∃ err, Relation.ReflTransGen (SuiteStep cfg defaults env) ⟨run, .between (cell :: rest)⟩
      ⟨run.fail err, .ended⟩ := by
  obtain ⟨hrun, hmissing, hsome⟩ := hbad
  obtain ⟨hasWriteBatch, hstorage⟩ := hstart.storage hrun
  obtain ⟨err, hthrows⟩ := start_throws hstorage (hstart hrun).2.1 (hstart hrun).2.2 hmissing hsome
  have hlift : Relation.ReflTransGen (SuiteStep cfg defaults env) _ _ :=
    hthrows.lift (fun c => (⟨run, .inCell cell c rest⟩ : Suite)) fun _ _ => .cell
  exact ⟨err, (Relation.ReflTransGen.head (.begins hrun) hlift).tail .threw⟩

end Cell

/-! ### Suites -/

/-- What is left of a suite completes if none of its cells break. -/
lemma rest_completes (hfiles : env.Writes) (ran : List CellRequest) :
    ∀ {rest : List CellRequest} {run : SuiteRun}, run.current = ran.length →
      List.Forall₂ (CellRequest.Accounts defaults) ran run.results →
      (∀ cell ∈ rest, cell.Startable cfg defaults) →
      (∀ (i : ℕ) (cell : CellRequest), rest[i]? = some cell →
        ¬cell.Breaks cfg defaults env (run.current + i)) →
      Inevitable (SuiteStep cfg defaults env) (SuiteDone defaults (ran ++ rest))
        ⟨run, .between rest⟩ := by
  intro rest
  induction rest generalizing ran with
  | nil =>
    intro run hcurrent hresults _ _
    obtain ⟨jsonPath, csvPath, hpaths⟩ := hfiles.paths run.results run.label
    refine .next ⟨_, .exports hpaths⟩ fun s hs => ?_
    cases hs with
    | exports _ =>
      rw [List.append_nil]
      exact .now ⟨rfl, rfl, hcurrent, hresults, rfl, rfl⟩
    | exportFails hnone =>
      rw [hpaths] at hnone
      cases hnone
  | cons cell rest ih =>
    intro run hcurrent hresults hstart hgood
    refine (cell_goes_on rest (hstart cell (.head _)) (hgood 0 cell rfl)).bind fun s hs => ?_
    obtain ⟨r, hr, rfl⟩ := hs
    rw [List.append_cons]
    refine ih _ ?_ ?_ (fun c hc => hstart c (.tail _ hc)) fun i c hc => ?_
    · simp [SuiteRun.push, hcurrent]
    · exact List.rel_append hresults (.cons hr .nil)
    · have hbefore := hgood (i + 1) c hc
      rwa [← Nat.add_assoc, Nat.add_right_comm] at hbefore

/-- A suite with a cell that breaks may end with an error. -/
lemma rest_fails : ∀ {rest : List CellRequest} (run : SuiteRun) {i : ℕ} {cell : CellRequest},
    (∀ cell ∈ rest, cell.Startable cfg defaults) → rest[i]? = some cell →
    cell.Breaks cfg defaults env (run.current + i) →
    ∃ run', Relation.ReflTransGen (SuiteStep cfg defaults env) ⟨run, .between rest⟩
      ⟨run', .ended⟩ ∧ run'.status = .error := by
  intro rest
  induction rest with
  | nil =>
    intro _ _ _ _ hcell _
    cases hcell
  | cons first rest ih =>
    intro run i cell hstart hcell hbad
    by_cases hfirst : first.Breaks cfg defaults env run.current
    · obtain ⟨err, hrun⟩ := cell_ends rest (hstart first (.head _)) hfirst
      exact ⟨_, hrun, rfl⟩
    · cases i with
      | zero =>
        cases hcell
        exact absurd hbad hfirst
      | succ i =>
        obtain ⟨_, hrun, r, -, rfl⟩ :=
          (cell_goes_on rest (hstart first (.head _)) hfirst).exists_run
        have hlater : cell.Breaks cfg defaults env ((run.push r).current + i) := by
          rwa [← Nat.add_assoc, Nat.add_right_comm] at hbad
        obtain ⟨run', hrun', hstatus⟩ := ih _ (fun c hc => hstart c (.tail _ hc)) hcell hlater
        exact ⟨run', hrun.trans hrun', hstatus⟩

end Runs

/-- A cell that takes what the suite says. -/
def requestedCell (strategy : LogStrategy) (db : Db) : CellRequest :=
  ⟨strategy, db, .batch, none, none, none, none⟩

/-- What the server takes for granted. -/
def serverDefaults : SuiteDefaults := ⟨5, 20, 5, 10⟩

def smoothSuite : SuiteEnv := ⟨fun _ => smoothEnv, appPlace, openFiles, .epoch⟩

/-- A server that started without MongoDB. -/
def mongolessConfig : ServerConfig := { connectedConfig with mongo := .notInstalled }

/-- What a poll shows at any time: a result for each of the first cells in their order, as many as
the suite says it has run; all of them if it is done; and nothing else any more once it is done or
has an error. -/
theorem suite_progress {cfg : ServerConfig} {defaults : SuiteDefaults} {env : SuiteEnv}
    {cells : List CellRequest} {label : JsString} {s₀ s : Suite}
    (hpost : Suite.post cells label = some s₀)
    (hs : Relation.ReflTransGen (SuiteStep cfg defaults env) s₀ s) :
    s.run.total = cells.length ∧ s.run.current ≤ s.run.total ∧
      List.Forall₂ (CellRequest.ResultOf cfg defaults) (cells.take s.run.current) s.run.results ∧
      (s.run.status = .done → s.run.current = s.run.total) ∧
      (s.run.status ≠ .running → ∀ s', ¬SuiteStep cfg defaults env s s') := by
  rw [Suite.post] at hpost
  split at hpost
  · cases hpost
  cases hpost
  have hprogress : Progress cfg defaults env cells s :=
    (Progress.between (List.nil_append cells).symm ⟨rfl, rfl, .nil⟩ rfl).run hs
  obtain ⟨ran, rest, rfl, hrun, hdone, hended⟩ := hprogress.shown
  refine ⟨hrun.total, ?_, ?_, fun h => ?_, fun h s' hstep => ?_⟩
  · rw [hrun.total, hrun.current, List.length_append]
    exact Nat.le_add_right _ _
  · rw [hrun.current, List.take_left]
    exact hrun.results
  · rw [hrun.total, hrun.current, hdone h, List.append_nil]
  · have hphase := hended h
    cases hstep <;> cases hphase

lemma startable_requestedCell (cfg : ServerConfig) (s : LogStrategy) :
    (requestedCell s .postgres).Startable cfg serverDefaults := by
  intro _
  cases s <;> exact ⟨rfl, by decide, by decide⟩

/-- Without MongoDB the first of these cells is skipped. -/
def mixedCells : List CellRequest :=
  [requestedCell .databaseOnly .mongo, requestedCell .databaseOnly .postgres,
    requestedCell .privateChain .postgres]

lemma startable_mixedCells : ∀ cell ∈ mixedCells,
    cell.Startable mongolessConfig serverDefaults := by
  intro cell hcell
  simp only [mixedCells, List.mem_cons, List.not_mem_nil, or_false] at hcell
  rcases hcell with rfl | rfl | rfl
  · exact fun hrun => absurd ⟨rfl, rfl⟩ hrun
  · exact startable_requestedCell _ _
  · exact startable_requestedCell _ _

lemma not_breaks_mixedCells {i j : ℕ} {cell : CellRequest} (h : mixedCells[i]? = some cell) :
    ¬cell.Breaks mongolessConfig serverDefaults smoothSuite j := by
  intro hbad
  have hmem := List.mem_of_getElem? h
  simp only [mixedCells, List.mem_cons, List.not_mem_nil, or_false] at hmem
  rcases hmem with rfl | rfl | rfl <;> cases hbad.2.1.1

theorem mixed_cells_shown : ∃ s₀ s, Suite.post mixedCells [] = some s₀ ∧
    Relation.ReflTransGen (SuiteStep mongolessConfig serverDefaults smoothSuite) s₀ s ∧
    s.run.current = 3 ∧
    List.Forall₂ (CellRequest.ResultOf mongolessConfig serverDefaults) mixedCells
      s.run.results := by
  have hpost : Suite.post mixedCells [] =
      some ⟨⟨3, 0, [], [], .running, none, none, none⟩, .between mixedCells⟩ := rfl
  have hcompletes : Inevitable (SuiteStep mongolessConfig serverDefaults smoothSuite)
      (SuiteDone serverDefaults mixedCells)
      ⟨⟨3, 0, [], [], .running, none, none, none⟩, .between mixedCells⟩ :=
    rest_completes ⟨rfl, fun _ => rfl⟩ [] rfl .nil startable_mixedCells
      fun _ _ => not_breaks_mixedCells
  obtain ⟨s, hrun, hdone⟩ := hcompletes.exists_run
  have hcurrent : s.run.current = 3 := hdone.current
  have hresults := (suite_progress hpost hrun).2.2.1
  rw [hcurrent] at hresults
  exact ⟨_, s, hpost, hrun, hcurrent, hresults⟩

/-- However its cells go, a suite ends with a result for each of its cells that accounts for all
their writes, exactly if none of its cells breaks: queries a batched table of PostgreSQL for a
status after a write has succeeded. -/
theorem suite_completes_iff {cfg : ServerConfig} {defaults : SuiteDefaults} {env : SuiteEnv}
    {cells : List CellRequest} {label : JsString} {s : Suite} (hs : Suite.post cells label = some s)
    (hstart : ∀ cell ∈ cells, cell.Startable cfg defaults) (hfiles : env.Writes) :
    Inevitable (SuiteStep cfg defaults env) (SuiteDone defaults cells) s ↔
      ∀ (i : ℕ) (cell : CellRequest), cells[i]? = some cell →
        ¬cell.Breaks cfg defaults env i := by
  rw [Suite.post] at hs
  split at hs
  · cases hs
  cases hs
  constructor
  · intro h i cell hcell hbad
    rw [← Nat.zero_add i] at hbad
    obtain ⟨run', hrun, hstatus⟩ := rest_fails
      ⟨cells.length, 0, label, [], .running, none, none, none⟩ hstart hcell hbad
    refine Inevitable.not_of_stuck ?_ hrun (fun hdone => ?_) (fun s hs => by cases hs) h
    · rintro ⟨run, phase⟩ s' hdone hstep
      cases hdone.phase
      cases hstep
    · rw [hdone.status] at hstatus
      cases hstatus
  · intro hgood
    refine rest_completes hfiles [] rfl .nil hstart fun i cell hcell => ?_
    rw [Nat.zero_add]
    exact hgood i cell hcell

theorem mixed_suite_completes : ∃ s, Suite.post mixedCells [] = some s ∧
    Inevitable (SuiteStep mongolessConfig serverDefaults smoothSuite)
      (SuiteDone serverDefaults mixedCells) s :=
  ⟨_, rfl, (suite_completes_iff rfl startable_mixedCells ⟨rfl, fun _ => rfl⟩).mpr
    fun _ _ => not_breaks_mixedCells⟩

end HybridLog
