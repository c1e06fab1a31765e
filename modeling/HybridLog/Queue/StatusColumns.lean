import HybridLog.Queue.Steps
import HybridLog.Storage.WriteAhead
import HybridLog.System.Columns

/-!
# The status columns of a row

Storages and confirm handlers write status, transaction and time of anchoring in one update, and
each works out the three together. So they agree in every row of the tables that have them, whatever
fails and however often a call or a handler is repeated.
-/

namespace HybridLog

open Js Async

/-! ### Columns that agree -/

/-- The time of anchoring is set exactly in a confirmed row, and such a row names its
transaction. -/
structure ColumnsAgree {α : Type} (confirmed : Prop) (txHash : Option TxHash)
    (anchoredAt : Option α) : Prop where
  anchored : anchoredAt.isSome = true ↔ confirmed
  sent : confirmed → txHash.isSome = true

def LogRow.StatusAgrees (r : LogRow) : Prop :=
  ColumnsAgree (r.anchorStatus = some .confirmed) r.anchorTxHash r.anchoredAt

def BatchRow.StatusAgrees (r : BatchRow) : Prop :=
  ColumnsAgree (r.anchorStatus = .confirmed) r.anchorTxHash r.anchoredAt

lemma LogRow.StatusAgrees.of_columns {r r' : LogRow} (h : r.StatusAgrees)
    (heq : r.statusColumns = r'.statusColumns) : r'.StatusAgrees := by
  simp only [LogRow.statusColumns, Prod.mk.injEq] at heq
  obtain ⟨hstatus, htx, htime⟩ := heq
  rw [LogRow.StatusAgrees, ← hstatus, ← htx, ← htime]
  exact h

/-- The rows of the tables for single logs and of those for batches agree. -/
structure State.StatusAgrees (s : State) : Prop where
  logs : ∀ db side, ∀ row ∈ (s.dbs db).logs (.anchored side), row.StatusAgrees
  batches : ∀ db side, ∀ row ∈ (s.dbs db).batches side, row.StatusAgrees

lemma State.StatusAgrees.start : State.start.StatusAgrees := by
  constructor
  · intro db side row hrow
    cases hrow
  · intro db side row hrow
    cases hrow

/-- What a request writes to the columns agrees. -/
def Req.StatusAgrees : Req → Prop
  | .insert _ (.anchored _) row => row.StatusAgrees
  | .insertBatchRecord _ _ row => row.StatusAgrees
  | .updateAnchorStatus _ _ _ status txHash anchoredAt
  | .updateBatchAnchorStatus _ _ _ status txHash anchoredAt =>
    ColumnsAgree (status = .confirmed) txHash anchoredAt
  | _ => True

lemma Req.StatusAgrees.of_looks {e : Req} (h : e.Looks) : e.StatusAgrees := by
  cases e with
  | getTransaction _ _ | getReceipt _ _ | getBlockNumber _ | waitReceipt _ | now => trivial
  | _ => exact h.elim

lemma columnsAgree_map {status : AnchorStatus} {txHash : Option TxHash} {anchoredAt : Option ℕ}
    (h : ColumnsAgree (status = .confirmed) txHash anchoredAt) :
    ColumnsAgree (status = .confirmed) txHash (anchoredAt.map Int.ofNat) := by
  constructor
  · rw [Option.isSome_map]
    exact h.anchored
  · exact h.sent

lemma Effect.statusAgrees {s s' : State} {e : Req} {r : e.Answer} (h : Effect s e r s')
    (hs : s.StatusAgrees) (he : e.StatusAgrees) : s'.StatusAgrees := by
  constructor
  · intro db side row hrow
    rcases h.logColumns hrow with ⟨old, hold, -, heq⟩ | heq |
      ⟨st, txHash, anchoredAt, heq, -, hcols⟩
    · exact (hs.logs db side old hold).of_columns heq
    · cases heq
      exact he
    · cases heq
      have hagree := columnsAgree_map he
      simp only [LogRow.statusColumns, Prod.mk.injEq] at hcols
      obtain ⟨hstatus, htx, htime⟩ := hcols
      rw [LogRow.StatusAgrees, hstatus, htx, htime, Option.some.injEq]
      exact hagree
  · intro db side row hrow
    rcases h.batchColumns hrow with hold | heq | ⟨st, txHash, anchoredAt, heq, -, hcols⟩
    · exact hs.batches db side row hold
    · cases heq
      exact he
    · cases heq
      have hagree := columnsAgree_map he
      simp only [BatchRow.statusColumns, Prod.mk.injEq] at hcols
      obtain ⟨hstatus, htx, htime⟩ := hcols
      rw [BatchRow.StatusAgrees, hstatus, htx, htime]
      exact hagree

/-! ### The writers of the columns -/

lemma statusOf_eq_confirmed {confirmed : Option Bool} {success : Bool} :
    statusOf confirmed success = .confirmed ↔ confirmed = some true := by
  rw [statusOf]
  split
  · next h => exact iff_of_true rfl h
  · next h =>
    refine iff_of_false ?_ h
    split
    · simp
    · simp

lemma TxCheck.status_eq_confirmed {r : TxCheck} :
    r.status = .confirmed ↔ some r.confirmed = some true := by
  rw [TxCheck.status, Option.some.injEq]
  split
  · next h => exact iff_of_true rfl h
  · next h =>
    refine iff_of_false ?_ h
    split
    · simp
    · simp

variable {T X : Type} {t : T} {tr : Trace Req Req.Answer T X}

/-- The result of an anchor names its transaction if it is confirmed. -/
lemma AnchorOutcome.columnsAgree {chain : Chain} {payload : Payload} {opts : Option WriteOpts}
    {success : Bool} {txId : Option TxHash} {confirmed : Option Bool} {anchoredAt : Option ℕ}
    (h : AnchorOutcome chain payload opts t tr success txId confirmed)
    (ha : anchoredAt.isSome = true ↔ confirmed = some true) :
    ColumnsAgree (statusOf confirmed success = .confirmed) txId anchoredAt := by
  rw [statusOf_eq_confirmed]
  refine ⟨ha, fun hconfirmed => ?_⟩
  cases h with
  | confirmed _ _ _ _ => rfl
  | submitted _ _ _ | givenUp _ _ _ _ _ => rfl
  | unsent _ | refused _ _ | lost _ _ _ => cases hconfirmed

lemma AnchorStep.statusAgrees {payload : Payload} {e : Req} (h : AnchorStep payload t e tr) :
    e.StatusAgrees := by
  cases h with
  | looks h => exact .of_looks h
  | submit _ => trivial

lemma LinkReq.statusAgrees {s : Side} {ids : List JsString} {root : JsString} {db : Db} {e : Req}
    (h : HybridStorage.LinkReq s ids root db e) : e.StatusAgrees := by
  cases db with
  | postgres =>
    cases h
    trivial
  | mongo =>
    obtain ⟨_, _, _, rfl⟩ := h
    trivial

namespace HybridStorage

variable {cfg : ServerConfig} {db : Db} {anchor : Anchor} {opts : Option WriteOpts} {e : Req}

/-- A row is inserted without a time of anchoring, and not confirmed. -/
lemma LogStep.statusAgrees {mode : HybridMode} {entry : LogEntry}
    (h : LogStep cfg db anchor mode entry opts t e tr) : e.StatusAgrees := by
  cases h with
  | insert =>
    cases mode with
    | anchored s =>
      have hnot : (logRow cfg db (.anchored s) entry).anchorStatus ≠ some .confirmed := by
        cases db with
        | postgres => simp [logRow, anchoredRow, HybridMode.logTable]
        | mongo => simp [logRow, anchoredRow]
      exact ⟨iff_of_false (by simp [logRow, anchoredRow, entryRow]) hnot, fun h => absurd h hnot⟩
    | batched s => trivial
  | anchor _ h => exact h.statusAgrees
  | update _ ho ha => exact ho.columnsAgree ha

lemma BatchStep.statusAgrees {s : Side} {entries : List LogEntry}
    (h : BatchStep cfg db anchor s entries opts t e tr) : e.StatusAgrees := by
  cases h with
  | insert _ => trivial
  | record _ => exact ⟨iff_of_false (by simp [recordRow, batchRow]) (by simp [recordRow, batchRow]),
      fun h => absurd h (by simp [recordRow, batchRow])⟩
  | link _ h => exact LinkReq.statusAgrees h
  | anchor _ h => exact h.statusAgrees
  | update _ ho ha => exact ho.columnsAgree ha

end HybridStorage

lemma ConfirmStep.statusAgrees {cfg : ServerConfig} {strategy : LogStrategy} {raw : ConfirmMessage}
    {e : Req} (h : ConfirmStep cfg strategy raw t e tr) : e.StatusAgrees := by
  cases h with
  | update h =>
    cases h with
    | looks h => exact .of_looks h
    | batch _ _ _ ha | log _ _ _ ha =>
      refine ⟨?_, fun _ => rfl⟩
      rw [TxCheck.status_eq_confirmed]
      exact ha
  | reply _ _ _ | ack _ => trivial

/-! ### Rows that are not named -/

section Rows

variable {s s' : State} {e : Req} {r : e.Answer}

/-- A request leaves the columns of the row at each place, unless it is an update that names the
row. -/
lemma Effect.anchoredRow (h : Effect s e r s') {db : Db} {side : Side} {i : ℕ} {row : LogRow}
    (hrow : ((s.dbs db).logs (.anchored side))[i]? = some row) :
    ∃ row', ((s'.dbs db).logs (.anchored side))[i]? = some row' ∧ row'.id = row.id ∧
      (row'.statusColumns = row.statusColumns ∨ ∃ status txHash anchoredAt,
        (⟨e, r⟩ : Σ e : Req, e.Answer) =
          ⟨.updateAnchorStatus db (.anchored side) row.id status txHash anchoredAt,
            (Except.ok () : Except JsError Unit)⟩) := by
  rcases h.anchored db side with hsame | ⟨new, -, hnew⟩ |
    ⟨id, status, txHash, anchoredAt, heq, hmap⟩
  · rw [hsame]
    exact ⟨row, hrow, rfl, .inl rfl⟩
  · rw [hnew, List.getElem?_append_left (List.getElem?_eq_some_iff.mp hrow).1]
    exact ⟨row, hrow, rfl, .inl rfl⟩
  · rw [hmap, List.getElem?_map, hrow, Option.map_some]
    by_cases hid : row.id = id
    · subst hid
      rw [if_pos rfl]
      exact ⟨_, rfl, rfl, .inr ⟨status, txHash, anchoredAt, heq⟩⟩
    · rw [if_neg hid]
      exact ⟨row, rfl, rfl, .inl rfl⟩

lemma Effect.batchRow (h : Effect s e r s') {db : Db} {side : Side} {i : ℕ} {row : BatchRow}
    (hrow : ((s.dbs db).batches side)[i]? = some row) :
    ∃ row', ((s'.dbs db).batches side)[i]? = some row' ∧ row'.merkleRoot = row.merkleRoot ∧
      (row'.statusColumns = row.statusColumns ∨ ∃ status txHash anchoredAt,
        (⟨e, r⟩ : Σ e : Req, e.Answer) =
          ⟨.updateBatchAnchorStatus db side row.merkleRoot status txHash anchoredAt,
            (Except.ok () : Except JsError Unit)⟩) := by
  rcases h.batches db side with hsame | ⟨new, -, hnew⟩ |
    ⟨root, status, txHash, anchoredAt, heq, hmap⟩
  · rw [hsame]
    exact ⟨row, hrow, rfl, .inl rfl⟩
  · rw [hnew, List.getElem?_append_left (List.getElem?_eq_some_iff.mp hrow).1]
    exact ⟨row, hrow, rfl, .inl rfl⟩
  · rw [hmap, List.getElem?_map, hrow, Option.map_some]
    by_cases hroot : row.merkleRoot = root
    · subst hroot
      rw [if_pos rfl]
      exact ⟨_, rfl, rfl, .inr ⟨status, txHash, anchoredAt, heq⟩⟩
    · rw [if_neg hroot]
      exact ⟨row, rfl, rfl, .inl rfl⟩

end Rows

/-! ### Calls and handlers at once -/

/-- What writes the columns: a call of a storage, or the handler of a confirm message. -/
inductive StatusJob
  | write (call : Call)
  | confirm (msg : ConfirmMessage)

inductive StatusEvent
  | start (job : StatusJob)
  | chain (x : ChainEvent)

section Jobs

variable (cfg : ServerConfig) (objectHash : ObjectHash)

def StatusJob.program : StatusJob → Prog Req Req.Answer Unit
  | write call => call.program cfg
  | confirm msg => (consume (confirmHandler cfg msg.strategy msg)).run.detach

/-- Calls and handlers start at any time, the same ones as often as it happens, and may stop at
any request. -/
def statusJobs : Machine Req Req.Answer StatusJob StatusEvent State where
  apply _ := State.answer
  accept
    | .start job, s => some (s, [(job, job.program cfg)])
    | .chain x, s => (s.onChain cfg objectHash x).map fun s' => (s', [])

/-- The requests of a job. -/
def JobStep : Guard Req Req.Answer StatusJob StatusEvent
  | .write (.log db anchor mode entry opts) =>
    HybridStorage.LogStep cfg db anchor mode entry opts (.write (.log db anchor mode entry opts))
  | .write (.batch db anchor s entries opts) =>
    HybridStorage.BatchStep cfg db anchor s entries opts (.write (.batch db anchor s entries opts))
  | .confirm msg => ConfirmStep cfg msg.strategy msg (.confirm msg)

lemma StatusJob.program_follows (job : StatusJob)
    (tr : Trace Req Req.Answer StatusJob StatusEvent) :
    Follows (JobStep cfg) job (fun _ _ => True) (job.program cfg) tr := by
  cases job with
  | write call =>
    cases call with
    | log db anchor mode entry opts =>
      apply Follows.detach
      apply Follows.allow (HybridStorage.writeLog_follows cfg db anchor mode entry opts _ tr)
      intro e tr' _ h
      exact h
    | batch db anchor s entries opts =>
      apply Follows.detach
      apply Follows.allow (HybridStorage.writeBatch_follows cfg db anchor s entries opts _ tr)
      intro e tr' _ h
      exact h
  | confirm msg =>
    apply Follows.detach
    apply Follows.allow (consume_follows (confirmHandler_follows cfg msg.strategy msg _ tr))
    intro e tr' _ h
    exact h

variable {cfg}

lemma JobStep.statusAgrees {job : StatusJob} {e : Req}
    {tr : Trace Req Req.Answer StatusJob StatusEvent} (h : JobStep cfg job e tr) :
    e.StatusAgrees := by
  cases job with
  | write call =>
    cases call with
    | log => exact HybridStorage.LogStep.statusAgrees h
    | batch => exact HybridStorage.BatchStep.statusAgrees h
  | confirm msg => exact ConfirmStep.statusAgrees h

abbrev StatusConfig := Async.Config Req Req.Answer StatusJob StatusEvent State

variable {objectHash} {c c' : StatusConfig}

lemma statusJobs_guarded (h : Reach (statusJobs cfg objectHash) .start c) :
    Guarded (JobStep cfg) c.world.trace := by
  refine (Run.guarded ?_ h Guarded.nil (by simp [Config.start])).1
  intro tr x s s' ps hx p hp
  cases x with
  | start job =>
    cases hx
    cases List.mem_singleton.mp hp
    exact job.program_follows cfg _
  | chain x =>
    obtain ⟨s₁, _, heq⟩ := Option.map_eq_some_iff.mp hx
    cases heq
    cases hp

lemma statusJobs_agree (h : Reach (statusJobs cfg objectHash) .start c) :
    c.world.state.StatusAgrees := by
  have hinvariant := @Run.invariant _ _ _ _ _ (statusJobs cfg objectHash) (JobStep cfg)
    (fun _ => True) fun w => w.state.StatusAgrees
  refine hinvariant ?_ ?_ h State.StatusAgrees.start (statusJobs_guarded h) fun _ _ => trivial
  · intro w t e r s' _ hstep _ hs hanswer
    exact (State.answer_effect hanswer).statusAgrees hs hstep.statusAgrees
  · intro w x s' ps _ _ hs hx
    cases x with
    | start job =>
      cases hx
      exact hs
    | chain x =>
      obtain ⟨s₁, hchain, heq⟩ := Option.map_eq_some_iff.mp hx
      cases heq
      rw [World.push_state]
      have hdbs := State.onChain_dbs hchain
      constructor
      · rw [hdbs]
        exact hs.logs
      · rw [hdbs]
        exact hs.batches

/-- From one state of a run to the next, the row at each place stays, and its columns change only
by an update that names the row. -/
structure OwnUpdates (c c' : StatusConfig) : Prop where
  logs : ∀ db side (i : ℕ) (row : LogRow),
    ((c.world.state.dbs db).logs (.anchored side))[i]? = some row →
    ∃ row' : LogRow, ((c'.world.state.dbs db).logs (.anchored side))[i]? = some row' ∧
      row'.id = row.id ∧
      (row'.statusColumns = row.statusColumns ∨ ∃ job status txHash anchoredAt,
        c'.world.trace = c.world.trace ++ [.call job
          (.updateAnchorStatus db (.anchored side) row.id status txHash anchoredAt)
          (Except.ok () : Except JsError Unit)])
  batches : ∀ db side (i : ℕ) (row : BatchRow),
    ((c.world.state.dbs db).batches side)[i]? = some row →
    ∃ row' : BatchRow, ((c'.world.state.dbs db).batches side)[i]? = some row' ∧
      row'.merkleRoot = row.merkleRoot ∧
      (row'.statusColumns = row.statusColumns ∨ ∃ job status txHash anchoredAt,
        c'.world.trace = c.world.trace ++ [.call job
          (.updateBatchAnchorStatus db side row.merkleRoot status txHash anchoredAt)
          (Except.ok () : Except JsError Unit)])

lemma OwnUpdates.of_dbs (h : c'.world.state.dbs = c.world.state.dbs) : OwnUpdates c c' := by
  constructor
  · intro db side i row hrow
    exact ⟨row, h ▸ hrow, rfl, .inl rfl⟩
  · intro db side i row hrow
    exact ⟨row, h ▸ hrow, rfl, .inl rfl⟩

lemma ownUpdates_of_step (h : Step (statusJobs cfg objectHash) c c') : OwnUpdates c c' := by
  cases h with
  | @call w l l' t e k r s' hs =>
    have heffect := State.answer_effect hs
    constructor
    · intro db side i row hrow
      obtain ⟨row', hrow', hid, hcols⟩ := heffect.anchoredRow hrow
      refine ⟨row', hrow', hid, hcols.imp_right ?_⟩
      rintro ⟨status, txHash, anchoredAt, heq⟩
      cases heq
      exact ⟨t, status, txHash, anchoredAt, rfl⟩
    · intro db side i row hrow
      obtain ⟨row', hrow', hroot, hcols⟩ := heffect.batchRow hrow
      refine ⟨row', hrow', hroot, hcols.imp_right ?_⟩
      rintro ⟨status, txHash, anchoredAt, heq⟩
      cases heq
      exact ⟨t, status, txHash, anchoredAt, rfl⟩
  | @ext w l x s' ps hs =>
    apply OwnUpdates.of_dbs
    cases x with
    | start job =>
      cases hs
      rfl
    | chain x =>
      obtain ⟨s₁, hchain, heq⟩ := Option.map_eq_some_iff.mp hs
      cases heq
      exact State.onChain_dbs hchain
  | fork | left | right | done => exact .of_dbs rfl

end Jobs

/-! ### Main result -/

/-- The rows that `avgExposureWindowMs` takes its average over. -/
def Database.exposureRows (d : Database) (table : LogTable) : List LogRow :=
  (d.logs table).filter fun row => row.anchorStatus = some .confirmed && row.anchoredAt.isSome

/-- Whatever calls and handlers run at once, fail, stop or are repeated: the time of anchoring is
set exactly in confirmed rows, which name their transactions, an update leaves the columns of all
other rows, and the average is over the confirmed rows. -/
theorem status_columns_agree {cfg : ServerConfig} {objectHash : ObjectHash} {c : StatusConfig}
    (h : Reach (statusJobs cfg objectHash) .start c) :
    c.world.state.StatusAgrees ∧
      (∀ c', Step (statusJobs cfg objectHash) c c' → OwnUpdates c c') ∧
      ∀ db side, (c.world.state.dbs db).exposureRows (.anchored side) =
        ((c.world.state.dbs db).logs (.anchored side)).filter
          (·.anchorStatus = some .confirmed) := by
  have hagree := statusJobs_agree h
  refine ⟨hagree, fun c' hstep => ownUpdates_of_step hstep, fun db side => ?_⟩
  apply List.filter_congr
  intro row hrow
  rw [Bool.and_eq_left_iff_imp, decide_eq_true_iff]
  exact (hagree.logs db side row hrow).anchored.mpr

/-- The transaction of a log is included while its storage waits for it. -/
def columnsRun : Option StatusConfig :=
  (Config.start State.start).play (statusJobs connectedConfig fun _ => [])
    ([.ext (.start (.write (.log .postgres (.exonum .full) (.anchored .priv) plainEntry none)))] ++
      List.replicate 3 (.act 0 State.prompt) ++ [.ext (.chain (.commit "t"))] ++
      List.replicate 4 (.act 0 State.prompt))

theorem confirmed_columns_agree : ∃ h : columnsRun.isSome,
    ∃ row ∈ ((columnsRun.get h).world.state.dbs .postgres).logs (.anchored .priv),
      row.anchorStatus = some .confirmed ∧ row.anchoredAt.isSome = true ∧
        row.anchorTxHash.isSome = true := by
  refine ⟨rfl, ?_⟩
  have hreach := Run.of_play (Option.some_get (x := columnsRun) rfl).symm
  have hagree := (status_columns_agree hreach).1.logs .postgres .priv
  obtain ⟨row, hrow, hst⟩ : ∃ row ∈ ((columnsRun.get rfl).world.state.dbs .postgres).logs
      (.anchored .priv), row.anchorStatus = some .confirmed := by decide
  exact ⟨row, hrow, hst, (hagree row hrow).anchored.mpr hst, (hagree row hrow).sent hst⟩

end HybridLog
