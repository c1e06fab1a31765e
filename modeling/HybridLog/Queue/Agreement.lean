import HybridLog.Async.Exec
import HybridLog.Queue.Subscriber
import HybridLog.Storage.Confidential

/-!
# The synchronous and the queued path

Both paths end by storing a status for the row of an entry. They are compared where the fate of the
transaction is decided by the first time somebody asks for it. A row may be refused, a table may
have no column for the status, and a node may never say that it does not know a transaction.
-/

namespace HybridLog

open Js Async

/-! ### The two paths -/

/-- The answers to a program that runs alone. Some may never come. -/
abbrev Neighbours := List (Answered Req Req.Answer) → (e : Req) → Option e.Answer

/-- The neighbours answer, an accepted transaction has a fate, and whenever a node is asked its answer
shows the fate. If `silent`, nothing final is said of a transaction that is unknown: the explorer
answers with an error status, and the wait for a receipt goes on for ever. If not, the explorer names
another type, and the wait throws, since the transaction has been replaced or since there is no
receipt to wait for. -/
structure Decided (cfg : ServerConfig) (chain : Chain) (fate : Fate) (silent : Bool)
    (answer : Neighbours) : Prop where
  answers : ∀ done e, (∀ txHash, e ≠ .waitReceipt txHash) → ∃ r, answer done e = some r
  updated : ∀ done db table id status txHash anchoredAt, db.hasStatus table = true →
    answer done (.updateAnchorStatus db table id status txHash anchoredAt) = some (Except.ok ())
  noColumn : ∀ done db table id status txHash anchoredAt, db.hasStatus table = false →
    ∃ err, answer done (.updateAnchorStatus db table id status txHash anchoredAt) =
      some (Except.error err)
  submit : ∀ done tx, ∃ txHash : TxHash, txHash ≠ "" ∧
    answer done (.submit tx) = some (Except.ok txHash)
  committed : chain = .exonum → fate ≠ .unknown → ∀ done txHash n,
    answer done (.getTransaction txHash n) = some (Except.ok ExplorerType.committed)
  notFound : chain = .exonum → fate = .unknown → silent = true → ∀ done txHash n,
    ∃ err, answer done (.getTransaction txHash n) = some (Except.error err)
  otherType : chain = .exonum → fate = .unknown → silent = false → ∀ done txHash n,
    answer done (.getTransaction txHash n) = some (Except.ok ExplorerType.other)
  noReceipt : chain = .ethereum → fate = .unknown → ∀ done txHash n,
    answer done (.getReceipt txHash n) = some (Except.ok none)
  receipt : chain = .ethereum → fate ≠ .unknown → ∀ done txHash n, ∃ block,
    answer done (.getReceipt txHash n) = some (Except.ok (some ⟨decide (fate = .included), block⟩)) ∧
      ∀ done' m, ∃ current, answer done' (.getBlockNumber m) = some (Except.ok current) ∧
        block + cfg.confirmationBlocks ≤ current
  waited : chain = .ethereum → fate = .included → ∀ done txHash,
    answer done (.waitReceipt txHash) = some (Except.ok ())
  waitsOn : chain = .ethereum → fate = .unknown → silent = true → ∀ done txHash,
    answer done (.waitReceipt txHash) = none
  waitThrows : chain = .ethereum → fate = .reverted ∨ fate = .unknown ∧ silent = false →
    ∀ done txHash, ∃ err, answer done (.waitReceipt txHash) = some (Except.error err)

/-- A write that is handed over to the confirm queue, and the handling of the message there. -/
def queuedWrite (cfg : ServerConfig) (storage : Storage) (strategy : LogStrategy)
    (raw : SubmitMessage) (entry : LogEntry) : Io Unit := do
  let r ← storage.writeLog cfg entry (some submitOnlyOpts)
  match r.txId, r.confirmed.getD true with
  | some txHash, false => confirmHandler cfg strategy (confirmMessage strategy raw r.logId txHash)
  | _, _ => pure ()

/-- The status of a row after one more answered request. -/
def statusAfter (db : Db) (table : LogTable) (id : JsString) (status : Option AnchorStatus) :
    Answered Req Req.Answer → Option AnchorStatus
  | ⟨.insert db' table' row, Except.ok ()⟩ =>
    if db' = db ∧ table' = table ∧ row.id = id then row.anchorStatus else status
  | ⟨.updateAnchorStatus db' table' id' status' _ _, Except.ok ()⟩ =>
    if db' = db ∧ table' = table ∧ id' = id then some status' else status
  | _ => status

/-- The status a run leaves in a row, if it leaves one. -/
def finalStatus (db : Db) (table : LogTable) (id : JsString)
    (done : List (Answered Req Req.Answer)) : Option AnchorStatus :=
  done.foldl (statusAfter db table id) none

/-! ### Requests that leave the rows alone -/

def Req.SetsStatus : Req → Prop
  | .insert .. | .updateAnchorStatus .. => True
  | _ => False

/-- Requests that set the status of no row. -/
def Quiet (asked : List (Answered Req Req.Answer)) : Prop := ∀ c ∈ asked, ¬c.1.SetsStatus

@[simp] lemma Quiet.nil : Quiet [] := fun _ hc => absurd hc List.not_mem_nil

lemma Quiet.append {asked more : List (Answered Req Req.Answer)} (h : Quiet asked) (h' : Quiet more) :
    Quiet (asked ++ more) := fun c hc => (List.mem_append.mp hc).elim (h c) (h' c)

lemma Quiet.single {e : Req} {r : e.Answer} (h : ¬e.SetsStatus) : Quiet [⟨e, r⟩] := by
  intro c hc
  cases List.mem_singleton.mp hc
  exact h

lemma statusAfter_quiet {c : Answered Req Req.Answer} (h : ¬c.1.SetsStatus) (db : Db)
    (table : LogTable) (id : JsString) (status : Option AnchorStatus) :
    statusAfter db table id status c = status := by
  obtain ⟨e, r⟩ := c
  cases e <;> first | rfl | exact absurd trivial h

lemma foldl_quiet {asked : List (Answered Req Req.Answer)} (h : Quiet asked) (db : Db)
    (table : LogTable) (id : JsString) (status : Option AnchorStatus) :
    asked.foldl (statusAfter db table id) status = status := by
  induction asked with
  | nil => rfl
  | cons c asked ih =>
    rw [List.foldl_cons, statusAfter_quiet (h c (List.mem_cons_self ..))]
    exact ih fun c' hc' => h c' (List.mem_cons_of_mem _ hc')

lemma finalStatus_append (db : Db) (table : LogTable) (id : JsString)
    (done asked : List (Answered Req Req.Answer)) :
    finalStatus db table id (done ++ asked) =
      asked.foldl (statusAfter db table id) (finalStatus db table id done) :=
  List.foldl_append

/-! ### Single requests -/

section Trail

variable {answer : Neighbours} {done : List (Answered Req Req.Answer)}

lemma insertAnchored_trail {db : Db} {log : LogEntry} {contentHash : JsString} {table : LogTable}
    {r : Except JsError Unit}
    (h : answer done (.insert db table (anchoredRow db log contentHash table)) = some r) :
    Task.trail answer (insertAnchored db log contentHash table) done =
      (done ++ [⟨.insert db table (anchoredRow db log contentHash table), r⟩], some r) :=
  Task.trail_request answer done h fun r => r

lemma updateAnchorStatus_trail {db : Db} {id : JsString} {status : AnchorStatus}
    {txHash : Option TxHash} {anchoredAt : Option ℕ} {table : LogTable} {r : Except JsError Unit}
    (h : answer done (.updateAnchorStatus db table id status txHash anchoredAt) = some r) :
    Task.trail answer (updateAnchorStatus db id status txHash anchoredAt table) done =
      (done ++ [⟨.updateAnchorStatus db table id status txHash anchoredAt, r⟩], some r) :=
  Task.trail_request answer done h fun r => r

lemma updateBatchAnchorStatus_trail {db : Db} {root : JsString} {status : AnchorStatus}
    {txHash : Option TxHash} {anchoredAt : Option ℕ} {table : Side} {r : Except JsError Unit}
    (h : answer done (.updateBatchAnchorStatus db table root status txHash anchoredAt) = some r) :
    Task.trail answer (updateBatchAnchorStatus db root status txHash anchoredAt table) done =
      (done ++ [⟨.updateBatchAnchorStatus db table root status txHash anchoredAt, r⟩], some r) :=
  Task.trail_request answer done h fun r => r

lemma submitTxBytes_trail {cfg : ServerConfig} {mode : AnchorMode} {args : Bytes}
    {r : Except JsError TxHash}
    (h : answer done (.submit (.exonum ⟨mode.service, args, cfg.exonumAuthor⟩)) = some r) :
    Task.trail answer (ExonumAnchor.submitTxBytes cfg mode args) done =
      (done ++ [⟨.submit (.exonum ⟨mode.service, args, cfg.exonumAuthor⟩), r⟩], some r) :=
  Task.trail_request answer done h fun r => r

lemma send_trail {cfg : ServerConfig} {call : StoreWrite} {r : Except JsError TxHash}
    (h : answer done (.submit (.ethereum ⟨call, cfg.ethereumSender⟩)) = some r) :
    Task.trail answer (EthereumAnchor.send cfg call) done =
      (done ++ [⟨.submit (.ethereum ⟨call, cfg.ethereumSender⟩), r⟩], some r) :=
  Task.trail_request answer done h fun r => r

lemma getTransaction_trail {txHash : TxHash} {n : ℕ} {r : Except JsError ExplorerType}
    (h : answer done (.getTransaction txHash n) = some r) :
    Task.trail answer (Task.request (.getTransaction txHash n) id : Io ExplorerType) done =
      (done ++ [⟨.getTransaction txHash n, r⟩], some r) :=
  Task.trail_request answer done h fun r => r

lemma getReceipt_trail {txHash : TxHash} {n : ℕ} {r : Except JsError (Option Receipt)}
    (h : answer done (.getReceipt txHash n) = some r) :
    Task.trail answer (Task.request (.getReceipt txHash n) id : Io (Option Receipt)) done =
      (done ++ [⟨.getReceipt txHash n, r⟩], some r) :=
  Task.trail_request answer done h fun r => r

lemma getBlockNumber_trail {n : ℕ} {r : Except JsError ℕ}
    (h : answer done (.getBlockNumber n) = some r) :
    Task.trail answer (Task.request (.getBlockNumber n) id : Io ℕ) done =
      (done ++ [⟨.getBlockNumber n, r⟩], some r) :=
  Task.trail_request answer done h fun r => r

lemma waitReceipt_trail {txHash : TxHash} {r : Except JsError Unit}
    (h : answer done (.waitReceipt txHash) = some r) :
    Task.trail answer (Task.request (.waitReceipt txHash) (fun r => r) : Io Unit) done =
      (done ++ [⟨.waitReceipt txHash, r⟩], some r) :=
  Task.trail_request answer done h fun r => r

lemma waitReceipt_stuck {txHash : TxHash} (h : answer done (.waitReceipt txHash) = none) :
    Task.trail answer (Task.request (.waitReceipt txHash) (fun r => r) : Io Unit) done =
      (done, none) := Task.trail_stuck answer done h fun r => r

lemma publishReply_trail {queue : JsString} {msg : ResultMessage} {r : Except JsError Unit}
    (h : answer done (.publishReply queue msg) = some r) :
    Task.trail answer (Task.request (.publishReply queue msg) id : Io Unit) done =
      (done ++ [⟨.publishReply queue msg, r⟩], some r) :=
  Task.trail_request answer done h fun r => r

end Trail

variable {cfg : ServerConfig} {chain : Chain} {fate : Fate} {silent : Bool} {answer : Neighbours}

/-! ### Asking the chain -/

/-- What `checkTx` tells of a decided transaction. -/
def decidedCheck : Chain → Fate → Bool → TxCheck
  | .exonum, .unknown, silent => ⟨false, silent⟩
  | .exonum, _, _ | .ethereum, .included, _ => ⟨true, false⟩
  | .ethereum, .reverted, _ => ⟨false, false⟩
  | .ethereum, .unknown, _ => ⟨false, true⟩

lemma ExonumAnchor.checkTx_trail (h : Decided cfg .exonum fate silent answer) (txHash : TxHash)
    (n : ℕ) (done : List (Answered Req Req.Answer)) : ∃ asked, Quiet asked ∧
      Task.trail answer (checkTx txHash n) done =
        (done ++ asked, some (.ok (decidedCheck .exonum fate silent))) := by
  have hcheck (r : Except JsError ExplorerType)
      (hask : answer done (.getTransaction txHash n) = some r) :
      Task.trail answer (checkTx txHash n) done =
        (done ++ [⟨.getTransaction txHash n, r⟩], some (.ok (checkOf r))) := by
    simp only [checkTx, Task.trail_tryCatch, Task.trail_bind, getTransaction_trail hask]
    rcases r with err | _ | _ | _ <;> rfl
  by_cases hf : fate = .unknown
  · subst hf
    cases silent with
    | true =>
      obtain ⟨err, hask⟩ := h.notFound rfl rfl rfl done txHash n
      exact ⟨[⟨.getTransaction txHash n, _⟩], Quiet.single id, hcheck _ hask⟩
    | false =>
      exact ⟨[⟨.getTransaction txHash n, _⟩], Quiet.single id,
        hcheck _ (h.otherType rfl rfl rfl done txHash n)⟩
  · have hask := hcheck _ (h.committed rfl hf done txHash n)
    refine ⟨[⟨.getTransaction txHash n, Except.ok ExplorerType.committed⟩], Quiet.single id,
      hask.trans ?_⟩
    cases fate with
    | unknown => exact absurd rfl hf
    | included | reverted => rfl

lemma EthereumAnchor.checkTx_trail (h : Decided cfg .ethereum fate silent answer) (txHash : TxHash)
    (n : ℕ) (done : List (Answered Req Req.Answer)) : ∃ asked, Quiet asked ∧
      Task.trail answer (checkTx cfg txHash n) done =
        (done ++ asked, some (.ok (decidedCheck .ethereum fate silent))) := by
  by_cases hf : fate = .unknown
  · have hask := h.noReceipt rfl hf done txHash n
    refine ⟨[⟨.getReceipt txHash n, Except.ok none⟩], Quiet.single id, ?_⟩
    simp only [checkTx, Task.trail_tryCatch, Task.trail_bind, getReceipt_trail hask]
    rw [hf]
    rfl
  · obtain ⟨block, hask, hblock⟩ := h.receipt rfl hf done txHash n
    cases fate with
    | included =>
      obtain ⟨current, hcurrent, hle⟩ :=
        hblock (done ++ [⟨.getReceipt txHash n, Except.ok (some ⟨true, block⟩)⟩]) n
      refine ⟨[⟨.getReceipt txHash n, Except.ok (some ⟨true, block⟩)⟩] ++
        [⟨.getBlockNumber n, Except.ok current⟩], (Quiet.single id).append (Quiet.single id), ?_⟩
      simp only [checkTx, Task.trail_tryCatch, Task.trail_bind, getReceipt_trail hask, decide_true,
        if_true, getBlockNumber_trail hcurrent, Task.trail_pure, hle, List.append_assoc]
      rfl
    | reverted =>
      refine ⟨[⟨.getReceipt txHash n, Except.ok (some ⟨false, block⟩)⟩], Quiet.single id, ?_⟩
      simp only [checkTx, Task.trail_tryCatch, Task.trail_bind, getReceipt_trail hask]
      rfl
    | unknown => exact absurd rfl hf

lemma checkTx_trail (h : Decided cfg chain fate silent answer) (txHash : TxHash) (n : ℕ)
    (done : List (Answered Req Req.Answer)) : ∃ asked, Quiet asked ∧
      Task.trail answer (checkTx cfg chain txHash n) done =
        (done ++ asked, some (.ok (decidedCheck chain fate silent))) := by
  cases chain with
  | exonum => exact ExonumAnchor.checkTx_trail h txHash n done
  | ethereum => exact EthereumAnchor.checkTx_trail h txHash n done

/-- Polling ends with the answer of the first poll: either it is final, or it never changes. -/
lemma pollFrom_trail (h : Decided cfg chain fate silent answer) (txHash : TxHash) :
    ∀ (left attempt : ℕ) (last : TxCheck) (done : List (Answered Req Req.Answer)),
      0 < left ∨ last = decidedCheck chain fate silent →
      ∃ asked, Quiet asked ∧
        Task.trail answer (pollFrom cfg chain txHash last left attempt) done =
          (done ++ asked, some (.ok (decidedCheck chain fate silent)))
  | 0, attempt, last, done, hlast => by
    obtain rfl : last = decidedCheck chain fate silent := by simpa using hlast
    exact ⟨[], Quiet.nil, by simp [pollFrom]⟩
  | left + 1, attempt, last, done, _ => by
    obtain ⟨asked, hasked, hcheck⟩ := checkTx_trail h txHash attempt done
    simp only [pollFrom, Task.trail_bind, hcheck]
    split
    · exact ⟨asked, hasked, rfl⟩
    · obtain ⟨more, hmore, hpoll⟩ := pollFrom_trail h txHash left (attempt + 1)
        (decidedCheck chain fate silent) (done ++ asked) (.inr rfl)
      exact ⟨asked ++ more, hasked.append hmore, by rw [hpoll, List.append_assoc]⟩

/-- So does the loop of the anchor, which makes nothing of what it is told of an unknown
transaction. -/
lemma ExonumAnchor.waitFrom_trail (h : Decided cfg .exonum fate silent answer) (txHash : TxHash)
    (left attempt : ℕ) (done : List (Answered Req Req.Answer)) (hleft : 0 < left ∨ fate = .unknown) :
    ∃ asked, Quiet asked ∧ Task.trail answer (waitFrom txHash left attempt) done =
      (done ++ asked, some (.ok (decide (fate ≠ .unknown)))) := by
  induction left generalizing attempt done with
  | zero =>
    obtain rfl : fate = .unknown := by simpa using hleft
    exact ⟨[], Quiet.nil, by simp [waitFrom]⟩
  | succ left ih =>
    obtain ⟨asked, hasked, hcheck⟩ := checkTx_trail h txHash attempt done
    simp only [waitFrom, Task.trail_bind, hcheck]
    cases fate with
    | included | reverted => exact ⟨asked, hasked, rfl⟩
    | unknown =>
      cases silent with
      | false => exact ⟨asked, hasked, rfl⟩
      | true =>
        obtain ⟨more, hmore, hwait⟩ := ih (attempt + 1) (done ++ asked) (.inr rfl)
        exact ⟨asked ++ more, hasked.append hmore, by simpa [decidedCheck] using hwait⟩

/-! ### Writing through an anchor -/

/-- What the write of an anchor that waits comes to, as the status of the row. An Ethereum node
that keeps silent about the transaction keeps the anchor waiting. -/
def waitedStatus : Chain → Fate → Bool → Option AnchorStatus
  | .exonum, .unknown, _ => some .pending
  | .exonum, _, _ | .ethereum, .included, _ => some .confirmed
  | .ethereum, .unknown, true => none
  | .ethereum, _, _ => some .failed

lemma now_trail (h : Decided cfg chain fate silent answer)
    (done : List (Answered Req Req.Answer)) : ∃ ms, answer done .now = some ms ∧
      Task.trail answer now done = (done ++ [⟨.now, ms⟩], some (.ok ms)) := by
  obtain ⟨ms, hms⟩ := h.answers done .now nofun
  exact ⟨ms, hms, Task.trail_request answer done hms _⟩

/-- The wait for a receipt. -/
lemma waitReceipt_waited (h : Decided cfg .ethereum fate silent answer) (txHash : TxHash)
    (done : List (Answered Req Req.Answer)) :
    ∃ asked, ∃ r : Option (Except JsError Unit), Quiet asked ∧
      Task.trail answer (Task.request (.waitReceipt txHash) (fun r => r) : Io Unit) done =
        (done ++ asked, r) ∧
      r.map (fun r => if r.isOk then .confirmed else .failed) =
        waitedStatus .ethereum fate silent := by
  have hthrown (hthrows : fate = .reverted ∨ fate = .unknown ∧ silent = false) : ∃ err,
      Task.trail answer (Task.request (.waitReceipt txHash) (fun r => r) : Io Unit) done =
        (done ++ [⟨.waitReceipt txHash, Except.error err⟩], some (.error err)) := by
    obtain ⟨err, hwait⟩ := h.waitThrows rfl hthrows done txHash
    exact ⟨err, waitReceipt_trail hwait⟩
  cases fate with
  | included =>
    have hwait := h.waited rfl rfl done txHash
    exact ⟨_, _, Quiet.single id, waitReceipt_trail hwait, rfl⟩
  | reverted =>
    obtain ⟨err, hwait⟩ := hthrown (.inl rfl)
    exact ⟨_, _, Quiet.single id, hwait, rfl⟩
  | unknown =>
    cases silent with
    | false =>
      obtain ⟨err, hwait⟩ := hthrown (.inr ⟨rfl, rfl⟩)
      exact ⟨_, _, Quiet.single id, hwait, rfl⟩
    | true =>
      have hwait := waitReceipt_stuck (h.waitsOn rfl rfl rfl done txHash)
      exact ⟨[], none, Quiet.nil, by rw [hwait, List.append_nil], rfl⟩

/-- An anchor that has something to send and waits. -/
lemma writeLog_waited (anchor : Anchor) (h : Decided cfg anchor.chain fate silent answer)
    {entry : LogEntry} (hsend : ∃ tx, anchor.logPayload cfg entry tx)
    (done : List (Answered Req Req.Answer)) :
    ∃ asked, ∃ r : Option WriteResult, Quiet asked ∧
      Task.trail answer (anchor.writeLog cfg entry none) done = (done ++ asked, r.map Except.ok) ∧
        r.map (fun r => statusOf r.confirmed r.success) = waitedStatus anchor.chain fate silent := by
  have hwaits : ¬submitOnly none = true := by decide
  cases anchor with
  | exonum mode =>
    obtain ⟨ms, -, hnow⟩ := now_trail h done
    obtain ⟨tx, htx⟩ : ∃ tx, tx = ChainTx.exonum ⟨mode.service, ExonumAnchor.logArgs mode
      (entry.withHash cfg.sha) (ExonumAnchor.seedAt ms), cfg.exonumAuthor⟩ := ⟨_, rfl⟩
    obtain ⟨txHash, -, hsubmit⟩ := h.submit (done ++ [⟨.now, ms⟩]) tx
    obtain ⟨polls, hpolls, hwait⟩ := ExonumAnchor.waitFrom_trail h txHash 30 0
      (done ++ [⟨.now, ms⟩] ++ [⟨.submit tx, Except.ok txHash⟩]) (.inl (by simp))
    refine ⟨[⟨.now, ms⟩] ++ [⟨.submit tx, Except.ok txHash⟩] ++ polls, some ⟨entry.id, true,
      some txHash, some (decide (fate ≠ .unknown)), none⟩, ?_, ?_, ?_⟩
    · exact ((Quiet.single id).append (Quiet.single id)).append hpolls
    · subst htx
      simp only [Anchor.writeLog, ExonumAnchor.writeLog, Task.trail_tryCatch, Task.trail_bind, hnow,
        submitTxBytes_trail hsubmit]
      simp only [if_neg hwaits, Task.trail_bind, ExonumAnchor.waitForConfirmation, hwait,
        Task.trail_pure]
      simp only [List.append_assoc]
      rfl
    · cases fate <;> rfl
  | ethereum =>
    obtain ⟨call, hcall, -⟩ := map_call_eq_ok.mp hsend.choose_spec
    obtain ⟨tx, htx⟩ : ∃ tx, tx = ChainTx.ethereum ⟨call, cfg.ethereumSender⟩ := ⟨_, rfl⟩
    obtain ⟨txHash, -, hsubmit⟩ := h.submit done tx
    obtain ⟨asked, r, hasked, hwait, hstatus⟩ :=
      waitReceipt_waited h txHash (done ++ [⟨.submit tx, Except.ok txHash⟩])
    refine ⟨[⟨.submit tx, Except.ok txHash⟩] ++ asked, r.map fun
      | .ok () => ⟨entry.id, true, some txHash, some true, none⟩
      | .error err => .failed entry.id err, (Quiet.single id).append hasked, ?_, ?_⟩
    · subst htx
      simp only [Anchor.writeLog, EthereumAnchor.writeLog, Task.trail_tryCatch, Task.trail_bind,
        Task.trail_ofExcept, hcall, send_trail hsubmit, if_neg hwaits, Task.trail_pure, hwait,
        List.append_assoc]
      rcases r with _ | err | u <;> rfl
    · show _ = waitedStatus .ethereum fate silent
      rw [← hstatus]
      rcases r with _ | err | u <;> rfl

/-- An anchor that has something to send and does not wait. -/
lemma writeLog_submitted (anchor : Anchor) (h : Decided cfg anchor.chain fate silent answer)
    {entry : LogEntry} (hsend : ∃ tx, anchor.logPayload cfg entry tx)
    (done : List (Answered Req Req.Answer)) : ∃ asked txHash, Quiet asked ∧
      Task.trail answer (anchor.writeLog cfg entry (some submitOnlyOpts)) done =
        (done ++ asked, some (.ok ⟨entry.id, true, some txHash, some false, none⟩)) := by
  have honly : submitOnly (some submitOnlyOpts) = true := by decide
  cases anchor with
  | exonum mode =>
    obtain ⟨ms, -, hnow⟩ := now_trail h done
    obtain ⟨tx, htx⟩ : ∃ tx, tx = ChainTx.exonum ⟨mode.service, ExonumAnchor.logArgs mode
      (entry.withHash cfg.sha) (ExonumAnchor.seedAt ms), cfg.exonumAuthor⟩ := ⟨_, rfl⟩
    obtain ⟨txHash, -, hsubmit⟩ := h.submit (done ++ [⟨.now, ms⟩]) tx
    refine ⟨[⟨.now, ms⟩] ++ [⟨.submit tx, Except.ok txHash⟩], txHash,
      (Quiet.single id).append (Quiet.single id), ?_⟩
    subst htx
    simp only [Anchor.writeLog, ExonumAnchor.writeLog, Task.trail_tryCatch, Task.trail_bind, hnow,
      submitTxBytes_trail hsubmit, if_pos honly, Task.trail_pure]
    rw [List.append_assoc]
  | ethereum =>
    obtain ⟨call, hcall, -⟩ := map_call_eq_ok.mp hsend.choose_spec
    obtain ⟨tx, htx⟩ : ∃ tx, tx = ChainTx.ethereum ⟨call, cfg.ethereumSender⟩ := ⟨_, rfl⟩
    obtain ⟨txHash, -, hsubmit⟩ := h.submit done tx
    refine ⟨[⟨.submit tx, Except.ok txHash⟩], txHash, Quiet.single id, ?_⟩
    subst htx
    simp only [Anchor.writeLog, EthereumAnchor.writeLog, Task.trail_tryCatch, Task.trail_bind,
      Task.trail_ofExcept, hcall, send_trail hsubmit, if_pos honly, Task.trail_pure]

/-- Only a call that cannot be encoded leaves an anchor with nothing to send. -/
lemma writeLog_unsent (answer : Neighbours) (anchor : Anchor) {entry : LogEntry}
    (hsend : ¬∃ tx, anchor.logPayload cfg entry tx) (opts : Option WriteOpts)
    (done : List (Answered Req Req.Answer)) :
    ∃ err, Task.trail answer (anchor.writeLog cfg entry opts) done =
      (done, some (.ok (.failed entry.id err))) := by
  cases anchor with
  | exonum mode => exact absurd ⟨_, 0, rfl⟩ hsend
  | ethereum =>
    cases hcall : EthereumAnchor.logCall (entry.withHash cfg.sha) with
    | ok call => exact absurd ⟨_, map_call_eq_ok.mpr ⟨call, hcall, rfl⟩⟩ hsend
    | error err =>
      refine ⟨err, ?_⟩
      simp only [Anchor.writeLog, EthereumAnchor.writeLog, Task.trail_tryCatch, Task.trail_bind,
        Task.trail_ofExcept, hcall, Task.trail_pure]

lemma anchoredNow_trail (h : Decided cfg chain fate silent answer) (confirmed : Option Bool)
    (done : List (Answered Req Req.Answer)) : ∃ asked anchoredAt, Quiet asked ∧
      Task.trail answer (anchoredNow confirmed) done = (done ++ asked, some (.ok anchoredAt)) := by
  by_cases hc : confirmed = some true
  · obtain ⟨ms, -, hnow⟩ := now_trail h done
    refine ⟨[⟨.now, ms⟩], some ms, Quiet.single id, ?_⟩
    simp only [anchoredNow, if_pos hc, Task.trail_bind, hnow, Task.trail_pure]
  · exact ⟨[], none, Quiet.nil, by simp [anchoredNow, if_neg hc]⟩

/-! ### Writing through a hybrid storage -/

section Hybrid

variable {db : Db} {anchor : Anchor} {mode : HybridMode} {entry : LogEntry}
  {opts : Option WriteOpts}

/-- The insertion that a hybrid storage begins with. -/
def insertion (cfg : ServerConfig) (db : Db) (mode : HybridMode) (entry : LogEntry) : Req :=
  .insert db mode.logTable
    (anchoredRow db (entry.withHash cfg.sha) (entry.withHash cfg.sha).dataHash mode.logTable)

lemma finalStatus_inserted (cfg : ServerConfig) (db : Db) (mode : HybridMode) (entry : LogEntry) :
    finalStatus db mode.logTable entry.id [⟨insertion cfg db mode entry, Except.ok ()⟩] =
      if db.hasStatus mode.logTable then some .pending else none := by
  refine (if_pos ⟨rfl, rfl, rfl⟩ : _ = (anchoredRow db _ _ mode.logTable).anchorStatus).trans ?_
  cases db <;> cases mode <;> rfl

/-- A row that is refused is all the storage tells of. -/
lemma hybrid_refused {err : JsError}
    (h : answer [] (insertion cfg db mode entry) = some (Except.error err)) :
    Task.trail answer (HybridStorage.writeLog cfg db anchor mode entry opts) [] =
      ([⟨insertion cfg db mode entry, Except.error err⟩], some (.ok (.failed entry.id err))) := by
  simp only [HybridStorage.writeLog, Task.trail_tryCatch, Task.trail_bind, insertAnchored_trail h,
    Task.trail_pure]
  rfl

variable (h : Decided cfg chain fate silent answer)
  (hinsert : answer [] (insertion cfg db mode entry) = some (Except.ok ()))
  {asked : List (Answered Req Req.Answer)} (hquiet : Quiet asked)

include hinsert in
/-- A row that is there while the anchor waits. -/
lemma hybrid_waiting
    (hanchor : Task.trail answer (anchor.writeLog cfg (entry.withHash cfg.sha) opts)
      [⟨insertion cfg db mode entry, Except.ok ()⟩] =
        ([⟨insertion cfg db mode entry, Except.ok ()⟩] ++ asked, none)) :
    Task.trail answer (HybridStorage.writeLog cfg db anchor mode entry opts) [] =
      ([⟨insertion cfg db mode entry, Except.ok ()⟩] ++ asked, none) := by
  simp only [HybridStorage.writeLog, Task.trail_tryCatch, Task.trail_bind,
    insertAnchored_trail hinsert]
  unfold insertion at hanchor
  simp only [List.nil_append, hanchor]
  rfl

include h hinsert hquiet in
/-- The status a hybrid storage gives the row by the result of its anchor, if there is a column
for it. -/
lemma hybrid_written {r : WriteResult}
    (hanchor : Task.trail answer (anchor.writeLog cfg (entry.withHash cfg.sha) opts)
      [⟨insertion cfg db mode entry, Except.ok ()⟩] =
        ([⟨insertion cfg db mode entry, Except.ok ()⟩] ++ asked, some (.ok r))) :
    ∃ done w, Task.trail answer (HybridStorage.writeLog cfg db anchor mode entry opts) [] =
        (done, some (.ok w)) ∧
      if db.hasStatus mode.logTable then
        w = ⟨entry.id, true, r.txId, r.confirmed, none⟩ ∧
          finalStatus db mode.logTable entry.id done = some (statusOf r.confirmed r.success)
      else w.txId = none ∧ finalStatus db mode.logTable entry.id done = none := by
  obtain ⟨nows, anchoredAt, hnows, hnow⟩ := anchoredNow_trail h r.confirmed
    ([⟨insertion cfg db mode entry, Except.ok ()⟩] ++ asked)
  obtain ⟨before, hb⟩ : ∃ before : List (Answered Req Req.Answer),
    before = [⟨insertion cfg db mode entry, Except.ok ()⟩] ++ asked ++ nows := ⟨_, rfl⟩
  have hbefore : finalStatus db mode.logTable entry.id before =
      if db.hasStatus mode.logTable then some .pending else none := by
    rw [hb, finalStatus_append, foldl_quiet hnows, finalStatus_append, foldl_quiet hquiet,
      finalStatus_inserted]
  have hafter (res : Except JsError Unit) (hupdate : answer before (.updateAnchorStatus db
      mode.logTable entry.id (statusOf r.confirmed r.success) r.txId anchoredAt) = some res) :
      Task.trail answer (HybridStorage.writeLog cfg db anchor mode entry opts) [] =
        (before ++ [⟨.updateAnchorStatus db mode.logTable entry.id
            (statusOf r.confirmed r.success) r.txId anchoredAt, res⟩],
          some (.ok (match res with
            | .ok () => ⟨entry.id, true, r.txId, r.confirmed, none⟩
            | .error err => .failed entry.id err))) := by
    rw [← hb] at hnow
    unfold insertion at hanchor hnow
    simp only [HybridStorage.writeLog, Task.trail_tryCatch, Task.trail_bind,
      insertAnchored_trail hinsert, List.nil_append, hanchor, hnow,
      updateAnchorStatus_trail hupdate, Task.trail_pure]
    rcases res with err | u <;> rfl
  cases hcolumn : db.hasStatus mode.logTable with
  | true =>
    refine ⟨_, _, hafter _ (h.updated _ _ _ _ _ _ _ hcolumn), ?_⟩
    rw [if_pos rfl, finalStatus_append]
    exact ⟨rfl, if_pos ⟨rfl, rfl, rfl⟩⟩
  | false =>
    obtain ⟨err, hupdate⟩ := h.noColumn before db mode.logTable entry.id
      (statusOf r.confirmed r.success) r.txId anchoredAt hcolumn
    refine ⟨_, _, hafter _ hupdate, ?_⟩
    rw [if_neg nofun, finalStatus_append, hbefore, hcolumn]
    exact ⟨rfl, rfl⟩

end Hybrid

/-! ### Handling the confirm message -/

lemma replyIfAsked_trail (h : Decided cfg chain fate silent answer) (replyTo : Option JsString)
    (msg : ResultMessage) (done : List (Answered Req Req.Answer)) : ∃ asked, Quiet asked ∧
      Task.trail answer (replyIfAsked replyTo msg) done = (done ++ asked, some (.ok ())) := by
  rw [replyIfAsked]
  cases replyQueue replyTo with
  | none => exact ⟨[], Quiet.nil, by simp⟩
  | some queue =>
    obtain ⟨r, hr⟩ := h.answers done (.publishReply queue msg) nofun
    refine ⟨[⟨.publishReply queue msg, r⟩], Quiet.single id, ?_⟩
    simp only [replyResult, Task.trail_tryCatch, publishReply_trail hr]
    rcases r with err | u <;> rfl

/-- What the confirm handler updates: the row itself, or the record of a batch. -/
lemma confirmUpdate_trail (h : Decided cfg chain fate silent answer) {s : LogStrategy} {db : Db}
    {anchor : Anchor} {mode : HybridMode} {raw : SubmitMessage}
    (hpick : pickStorage cfg (some (.strategy s)) raw.db = some (.hybrid db anchor mode))
    (hcolumn : db.hasStatus mode.logTable = true) (id : JsString) (txHash : TxHash) (r : TxCheck)
    (status : Option AnchorStatus) (done : List (Answered Req Req.Answer)) :
    ∃ asked res, Task.trail answer (confirmUpdate cfg s (confirmMessage s raw id txHash) r) done =
        (done ++ asked, some res) ∧
      asked.foldl (statusAfter db mode.logTable id) status =
        if s.isBatch then status else some r.status := by
  obtain ⟨rfl, hmongo, hhybrid, -, htable, -⟩ := pickStorage_hybrid cfg hpick
  have hthere : ¬((confirmMessage s raw id txHash).db = .mongo ∧ cfg.mongo = .notInstalled) := by
    rintro ⟨hdb, hnot⟩
    exact absurd (hmongo hdb) (by simp [hnot])
  obtain ⟨nows, anchoredAt, hnows, hnow⟩ := anchoredNow_trail h (some r.confirmed) done
  have htrail : Task.trail answer (confirmUpdate cfg s (confirmMessage s raw id txHash) r) done =
      if s.isBatch then Task.trail answer (updateBatchAnchorStatus raw.db id r.status (some txHash)
        anchoredAt s.batchesTableFor) (done ++ nows)
      else Task.trail answer (updateAnchorStatus raw.db id r.status (some txHash) anchoredAt
        mode.logTable) (done ++ nows) := by
    rw [htable, confirmUpdate, if_pos hhybrid, if_neg hthere]
    simp only [Task.trail_bind, hnow]
    cases hb : s.isBatch with
    | true => simp [confirmMessage, hb]
    | false => simp [confirmMessage, hb]
  rw [htrail]
  cases hb : s.isBatch with
  | true =>
    obtain ⟨res, hres⟩ := h.answers (done ++ nows) (.updateBatchAnchorStatus raw.db
      s.batchesTableFor id r.status (some txHash) anchoredAt) nofun
    rw [if_pos rfl, updateBatchAnchorStatus_trail hres, List.append_assoc]
    refine ⟨_, res, rfl, foldl_quiet (hnows.append ?_) _ _ _ _⟩
    exact Quiet.single fun hset => hset
  | false =>
    have hres := h.updated (done ++ nows) raw.db mode.logTable id r.status (some txHash) anchoredAt
      hcolumn
    rw [if_neg nofun, updateAnchorStatus_trail hres, List.append_assoc]
    refine ⟨_, _, rfl, ?_⟩
    rw [List.foldl_append, foldl_quiet hnows]
    exact if_pos ⟨rfl, rfl, rfl⟩

/-- The status the confirm handler gives the row of an entry. -/
lemma confirmHandler_trail {s : LogStrategy} {db : Db} {anchor : Anchor} {mode : HybridMode}
    {raw : SubmitMessage} (h : Decided cfg s.chainFor fate silent answer)
    (hpick : pickStorage cfg (some (.strategy s)) raw.db = some (.hybrid db anchor mode))
    (hcolumn : db.hasStatus mode.logTable = true) (id : JsString) (txHash : TxHash)
    (status : Option AnchorStatus) (done : List (Answered Req Req.Answer)) :
    ∃ asked, (Task.trail answer (confirmHandler cfg s (confirmMessage s raw id txHash)) done).1 =
        done ++ asked ∧
      asked.foldl (statusAfter db mode.logTable id) status =
        if s.isBatch then status else some (decidedCheck s.chainFor fate silent).status := by
  obtain ⟨polls, hpolls, hpoll⟩ := pollFrom_trail h txHash 60 0 ⟨false, true⟩ done (.inl (by simp))
  obtain ⟨update, res, hupdate, hstatus⟩ := confirmUpdate_trail h hpick hcolumn id txHash
    (decidedCheck s.chainFor fate silent) status (done ++ polls)
  have hbody : ∃ asked, Quiet asked ∧ Task.trail answer (tryCatch (do
      let r ← pollFrom cfg s.chainFor txHash ⟨false, true⟩ 60 0
      confirmUpdate cfg s (confirmMessage s raw id txHash) r
      replyIfAsked raw.replyTo ⟨raw.correlationId, r.confirmed, some txHash, none⟩)
      fun err => replyIfAsked raw.replyTo ⟨raw.correlationId, false, none, some err⟩) done =
        (done ++ polls ++ update ++ asked, some (.ok ())) := by
    simp only [Task.trail_tryCatch, Task.trail_bind, hpoll, hupdate]
    cases res with
    | ok _ =>
      obtain ⟨asked, hasked, hreply⟩ := replyIfAsked_trail h raw.replyTo
        ⟨raw.correlationId, (decidedCheck s.chainFor fate silent).confirmed, some txHash, none⟩
        (done ++ polls ++ update)
      exact ⟨asked, hasked, by simp only [hreply]⟩
    | error err =>
      obtain ⟨asked, hasked, hreply⟩ := replyIfAsked_trail h raw.replyTo
        ⟨raw.correlationId, false, none, some err⟩ (done ++ polls ++ update)
      exact ⟨asked, hasked, by simp only [hreply]⟩
  obtain ⟨asked, hasked, hbody⟩ := hbody
  obtain ⟨u, hack⟩ := h.answers (done ++ polls ++ update ++ asked) .ack nofun
  refine ⟨(polls ++ update) ++ (asked ++ [⟨.ack, u⟩]), ?_, ?_⟩
  · have hrun : Task.trail answer (confirmHandler cfg s (confirmMessage s raw id txHash)) done =
        (done ++ polls ++ update ++ asked ++ [⟨.ack, u⟩], some (.ok ())) := by
      rw [confirmHandler, Task.trail_finallyDo]
      simp only [confirmMessage] at hbody ⊢
      rw [hbody]
      have hacked : Task.trail answer ack (done ++ polls ++ update ++ asked) =
        (done ++ polls ++ update ++ asked ++ [⟨.ack, u⟩], some (.ok u)) :=
        Task.trail_request answer _ hack _
      simp only [hacked]
      rfl
    rw [hrun]
    simp
  · have hend : Quiet (asked ++ [⟨.ack, u⟩]) := hasked.append (Quiet.single fun hset => hset)
    rw [List.foldl_append, foldl_quiet hend, List.foldl_append, foldl_quiet hpolls, hstatus]

/-! ### Comparing the paths -/

section Paths

variable {s : LogStrategy} {db : Db} {anchor : Anchor} {mode : HybridMode} {raw : SubmitMessage}
  {entry : LogEntry}

/-- The status the synchronous path leaves in a row that has been inserted. -/
lemma sync_finalStatus (h : Decided cfg anchor.chain fate silent answer)
    (hinsert : answer [] (insertion cfg db mode entry) = some (Except.ok ())) :
    finalStatus db mode.logTable entry.id
        (Task.trail answer (HybridStorage.writeLog cfg db anchor mode entry none) []).1 =
      if db.hasStatus mode.logTable then
        some (open Classical in if ∃ tx, anchor.logPayload cfg (entry.withHash cfg.sha) tx then
          (waitedStatus anchor.chain fate silent).getD .pending else .failed)
      else none := by
  by_cases hsend : ∃ tx, anchor.logPayload cfg (entry.withHash cfg.sha) tx
  · obtain ⟨asked, r, hquiet, hanchor, hstatus⟩ :=
      writeLog_waited anchor h hsend [⟨insertion cfg db mode entry, Except.ok ()⟩]
    rw [if_pos hsend, ← hstatus]
    cases r with
    | none =>
      rw [hybrid_waiting hinsert hanchor, finalStatus_append, foldl_quiet hquiet,
        finalStatus_inserted]
      rfl
    | some r =>
      obtain ⟨done, w, htrail, hw⟩ := hybrid_written h hinsert hquiet hanchor
      rw [htrail]
      split_ifs at hw ⊢
      · exact hw.2
      · exact hw.2
  · obtain ⟨err, hanchor⟩ := writeLog_unsent answer anchor hsend none
      [⟨insertion cfg db mode entry, Except.ok ()⟩]
    obtain ⟨done, w, htrail, hw⟩ := hybrid_written h hinsert Quiet.nil hanchor
    rw [htrail, if_neg hsend]
    split_ifs at hw ⊢
    · exact hw.2
    · exact hw.2

/-- The status the queued path leaves: the confirm handler of a batch strategy looks for a record
of a batch and leaves the row as it is. -/
lemma queued_finalStatus (h : Decided cfg anchor.chain fate silent answer)
    (hpick : pickStorage cfg (some (.strategy s)) raw.db = some (.hybrid db anchor mode))
    (hinsert : answer [] (insertion cfg db mode entry) = some (Except.ok ())) :
    finalStatus db mode.logTable entry.id (Task.trail answer
        (queuedWrite cfg (.hybrid db anchor mode) s raw entry) []).1 =
      if db.hasStatus mode.logTable then
        some (open Classical in if ∃ tx, anchor.logPayload cfg (entry.withHash cfg.sha) tx then
          if s.isBatch then .pending else (decidedCheck anchor.chain fate silent).status
        else .failed)
      else none := by
  have hchain := (pickStorage_hybrid cfg hpick).chain
  by_cases hsend : ∃ tx, anchor.logPayload cfg (entry.withHash cfg.sha) tx
  · obtain ⟨asked, txHash, hquiet, hanchor⟩ :=
      writeLog_submitted anchor h hsend [⟨insertion cfg db mode entry, Except.ok ()⟩]
    obtain ⟨done, w, htrail, hw⟩ := hybrid_written h hinsert hquiet hanchor
    cases hcolumn : db.hasStatus mode.logTable with
    | true =>
      rw [hcolumn, if_pos rfl] at hw
      obtain ⟨rfl, hstatus⟩ := hw
      obtain ⟨more, hmore, hlast⟩ := confirmHandler_trail (hchain ▸ h) hpick hcolumn
        entry.id txHash (some .pending) done
      have hrun : (Task.trail answer (queuedWrite cfg (.hybrid db anchor mode) s raw entry) []).1 =
          done ++ more := by
        rw [← hmore, queuedWrite, Task.trail_bind, Storage.writeLog, htrail]
        rfl
      have hpending : statusOf (some false) true = .pending := rfl
      rw [hrun, finalStatus_append, hstatus, hpending, hlast, if_pos rfl, if_pos hsend, hchain]
      cases s.isBatch <;> rfl
    | false =>
      rw [hcolumn, if_neg nofun] at hw
      rw [queuedWrite, Task.trail_bind, Storage.writeLog, htrail, if_neg nofun]
      simp only [hw.1, Task.trail_pure, hw.2]
  · obtain ⟨err, hanchor⟩ := writeLog_unsent answer anchor hsend (some submitOnlyOpts)
      [⟨insertion cfg db mode entry, Except.ok ()⟩]
    obtain ⟨done, w, htrail, hw⟩ := hybrid_written h hinsert Quiet.nil hanchor
    have hnone : w.txId = none := by
      split_ifs at hw
      · rw [hw.1]
        rfl
      · exact hw.1
    rw [queuedWrite, Task.trail_bind, Storage.writeLog, htrail, if_neg hsend]
    simp only [hnone, Task.trail_pure]
    split_ifs at hw ⊢
    · exact hw.2
    · exact hw.2

/-- The two paths leave the same status exactly if the row is refused, has no column for it, nothing
could be sent, or: for a strategy of one row per transaction, the node knows the transaction or says
nothing final of it; for a strategy of batches, the node does not know it and leaves the synchronous
path without an answer too. The confirm handler never updates the row of a single entry written with
a strategy of batches, so on the queued path it stays `pending`. -/
theorem paths_agree_iff (h : Decided cfg anchor.chain fate silent answer)
    (hpick : pickStorage cfg (some (.strategy s)) raw.db = some (.hybrid db anchor mode)) :
    finalStatus db mode.logTable entry.id
        (Task.trail answer (HybridStorage.writeLog cfg db anchor mode entry none) []).1 =
      finalStatus db mode.logTable entry.id (Task.trail answer
        (queuedWrite cfg (.hybrid db anchor mode) s raw entry) []).1 ↔
      (∃ err, answer [] (insertion cfg db mode entry) = some (Except.error err)) ∨
        db.hasStatus mode.logTable = false ∨
        (∀ tx, ¬anchor.logPayload cfg (entry.withHash cfg.sha) tx) ∨
        if s.isBatch then fate = .unknown ∧ (anchor.chain = .exonum ∨ silent = true)
        else fate ≠ .unknown ∨ silent = true := by
  obtain ⟨r, hinsert⟩ := h.answers [] (insertion cfg db mode entry) nofun
  rcases r with err | u
  · refine iff_of_true ?_ (.inl ⟨err, hinsert⟩)
    rw [hybrid_refused hinsert, queuedWrite, Task.trail_bind, Storage.writeLog, hybrid_refused hinsert]
    rfl
  have hnot : ¬∃ err, answer [] (insertion cfg db mode entry) = some (Except.error err) := by
    rintro ⟨err, herr⟩
    rw [hinsert] at herr
    cases herr
  rw [sync_finalStatus h hinsert, queued_finalStatus h hpick hinsert]
  cases hcolumn : db.hasStatus mode.logTable with
  | false => simp
  | true =>
    by_cases hsend : ∃ tx, anchor.logPayload cfg (entry.withHash cfg.sha) tx
    · have hsome : ¬∀ tx, ¬anchor.logPayload cfg (entry.withHash cfg.sha) tx := by simpa using hsend
      simp only [if_pos hsend, hsome, hnot, if_true, reduceCtorEq, false_or, Option.some.injEq]
      cases anchor.chain <;> cases fate <;> cases silent <;> cases s.isBatch <;> decide
    · simp [not_exists.mp hsend]

end Paths

/-! ### Decided transactions -/

/-- Neighbours that do what they can and say nothing final of a transaction that is unknown. -/
def decidedAnswers (fate : Fate) : Neighbours
  | _, .waitReceipt txHash =>
    if fate = .unknown then none else some (decidedAnswer fate (.waitReceipt txHash))
  | _, e => some (decidedAnswer fate e)

lemma decidedAnswers_decided (chain : Chain) (fate : Fate) :
    Decided connectedConfig chain fate true (decidedAnswers fate) where
  answers done e he := by
    cases e with
    | waitReceipt txHash => exact absurd rfl (he txHash)
    | _ => exact ⟨_, rfl⟩
  updated _ db table _ _ _ _ h := congrArg some (if_pos h)
  noColumn _ db table _ _ _ _ h := ⟨_, congrArg some (if_neg (by simp [h]))⟩
  submit _ _ := ⟨includedHash, by decide, rfl⟩
  committed _ hf _ _ _ := congrArg some (if_neg hf)
  notFound _ hf _ _ _ _ := ⟨_, congrArg some (if_pos hf)⟩
  otherType _ _ hs := by cases hs
  noReceipt _ hf _ _ _ := by rw [hf]; rfl
  receipt _ hf _ _ _ := ⟨1, congrArg (fun r => some (Except.ok r)) (if_neg hf),
    fun _ _ => ⟨4, rfl, by decide⟩⟩
  waited _ hf _ _ := by rw [hf]; rfl
  waitsOn _ hf _ _ _ := by rw [hf]; rfl
  waitThrows _ hf _ _ := by
    rcases hf with rfl | ⟨-, hs⟩
    · exact ⟨_, rfl⟩
    · cases hs

/-- The message that brings an entry to the queue of a strategy. -/
def queuedBody (s : LogStrategy) (db : Db) : SubmitMessage :=
  ⟨.entry (toDTO (bodyEntry emptyObject)), s, db, [], none, 0⟩

/-- The status the synchronous path leaves, and the one the queued path leaves. -/
def bothStatuses (s : LogStrategy) (anchor : Anchor) (mode : HybridMode) (db : Db) (fate : Fate) :
    Option AnchorStatus × Option AnchorStatus :=
  (finalStatus db mode.logTable (bodyEntry emptyObject).id (Task.trail (decidedAnswers fate)
      (HybridStorage.writeLog connectedConfig db anchor mode (bodyEntry emptyObject) none) []).1,
    finalStatus db mode.logTable (bodyEntry emptyObject).id (Task.trail (decidedAnswers fate)
      (queuedWrite connectedConfig (.hybrid db anchor mode) s (queuedBody s db)
        (bodyEntry emptyObject)) []).1)

theorem included_paths_agree :
    (bothStatuses .hybridPrivate (.exonum .hashOnly) (.anchored .priv) .postgres .included).1 =
        (bothStatuses .hybridPrivate (.exonum .hashOnly) (.anchored .priv) .postgres .included).2 ∧
      (bothStatuses .hybridPublic .ethereum (.anchored .pub) .mongo .unknown).1 =
        (bothStatuses .hybridPublic .ethereum (.anchored .pub) .mongo .unknown).2 :=
  ⟨(paths_agree_iff (decidedAnswers_decided .exonum .included) rfl).mpr
      (.inr (.inr (.inr (.inl nofun)))),
    (paths_agree_iff (decidedAnswers_decided .ethereum .unknown) rfl).mpr
      (.inr (.inr (.inr (.inr rfl))))⟩

/-- A committed transaction leaves the row of a single entry that was written with a strategy of
batches `confirmed` on the synchronous path and `pending` on the queued one. -/
theorem included_paths_differ :
    ¬∀ (cfg : ServerConfig) (s : LogStrategy) (db : Db) (anchor : Anchor) (mode : HybridMode)
      (raw : SubmitMessage) (entry : LogEntry) (fate : Fate) (silent : Bool) (answer : Neighbours),
      Decided cfg anchor.chain fate silent answer →
      pickStorage cfg (some (.strategy s)) raw.db = some (.hybrid db anchor mode) →
      finalStatus db mode.logTable entry.id
          (Task.trail answer (HybridStorage.writeLog cfg db anchor mode entry none) []).1 =
        finalStatus db mode.logTable entry.id (Task.trail answer
          (queuedWrite cfg (.hybrid db anchor mode) s raw entry) []).1 := by
  intro h
  have hdecided := decidedAnswers_decided .exonum .included
  have hsend : ∃ tx, Anchor.logPayload connectedConfig
      ((bodyEntry emptyObject).withHash connectedConfig.sha) (.exonum .batch) tx := ⟨_, 0, rfl⟩
  have hsame := h connectedConfig .hybridPrivateBatch .mongo (.exonum .batch) (.batched .priv)
    (queuedBody .hybridPrivateBatch .mongo) (bodyEntry emptyObject) .included true _ hdecided rfl
  have hcolumn : Db.mongo.hasStatus (HybridMode.batched .priv).logTable = true := rfl
  rw [sync_finalStatus hdecided rfl, queued_finalStatus hdecided rfl rfl, if_pos hcolumn,
    if_pos hcolumn, if_pos hsend, if_pos hsend] at hsame
  exact absurd hsame (by decide)

end HybridLog
