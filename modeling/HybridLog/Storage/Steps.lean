import HybridLog.Storage.Storage

/-!
# What storages do

For every write of an anchor or a storage: the requests it makes, what it has seen before each of
them, and what its result tells. The evidence is what stands in the trace of events.
-/

namespace HybridLog

open Js Async

variable {T X : Type}

/-- Requests that change nothing. -/
def Req.Looks : Req → Prop
  | .getTransaction .. | .getReceipt .. | .getBlockNumber .. | .waitReceipt .. | .now => True
  | _ => False

/-- The guard of programs that only look. -/
def LookStep : Guard Req Req.Answer T X := fun _ e _ => e.Looks

/-! ### Looking at a chain -/

/-- A chain has told that a transaction is confirmed. -/
inductive SeenConfirmed (t : T) (tr : Trace Req Req.Answer T X) (txHash : TxHash) : Chain → Prop
  | committed {n : ℕ} (h : Did t (.getTransaction txHash n) (Except.ok ExplorerType.committed) tr) :
    SeenConfirmed t tr txHash .exonum
  | waited (h : Did t (.waitReceipt txHash) (Except.ok ()) tr) :
    SeenConfirmed t tr txHash .ethereum
  | receipt {n : ℕ} {r : Receipt} (h : Did t (.getReceipt txHash n) (Except.ok (some r)) tr)
    (hr : r.status = true) : SeenConfirmed t tr txHash .ethereum

lemma SeenConfirmed.later {t : T} {tr tr' : Trace Req Req.Answer T X} {txHash : TxHash}
    {chain : Chain} (h : SeenConfirmed t tr txHash chain) (htr : tr <+: tr') :
    SeenConfirmed t tr' txHash chain := by
  cases h with
  | committed h => exact .committed (h.later htr)
  | waited h => exact .waited (h.later htr)
  | receipt h hr => exact .receipt (h.later htr) hr

/-- What `checkTx` of the Exonum anchor makes of an answer of the explorer. -/
def checkOf : Except JsError ExplorerType → TxCheck
  | .ok .committed => ⟨true, false⟩
  | .ok .inPool | .error _ => ⟨false, true⟩
  | .ok .other => ⟨false, false⟩

lemma ExonumAnchor.checkTx_follows (t : T) (txHash : TxHash) (n : ℕ)
    (tr : Trace Req Req.Answer T X) :
    FollowsTask LookStep t
      (fun c tr' => ∃ r, Did t (.getTransaction txHash n) r tr' ∧ c = checkOf r)
      (fun _ _ => False) (checkTx txHash n) tr := by
  refine FollowsTask.tryCatch (FollowsTask.bind (FollowsTask.request (fun _ _ => trivial) ?_))
  intro r tr' _ hr
  match r with
  | .ok .committed => exact FollowsTask.pure fun tr'' htr => ⟨_, hr.later htr, rfl⟩
  | .ok .inPool => exact FollowsTask.pure fun tr'' htr => ⟨_, hr.later htr, rfl⟩
  | .ok .other => exact FollowsTask.pure fun tr'' htr => ⟨_, hr.later htr, rfl⟩
  | .error err => exact FollowsTask.pure fun tr'' htr => ⟨_, hr.later htr, rfl⟩

/-- An answer with which `waitForConfirmation` stops without a confirmation. -/
def GivesUp (n : ℕ) (r : Except JsError ExplorerType) : Prop :=
  r = .ok .other ∨ n = 29 ∧ r ≠ .ok .committed

/-- What `waitFrom` knows of the poll before its first one. -/
def PolledBefore (t : T) (txHash : TxHash) (attempt : ℕ) (tr : Trace Req Req.Answer T X) : Prop :=
  attempt = 0 ∨ ∃ r : Except JsError ExplorerType, r ≠ .ok .committed ∧
    Did t (.getTransaction txHash (attempt - 1)) r tr

lemma ExonumAnchor.waitFrom_follows (t : T) (txHash : TxHash) :
    ∀ (left attempt : ℕ) (tr : Trace Req Req.Answer T X), attempt + left = 30 →
      PolledBefore t txHash attempt tr →
      FollowsTask LookStep t
        (fun b tr' => if b = true then SeenConfirmed t tr' txHash .exonum
          else ∃ n r, Did t (.getTransaction txHash n) r tr' ∧ GivesUp n r)
        (fun _ _ => False) (waitFrom txHash left attempt) tr
  | 0, attempt, tr, hsum, hbefore => by
    obtain rfl : attempt = 30 := hsum
    rcases hbefore with h0 | ⟨r, hr, hdid⟩
    · cases h0
    · exact FollowsTask.pure fun tr' htr => ⟨29, r, hdid.later htr, .inr ⟨rfl, hr⟩⟩
  | left + 1, attempt, tr, hsum, _ => by
    refine FollowsTask.bind ((checkTx_follows t txHash attempt tr).weaken ?_ (fun _ _ _ h => h))
    rintro c tr' - ⟨r, hdid, rfl⟩
    have hnext : r ≠ .ok .committed → PolledBefore t txHash (attempt + 1) tr' :=
      fun hr => .inr ⟨r, hr, hdid⟩
    match r, hdid, hnext with
    | .ok .committed, hdid, _ =>
      exact FollowsTask.pure fun tr'' htr => .committed (Did.later hdid htr)
    | .ok .inPool, _, hnext => exact waitFrom_follows t txHash left _ tr' (by omega) (hnext nofun)
    | .error err, _, hnext => exact waitFrom_follows t txHash left _ tr' (by omega) (hnext nofun)
    | .ok .other, hdid, _ =>
      exact FollowsTask.pure fun tr'' htr => ⟨attempt, _, Did.later hdid htr, .inl rfl⟩

/-! ### Anchors -/

/-- The transactions that carry what is to be anchored. -/
abbrev Payload := ChainTx → Prop

/-- The transaction of an anchor for an entry at time `ms`; there is none if the call of the
contract cannot be encoded. -/
def Anchor.logTx (cfg : ServerConfig) (entry : LogEntry) (ms : ℕ) :
    Anchor → Except JsError ChainTx
  | .exonum mode => .ok (.exonum ⟨mode.service,
    ExonumAnchor.logArgs mode (entry.withHash cfg.sha) (ExonumAnchor.seedAt ms), cfg.exonumAuthor⟩)
  | .ethereum => (EthereumAnchor.logCall (entry.withHash cfg.sha)).map fun call =>
    .ethereum ⟨call, cfg.ethereumSender⟩

/-- The transaction of an anchor for a batch at time `ms`. -/
def Anchor.batchTx (cfg : ServerConfig) (entries : List LogEntry) (ms : ℕ) :
    Anchor → Except JsError ChainTx
  | .exonum mode => .ok (.exonum ⟨mode.service,
    ExonumAnchor.batchArgs cfg.sha mode (entries.map (LogEntry.withHash cfg.sha))
      (ExonumAnchor.seedAt ms), cfg.exonumAuthor⟩)
  | .ethereum =>
    (EthereumAnchor.batchCall cfg.sha (entries.map (LogEntry.withHash cfg.sha))).map fun call =>
      .ethereum ⟨call, cfg.ethereumSender⟩

/-- What an anchor may send for an entry. -/
def Anchor.logPayload (cfg : ServerConfig) (entry : LogEntry) (anchor : Anchor) : Payload :=
  fun tx => ∃ ms, anchor.logTx cfg entry ms = .ok tx

/-- What an anchor may send for a batch. -/
def Anchor.batchPayload (cfg : ServerConfig) (entries : List LogEntry) (anchor : Anchor) :
    Payload := fun tx => ∃ ms, anchor.batchTx cfg entries ms = .ok tx

/-- The calls of the contract do not depend on the time. -/
lemma map_call_eq_ok {call : Except JsError StoreWrite} {sender : Bytes} {tx : ChainTx} :
    (∃ _ : ℕ, call.map (fun c => ChainTx.ethereum ⟨c, sender⟩) = .ok tx) ↔
      ∃ c, call = .ok c ∧ tx = .ethereum ⟨c, sender⟩ := by
  cases call with
  | ok c =>
    simp only [Except.map, Except.ok.injEq, exists_const]
    exact ⟨fun h => ⟨c, rfl, h.symm⟩, fun ⟨c', hc, h⟩ => by rw [hc, h]⟩
  | error err => simp [Except.map]

/-- The requests of an anchor with something to send. -/
inductive AnchorStep (payload : Payload) : Guard Req Req.Answer T X
  | looks {t : T} {e : Req} {tr : Trace Req Req.Answer T X} (h : e.Looks) :
    AnchorStep payload t e tr
  | submit {t : T} {tx : ChainTx} {tr : Trace Req Req.Answer T X} (h : payload tx) :
    AnchorStep payload t (.submit tx) tr

/-- How the write of an anchor ends: `success`, `txId` and `confirmed` of its result. -/
inductive AnchorOutcome (chain : Chain) (payload : Payload) (opts : Option WriteOpts) (t : T)
    (tr : Trace Req Req.Answer T X) : Bool → Option TxHash → Option Bool → Prop
  | unsent (h : ∀ tx, ¬payload tx) : AnchorOutcome chain payload opts t tr false none none
  | refused {tx : ChainTx} {err : JsError} (h : payload tx)
    (hs : Did t (.submit tx) (Except.error err) tr) :
    AnchorOutcome chain payload opts t tr false none none
  | submitted {tx : ChainTx} {txHash : TxHash} (h : payload tx)
    (hs : Did t (.submit tx) (Except.ok txHash) tr) (ho : submitOnly opts = true) :
    AnchorOutcome chain payload opts t tr true (some txHash) (some false)
  | confirmed {tx : ChainTx} {txHash : TxHash} (h : payload tx)
    (hs : Did t (.submit tx) (Except.ok txHash) tr) (ho : submitOnly opts = false)
    (hc : SeenConfirmed t tr txHash chain) :
    AnchorOutcome chain payload opts t tr true (some txHash) (some true)
  | givenUp {tx : ChainTx} {txHash : TxHash} {n : ℕ} {r : Except JsError ExplorerType}
    (h : payload tx) (hs : Did t (.submit tx) (Except.ok txHash) tr)
    (ho : submitOnly opts = false) (hn : Did t (.getTransaction txHash n) r tr)
    (hr : GivesUp n r) :
    AnchorOutcome chain payload opts t tr true (some txHash) (some false)
  | lost {tx : ChainTx} {txHash : TxHash} {err : JsError} (h : payload tx)
    (hs : Did t (.submit tx) (Except.ok txHash) tr)
    (hw : Did t (.waitReceipt txHash) (Except.error err) tr) :
    AnchorOutcome chain payload opts t tr false none none

lemma AnchorOutcome.later {chain : Chain} {payload : Payload} {opts : Option WriteOpts} {t : T}
    {tr tr' : Trace Req Req.Answer T X} {success : Bool} {txId : Option TxHash}
    {confirmed : Option Bool} (h : AnchorOutcome chain payload opts t tr success txId confirmed)
    (htr : tr <+: tr') : AnchorOutcome chain payload opts t tr' success txId confirmed := by
  cases h with
  | unsent h => exact .unsent h
  | refused h hs => exact .refused h (hs.later htr)
  | submitted h hs ho => exact .submitted h (hs.later htr) ho
  | confirmed h hs ho hc => exact .confirmed h (hs.later htr) ho (hc.later htr)
  | givenUp h hs ho hn hr => exact .givenUp h (hs.later htr) ho (hn.later htr) hr
  | lost h hs hw => exact .lost h (hs.later htr) (hw.later htr)

namespace ExonumAnchor

variable (cfg : ServerConfig) (mode : AnchorMode) (opts : Option WriteOpts) (t : T)

/-- A transaction is sent, and unless that is all that is asked for, the anchor waits. -/
lemma submitAndWait_follows {α : Type} {payload : Payload} {args : Bytes}
    (hpayload : payload (.exonum ⟨mode.service, args, cfg.exonumAuthor⟩))
    (result : TxHash → Bool → α) (Q : α → Trace Req Req.Answer T X → Prop)
    (Er : JsError → Trace Req Req.Answer T X → Prop) (tr : Trace Req Req.Answer T X)
    (hQ : ∀ txHash confirmed tr', tr <+: tr' →
      AnchorOutcome .exonum payload opts t tr' true (some txHash) (some confirmed) →
        Q (result txHash confirmed) tr')
    (hEr : ∀ err tr', tr <+: tr' →
      AnchorOutcome .exonum payload opts t tr' false none none → Er err tr') :
    FollowsTask (AnchorStep payload) t Q Er (do
      let txHash ← submitTxBytes cfg mode args
      if submitOnly opts then pure (result txHash false)
      else do
        let confirmed ← waitForConfirmation txHash
        pure (result txHash confirmed)) tr := by
  refine FollowsTask.bind (FollowsTask.request (fun _ _ => .submit hpayload) ?_)
  intro r tr' htr hs
  match r with
  | .error err => exact hEr err tr' htr (.refused hpayload hs)
  | .ok txHash =>
    by_cases ho : submitOnly opts = true
    · simp only [id, ho, if_true]
      exact FollowsTask.pure fun tr'' htr' =>
        hQ txHash false tr'' (htr.trans htr') (.submitted hpayload (Did.later hs htr') ho)
    · simp only [id, if_neg ho]
      refine FollowsTask.bind (FollowsTask.weaken
        ((waitFrom_follows t txHash 30 0 tr' rfl (.inl rfl)).allow fun _ _ _ h => .looks h)
        ?_ (fun _ _ _ h => h.elim))
      intro confirmed tr'' htr' hb
      refine FollowsTask.pure fun tr₃ htr'' => hQ txHash confirmed tr₃
        (htr.trans (htr'.trans htr'')) ?_
      have hs' : Did t _ _ tr₃ := Did.later hs (htr'.trans htr'')
      cases confirmed with
      | true =>
        exact .confirmed hpayload hs' (by simpa using ho) ((if_pos rfl ▸ hb).later htr'')
      | false =>
        obtain ⟨n, r, hn, hr⟩ := hb
        exact .givenUp hpayload hs' (by simpa using ho) (hn.later htr'') hr

lemma writeLog_follows (entry : LogEntry) (tr : Trace Req Req.Answer T X) :
    FollowsTask (AnchorStep ((Anchor.exonum mode).logPayload cfg entry)) t
      (fun r tr' => r.logId = entry.id ∧
        AnchorOutcome .exonum ((Anchor.exonum mode).logPayload cfg entry) opts t tr' r.success
          r.txId r.confirmed)
      (fun _ _ => False) (writeLog cfg mode entry opts) tr := by
  refine FollowsTask.tryCatch (FollowsTask.bind
    (FollowsTask.request (fun _ _ => .looks trivial) fun ms tr' _ _ => ?_))
  refine submitAndWait_follows cfg mode opts t ⟨ms, rfl⟩
    (fun txHash confirmed => WriteResult.mk entry.id true (some txHash) (some confirmed) none)
    _ _ tr' ?_ ?_
  · exact fun txHash confirmed tr'' _ h => ⟨rfl, h⟩
  · exact fun err tr'' _ h => FollowsTask.pure fun tr₃ htr => ⟨rfl, h.later htr⟩

lemma writeBatch_follows {entries : List LogEntry} (hne : entries ≠ [])
    (tr : Trace Req Req.Answer T X) :
    FollowsTask (AnchorStep ((Anchor.exonum mode).batchPayload cfg entries)) t
      (fun r tr' => AnchorOutcome .exonum ((Anchor.exonum mode).batchPayload cfg entries) opts t
        tr' r.success r.txId r.confirmed ∧ (r.success = true →
          r.batchHash = cfg.sha.computeBatchHash (entries.map (LogEntry.withHash cfg.sha))))
      (fun _ _ => False) (writeBatch cfg mode entries opts) tr := by
  rw [writeBatch, if_neg hne]
  refine FollowsTask.tryCatch (FollowsTask.bind
    (FollowsTask.request (fun _ _ => .looks trivial) fun ms tr' _ _ => ?_))
  refine submitAndWait_follows cfg mode opts t ⟨ms, rfl⟩
    (fun txHash confirmed => BatchWriteResult.mk
      (cfg.sha.computeBatchHash (entries.map (LogEntry.withHash cfg.sha))) (startId entries)
      (endId entries) entries.length true (some txHash) (some confirmed) none) _ _ tr' ?_ ?_
  · exact fun txHash confirmed tr'' _ h => ⟨h, fun _ => rfl⟩
  · exact fun err tr'' _ h => FollowsTask.pure fun tr₃ htr => ⟨h.later htr, nofun⟩

end ExonumAnchor

namespace EthereumAnchor

variable (cfg : ServerConfig) (opts : Option WriteOpts) (t : T)

/-- A call is encoded and sent, and unless that is all that is asked for, the anchor waits. -/
lemma sendAndWait_follows {α : Type} {payload : Payload} {call : Except JsError StoreWrite}
    (hpayload : ∀ tx, payload tx ↔ ∃ c, call = .ok c ∧ tx = .ethereum ⟨c, cfg.ethereumSender⟩)
    (result : TxHash → Bool → α) (Q : α → Trace Req Req.Answer T X → Prop)
    (Er : JsError → Trace Req Req.Answer T X → Prop) (tr : Trace Req Req.Answer T X)
    (hQ : ∀ txHash confirmed tr', tr <+: tr' →
      AnchorOutcome .ethereum payload opts t tr' true (some txHash) (some confirmed) →
        Q (result txHash confirmed) tr')
    (hEr : ∀ err tr', tr <+: tr' →
      AnchorOutcome .ethereum payload opts t tr' false none none → Er err tr') :
    FollowsTask (AnchorStep payload) t Q Er (do
      let c ← Task.ofExcept call
      let txHash ← send cfg c
      if submitOnly opts then pure (result txHash false)
      else do
        Task.request (.waitReceipt txHash) (fun r => r)
        pure (result txHash true)) tr := by
  refine FollowsTask.bind (FollowsTask.ofExcept fun tr₁ htr₁ => ?_)
  match call, hpayload with
  | .error err, hpayload =>
    exact hEr err tr₁ htr₁ (.unsent fun tx htx => by simpa using (hpayload tx).mp htx)
  | .ok c, hpayload =>
  have hc : payload (.ethereum ⟨c, cfg.ethereumSender⟩) := (hpayload _).mpr ⟨c, rfl, rfl⟩
  refine FollowsTask.bind (FollowsTask.request (fun _ _ => .submit hc) ?_)
  intro r tr' htr' hs
  have htr := htr₁.trans htr'
  match r with
  | .error err => exact hEr err tr' htr (.refused hc hs)
  | .ok txHash =>
    by_cases ho : submitOnly opts = true
    · simp only [id, ho, if_true]
      exact FollowsTask.pure fun tr'' htr' =>
        hQ txHash false tr'' (htr.trans htr') (.submitted hc (Did.later hs htr') ho)
    · simp only [id, if_neg ho]
      refine FollowsTask.bind (FollowsTask.request (fun _ _ => .looks trivial) ?_)
      intro w tr'' htr'' hw
      have hs' : Did t _ _ tr'' := Did.later hs htr''
      match w with
      | .ok () =>
        exact FollowsTask.pure fun tr₃ htr₃ => hQ txHash true tr₃ (htr.trans (htr''.trans htr₃))
          (.confirmed hc (hs'.later htr₃) (by simpa using ho) (.waited (Did.later hw htr₃)))
      | .error err => exact hEr err tr'' (htr.trans htr'') (.lost hc hs' hw)

lemma writeLog_follows (entry : LogEntry) (tr : Trace Req Req.Answer T X) :
    FollowsTask (AnchorStep (Anchor.ethereum.logPayload cfg entry)) t
      (fun r tr' => r.logId = entry.id ∧
        AnchorOutcome .ethereum (Anchor.ethereum.logPayload cfg entry) opts t tr' r.success
          r.txId r.confirmed)
      (fun _ _ => False) (writeLog cfg entry opts) tr := by
  refine FollowsTask.tryCatch (sendAndWait_follows cfg opts t (fun _ => map_call_eq_ok)
    (fun txHash confirmed => WriteResult.mk entry.id true (some txHash) (some confirmed) none)
    _ _ tr ?_ ?_)
  · exact fun txHash confirmed tr' _ h => ⟨rfl, h⟩
  · exact fun err tr' _ h => FollowsTask.pure fun tr'' htr => ⟨rfl, h.later htr⟩

lemma writeBatch_follows {entries : List LogEntry} (hne : entries ≠ [])
    (tr : Trace Req Req.Answer T X) :
    FollowsTask (AnchorStep (Anchor.ethereum.batchPayload cfg entries)) t
      (fun r tr' => AnchorOutcome .ethereum (Anchor.ethereum.batchPayload cfg entries) opts t tr'
        r.success r.txId r.confirmed ∧ (r.success = true →
          r.batchHash = cfg.sha.computeBatchHash (entries.map (LogEntry.withHash cfg.sha))))
      (fun _ _ => False) (writeBatch cfg entries opts) tr := by
  rw [writeBatch, if_neg hne]
  refine FollowsTask.tryCatch (sendAndWait_follows cfg opts t (fun _ => map_call_eq_ok)
    (fun txHash confirmed => BatchWriteResult.mk
      (cfg.sha.computeBatchHash (entries.map (LogEntry.withHash cfg.sha))) (startId entries)
      (endId entries) entries.length true (some txHash) (some confirmed) none) _ _ tr ?_ ?_)
  · exact fun txHash confirmed tr' _ h => ⟨h, fun _ => rfl⟩
  · exact fun err tr' _ h => FollowsTask.pure fun tr'' htr => ⟨h.later htr, nofun⟩

end EthereumAnchor

namespace Anchor

variable (cfg : ServerConfig) (anchor : Anchor) (opts : Option WriteOpts) (t : T)

lemma writeLog_follows (entry : LogEntry) (tr : Trace Req Req.Answer T X) :
    FollowsTask (AnchorStep (anchor.logPayload cfg entry)) t
      (fun r tr' => r.logId = entry.id ∧
        AnchorOutcome anchor.chain (anchor.logPayload cfg entry) opts t tr' r.success r.txId
          r.confirmed)
      (fun _ _ => False) (anchor.writeLog cfg entry opts) tr := by
  cases anchor with
  | exonum mode => exact ExonumAnchor.writeLog_follows cfg mode opts t entry tr
  | ethereum => exact EthereumAnchor.writeLog_follows cfg opts t entry tr

lemma writeBatch_follows {entries : List LogEntry} (hne : entries ≠ [])
    (tr : Trace Req Req.Answer T X) :
    FollowsTask (AnchorStep (anchor.batchPayload cfg entries)) t
      (fun r tr' => AnchorOutcome anchor.chain (anchor.batchPayload cfg entries) opts t tr'
        r.success r.txId r.confirmed ∧ (r.success = true →
          r.batchHash = cfg.sha.computeBatchHash (entries.map (LogEntry.withHash cfg.sha))))
      (fun _ _ => False) (anchor.writeBatch cfg entries opts) tr := by
  cases anchor with
  | exonum mode => exact ExonumAnchor.writeBatch_follows cfg mode opts t hne tr
  | ethereum => exact EthereumAnchor.writeBatch_follows cfg opts t hne tr

end Anchor

end HybridLog
