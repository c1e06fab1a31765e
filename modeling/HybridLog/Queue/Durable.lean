import HybridLog.Async.Schedule
import HybridLog.System.Steps

/-!
# What an acknowledgement promises

The broker removes its copy of a submit message when the handler acknowledges it, however the
handler has ended. Nobody else tries again, so by then each entry of the message should be held for
good: by a row of the log table of its storage, or by a transaction a chain has accepted.
-/

namespace HybridLog

open Js Async

variable (cfg : ServerConfig)

/-! ### Entries held for good -/

/-- A chain has accepted a transaction under a hash. -/
def State.HasTx (s : State) (txHash : TxHash) : ChainTx → Prop
  | .exonum tx => s.exonum.txs.lookup txHash = some tx
  | .ethereum tx => s.ethereum.txs.lookup txHash = some tx

/-- The transactions that carry the entries of a message. -/
def SubmitBody.payload (anchor : Anchor) : SubmitBody → Payload
  | .entry dto => anchor.logPayload cfg (dtoToEntry dto.parsed)
  | .entries dtos => anchor.batchPayload cfg (SubmitBody.entries dtos).read

/-- An entry of a message is held by the storage it was written to. -/
inductive Held (s : State) (body : SubmitBody) (entry : LogEntry) : Storage → Prop
  | offchain {db : Db} {row : LogRow} (hrow : row ∈ (s.dbs db).logs .offchain)
    (hcore : row.core = (entryRow db (entry.withHash cfg.sha) []).core) :
    Held s body entry (.offchain db)
  | hybrid {db : Db} {anchor : Anchor} {mode : HybridMode} {row : LogRow}
    (hrow : row ∈ (s.dbs db).logs mode.logTable)
    (hcore : row.core =
      (entryRow db (entry.withHash cfg.sha) (entry.withHash cfg.sha).dataHash).core) :
    Held s body entry (.hybrid db anchor mode)
  | chain {anchor : Anchor} {txHash : TxHash} {tx : ChainTx} (htx : s.HasTx txHash tx)
    (hp : body.payload cfg anchor tx) : Held s body entry (.chain anchor)

/-- The message has a storage, which holds all its entries. -/
def Durable (s : State) (msg : SubmitMessage) : Prop :=
  ∃ st, msg.storage cfg msg.strategy = some st ∧
    ∀ entry ∈ msg.body.read, Held cfg s msg.body entry st

/-! ### Messages and requests that go wrong -/

/-- There is a storage that takes the message and, where it is a chain, something to send. -/
structure Writable (msg : SubmitMessage) : Prop where
  written : ¬ NotWritten cfg (msg.storage cfg msg.strategy) msg.body
  sendable : ∀ anchor, msg.storage cfg msg.strategy = some (.chain anchor) →
    msg.body.read ≠ [] → ∃ tx, msg.body.payload cfg anchor tx

/-- The request that was to hold an entry is refused: the insertion of a row or, for a storage on a
chain, the transaction. -/
inductive Loses (storage : Option Storage) : (e : Req) → e.Answer → Prop
  | insert {db : Db} {table : LogTable} {row : LogRow} {err : JsError} :
    Loses storage (.insert db table row) (Except.error err)
  | submit {anchor : Anchor} {tx : ChainTx} {err : JsError}
    (hst : storage = some (.chain anchor)) : Loses storage (.submit tx) (Except.error err)

section Acked

variable {cfg} {T X : Type} {t : T} {tr : Trace Req Req.Answer T X} {s : State}

/-- What the answered requests of a trace leave behind is in the state. -/
def Marked (tr : Trace Req Req.Answer T X) (s : State) : Prop :=
  ∀ (t : T) (e : Req) (r : e.Answer), Did t e r tr → e.Mark r s

/-- An anchor that has had something to send and was not refused has its transaction accepted. -/
lemma AnchorOutcome.accepted {chain : Chain} {payload : Payload} {opts : Option WriteOpts}
    {success : Bool} {txId : Option TxHash} {confirmed : Option Bool}
    (h : AnchorOutcome chain payload opts t tr success txId confirmed) (hmark : Marked tr s)
    (hsend : ∃ tx, payload tx)
    (hsubmit : ∀ tx err, ¬ Did t (.submit tx) (Except.error err) tr) :
    ∃ txHash tx, s.HasTx txHash tx ∧ payload tx := by
  have hin {tx : ChainTx} {txHash : TxHash} (hs : Did t (.submit tx) (Except.ok txHash) tr) :
      s.HasTx txHash tx := by
    have hm := hmark t _ _ hs
    cases tx with
    | exonum tx => exact hm
    | ethereum tx => exact hm
  cases h with
  | unsent h =>
    obtain ⟨tx, htx⟩ := hsend
    exact absurd htx (h tx)
  | refused _ hs => exact absurd hs (hsubmit _ _)
  | submitted hp hs _ => exact ⟨_, _, hin hs, hp⟩
  | confirmed hp hs _ _ => exact ⟨_, _, hin hs, hp⟩
  | givenUp hp hs _ _ _ => exact ⟨_, _, hin hs, hp⟩
  | lost hp hs _ => exact ⟨_, _, hin hs, hp⟩

lemma held_of_insert {db : Db} {anchor : Anchor} {mode : HybridMode} {body : SubmitBody}
    {entry : LogEntry} {row : LogRow} (hmark : Marked tr s)
    (hd : Did t (.insert db mode.logTable row) (Except.ok ()) tr)
    (hcore : row.core =
      (entryRow db (entry.withHash cfg.sha) (entry.withHash cfg.sha).dataHash).core) :
    Held cfg s body entry (.hybrid db anchor mode) := by
  obtain ⟨row', hrow', hcore'⟩ := hmark t _ _ hd
  exact .hybrid hrow' (hcore'.trans hcore)

/-- A storage whose write of one log has not lost it holds it. -/
lemma Storage.LogResult.held {st : Storage} {dto : EntryDTO} {opts : Option WriteOpts}
    {r : WriteResult} (h : Storage.LogResult cfg opts (dtoToEntry dto.parsed) t tr st r)
    (hmark : Marked tr s) (hsend : ∀ anchor, st = .chain anchor →
      ∃ tx, (SubmitBody.entry dto).payload cfg anchor tx)
    (hlost : ∀ e r, Did t e r tr → ¬ Loses (some st) e r) :
    Held cfg s (.entry dto) (dtoToEntry dto.parsed) st := by
  cases h with
  | inserted hd =>
    obtain ⟨row, hrow, hcore⟩ := hmark t _ _ hd
    exact .offchain hrow hcore
  | notInserted hd => exact absurd .insert (hlost _ _ hd)
  | @chain anchor r hid h =>
    obtain ⟨txHash, tx, htx, hp⟩ := h.accepted hmark (hsend anchor rfl) fun tx err hd =>
      hlost _ _ hd (.submit rfl)
    exact .chain htx hp
  | hybrid h => cases h with
    | written hi _ _ => exact held_of_insert hmark hi rfl
    | notInserted hi => exact absurd .insert (hlost _ _ hi)
    | notUpdated hi _ _ => exact held_of_insert hmark hi rfl

/-- A storage whose write of a batch has lost none of its logs holds them. -/
lemma Storage.BatchResult.held {st : Storage} {dtos : List EntryDTO} {opts : Option WriteOpts}
    {r : BatchWriteResult} {entry : LogEntry}
    (h : Storage.BatchResult cfg opts (SubmitBody.entries dtos).read t tr st r)
    (hmark : Marked tr s) (hsend : ∀ anchor, st = .chain anchor →
      (SubmitBody.entries dtos).read ≠ [] → ∃ tx, (SubmitBody.entries dtos).payload cfg anchor tx)
    (hlost : ∀ e r, Did t e r tr → ¬ Loses (some st) e r)
    (hentry : entry ∈ (SubmitBody.entries dtos).read) :
    Held cfg s (.entries dtos) entry st := by
  cases h with
  | empty hnil =>
    rw [hnil] at hentry
    cases hentry
  | @chain anchor r hne h hroot =>
    obtain ⟨txHash, tx, htx, hp⟩ := h.accepted hmark (hsend anchor rfl hne) fun tx err hd =>
      hlost _ _ hd (.submit rfl)
    exact .chain htx hp
  | @hybrid db anchor sd r h =>
    have hheld (hl : HybridStorage.Leaves cfg db sd (SubmitBody.entries dtos).read t tr) :
        Held cfg s (.entries dtos) entry (.hybrid db anchor (.batched sd)) :=
      held_of_insert hmark (hl.did cfg db sd _ hentry) rfl
    cases h with
    | empty hnil =>
      rw [hnil] at hentry
      cases hentry
    | written _ hs _ _ => exact hheld hs.recorded.leaves
    | notInserted _ hi => exact absurd .insert (hlost _ _ hi)
    | notRecorded hl _ => exact hheld hl
    | notLinked hr _ => exact hheld hr.leaves
    | notUpdated hs _ _ => exact hheld hs.recorded.leaves

/-- What a submit handler has written is held. -/
lemma Written.durable {msg : SubmitMessage} {w : Submitted}
    (h : Written cfg (msg.storage cfg msg.strategy) t tr msg.body w) (hmark : Marked tr s)
    (hmsg : Writable cfg msg)
    (hlost : ∀ e r, Did t e r tr → ¬ Loses (msg.storage cfg msg.strategy) e r) :
    Durable cfg s msg := by
  have hsend := hmsg.sendable
  generalize hstorage : msg.storage cfg msg.strategy = storage at h hlost hsend
  generalize hbody : msg.body = body at h hsend
  cases h with
  | @entry st dto r hst h =>
    subst hst
    refine ⟨st, hstorage, fun entry hentry => ?_⟩
    rw [hbody] at hentry ⊢
    obtain rfl := List.mem_singleton.mp hentry
    exact h.held hmark (fun anchor heq => hsend anchor (congrArg some heq) (List.cons_ne_nil _ _))
      hlost
  | @entries st dtos r hst h =>
    subst hst
    refine ⟨st, hstorage, fun entry hentry => ?_⟩
    rw [hbody] at hentry ⊢
    exact h.held hmark (fun anchor heq => hsend anchor (congrArg some heq)) hlost hentry

/-- However a submit handler ends, what it acknowledges is held. -/
lemma SubmitEnd.durable {msg : SubmitMessage} (h : SubmitEnd cfg msg.strategy msg t tr)
    (hmark : Marked tr s) (hmsg : Writable cfg msg)
    (hlost : ∀ e r, Did t e r tr → ¬ Loses (msg.storage cfg msg.strategy) e r) :
    Durable cfg s msg := by
  cases h with
  | handedOver h _ => exact h.written.durable hmark hmsg hlost
  | replied h _ => exact h.durable hmark hmsg hlost
  | notHandedOver h _ => exact h.written.durable hmark hmsg hlost
  | notWritten h => exact absurd h hmsg.written

end Acked

/-- The broker has been told to remove its copy of a submit message. -/
def Removed (tr : ServerTrace) (seq : ℕ) (msg : SubmitMessage) : Prop :=
  Did (.submit seq msg) .ack () tr ∨ Did (.submit seq msg) .nack () tr

/-- In every run, a message that is removed is held if it can be written and its handler had no
request refused that was to hold an entry. -/
theorem removed_durable (cfg : ServerConfig) (objectHash : ObjectHash) {s₀ : State}
    {c : Async.Config Req Req.Answer Tag External State}
    (hreach : Reach (system cfg objectHash) s₀ c) (seq : ℕ) (msg : SubmitMessage)
    (hmsg : Writable cfg msg)
    (hlost : ∀ e r, Did (.submit seq msg) e r c.world.trace →
      ¬ Loses (msg.storage cfg msg.strategy) e r)
    (hremoved : Removed c.world.trace seq msg) : Durable cfg c.world.state msg := by
  have hmark : Marked c.world.trace c.world.state := fun _ _ _ hd =>
    (system_faithful cfg objectHash).marked hreach hd
  have hguard := system_guarded hreach
  rcases hremoved with hd | hd
  · obtain ⟨pre, hpre, hstep⟩ := hguard.did hd
    cases hstep.step with
    | write h => exact h.ofStorage.elim
    | ack h => exact SubmitEnd.durable (h.later hpre) hmark hmsg hlost
  -- a submit handler does not throw
  · obtain ⟨pre, hpre, hstep⟩ := hguard.did hd
    cases hstep.step with
    | write h => exact h.ofStorage.elim

/-- The transaction of a message for the private chain is accepted and handed over. -/
def keptRun : Option (Async.Config Req Req.Answer Tag External State) :=
  (Config.start State.start).play (system connectedConfig fun _ => [])
    ([.ext (.enqueue askingMessage), .ext (.deliverSubmit 0 askingMessage)] ++
      List.replicate 4 (.act 0 State.prompt))

lemma writable_askingMessage : Writable connectedConfig askingMessage := by
  constructor
  · intro h
    cases h with
    | noStorage h => cases h
  · intro anchor h _
    cases h
    exact ⟨_, 0, rfl⟩

lemma keptRun_trace : ∃ h : keptRun.isSome, ∃ tx cm, (keptRun.get h).world.trace =
    [.ext (.enqueue askingMessage), .ext (.deliverSubmit 0 askingMessage),
      .call (.submit 0 askingMessage) .now (0 : ℕ),
      .call (.submit 0 askingMessage) (.submit tx) (Except.ok "t"),
      .call (.submit 0 askingMessage) (.publishConfirm cm) (Except.ok ()),
      .call (.submit 0 askingMessage) .ack ()] := ⟨rfl, _, _, rfl⟩

theorem kept_message : ∃ h : keptRun.isSome,
    Durable connectedConfig (keptRun.get h).world.state askingMessage := by
  refine ⟨rfl, ?_⟩
  have hreach := Run.of_play (Option.some_get (x := keptRun) rfl).symm
  obtain ⟨_, tx, cm, htrace⟩ := keptRun_trace
  apply removed_durable connectedConfig _ hreach 0 askingMessage writable_askingMessage
  · intro e r hmem hloses
    rw [htrace] at hmem
    simp only [Did, List.mem_cons, List.not_mem_nil, or_false, reduceCtorEq, false_or] at hmem
    rcases hmem with hmem | hmem | hmem | hmem
    all_goals
      cases hmem
      cases hloses
  · rw [htrace]
    exact .inl (by simp [Did])

/-- An Exonum node that takes no transaction. -/
def State.refusing : (e : Req) → State → e.Answer
  | .submit _, _ => (Except.error "Error: connect ECONNREFUSED" : Except JsError TxHash)
  | e, s => s.prompt e

/-- The transaction of the same message is refused, and the message acknowledged. -/
def lostRun : Option (Async.Config Req Req.Answer Tag External State) :=
  (Config.start State.start).play (system connectedConfig fun _ => [])
    ([.ext (.enqueue askingMessage), .ext (.deliverSubmit 0 askingMessage)] ++
      List.replicate 4 (.act 0 State.refusing))

theorem refused_message_lost : ¬ ∀ (cfg : ServerConfig) (objectHash : ObjectHash)
    (c : Async.Config Req Req.Answer Tag External State),
    Reach (system cfg objectHash) .start c → ∀ seq msg, Removed c.world.trace seq msg →
      Durable cfg c.world.state msg := by
  intro hall
  have hreach := Run.of_play (Option.some_get (x := lostRun) rfl).symm
  have hacked : Removed (lostRun.get rfl).world.trace 0 askingMessage :=
    .inl (List.mem_of_getLast? rfl)
  obtain ⟨st, hst, hheld⟩ := hall _ _ _ hreach 0 askingMessage hacked
  cases hst
  cases hheld _ (List.mem_singleton_self _) with
  | @chain _ txHash tx htx hp =>
    obtain ⟨ms, hp⟩ := hp
    cases hp
    cases htx

end HybridLog
