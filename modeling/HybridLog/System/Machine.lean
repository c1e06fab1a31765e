import HybridLog.Api.Server
import HybridLog.Database.Operations

/-!
# The server among its neighbours

The shared state is what the two databases, the two chains, the broker and the batch writers hold.
A request that fails changes nothing. Requests come in, timers expire, messages are delivered and
blocks are made whenever the environment likes.
-/

namespace HybridLog

open Js Async

structure State where
  dbs : Db → Database
  exonum : Exonum
  ethereum : Ethereum
  /-- The messages of the submit queues, each with a number of its own. -/
  submitQueue : List (ℕ × SubmitMessage)
  confirmQueue : List (ℕ × ConfirmMessage)
  /-- Delivered and not yet acknowledged. -/
  submitUnacked : List (ℕ × SubmitMessage)
  confirmUnacked : List (ℕ × ConfirmMessage)
  /-- How many messages there have been. -/
  messages : ℕ
  writers : WriterKey → BatchWriter
  /-- How many promises the batch writers have made. -/
  promises : ℕ
  settled : ℕ → Option Outcome
  usedIds : List JsString

/-- Empty stores. -/
def State.start : State where
  dbs _ := .empty
  exonum := .empty
  ethereum := .genesis
  submitQueue := []
  confirmQueue := []
  submitUnacked := []
  confirmUnacked := []
  messages := 0
  writers _ := .empty
  promises := 0
  settled _ := none
  usedIds := []

/-- The programs of the server, by what started them. -/
inductive Tag
  | post (req : PostRequest) (entry : LogEntry)
  | flush (key : WriterKey) (batch : List PendingEntry)
  | submit (seq : ℕ) (msg : SubmitMessage)
  | confirm (seq : ℕ) (msg : ConfirmMessage)

/-- What happens on the chains. -/
inductive ChainEvent
  /-- The Exonum node includes a transaction in a block. -/
  | commit (txHash : TxHash)
  | nextBlock (timestamp : ℕ)
  /-- The Ethereum chain includes a transaction in its current block. -/
  | mine (txHash : TxHash) (status : Bool)

inductive External
  /-- A request arrives and is given an id and a time. -/
  | post (req : PostRequest) (id : JsString) (timestamp : JsDate)
  /-- Somebody else publishes to a submit queue. -/
  | enqueue (msg : SubmitMessage)
  /-- The timer of a batch writer expires, and the writer hands over `batch`. -/
  | expire (key : WriterKey) (batch : List PendingEntry)
  | deliverSubmit (seq : ℕ) (msg : SubmitMessage)
  | deliverConfirm (seq : ℕ) (msg : ConfirmMessage)
  | chain (x : ChainEvent)

/-- `express.json` takes bodies of at most 10 MB, which bounds the texts of a request. -/
structure PostRequest.Fits (req : PostRequest) : Prop where
  level : Small req.level
  source : Small req.source
  message : Small req.message
  metadata : Small (metadataOrEmpty req.metadata).val.text

instance (req : PostRequest) : Decidable req.Fits :=
  decidable_of_iff
    (Small req.level ∧ Small req.source ∧ Small req.message ∧
      Small (metadataOrEmpty req.metadata).val.text)
    ⟨fun ⟨h, h', h'', h'''⟩ => ⟨h, h', h'', h'''⟩, fun h => ⟨h.1, h.2, h.3, h.4⟩⟩

namespace State

def setDb (s : State) (db : Db) (d : Database) : State :=
  { s with dbs := Function.update s.dbs db d }

@[simp] lemma setDb_dbs_self (s : State) (db : Db) (d : Database) : (s.setDb db d).dbs db = d :=
  Function.update_self ..

lemma setDb_dbs_of_ne (s : State) {db db' : Db} (d : Database) (h : db' ≠ db) :
    (s.setDb db d).dbs db' = s.dbs db' := Function.update_of_ne h ..

/-- A change of one database shows in that database only. -/
lemma mem_setDb {s : State} {db db' : Db} {d : Database} {table : LogTable} {r : LogRow}
    (h : r ∈ ((s.setDb db' d).dbs db).logs table) :
    db = db' ∧ r ∈ d.logs table ∨ db ≠ db' ∧ r ∈ (s.dbs db).logs table := by
  by_cases hdb : db = db'
  · subst hdb
    rw [setDb_dbs_self] at h
    exact .inl ⟨rfl, h⟩
  · rw [setDb_dbs_of_ne s d hdb] at h
    exact .inr ⟨hdb, h⟩

/-- A transaction is sent to its chain and answered with hash `h`. -/
def submit (s : State) (h : TxHash) : ChainTx → Option State
  | .exonum tx => (s.exonum.submit tx h).map fun n => { s with exonum := n }
  | .ethereum tx => (s.ethereum.send tx h).map fun c => { s with ethereum := c }

def publishSubmit (s : State) (msg : SubmitMessage) : State :=
  { s with submitQueue := s.submitQueue ++ [(s.messages, msg)], messages := s.messages + 1 }

def publishConfirm (s : State) (msg : ConfirmMessage) : State :=
  { s with confirmQueue := s.confirmQueue ++ [(s.messages, msg)], messages := s.messages + 1 }

/-- The broker drops its copy of the message a program handles. -/
def drop (s : State) : Tag → State
  | .submit seq _ => { s with submitUnacked := s.submitUnacked.filter fun m => m.1 ≠ seq }
  | .confirm seq _ => { s with confirmUnacked := s.confirmUnacked.filter fun m => m.1 ≠ seq }
  | _ => s

/-- `write` of a batch writer: the new state, the number of the promise, and the batch handed
over. -/
def buffer (s : State) (key : WriterKey) (entry : LogEntry) : State × ℕ × List PendingEntry :=
  let (w, batch) := (s.writers key).write batchSize ⟨entry, s.promises⟩
  ({ s with writers := Function.update s.writers key w, promises := s.promises + 1 },
    s.promises, batch)

/-- A promise is answered with its outcome once it is settled. -/
def await (s : State) (promise : ℕ) (o : Outcome) : Option State :=
  if s.settled promise = some o then some s else none

end State

namespace State

/-- The state after a request is answered by `r`, if it can be. Whose request it is matters to the
acknowledgements only, which `apply` treats. -/
def answer (e : Req) (r : e.Answer) (s : State) : Option State :=
  match e, r with
  | .insert db table row, Except.ok () =>
    ((s.dbs db).insert table row).map (s.setDb db)
  | .insertBatchRecord db table row, Except.ok () =>
    ((s.dbs db).insertBatchRecord db table row).map (s.setDb db)
  | .linkLeaves table ids root, Except.ok () =>
    some (s.setDb .postgres ((s.dbs .postgres).linkFrom (.batched table) root 0 ids))
  | .linkLeaf table id root i, Except.ok () =>
    some (s.setDb .mongo ((s.dbs .mongo).updateLog (.batched table) id (LogRow.link root i)))
  | .updateAnchorStatus db table id status txHash anchoredAt, Except.ok () =>
    if db.hasStatus table then
      some (s.setDb db
        ((s.dbs db).updateLog table id (AnchorUpdate.onLog ⟨status, txHash, anchoredAt⟩)))
    else none
  | .updateBatchAnchorStatus db table root status txHash anchoredAt, Except.ok () =>
    some (s.setDb db
      ((s.dbs db).updateBatch table root (AnchorUpdate.onBatch ⟨status, txHash, anchoredAt⟩)))
  | .submit tx, Except.ok h => s.submit h tx
  | .getTransaction h _, Except.ok .committed => if h ∈ s.exonum.committed then some s else none
  | .getReceipt h _, Except.ok (some receipt) =>
    match s.ethereum.receipts.lookup h with
    | some r => if r.status = receipt.status ∧ r.blockNumber = receipt.blockNumber then some s
      else none
    | none => none
  | .getBlockNumber _, Except.ok n => if n ≤ s.ethereum.blockNumber then some s else none
  | .waitReceipt h, Except.ok () =>
    match s.ethereum.receipts.lookup h with
    | some r => if r.status then some s else none
    | none => none
  | .publishSubmit msg, Except.ok () => some (s.publishSubmit msg)
  | .publishConfirm msg, Except.ok () => some (s.publishConfirm msg)
  | .buffer key entry, (promise, batch) =>
    if (promise, batch) = (s.buffer key entry).2 then some (s.buffer key entry).1 else none
  | .settle settled, _ =>
    some { s with
      settled := settleAll (settled.map Prod.fst) (settled.map Prod.snd) s.settled }
  | .await promise, o => s.await promise o
  | _, _ => some s

/-- Answers of neighbours that never fail, to try statements on. -/
def prompt : (e : Req) → State → e.Answer
  | .insert .., _ | .insertBatchRecord .., _ | .linkLeaves .., _ | .linkLeaf .., _
  | .updateAnchorStatus .., _ | .updateBatchAnchorStatus .., _ | .waitReceipt .., _
  | .publishSubmit .., _ | .publishConfirm .., _ | .publishReply .., _ =>
    (Except.ok () : Except JsError Unit)
  | .submit .., _ => (Except.ok "t" : Except JsError TxHash)
  | .getTransaction .., _ => (Except.ok .committed : Except JsError ExplorerType)
  | .getReceipt txHash _, s =>
    (Except.ok (s.ethereum.receipts.lookup txHash) : Except JsError (Option Receipt))
  | .getBlockNumber _, s => (Except.ok s.ethereum.blockNumber : Except JsError ℕ)
  | .ack, _ | .nack, _ | .settle .., _ | .respond .., _ => ()
  | .now, _ => (0 : ℕ)
  | .buffer key entry, s => (s.buffer key entry).2
  | .await promise, s => (s.settled promise).getD (.rejected "")

/-- The state after a request of a program tagged `t` is answered by `r`, if it can be. -/
def apply (t : Tag) (e : Req) (r : e.Answer) (s : State) : Option State :=
  match e, r with
  | .ack, _ | .nack, _ => some (s.drop t)
  | e, r => s.answer e r

end State

variable (cfg : ServerConfig) (objectHash : ObjectHash)

def State.onChain (x : ChainEvent) (s : State) : Option State :=
  match x with
  | .commit txHash => (s.exonum.commit objectHash txHash).map fun n => { s with exonum := n }
  | .nextBlock timestamp => (s.ethereum.nextBlock timestamp).map fun c => { s with ethereum := c }
  | .mine txHash status => (s.ethereum.mine cfg.sha txHash status).map fun c =>
    { s with ethereum := c }

/-- The state after an outside event and the programs it starts, if the event can happen. -/
def State.accept (x : External) (s : State) :
    Option (State × List (Tag × Prog Req Req.Answer Unit)) :=
  match x with
  | .post req id timestamp =>
    if id ∉ s.usedIds ∧ id.length = 36 ∧ req.Fits then
      some ({ s with usedIds := id :: s.usedIds },
        [(.post req (req.entry id timestamp),
          (postLog cfg req (req.entry id timestamp)).run.detach)])
    else none
  | .enqueue msg => if msg.strategy.hasQueue then some (s.publishSubmit msg, []) else none
  | .expire key batch =>
    if (s.writers key).armed ∧ batch = (s.writers key).expire.2 then
      some ({ s with writers := Function.update s.writers key (s.writers key).expire.1 },
        if batch = [] then [] else [(.flush key batch, (flushBatch cfg key batch).run.detach)])
    else none
  | .deliverSubmit seq msg =>
    if (seq, msg) ∈ s.submitQueue then
      some ({ s with
          submitQueue := s.submitQueue.erase (seq, msg)
          submitUnacked := (seq, msg) :: s.submitUnacked },
        [(.submit seq msg, (consume (submitHandler cfg msg.strategy msg)).run.detach)])
    else none
  | .deliverConfirm seq msg =>
    if (seq, msg) ∈ s.confirmQueue then
      some ({ s with
          confirmQueue := s.confirmQueue.erase (seq, msg)
          confirmUnacked := (seq, msg) :: s.confirmUnacked },
        [(.confirm seq msg, (consume (confirmHandler cfg msg.strategy msg)).run.detach)])
    else none
  | .chain x => (s.onChain cfg objectHash x).map fun s' => (s', [])

/-- The server with its databases, chains and broker. -/
def system : Machine Req Req.Answer Tag External State where
  apply := State.apply
  accept := State.accept cfg objectHash

end HybridLog
