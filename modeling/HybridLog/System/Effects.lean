import HybridLog.System.Machine

/-!
# What a request does

One inversion of `State.answer`: how the answer to a request changes the shared state, and what it
tells of it. Invariants are proved from it, looking at the requests that touch their part of the
state only.
-/

namespace HybridLog

open Js Async

/-- Answers that change nothing and tell nothing of the state. -/
def Req.Idle : (e : Req) → e.Answer → Prop
  | .insert .., Except.ok () | .insertBatchRecord .., Except.ok () | .linkLeaves .., Except.ok ()
  | .linkLeaf .., Except.ok () | .updateAnchorStatus .., Except.ok ()
  | .updateBatchAnchorStatus .., Except.ok () | .submit _, Except.ok _
  | .getTransaction .., Except.ok .committed | .getReceipt .., Except.ok (some _)
  | .getBlockNumber _, Except.ok _ | .waitReceipt _, Except.ok () | .publishSubmit _, Except.ok ()
  | .publishConfirm _, Except.ok () | .buffer .., _ | .settle _, _ | .await _, _ => False
  | _, _ => True

/-- Request `e`, answered by `r`, takes the state `s` to another one. -/
inductive Effect (s : State) : (e : Req) → e.Answer → State → Prop
  | insert {db : Db} {table : LogTable} {row : LogRow} {d : Database}
    (h : (s.dbs db).insert table row = some d) :
    Effect s (.insert db table row) (Except.ok ()) (s.setDb db d)
  | record {db : Db} {table : Side} {row : BatchRow} {d : Database}
    (h : (s.dbs db).insertBatchRecord db table row = some d) :
    Effect s (.insertBatchRecord db table row) (Except.ok ()) (s.setDb db d)
  | links {table : Side} {ids : List JsString} {root : JsString} :
    Effect s (.linkLeaves table ids root) (Except.ok ())
      (s.setDb .postgres ((s.dbs .postgres).linkFrom (.batched table) root 0 ids))
  | link {table : Side} {id root : JsString} {i : ℕ} :
    Effect s (.linkLeaf table id root i) (Except.ok ())
      (s.setDb .mongo ((s.dbs .mongo).updateLog (.batched table) id (LogRow.link root i)))
  | status {db : Db} {table : LogTable} {id : JsString} {status : AnchorStatus}
    {txHash : Option TxHash} {anchoredAt : Option ℕ} (h : db.hasStatus table = true) :
    Effect s (.updateAnchorStatus db table id status txHash anchoredAt) (Except.ok ())
      (s.setDb db
        ((s.dbs db).updateLog table id (AnchorUpdate.onLog ⟨status, txHash, anchoredAt⟩)))
  | batchStatus {db : Db} {table : Side} {root : JsString} {status : AnchorStatus}
    {txHash : Option TxHash} {anchoredAt : Option ℕ} :
    Effect s (.updateBatchAnchorStatus db table root status txHash anchoredAt) (Except.ok ())
      (s.setDb db
        ((s.dbs db).updateBatch table root (AnchorUpdate.onBatch ⟨status, txHash, anchoredAt⟩)))
  | submitExonum {tx : ExonumTx} {txHash : TxHash} {n : Exonum}
    (h : s.exonum.submit tx txHash = some n) :
    Effect s (.submit (.exonum tx)) (Except.ok txHash) { s with exonum := n }
  | submitEthereum {tx : EthereumTx} {txHash : TxHash} {c : Ethereum}
    (h : s.ethereum.send tx txHash = some c) :
    Effect s (.submit (.ethereum tx)) (Except.ok txHash) { s with ethereum := c }
  | committed {txHash : TxHash} {n : ℕ} (h : txHash ∈ s.exonum.committed) :
    Effect s (.getTransaction txHash n) (Except.ok ExplorerType.committed) s
  | receipt {txHash : TxHash} {n : ℕ} {r r' : Receipt}
    (h : s.ethereum.receipts.lookup txHash = some r') (hr : r'.status = r.status) :
    Effect s (.getReceipt txHash n) (Except.ok (some r)) s
  | blockNumber {n current : ℕ} : Effect s (.getBlockNumber n) (Except.ok current) s
  | waited {txHash : TxHash} {r : Receipt} (h : s.ethereum.receipts.lookup txHash = some r)
    (hr : r.status = true) : Effect s (.waitReceipt txHash) (Except.ok ()) s
  | publishSubmit {msg : SubmitMessage} :
    Effect s (.publishSubmit msg) (Except.ok ()) (s.publishSubmit msg)
  | publishConfirm {msg : ConfirmMessage} :
    Effect s (.publishConfirm msg) (Except.ok ()) (s.publishConfirm msg)
  | buffer {key : WriterKey} {entry : LogEntry} :
    Effect s (.buffer key entry) (s.buffer key entry).2 (s.buffer key entry).1
  | settle {settled : List (ℕ × Outcome)} :
    Effect s (.settle settled) () { s with
      settled := settleAll (settled.map Prod.fst) (settled.map Prod.snd) s.settled }
  | await {promise : ℕ} {o : Outcome} (h : s.settled promise = some o) :
    Effect s (.await promise) o s
  | idle {e : Req} {r : e.Answer} (h : e.Idle r) : Effect s e r s

theorem State.answer_effect {s s' : State} {e : Req} {r : e.Answer} (h : s.answer e r = some s') :
    Effect s e r s' := by
  cases e with
  | insert db table row =>
    cases r with
    | error err => cases h; exact .idle trivial
    | ok u =>
      obtain ⟨d, hd, rfl⟩ := Option.map_eq_some_iff.mp h
      exact .insert hd
  | insertBatchRecord db table row =>
    cases r with
    | error err => cases h; exact .idle trivial
    | ok u =>
      obtain ⟨d, hd, rfl⟩ := Option.map_eq_some_iff.mp h
      exact .record hd
  | linkLeaves table ids root =>
    cases r with
    | error err => cases h; exact .idle trivial
    | ok u => cases h; exact .links
  | linkLeaf table id root i =>
    cases r with
    | error err => cases h; exact .idle trivial
    | ok u => cases h; exact .link
  | updateAnchorStatus db table id status txHash anchoredAt =>
    cases r with
    | error err => cases h; exact .idle trivial
    | ok u =>
      simp only [answer] at h
      split at h
      · next hdb => cases h; exact .status hdb
      · cases h
  | updateBatchAnchorStatus db table root status txHash anchoredAt =>
    cases r with
    | error err => cases h; exact .idle trivial
    | ok u => cases h; exact .batchStatus
  | submit tx =>
    cases r with
    | error err => cases h; exact .idle trivial
    | ok txHash => cases tx with
      | exonum tx =>
        obtain ⟨n, hn, rfl⟩ := Option.map_eq_some_iff.mp h
        exact .submitExonum hn
      | ethereum tx =>
        obtain ⟨c, hc, rfl⟩ := Option.map_eq_some_iff.mp h
        exact .submitEthereum hc
  | getTransaction txHash n =>
    cases r with
    | error err => cases h; exact .idle trivial
    | ok type => cases type with
      | committed =>
        simp only [answer] at h
        split at h
        · next hmem => cases h; exact .committed hmem
        · cases h
      | inPool => cases h; exact .idle trivial
      | other => cases h; exact .idle trivial
  | getReceipt txHash n =>
    cases r with
    | error err => cases h; exact .idle trivial
    | ok receipt => cases receipt with
      | none => cases h; exact .idle trivial
      | some receipt =>
        simp only [answer] at h
        split at h
        · next r hr =>
          split at h
          · next heq => cases h; exact .receipt hr heq.1
          · cases h
        · cases h
  | getBlockNumber n =>
    cases r with
    | error err => cases h; exact .idle trivial
    | ok current =>
      simp only [answer] at h
      split at h
      · cases h; exact .blockNumber
      · cases h
  | waitReceipt txHash =>
    cases r with
    | error err => cases h; exact .idle trivial
    | ok u =>
      simp only [answer] at h
      split at h
      · next r hr =>
        split at h
        · next hstatus => cases h; exact .waited hr hstatus
        · cases h
      · cases h
  | publishSubmit msg =>
    cases r with
    | error err => cases h; exact .idle trivial
    | ok u => cases h; exact .publishSubmit
  | publishConfirm msg =>
    cases r with
    | error err => cases h; exact .idle trivial
    | ok u => cases h; exact .publishConfirm
  | publishReply queue msg => cases h; exact .idle trivial
  | ack => cases h; exact .idle trivial
  | nack => cases h; exact .idle trivial
  | now => cases h; exact .idle trivial
  | buffer key entry =>
    obtain ⟨promise, batch⟩ := r
    simp only [answer] at h
    split at h
    · next heq =>
      cases h
      rw [heq]
      exact .buffer
    · cases h
  | settle settled => cases h; exact .settle
  | await promise =>
    simp only [answer, await] at h
    split at h
    · next hsettled => cases h; exact .await hsettled
    · cases h
  | respond reply => cases h; exact .idle trivial

/-! ### What stays -/

/-- Rows, records, transactions and settled promises stay. -/
structure State.Le (s s' : State) : Prop where
  dbs : ∀ db, (s.dbs db).Le (s'.dbs db)
  exonum : s.exonum.Le s'.exonum
  ethereum : s.ethereum.Le s'.ethereum
  settled : ∀ p o, s.settled p = some o → s'.settled p = some o

namespace State

lemma Le.refl (s : State) : Le s s :=
  ⟨fun _ => .refl _, .refl _, .refl _, fun _ _ h => h⟩

lemma Le.trans {a b c : State} (h : Le a b) (h' : Le b c) : Le a c :=
  ⟨fun db => (h.dbs db).trans (h'.dbs db), h.exonum.trans h'.exonum, h.ethereum.trans h'.ethereum,
    fun p o hp => h'.settled p o (h.settled p o hp)⟩

lemma le_setDb (s : State) {db : Db} {d : Database} (h : (s.dbs db).Le d) : Le s (s.setDb db d) := by
  refine { Le.refl s with dbs := fun db' => ?_ }
  by_cases hdb : db' = db
  · subst hdb
    rwa [setDb_dbs_self]
  · rw [setDb_dbs_of_ne s d hdb]
    exact .refl _

end State

theorem Effect.le {s s' : State} {e : Req} {r : e.Answer} (h : Effect s e r s') : s.Le s' := by
  cases h with
  | insert h => exact s.le_setDb (Database.le_insert h)
  | record h => exact s.le_setDb (Database.le_insertBatchRecord h)
  | links => exact s.le_setDb (Database.le_linkFrom _ _ _ _ _)
  | link => exact s.le_setDb (Database.le_updateLog _ _ fun _ => rfl)
  | status _ => exact s.le_setDb (Database.le_updateLog _ _ fun _ => rfl)
  | batchStatus => exact s.le_setDb (Database.le_updateBatch _ _ fun _ => rfl)
  | submitExonum h => exact { State.Le.refl s with exonum := (Exonum.le_of_submit h).1 }
  | submitEthereum h => exact { State.Le.refl s with ethereum := (Ethereum.le_of_send h).1 }
  | settle => exact { State.Le.refl s with settled := fun p o hp => settleAll_of_some hp }
  | publishSubmit | publishConfirm | buffer =>
    exact ⟨fun _ => .refl _, .refl _, .refl _, fun _ _ h => h⟩
  | committed | receipt | blockNumber | waited | await | idle => exact .refl s

/-- What an answered request leaves behind for good. -/
def Req.Mark : (e : Req) → e.Answer → State → Prop
  | .insert db table row, Except.ok (), s => ∃ r ∈ (s.dbs db).logs table, r.core = row.core
  | .insertBatchRecord db table row, Except.ok (), s =>
    ∃ r ∈ (s.dbs db).batches table, r.merkleRoot = row.merkleRoot
  | .submit (.exonum tx), Except.ok txHash, s => s.exonum.txs.lookup txHash = some tx
  | .submit (.ethereum tx), Except.ok txHash, s => s.ethereum.txs.lookup txHash = some tx
  | .getTransaction txHash _, Except.ok .committed, s => txHash ∈ s.exonum.committed
  | .getReceipt txHash _, Except.ok (some r), s =>
    ∃ r', s.ethereum.receipts.lookup txHash = some r' ∧ r'.status = r.status
  | .waitReceipt txHash, Except.ok (), s =>
    ∃ r, s.ethereum.receipts.lookup txHash = some r ∧ r.status = true
  | .await promise, o, s => s.settled promise = some o
  | _, _, _ => True

lemma Req.Mark.later {s s' : State} {e : Req} {r : e.Answer} (h : e.Mark r s) (hs : s.Le s') :
    e.Mark r s' := by
  cases e with
  | insert db table row =>
    cases r with
    | error err => trivial
    | ok u =>
      obtain ⟨r, hr, hcore⟩ := h
      obtain ⟨r', hr', hcore'⟩ := (hs.dbs db).mem hr
      exact ⟨r', hr', hcore'.trans hcore⟩
  | insertBatchRecord db table row =>
    cases r with
    | error err => trivial
    | ok u =>
      obtain ⟨r, hr, hroot⟩ := h
      obtain ⟨r', hr', hcore'⟩ := (hs.dbs db).mem_batch hr
      exact ⟨r', hr', (BatchRow.mk.inj hcore').1.trans hroot⟩
  | submit tx =>
    cases r with
    | error err => cases tx <;> trivial
    | ok txHash => cases tx with
      | exonum tx => exact hs.exonum.txs _ _ h
      | ethereum tx => exact hs.ethereum.txs _ _ h
  | getTransaction txHash n =>
    cases r with
    | error err => trivial
    | ok type => cases type with
      | committed => exact hs.exonum.committed h
      | inPool => trivial
      | other => trivial
  | getReceipt txHash n =>
    cases r with
    | error err => trivial
    | ok receipt => cases receipt with
      | none => trivial
      | some r =>
        obtain ⟨r', hr', hstatus⟩ := h
        exact ⟨r', hs.ethereum.receipts _ _ hr', hstatus⟩
  | waitReceipt txHash =>
    cases r with
    | error err => trivial
    | ok u =>
      obtain ⟨r, hr, hstatus⟩ := h
      exact ⟨r, hs.ethereum.receipts _ _ hr, hstatus⟩
  | await promise => exact hs.settled _ _ h
  | _ => trivial

lemma Effect.mark {s s' : State} {e : Req} {r : e.Answer} (h : Effect s e r s') : e.Mark r s' := by
  cases h with
  | insert h =>
    refine ⟨_, ?_, rfl⟩
    rw [State.setDb_dbs_self]
    exact Database.mem_insert h
  | record h =>
    simp only [Req.Mark, State.setDb_dbs_self]
    exact Database.mem_insertBatchRecord h
  | submitExonum h => exact (Exonum.le_of_submit h).2
  | submitEthereum h => exact (Ethereum.le_of_send h).2
  | committed h => exact h
  | receipt h hr => exact ⟨_, h, hr⟩
  | waited h hr => exact ⟨_, h, hr⟩
  | await h => exact h
  | links | link | status _ | batchStatus | blockNumber | publishSubmit | publishConfirm | buffer
  | settle => trivial
  | idle h =>
    cases e with
    | insert db table row =>
      cases r with
      | ok u => exact h.elim
      | error err => trivial
    | insertBatchRecord db table row =>
      cases r with
      | ok u => exact h.elim
      | error err => trivial
    | submit tx =>
      cases r with
      | ok txHash => exact h.elim
      | error err => cases tx <;> trivial
    | getTransaction txHash n =>
      cases r with
      | error err => trivial
      | ok type => cases type with
        | committed => exact h.elim
        | inPool => trivial
        | other => trivial
    | getReceipt txHash n =>
      cases r with
      | error err => trivial
      | ok receipt => cases receipt with
        | none => trivial
        | some r => exact h.elim
    | waitReceipt txHash =>
      cases r with
      | ok u => exact h.elim
      | error err => trivial
    | await promise => exact h.elim
    | _ => trivial

/-! ### Rows with a status -/

/-- What a request does to a table of logs that are anchored one by one. -/
lemma Effect.anchored {s s' : State} {e : Req} {r : e.Answer} (h : Effect s e r s') (db : Db)
    (side : Side) :
    (s'.dbs db).logs (.anchored side) = (s.dbs db).logs (.anchored side) ∨
      (∃ row, (⟨e, r⟩ : Σ e : Req, e.Answer) =
          ⟨.insert db (.anchored side) row, (Except.ok () : Except JsError Unit)⟩ ∧
        (s'.dbs db).logs (.anchored side) = (s.dbs db).logs (.anchored side) ++ [row]) ∨
      ∃ id status txHash anchoredAt, (⟨e, r⟩ : Σ e : Req, e.Answer) =
          ⟨.updateAnchorStatus db (.anchored side) id status txHash anchoredAt,
            (Except.ok () : Except JsError Unit)⟩ ∧
        (s'.dbs db).logs (.anchored side) = ((s.dbs db).logs (.anchored side)).map fun r =>
          if r.id = id then AnchorUpdate.onLog ⟨status, txHash, anchoredAt⟩ r else r := by
  cases h with
  | @insert db' table row d h =>
    by_cases hdb : db = db'
    · subst hdb
      rw [State.setDb_dbs_self, (Database.insert_eq_some h).2]
      by_cases ht : table = .anchored side
      · subst ht
        exact .inr (.inl ⟨row, rfl, Database.setLogs_logs_self ..⟩)
      · exact .inl (Database.setLogs_logs_of_ne _ _ (Ne.symm ht))
    · rw [State.setDb_dbs_of_ne s d hdb]
      exact .inl rfl
  | @record db' table row d h =>
    by_cases hdb : db = db'
    · subst hdb
      rw [State.setDb_dbs_self, Database.insertBatchRecord_logs h]
      exact .inl rfl
    · rw [State.setDb_dbs_of_ne s d hdb]
      exact .inl rfl
  | @links table ids root =>
    by_cases hdb : db = .postgres
    · subst hdb
      rw [State.setDb_dbs_self]
      have hne : LogTable.anchored side ≠ .batched table := nofun
      exact .inl (Database.linkFrom_logs_of_ne hne root 0 ids _)
    · rw [State.setDb_dbs_of_ne s _ hdb]
      exact .inl rfl
  | @link table id root i =>
    by_cases hdb : db = .mongo
    · subst hdb
      rw [State.setDb_dbs_self]
      have hne : LogTable.anchored side ≠ .batched table := nofun
      exact .inl (Database.updateLog_logs_of_ne hne id _)
    · rw [State.setDb_dbs_of_ne s _ hdb]
      exact .inl rfl
  | @status db' table id status txHash anchoredAt h =>
    by_cases hdb : db = db'
    · subst hdb
      rw [State.setDb_dbs_self]
      by_cases ht : table = .anchored side
      · subst ht
        exact .inr (.inr ⟨id, status, txHash, anchoredAt, rfl, Database.setLogs_logs_self ..⟩)
      · exact .inl (Database.updateLog_logs_of_ne (Ne.symm ht) id _)
    · rw [State.setDb_dbs_of_ne s _ hdb]
      exact .inl rfl
  | @batchStatus db' table root status txHash anchoredAt =>
    by_cases hdb : db = db'
    · subst hdb
      rw [State.setDb_dbs_self]
      exact .inl rfl
    · rw [State.setDb_dbs_of_ne s _ hdb]
      exact .inl rfl
  | _ => exact .inl rfl

/-- What a request does to a table of batch records. -/
lemma Effect.batches {s s' : State} {e : Req} {r : e.Answer} (h : Effect s e r s') (db : Db)
    (side : Side) :
    (s'.dbs db).batches side = (s.dbs db).batches side ∨
      (∃ row, (⟨e, r⟩ : Σ e : Req, e.Answer) =
          ⟨.insertBatchRecord db side row, (Except.ok () : Except JsError Unit)⟩ ∧
        (s'.dbs db).batches side = (s.dbs db).batches side ++ [row]) ∨
      ∃ root status txHash anchoredAt, (⟨e, r⟩ : Σ e : Req, e.Answer) =
          ⟨.updateBatchAnchorStatus db side root status txHash anchoredAt,
            (Except.ok () : Except JsError Unit)⟩ ∧
        (s'.dbs db).batches side = ((s.dbs db).batches side).map fun r =>
          if r.merkleRoot = root then AnchorUpdate.onBatch ⟨status, txHash, anchoredAt⟩ r else r := by
  cases h with
  | @insert db' table row d h =>
    by_cases hdb : db = db'
    · subst hdb
      rw [State.setDb_dbs_self, (Database.insert_eq_some h).2]
      exact .inl rfl
    · rw [State.setDb_dbs_of_ne s d hdb]
      exact .inl rfl
  | @record db' table row d h =>
    by_cases hdb : db = db'
    · subst hdb
      rw [State.setDb_dbs_self]
      simp only [Database.insertBatchRecord] at h
      split at h
      · cases db with
        | postgres =>
          cases h
          exact .inl rfl
        | mongo => cases h
      · cases h
        by_cases ht : side = table
        · subst ht
          exact .inr (.inl ⟨row, rfl, Database.setBatches_batches_self ..⟩)
        · exact .inl (Database.setBatches_batches_of_ne _ _ ht)
    · rw [State.setDb_dbs_of_ne s d hdb]
      exact .inl rfl
  | @links table ids root =>
    by_cases hdb : db = .postgres
    · subst hdb
      rw [State.setDb_dbs_self]
      exact .inl (congrFun (Database.linkFrom_batches _ root 0 ids _) side)
    · rw [State.setDb_dbs_of_ne s _ hdb]
      exact .inl rfl
  | @link table id root i =>
    by_cases hdb : db = .mongo
    · subst hdb
      rw [State.setDb_dbs_self]
      exact .inl rfl
    · rw [State.setDb_dbs_of_ne s _ hdb]
      exact .inl rfl
  | @status db' table id status txHash anchoredAt h =>
    by_cases hdb : db = db'
    · subst hdb
      rw [State.setDb_dbs_self]
      exact .inl rfl
    · rw [State.setDb_dbs_of_ne s _ hdb]
      exact .inl rfl
  | @batchStatus db' table root status txHash anchoredAt =>
    by_cases hdb : db = db'
    · subst hdb
      rw [State.setDb_dbs_self]
      by_cases ht : side = table
      · subst ht
        exact .inr (.inr ⟨root, status, txHash, anchoredAt, rfl,
          Database.setBatches_batches_self ..⟩)
      · exact .inl (Database.setBatches_batches_of_ne _ _ ht)
    · rw [State.setDb_dbs_of_ne s _ hdb]
      exact .inl rfl
  | _ => exact .inl rfl

/-! ### Machines over this state -/

/-- A machine whose requests have their effects, whatever else they do to the queues, and whose
outside events take nothing away. -/
structure Faithful {T X : Type} (M : Machine Req Req.Answer T X State) : Prop where
  apply : ∀ {t e r s s'}, M.apply t e r s = some s' → ∃ s₁, Effect s e r s₁ ∧ s₁.Le s'
  accept : ∀ {x s s' ps}, M.accept x s = some (s', ps) → s.Le s'

namespace Faithful

variable {T X : Type} {M : Machine Req Req.Answer T X State}

lemma le_of_step (hM : Faithful M) {c c' : Async.Config Req Req.Answer T X State}
    (h : Step M c c') : c.world.state.Le c'.world.state := by
  cases h with
  | call h =>
    obtain ⟨s₁, heffect, hle⟩ := hM.apply h
    exact heffect.le.trans hle
  | ext h => exact hM.accept h
  | fork | left | right | done => exact .refl _

lemma le_of_run (hM : Faithful M) {c c' : Async.Config Req Req.Answer T X State}
    (h : Run M c c') : c.world.state.Le c'.world.state := by
  induction h with
  | refl => exact .refl _
  | tail _ hstep ih => exact ih.trans (hM.le_of_step hstep)

/-- What an answered request leaves behind is still there. -/
theorem marked (hM : Faithful M) {s₀ : State} {c : Async.Config Req Req.Answer T X State}
    (h : Reach M s₀ c) {t : T} {e : Req} {r : e.Answer} (hd : Did t e r c.world.trace) :
    e.Mark r c.world.state := by
  induction h with
  | refl => cases hd
  | tail hreach hstep ih =>
    have hle := hM.le_of_step hstep
    cases hstep with
    | @call w l l' t' e' k r' s hs =>
      rcases List.mem_append.mp hd with hd | hd
      · exact (ih hd).later hle
      · cases List.mem_singleton.mp hd
        obtain ⟨s₁, heffect, hle₁⟩ := hM.apply hs
        exact heffect.mark.later hle₁
    | ext hs =>
      rcases List.mem_append.mp hd with hd | hd
      · exact (ih hd).later hle
      · cases List.mem_singleton.mp hd
    | fork | left | right | done => exact ih hd

/-- The key a row is inserted under. -/
def insertKey : Event Req Req.Answer T X → Option (Db × LogTable × JsString)
  | .call _ (.insert db table row) (Except.ok ()) => some (db, table, row.id)
  | _ => none

lemma insertKey_eq_some {ev : Event Req Req.Answer T X} {key : Db × LogTable × JsString}
    (h : insertKey ev = some key) : ∃ t row,
      ev = .call t (.insert key.1 key.2.1 row) (Except.ok ()) ∧ row.id = key.2.2 := by
  cases ev with
  | ext x => cases h
  | call t e r =>
    cases e with
    | insert db table row =>
      cases r with
      | error err => cases h
      | ok u =>
        cases h
        exact ⟨t, row, rfl, rfl⟩
    | _ => cases h

/-- Where a list has every key once, an element is known by its key. -/
lemma eq_of_nodup_filterMap {α β : Type*} {f : α → Option β} {l : List α} {k : β}
    (h : (l.filterMap f).Nodup) {a b : α} (ha : a ∈ l) (hb : b ∈ l) (hka : f a = some k)
    (hkb : f b = some k) : a = b := by
  induction l with
  | nil => cases ha
  | cons x l ih =>
    have hnew : ∀ c ∈ l, f x = some k → f c ≠ some k := by
      intro c hc hx hck
      rw [List.filterMap_cons_some hx] at h
      exact (List.nodup_cons.mp h).1 (List.mem_filterMap.mpr ⟨c, hc, hck⟩)
    have hrest : (l.filterMap f).Nodup :=
      h.sublist ((List.sublist_cons_self x l).filterMap f)
    rcases List.mem_cons.mp ha with hax | hal
    · rcases List.mem_cons.mp hb with hbx | hbl
      · rw [hax, hbx]
      · exact absurd hkb (hnew b hbl (hax ▸ hka))
    · rcases List.mem_cons.mp hb with hbx | hbl
      · exact absurd hka (hnew a hal (hbx ▸ hkb))
      · exact ih hrest hal hbl

/-- A row is inserted under a key once, since it stays. -/
theorem inserts_once (hM : Faithful M) {s₀ : State} {c : Async.Config Req Req.Answer T X State}
    (h : Reach M s₀ c) : (c.world.trace.filterMap insertKey).Nodup := by
  induction h with
  | refl => exact List.nodup_nil
  | tail hreach hstep ih =>
    cases hstep with
    | @call w l l' t e k r s hs =>
      rw [World.push_trace, List.filterMap_append]
      cases hkey : insertKey (.call t e r : Event Req Req.Answer T X) with
      | none => simpa [hkey] using ih
      | some key =>
        have hnew : key ∉ w.trace.filterMap insertKey := by
          intro hold
          obtain ⟨ev, hev, hevKey⟩ := List.mem_filterMap.mp hold
          obtain ⟨t', row', rfl, hid'⟩ := insertKey_eq_some hevKey
          obtain ⟨t₁, row, heq, hid⟩ := insertKey_eq_some hkey
          cases heq
          obtain ⟨r', hr', hcore⟩ := hM.marked hreach hev
          obtain ⟨s₁, heffect, -⟩ := hM.apply hs
          cases heffect with
          | insert hins =>
            refine (Database.insert_eq_some hins).1 r' hr' (.inl ?_)
            rw [(LogRow.core_eq hcore).1, hid', hid]
          | idle hidle => exact hidle
        have hlast : ([.call t e r] : Trace Req Req.Answer T X).filterMap insertKey = [key] := by
          simp [hkey]
        rw [hlast]
        exact List.nodup_append.mpr ⟨ih, List.nodup_singleton key, fun a ha b hb hab =>
          hnew (by rwa [← List.mem_singleton.mp hb, ← hab])⟩
    | @ext w l x s ps hs =>
      have hnone : ([.ext x] : Trace Req Req.Answer T X).filterMap insertKey = [] := rfl
      rwa [World.push_trace, List.filterMap_append, hnone, List.append_nil]
    | fork | left | right | done => exact ih

/-- Insertions under one key are one and the same. -/
lemma insert_unique (hM : Faithful M) {s₀ : State} {c : Async.Config Req Req.Answer T X State}
    (h : Reach M s₀ c) {t t' : T} {db : Db} {table : LogTable} {row row' : LogRow}
    (hd : Did t (.insert db table row) (Except.ok ()) c.world.trace)
    (hd' : Did t' (.insert db table row') (Except.ok ()) c.world.trace) (hid : row.id = row'.id) :
    t = t' ∧ row = row' := by
  have hkey : insertKey (.call t' (.insert db table row') (Except.ok ()) :
      Event Req Req.Answer T X) = some (db, table, row.id) := by
    rw [hid]
    rfl
  have heq := eq_of_nodup_filterMap (hM.inserts_once h) hd hd' rfl hkey
  cases heq
  exact ⟨rfl, rfl⟩

end Faithful

namespace State

variable {s s' : State} {e : Req} {r : e.Answer} {t : Tag}

lemma le_drop (s : State) (t : Tag) : Le s (s.drop t) := by
  cases t <;> exact ⟨fun _ => .refl _, .refl _, .refl _, fun _ _ h => h⟩

/-- Acknowledgements apart, a request has the same effect whoever makes it. -/
lemma apply_eq_some (h : s.apply t e r = some s') :
    (e = .ack ∨ e = .nack) ∧ s' = s.drop t ∨ e ≠ .ack ∧ e ≠ .nack ∧ s.answer e r = some s' := by
  cases e with
  | ack =>
    cases h
    exact .inl ⟨.inl rfl, rfl⟩
  | nack =>
    cases h
    exact .inl ⟨.inr rfl, rfl⟩
  | _ => exact .inr ⟨nofun, nofun, h⟩

end State

lemma State.le_onChain {cfg : ServerConfig} {objectHash : ObjectHash} {x : ChainEvent}
    {s s' : State} (h : s.onChain cfg objectHash x = some s') : s.Le s' := by
  cases x with
  | commit txHash =>
    obtain ⟨n, hn, rfl⟩ := Option.map_eq_some_iff.mp h
    exact { Le.refl s with exonum := Exonum.le_commit hn }
  | nextBlock timestamp =>
    obtain ⟨c, hc, rfl⟩ := Option.map_eq_some_iff.mp h
    exact { Le.refl s with ethereum := Ethereum.le_of_nextBlock hc }
  | mine txHash status =>
    obtain ⟨c, hc, rfl⟩ := Option.map_eq_some_iff.mp h
    exact { Le.refl s with ethereum := Ethereum.le_of_mine hc }

lemma State.onChain_dbs {cfg : ServerConfig} {objectHash : ObjectHash} {x : ChainEvent}
    {s s' : State} (h : s.onChain cfg objectHash x = some s') : s'.dbs = s.dbs := by
  cases x with
  | commit _ | nextBlock _ | mine _ _ =>
    obtain ⟨n, _, rfl⟩ := Option.map_eq_some_iff.mp h
    rfl

lemma State.accept_dbs {cfg : ServerConfig} {objectHash : ObjectHash} {x : External} {s s' : State}
    {ps : List (Tag × Prog Req Req.Answer Unit)} (h : s.accept cfg objectHash x = some (s', ps)) :
    s'.dbs = s.dbs := by
  cases x with
  | chain x =>
    obtain ⟨s₁, hs, heq⟩ := Option.map_eq_some_iff.mp h
    cases heq
    exact State.onChain_dbs hs
  | _ =>
    simp only [State.accept] at h
    split at h
    · cases h
      rfl
    · cases h

lemma system_faithful (cfg : ServerConfig) (objectHash : ObjectHash) :
    Faithful (system cfg objectHash) where
  apply {t e r s s'} h := by
    rcases State.apply_eq_some h with ⟨he, rfl⟩ | ⟨_, _, h⟩
    · refine ⟨s, .idle ?_, s.le_drop t⟩
      rcases he with rfl | rfl <;> trivial
    · exact ⟨s', State.answer_effect h, .refl s'⟩
  accept {x s s' ps} h := by
    have hsame {s' : State} (hdbs : s'.dbs = s.dbs) (hex : s'.exonum = s.exonum)
        (heth : s'.ethereum = s.ethereum) (hset : s'.settled = s.settled) : s.Le s' :=
      ⟨fun db => hdbs ▸ .refl _, hex ▸ .refl _, heth ▸ .refl _, fun _ _ hp => hset ▸ hp⟩
    cases x with
    | post req id timestamp =>
      simp only [system, State.accept] at h
      split at h
      · cases h
        exact hsame rfl rfl rfl rfl
      · cases h
    | enqueue msg =>
      simp only [system, State.accept] at h
      split at h
      · cases h
        exact hsame rfl rfl rfl rfl
      · cases h
    | expire key batch =>
      simp only [system, State.accept] at h
      split at h
      · cases h
        exact hsame rfl rfl rfl rfl
      · cases h
    | deliverSubmit seq msg =>
      simp only [system, State.accept] at h
      split at h
      · cases h
        exact hsame rfl rfl rfl rfl
      · cases h
    | deliverConfirm seq msg =>
      simp only [system, State.accept] at h
      split at h
      · cases h
        exact hsame rfl rfl rfl rfl
      · cases h
    | chain x =>
      obtain ⟨s₁, hs, heq⟩ := Option.map_eq_some_iff.mp h
      cases heq
      exact State.le_onChain hs

end HybridLog
