import HybridLog.Queue.Stranded
import HybridLog.System.Quiescence

/-!
# Rows settle

What waits for its transaction is attended to by a program or by a confirm message, and a server
that has come to rest has neither. So if nothing happens that leaves a row to nobody, every log that
is anchored by itself and every batch that knows its transaction is confirmed or failed in the end,
however often confirm messages are delivered. The leaves of a batch have the status of its record.
-/

namespace HybridLog

open Js Async

variable {cfg : ServerConfig} {objectHash : ObjectHash} {c : RedeliveryConfig}

/-! ### Redelivery -/

/-- An event of the server itself. -/
def serverEvent : Event Req Req.Answer Tag Delivery → Option (Event Req Req.Answer Tag External)
  | .call t e r => some (.call t e r)
  | .ext (.server x) => some (.ext x)
  | .ext (.requeue _ _) => none

/-- What happens apart from redeliveries. -/
def serverTrace (tr : RedeliveryTrace) : ServerTrace := tr.filterMap serverEvent

lemma did_serverTrace {tr : RedeliveryTrace} {t : Tag} {e : Req} {r : e.Answer} :
    Did t e r (serverTrace tr) ↔ Did t e r tr := by
  rw [Did, serverTrace, List.mem_filterMap]
  constructor
  · rintro ⟨ev, hev, heq⟩
    cases ev with
    | call t' e' r' =>
      cases heq
      exact hev
    | ext x => cases x <;> cases heq
  · exact fun h => ⟨_, h, rfl⟩

/-- A message that names a row is about a database that is there. -/
lemma named_available (h : Reach (atLeastOnce cfg objectHash) .start c) {m : ℕ × ConfirmMessage}
    (hm : m ∈ c.world.state.confirmQueue) (hnames : m.2.names ≠ none) :
    m.2.db = .mongo → cfg.mongo = .connected := by
  obtain ⟨t, pre, post, htrace, -⟩ := (delivers h).queue m.1 m.2 hm
  have hd : Did t (.publishConfirm m.2) (Except.ok ()) c.world.trace := by
    rw [htrace]
    exact List.mem_append_right _ (List.mem_cons_self ..)
  obtain ⟨_, -, hstep⟩ := (atLeastOnce_guarded h).did hd
  apply hstep.available
  by_contra hhybrid
  exact hnames (if_neg hhybrid)

lemma Attended.allowed (h : Reach (atLeastOnce cfg objectHash) .start c)
    (hatt : Attended cfg (serverTrace c.world.trace)) :
    ∀ ev ∈ c.world.trace, (waitLedger Delivery).allowed ev := by
  rintro ev hev t e r rfl
  obtain ⟨pre, hpre, -, hstep⟩ := (atLeastOnce_guarded h).did hev
  apply hatt.kept_of_step _ hstep (did_serverTrace.mpr hev)
  exact fun _ _ _ hd => did_serverTrace.mpr (hd.later hpre)

/-- Whoever waits is attended to by a message or by a program, also where messages are delivered
more than once. -/
lemma attended (h : Reach (atLeastOnce cfg objectHash) .start c) (hmq : cfg.mqReady = true)
    (hatt : Attended cfg (serverTrace c.world.trace)) : ∀ key ∈ c.world.state.unattended,
      ∃ p ∈ c.procs, Owes (waitLedger Delivery) p.1 Clear p.2 {key} := by
  refine (@Reach.owed _ _ _ _ _ _ _ _ _
    (fun w => ∀ m ∈ w.state.confirmQueue, m.2.names ≠ none → m.2.db = .mongo →
      cfg.mongo = .connected) _ ?_ (fun c hc _ _ hm hnames => named_available hc hm hnames) ?_ ?_ _
      h (hatt.allowed h)).2
  · exact unattended_start
  · exact fun t e r s s' hs _ => State.apply_unattended hs
  · intro w x s ps hInv hs _
    rcases atLeastOnce_accept cfg objectHash hs with ⟨y, rfl, hy⟩ | ⟨seq, msg, rfl, hr, rfl⟩
    · exact accept_attended hmq hInv hy
    · obtain ⟨hmem, rfl⟩ := requeue_eq_some hr
      refine ⟨by simp, fun key hkey => .inl ⟨hkey.1, fun m hm => ?_⟩⟩
      exact hkey.2 m (List.mem_cons_of_mem _ hm)

/-! ### Leaves

The status of a leaf is told by the record of its batch. Only the write of a single log gives a leaf
columns of its own, and nobody comes back to them. -/

/-- The program writes a single log with this id under a strategy of batches. -/
inductive Tag.WritesLeaf (id : JsString) : Tag → Prop
  | post {req : PostRequest} {entry : LogEntry} {s : LogStrategy} (hid : entry.id = id)
    (hs : req.storageMode = some (.strategy s)) (hb : s.isBatch = true)
    (hm : req.writeMode ≠ .batch) : WritesLeaf id (.post req entry)
  | submit {seq : ℕ} {msg : SubmitMessage} {dto : EntryDTO} (hbody : msg.body = .entry dto)
    (hid : (dtoToEntry dto.parsed).id = id) (hb : msg.strategy.isBatch = true) :
    WritesLeaf id (.submit seq msg)

/-- Where a storage writes the status of a log. -/
lemma Storage.LogStep.updates {opts : Option WriteOpts} {entry : LogEntry} {st : Storage} {t : Tag}
    {tr : RedeliveryTrace} {db : Db} {table : LogTable} {id : JsString} {status : AnchorStatus}
    {txHash : Option TxHash} {anchoredAt : Option ℕ} (h : Storage.LogStep cfg opts entry t st
      (.updateAnchorStatus db table id status txHash anchoredAt) tr) :
    ∃ db' anchor mode, st = .hybrid db' anchor mode ∧ mode.logTable = table ∧ entry.id = id := by
  cases h with
  | chain h => cases h with
    | looks h => exact h.elim
  | hybrid h => cases h with
    | anchor _ h => cases h with
      | looks h => exact h.elim
    | update _ _ => exact ⟨_, _, _, rfl, rfl, rfl⟩

lemma Storage.BatchStep.not_updates {opts : Option WriteOpts} {entries : List LogEntry}
    {st : Storage} {t : Tag} {tr : RedeliveryTrace} {db : Db} {table : LogTable} {id : JsString}
    {status : AnchorStatus} {txHash : Option TxHash} {anchoredAt : Option ℕ} :
    ¬Storage.BatchStep cfg opts entries t st
      (.updateAnchorStatus db table id status txHash anchoredAt) tr := by
  intro h
  cases h with
  | chain h => cases h with
    | looks h => exact h.elim
  | @hybrid db' _ _ _ _ h => cases h with
    | link _ h => cases db' with
      | postgres => cases h
      | mongo =>
        obtain ⟨_, _, _, heq⟩ := h
        cases heq
    | anchor _ h => cases h with
      | looks h => exact h.elim

lemma FlushStep.not_updates_leaf {key : WriterKey} {batch : List PendingEntry} {t : Tag}
    {tr : RedeliveryTrace} {db : Db} {side : Side} {id : JsString} {status : AnchorStatus}
    {txHash : Option TxHash} {anchoredAt : Option ℕ} : ¬FlushStep cfg key batch t
      (.updateAnchorStatus db (.batched side) id status txHash anchoredAt) tr := by
  intro h
  cases h with
  | batch _ h => exact h.not_updates
  | log _ hnone _ h =>
    -- a storage that writes entries one by one has no table of leaves
    obtain ⟨_, _, mode, rfl, htable, -⟩ := h.updates
    cases mode with
    | anchored s => cases htable
    | batched s => cases hnone

/-- A confirm message of the server that is about a leaf is about the record of its batch. -/
lemma updatesBatch_of_published (h : Reach (atLeastOnce cfg objectHash) .start c) {t : Tag}
    {seq : ℕ} {msg : ConfirmMessage} (hp : Published c.world.trace t seq msg) {side : Side}
    (htable : msg.dbTable = .batched side) : ∃ table, msg.UpdatesBatch msg.strategy table := by
  have hd : Did t (.publishConfirm msg) (Except.ok ()) c.world.trace := by
    obtain ⟨pre, post, htrace, -⟩ := hp
    rw [htrace]
    exact List.mem_append_right _ (List.mem_cons_self ..)
  obtain ⟨_, -, hstep⟩ := (atLeastOnce_guarded h).did hd
  have hbatch {s : LogStrategy}
      (h : (if s.isBatch then s.batchedTableFor else s.anchoredTableFor) = .batched side) :
      s.isBatch = true := by
    by_contra hnot
    rw [if_neg hnot] at h
    cases s <;> cases h
  cases hstep.own id with
  | flushed _ _ _ _ => exact ⟨_, hbatch htable, if_pos (hbatch htable)⟩
  | handOver _ => exact ⟨_, hbatch htable, if_pos (hbatch htable)⟩

/-- The handler of a confirm message writes to the table the message names. -/
lemma ConfirmStep.statusTable {raw : ConfirmMessage} {t : Tag} {tr : RedeliveryTrace} {db : Db}
    {table : LogTable} {id : JsString} {status : AnchorStatus} {txHash : Option TxHash}
    {anchoredAt : Option ℕ} (h : ConfirmStep cfg raw.strategy raw t
      (.updateAnchorStatus db table id status txHash anchoredAt) tr) :
    raw.dbTable = table ∧ raw.UpdatesLog raw.strategy := by
  generalize he : Req.updateAnchorStatus db table id status txHash anchoredAt = e at h
  cases h with
  | update h => cases h with
    | looks h =>
      subst he
      exact h.elim
    | batch _ _ _ _ => cases he
    | log _ _ hlog _ =>
      cases he
      exact ⟨rfl, hlog⟩
  | reply _ _ _ | ack _ => cases he

/-- A row is inserted without a transaction. -/
lemma ServerStep.inserts_unsent {t : Tag} {tr : RedeliveryTrace} {db : Db} {table : LogTable}
    {row : LogRow} (h : ServerStep .server cfg t (.insert db table row) tr) :
    row.anchorTxHash = none := by
  cases TagStep.storage h.step trivial with
  | looks h => exact h.elim
  | log h => cases h with
    | offchain => rfl
    | chain h => cases h with
      | looks h => exact h.elim
    | hybrid h => cases h with
      | insert => rfl
      | anchor _ h => cases h with
        | looks h => exact h.elim
  | batch h => cases h with
    | chain h => cases h with
      | looks h => exact h.elim
    | @hybrid db' _ _ _ _ h => cases h with
      | insert _ => rfl
      | link _ h => cases db' with
        | postgres => cases h
        | mongo =>
          obtain ⟨_, _, _, heq⟩ := h
          cases heq
      | anchor _ h => cases h with
        | looks h => exact h.elim
  | update h => cases h with
    | looks h => exact h.elim

/-- The columns of a leaf are written by a program that writes it alone. -/
lemma ServerStep.writesLeaf (h : Reach (atLeastOnce cfg objectHash) .start c) {t : Tag}
    {tr : RedeliveryTrace} {db : Db} {side : Side} {id : JsString} {status : AnchorStatus}
    {txHash : Option TxHash} {anchoredAt : Option ℕ} (htr : tr <+: c.world.trace)
    (hstep : ServerStep .server cfg t
      (.updateAnchorStatus db (.batched side) id status txHash anchoredAt) tr) :
    t.WritesLeaf id := by
  obtain ⟨hbegun, hstep⟩ := hstep
  have hbatch {strategy : LogStrategy} {db' db'' : Db} {anchor : Anchor} {mode : HybridMode}
      (hst : pickStorage cfg (some (.strategy strategy)) db' = some (.hybrid db'' anchor mode))
      (htable : mode.logTable = .batched side) : strategy.isBatch = true := by
    by_contra hnot
    have hwired := (pickStorage_hybrid cfg hst).logTable
    rw [htable, if_neg hnot] at hwired
    cases hwired
  cases t with
  | post req entry => cases hstep with
    | flush _ _ _ h => exact absurd h FlushStep.not_updates_leaf
    | write _ hm hst h =>
      obtain ⟨_, _, _, rfl, htable, hid⟩ := h.updates
      cases hmode : req.storageMode with
      | none =>
        rw [hmode] at hst
        cases (pickStorage_ofDb cfg hst).1
      | some mode => cases mode with
        | strategy s => exact .post hid hmode (hbatch (hmode ▸ hst) htable) hm
        | other name =>
          rw [hmode] at hst
          cases (pickStorage_ofDb cfg hst).1
  | flush key batch => exact absurd hstep FlushStep.not_updates_leaf
  | submit seq msg => cases hstep with
    | write h =>
      generalize hbody : msg.body = body at h
      cases h with
      | entry hst h =>
        obtain ⟨_, _, _, rfl, htable, hid⟩ := h.updates
        exact .submit hbody hid (hbatch hst htable)
      | entries _ h => exact absurd h Storage.BatchStep.not_updates
  | confirm seq msg => cases hbegun.later htr with
    | confirm hdelivered =>
      obtain ⟨_, hp⟩ := (delivers h).delivered seq msg hdelivered
      have hkey := hstep.statusTable
      exact absurd (updatesBatch_of_published h hp hkey.1) hkey.2

/-- The event gives the leaf its transaction, if it has one. -/
def LeafSent (db : Db) (row : LogRow) (ev : Event Req Req.Answer Tag Delivery) : Prop :=
  row.anchorTxHash.isSome = true → db = .mongo ∧
    ∃ (t : Tag) (e : Req) (r : e.Answer), ev = .call t e r ∧ t.WritesLeaf row.id

/-- A leaf knows its transaction only on MongoDB, and only if it has been written alone. -/
def LeavesAlone (c : RedeliveryConfig) : Prop :=
  ∀ db side, ∀ row ∈ (c.world.state.dbs db).logs (.batched side), row.anchorTxHash.isSome = true →
    db = .mongo ∧
      ∃ (t : Tag) (e : Req) (r : e.Answer), Did t e r c.world.trace ∧ t.WritesLeaf row.id

lemma leavesAlone (h : Reach (atLeastOnce cfg objectHash) .start c) : LeavesAlone c := by
  intro db side row hrow htx
  have htraced : ∃ ev ∈ c.world.trace, LeafSent db row ev := by
    refine traced_of_mem (fun dbs => (dbs db).logs (.batched side)) (LeafSent db) rfl ?_ h hrow
    intro c₁ c₂ t e r s row hreach heffect htrace hrow
    rcases heffect.logColumns hrow with ⟨old, hold, hid, hcols⟩ | heq |
      ⟨st, txHash, anchoredAt, heq, hstatus, -⟩
    · obtain ⟨-, htx, -⟩ := by simpa only [LogRow.statusColumns, Prod.mk.injEq] using hcols
      exact .inl ⟨old, hold, fun ev hev => by rwa [LeafSent, htx, hid] at hev⟩
    · -- a new row knows no transaction
      right
      intro htx
      cases heq
      rw [(atLeastOnce_guarded hreach _ t _ _ [] htrace).inserts_unsent] at htx
      cases htx
    · right
      intro _
      cases heq
      have hdb : db = .mongo := by
        cases db with
        | postgres => cases hstatus
        | mongo => rfl
      have hguard := atLeastOnce_guarded hreach _ t _ _ [] htrace
      exact ⟨hdb, t, _, _, rfl, hguard.writesLeaf hreach ⟨_, htrace.symm⟩⟩
  obtain ⟨ev, hev, hsent⟩ := htraced
  obtain ⟨hdb, t, e, r, rfl, hleaf⟩ := hsent htx
  exact ⟨hdb, t, e, r, hev, hleaf⟩

/-! ### At rest -/

/-- Nothing waits for a server that has come to rest. -/
lemma Drained.settled_rows (h : Reach (atLeastOnce cfg objectHash) .start c)
    (hmq : cfg.mqReady = true) (hdrained : Drained c)
    (hatt : Attended cfg (serverTrace c.world.trace)) (key : StatusKey) :
    ¬c.world.state.Awaits key := by
  intro hwaits
  have hunattended : key ∈ c.world.state.unattended := by
    refine ⟨hwaits, fun m hm => ?_⟩
    rw [hdrained.confirmQueue] at hm
    cases hm
  obtain ⟨p, hp, -⟩ := attended h hmq hatt key hunattended
  rw [hdrained.procs] at hp
  cases hp

/-- A server that is left alone comes to rest, and if until then nothing has happened that leaves a
row to nobody, every log that is anchored by itself and every batch that knows its transaction has
been confirmed or has failed: by its writer, or by the handler of a confirm message. -/
theorem rows_settle (h : Reach (atLeastOnce cfg objectHash) .start c) (hmq : cfg.mqReady = true) :
    Inevitable (Onward (atLeastOnce cfg objectHash) Delivery.quiet Delivery.onChain)
      (fun c' => Drained c' ∧ LeavesAlone c' ∧ (Attended cfg (serverTrace c'.world.trace) →
        ∀ key, ¬c'.world.state.Awaits key)) c := by
  refine (server_falls cfg objectHash).inevitable (fun h hstep => h.tail hstep) ?_ h
  intro c' h' hnot
  apply exists_step_of_not_drained h'
  intro hdrained
  exact hnot ⟨hdrained, leavesAlone h', hdrained.settled_rows h' hmq⟩

/-- A message for a hybrid strategy is handled, and its row waits for a confirm message. -/
def handedOverRun : Option RedeliveryConfig :=
  (Config.start State.start).play (atLeastOnce connectedConfig fun _ => [])
    ([.ext (.server (.enqueue anchoredMessage)),
        .ext (.server (.deliverSubmit 0 anchoredMessage))] ++
      List.replicate 7 (.act 0 State.prompt))

theorem handedOverRun_settles : ∃ h : handedOverRun.isSome,
    (handedOverRun.get h).world.state.Awaits (.log .postgres .priv [0x61]) ∧
      ∃ c, Relation.ReflTransGen (Onward (atLeastOnce connectedConfig fun _ => []) Delivery.quiet
          Delivery.onChain) (handedOverRun.get h) c ∧ Drained c ∧ LeavesAlone c ∧
        (Attended connectedConfig (serverTrace c.world.trace) →
          ∀ key, ¬c.world.state.Awaits key) := by
  have hreach := Run.of_play (Option.some_get (x := handedOverRun) rfl).symm
  refine ⟨rfl, ?_, (rows_settle hreach rfl).exists_run⟩
  show ∃ r ∈ ((handedOverRun.get rfl).world.state.dbs .postgres).logs (.anchored .priv), _
  decide

end HybridLog
