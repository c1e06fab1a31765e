import HybridLog.Queue.Confirmed
import HybridLog.Queue.Waiting

/-!
# No row is stranded

Once no program runs, every row that waits is named by a message in a confirm queue, if all that has
happened is such that nobody fails the row: the broker takes the messages, the databases take what
the confirm handlers write, the chains decide before the last poll, and what is anchored log by log
without a queue is not left pending.
-/

namespace HybridLog

open Js Async

/-! ### What requests do to the rows that wait -/

section Effects

variable {s s' : State} {e : Req} {r : e.Answer}

/-- A row still waits after its status was written, or a message was published that names it, only
if the request has left it waiting. -/
lemma Effect.suspends_of_attends {key : StatusKey} (h : Effect s e r s')
    (hs : e.succeeds r = true) (hkey : e.attends = some key) (hk : key ∈ s'.unattended) :
    e.suspends = some key := by
  obtain ⟨haw, hno⟩ := hk
  cases e with
  | updateAnchorStatus db table id status txHash anchoredAt =>
    cases r with
    | error err => cases hs
    | ok u => cases table with
      | offchain | batched _ => cases hkey
      | anchored side =>
        cases hkey
        cases h with
        | idle hidle => exact hidle.elim
        | status _ =>
          obtain ⟨row, hrow, hid, hst, htx⟩ := haw
          rw [State.setDb_dbs_self, Database.mem_updateLog] at hrow
          obtain ⟨row₀, -, rfl⟩ := hrow
          split at hid
          · next hid₀ =>
            rw [if_pos hid₀] at hst htx
            obtain rfl : status = .pending := Option.some.inj hst
            obtain ⟨txHash, rfl⟩ := Option.isSome_iff_exists.mp htx
            rfl
          · next hid₀ => exact absurd hid hid₀
  | updateBatchAnchorStatus db table root status txHash anchoredAt =>
    cases r with
    | error err => cases hs
    | ok u =>
      cases hkey
      cases h with
      | idle hidle => exact hidle.elim
      | batchStatus =>
        obtain ⟨row, hrow, hroot, hst, htx⟩ := haw
        rw [State.setDb_dbs_self, Database.updateBatch, Database.setBatches_batches_self,
          List.mem_map] at hrow
        obtain ⟨row₀, -, rfl⟩ := hrow
        split at hroot
        · next hroot₀ =>
          rw [if_pos hroot₀] at hst htx
          obtain rfl : status = .pending := hst
          obtain ⟨txHash, rfl⟩ := Option.isSome_iff_exists.mp htx
          rfl
        · next hroot₀ => exact absurd hroot hroot₀
  | publishConfirm msg =>
    cases r with
    | error err => cases hs
    | ok u => cases h with
      | idle hidle => exact hidle.elim
      | publishConfirm =>
        exact absurd hkey (hno (s.messages, msg) (List.mem_append_right _ (by simp)))
  | _ => cases hkey

/-- A row that waits has waited before, or the request has left it waiting. -/
lemma Effect.awaits {key : StatusKey} (h : Effect s e r s') (haw : s'.Awaits key)
    (hnot : ¬(e.succeeds r = true ∧ e.attends = some key)) :
    s.Awaits key ∨ e.succeeds r = true ∧ e.suspends = some key := by
  cases key with
  | log db side id =>
    obtain ⟨row, hrow, hid, hst, htx⟩ := haw
    rcases h.anchored db side with heq | ⟨row', her, heq⟩ | ⟨id', st, tx, at', her, heq⟩
    · rw [heq] at hrow
      exact .inl ⟨row, hrow, hid, hst, htx⟩
    · rw [heq] at hrow
      rcases List.mem_append.mp hrow with hrow | hrow
      · exact .inl ⟨row, hrow, hid, hst, htx⟩
      · cases List.mem_singleton.mp hrow
        cases her
        refine .inr ⟨rfl, ?_⟩
        rw [Req.suspends, if_pos ⟨hst, htx⟩, LogTable.anchoredKey, hid]
    · rw [heq] at hrow
      obtain ⟨row₀, hrow₀, rfl⟩ := List.mem_map.mp hrow
      cases her
      split at hid
      · next hid₀ =>
        cases hid₀
        exact absurd ⟨rfl, by rw [← hid]; rfl⟩ hnot
      · next hid₀ =>
        rw [if_neg hid₀] at hst htx
        exact .inl ⟨row₀, hrow₀, hid, hst, htx⟩
  | batch db side root =>
    obtain ⟨row, hrow, hroot, hst, htx⟩ := haw
    rcases h.batches db side with heq | ⟨row', her, heq⟩ | ⟨root', st, tx, at', her, heq⟩
    · rw [heq] at hrow
      exact .inl ⟨row, hrow, hroot, hst, htx⟩
    · rw [heq] at hrow
      rcases List.mem_append.mp hrow with hrow | hrow
      · exact .inl ⟨row, hrow, hroot, hst, htx⟩
      · cases List.mem_singleton.mp hrow
        cases her
        refine .inr ⟨rfl, ?_⟩
        rw [Req.suspends, if_pos ⟨hst, htx⟩, hroot]
    · rw [heq] at hrow
      obtain ⟨row₀, hrow₀, rfl⟩ := List.mem_map.mp hrow
      cases her
      split at hroot
      · next hroot₀ =>
        cases hroot₀
        exact absurd ⟨rfl, by rw [← hroot]; rfl⟩ hnot
      · next hroot₀ =>
        rw [if_neg hroot₀] at hst htx
        exact .inl ⟨row₀, hrow₀, hroot, hst, htx⟩

/-- Requests add to the confirm queues only. -/
lemma Effect.confirmQueue_subset (h : Effect s e r s') : s.confirmQueue ⊆ s'.confirmQueue := by
  rcases h.confirmQueue with heq | ⟨msg, -, heq⟩
  · rw [heq]
    exact List.Subset.refl _
  · rw [heq]
    exact List.subset_append_left _ _

lemma Effect.unattended {X : Type} (h : Effect s e r s') :
    s'.unattended ⊆ (s.unattended \ (waitLedger X).meets e r) ∪ (waitLedger X).creates e r := by
  intro key hkey
  by_cases hmet : e.succeeds r = true ∧ e.attends = some key
  · exact .inr ⟨hmet.1, h.suspends_of_attends hmet.1 hmet.2 hkey⟩
  rcases h.awaits hkey.1 hmet with hold | hnew
  · exact .inl ⟨⟨hold, fun m hm => hkey.2 m (h.confirmQueue_subset hm)⟩, hmet⟩
  · exact .inr hnew

end Effects

/-! ### Messages on their way -/

section Runs

variable {cfg : ServerConfig} {objectHash : ObjectHash}

/-- A flush hands over for a database that is there. -/
lemma FlushResult.available {X : Type} {key : WriterKey} {batch : List PendingEntry} {t : Tag}
    {s : LogStrategy} {a : Answer} {tr : Trace Req Req.Answer Tag X}
    (h : FlushResult cfg key batch t tr a) (hkey : key.strategy = .strategy s)
    (hs : s.isHybrid = true) : key.db = .mongo → cfg.mongo = .connected := by
  have hconnected {st : Storage} (hst : key.storage cfg = some st) :
      key.db = .mongo → cfg.mongo = .connected := by
    rw [WriterKey.storage, hkey] at hst
    obtain ⟨db', anchor, mode, rfl⟩ := pickStorage_of_isHybrid hst hs
    exact (pickStorage_hybrid cfg hst).available
  cases h with
  | batch hst _ => exact hconnected hst
  | logs hst _ _ => exact hconnected hst

lemma Written.exists_storage {X : Type} {storage : Option Storage} {body : SubmitBody}
    {w : Submitted} {t : Tag} {tr : Trace Req Req.Answer Tag X}
    (h : Written cfg storage t tr body w) : ∃ st, storage = some st := by
  cases h with
  | entry hst _ => exact ⟨_, hst⟩
  | entries hst _ => exact ⟨_, hst⟩

/-- Whatever is handed over for a hybrid strategy is about a database that is there. -/
lemma ServerStep.available {X : Type} {outside : External → X} {t : Tag} {msg : ConfirmMessage}
    {tr : Trace Req Req.Answer Tag X} (h : ServerStep outside cfg t (.publishConfirm msg) tr)
    (hs : msg.strategy.isHybrid = true) : msg.db = .mongo → cfg.mongo = .connected := by
  cases h.own (by simp [Req.OfStorage]) with
  | flushed _ hkey hres _ => exact FlushResult.available hres hkey hs
  | handOver hover =>
    obtain ⟨st, hst⟩ := hover.written.exists_storage
    obtain ⟨db', anchor, mode, rfl⟩ := pickStorage_of_isHybrid hst hs
    exact (pickStorage_hybrid cfg hst).available

/-- A message that names a row is about a database that is there. -/
lemma names_available {c : Async.Config Req Req.Answer Tag External State}
    (h : Reach (system cfg objectHash) .start c) :
    ∀ m ∈ c.world.state.confirmQueue, m.2.names ≠ none → m.2.db = .mongo →
      cfg.mongo = .connected := by
  induction h with
  | refl =>
    intro m hm
    cases hm
  | tail hreach hstep ih =>
    have hguard := system_guarded (hreach.tail hstep)
    cases hstep with
    | @call w l l' t e k r s hs =>
      rcases State.apply_eq_some hs with ⟨-, rfl⟩ | ⟨-, -, hs⟩
      · cases t <;> exact ih
      intro m hm hnames
      rcases (State.answer_effect hs).confirmQueue with heq | ⟨msg, her, heq⟩
      · rw [World.push_state, heq] at hm
        exact ih m hm hnames
      · rw [World.push_state, heq] at hm
        rcases List.mem_append.mp hm with hm | hm
        · exact ih m hm hnames
        · cases List.mem_singleton.mp hm
          cases her
          apply (hguard _ _ _ _ [] rfl).available
          by_contra hhybrid
          exact hnames (if_neg hhybrid)
    | fork | left | right | done => exact ih
    | @ext w l x s ps hs =>
      intro m hm
      apply ih m
      cases x with
      | deliverConfirm seq msg =>
        simp only [system, State.accept] at hs
        split at hs
        · cases hs
          exact List.mem_of_mem_erase hm
        · cases hs
      | chain x =>
        obtain ⟨s₁, hs₁, heq⟩ := Option.map_eq_some_iff.mp hs
        cases heq
        cases x with
        | commit _ | nextBlock _ | mine _ _ =>
          obtain ⟨n, _, rfl⟩ := Option.map_eq_some_iff.mp hs₁
          exact hm
      | _ =>
        simp only [system, State.accept] at hs
        split at hs
        · cases hs
          exact hm
        · cases hs

/-- Outside events other than the delivery of a confirm message leave the rows that wait and the
messages about them as they are. -/
lemma State.accept_unattended {x : External} {s s' : State}
    {ps : List (Tag × Prog Req Req.Answer Unit)} (h : s.accept cfg objectHash x = some (s', ps)) :
    s'.unattended ⊆ s.unattended ∨ ∃ seq msg, x = .deliverConfirm seq msg ∧
      ps = [(.confirm seq msg, (consume (confirmHandler cfg msg.strategy msg)).run.detach)] ∧
      (seq, msg) ∈ s.confirmQueue ∧
      ∀ key ∈ s'.unattended, key ∈ s.unattended ∨ msg.names = some key := by
  have hdbs := State.accept_dbs h
  have hawaits (key : StatusKey) (haw : s'.Awaits key) : s.Awaits key := by
    cases key <;> simpa only [State.Awaits, hdbs] using haw
  cases x with
  | deliverConfirm seq msg =>
    simp only [State.accept] at h
    split at h
    · next hmem =>
      cases h
      refine .inr ⟨seq, msg, rfl, rfl, hmem, fun key hkey => ?_⟩
      by_cases hnames : msg.names = some key
      · exact .inr hnames
      · refine .inl ⟨hawaits key hkey.1, fun m hm => ?_⟩
        by_cases heq : m = (seq, msg)
        · rw [heq]
          exact hnames
        · exact hkey.2 m ((List.mem_erase_of_ne heq).mpr hm)
    · cases h
  | chain x =>
    obtain ⟨s₁, hs₁, heq⟩ := Option.map_eq_some_iff.mp h
    cases heq
    cases x with
    | commit _ | nextBlock _ | mine _ _ =>
      obtain ⟨n, _, rfl⟩ := Option.map_eq_some_iff.mp hs₁
      exact .inl fun key hkey => ⟨hawaits key hkey.1, hkey.2⟩
  | _ =>
    simp only [State.accept] at h
    split at h
    · cases h
      exact .inl fun key hkey => ⟨hawaits key hkey.1, hkey.2⟩
    · cases h

/-! ### Programs that begin -/

/-- The handlers are run by `subscribe`, which has nothing to add. -/
lemma consume_owes {X : Type} {t : Tag} {p : Io Unit} {O : Set StatusKey}
    (h : Discharges (X := X) t p O) : Owes (waitLedger X) t Clear (consume p).run.detach O :=
  OwesTask.detach (discharges_tryCatch h fun _ => owes_request rfl)

/-- Whatever is started owes nothing to begin with. -/
lemma accept_owes {X : Type} (hmq : cfg.mqReady = true) {x : External} {s s' : State}
    {ps : List (Tag × Prog Req Req.Answer Unit)} (h : s.accept cfg objectHash x = some (s', ps)) :
    ∀ p ∈ ps, Owes (waitLedger X) p.1 Clear p.2 ∅ := by
  intro p hp
  cases x with
  | post req id timestamp =>
    simp only [State.accept] at h
    split at h
    · cases h
      cases List.mem_singleton.mp hp
      exact OwesTask.detach (postLog_owes cfg rfl hmq req _)
    · cases h
  | enqueue msg =>
    simp only [State.accept] at h
    split at h
    · cases h
      cases hp
    · cases h
  | expire key batch =>
    simp only [State.accept] at h
    split at h
    · cases h
      split at hp
      · cases hp
      · cases List.mem_singleton.mp hp
        exact OwesTask.detach (flushBatch_owes cfg rfl hmq key batch)
    · cases h
  | deliverSubmit seq msg =>
    simp only [State.accept] at h
    split at h
    · cases h
      cases List.mem_singleton.mp hp
      exact consume_owes (submitHandler_owes cfg msg.strategy msg)
    · cases h
  | deliverConfirm seq msg =>
    simp only [State.accept] at h
    split at h
    · cases h
      cases List.mem_singleton.mp hp
      exact consume_owes (confirmHandler_owes cfg seq msg (fun _ => rfl) fun _ h => h.elim)
    · cases h
  | chain x =>
    obtain ⟨s₁, _, heq⟩ := Option.map_eq_some_iff.mp h
    cases heq
    cases hp

/-- No row waits in the beginning. -/
lemma unattended_start : State.start.unattended = ∅ := by
  apply Set.eq_empty_of_forall_notMem
  rintro key ⟨haw, -⟩
  cases key with
  | log db side id =>
    obtain ⟨row, hrow, -⟩ := haw
    cases hrow
  | batch db side root =>
    obtain ⟨row, hrow, -⟩ := haw
    cases hrow

lemma State.apply_unattended {X : Type} {t : Tag} {e : Req} {r : e.Answer} {s s' : State}
    (hs : s.apply t e r = some s') : s'.unattended ⊆
      (s.unattended \ (waitLedger X).meets e r) ∪ (waitLedger X).creates e r := by
  rcases State.apply_eq_some hs with ⟨he, rfl⟩ | ⟨-, -, hs⟩
  · have hsame : (s.drop t).unattended = s.unattended := by cases t <;> rfl
    rw [hsame]
    rcases he with rfl | rfl
    · exact fun key hkey => .inl ⟨hkey, fun hmet => by cases hmet.2⟩
    · exact fun key hkey => .inl ⟨hkey, fun hmet => by cases hmet.2⟩
  · exact (State.answer_effect hs).unattended

/-- Where a message is taken out of the confirm queue, its handler attends to the row it names. -/
lemma accept_attended {X : Type} (hmq : cfg.mqReady = true) {x : External} {s s' : State}
    {ps : List (Tag × Prog Req Req.Answer Unit)}
    (havailable : ∀ m ∈ s.confirmQueue, m.2.names ≠ none → m.2.db = .mongo →
      cfg.mongo = .connected) (hs : s.accept cfg objectHash x = some (s', ps)) :
    (∀ p ∈ ps, Owes (waitLedger X) p.1 Clear p.2 ∅) ∧
      ∀ key ∈ s'.unattended, key ∈ s.unattended ∨
        ∃ p ∈ ps, Owes (waitLedger X) p.1 Clear p.2 {key} := by
  refine ⟨accept_owes hmq hs, fun key hkey => ?_⟩
  rcases State.accept_unattended hs with hsub | ⟨seq, msg, rfl, rfl, hmem, hnew⟩
  · exact .inl (hsub hkey)
  rcases hnew key hkey with hold | hnames
  · exact .inl hold
  refine .inr ⟨_, List.mem_singleton_self _, consume_owes (confirmHandler_owes cfg seq msg ?_ ?_)⟩
  · rintro ⟨hdb, hmongo⟩
    rw [havailable (seq, msg) hmem (by simp [hnames]) hdb] at hmongo
    cases hmongo
  · intro key' hkey'
    rw [Set.mem_singleton_iff.mp hkey']
    exact hnames

/-- In a run whose events are all kept, whoever waits is attended to by a message or by a
program. -/
lemma attended_of_kept {c : Async.Config Req Req.Answer Tag External State}
    (h : Reach (system cfg objectHash) .start c) (hmq : cfg.mqReady = true)
    (hkept : ∀ ev ∈ c.world.trace, (waitLedger External).allowed ev) :
    ∀ key ∈ c.world.state.unattended,
      ∃ p ∈ c.procs, Owes (waitLedger External) p.1 Clear p.2 {key} := by
  refine (@Reach.owed _ _ _ _ _ _ _ _ _
    (fun w => ∀ m ∈ w.state.confirmQueue, m.2.names ≠ none → m.2.db = .mongo →
      cfg.mongo = .connected) _ unattended_start (fun c hc _ => names_available hc) ?_ ?_ _ h
      hkept).2
  · exact fun t e r s s' hs _ => State.apply_unattended hs
  · exact fun w x s ps hInv hs _ => accept_attended hmq hInv hs

/-! ### What fails a row -/

/-- Strategies that anchor each log by itself. -/
def StorageMode.anchorsLogs : StorageMode → Bool
  | .strategy s => s.isHybrid && !s.isBatch
  | .other _ => false

/-- The batch writer a program flushes. -/
def Tag.writerKey : Tag → Option WriterKey
  | .post req _ => if req.writeMode = .batch then some req.writerKey else none
  | .flush key _ => some key
  | _ => none

/-- Nothing happens that leaves a row to nobody. -/
structure Attended (cfg : ServerConfig) (tr : ServerTrace) : Prop where
  /-- The broker takes every confirm message of a hybrid strategy. -/
  taken : ∀ t msg err, msg.strategy.isHybrid = true →
    ¬Did t (.publishConfirm msg) (Except.error err) tr
  /-- The databases take every status a confirm handler writes. -/
  stored : ∀ seq msg e r, Did (.confirm seq msg) e r tr → e.attends ≠ none → e.succeeds r = true
  /-- The last poll of a confirm handler decides, if it comes to that. -/
  decided : ∀ seq msg r, msg.strategy.isHybrid = true →
    Checked cfg msg.txHash (.confirm seq msg) tr 59 msg.chain r →
      r.confirmed = true ∨ r.pending = false
  /-- No request that waits for the transaction of its log gives up. -/
  waited : ∀ req entry mode txHash n r, req.storageMode = some mode → mode.anchorsLogs = true →
    Did (.post req entry) (.getTransaction txHash n) r tr → ¬GivesUp n r
  /-- No transaction is accepted for a log that a batch writer flushes by itself. -/
  flushed : ∀ t key tx txHash, t.writerKey = some key → key.strategy.anchorsLogs = true →
    ¬Did t (.submit tx) (Except.ok txHash) tr

lemma TxCheck.status_ne_pending {r : TxCheck} (h : r.confirmed = true ∨ r.pending = false) :
    r.status ≠ .pending := by
  rw [TxCheck.status]
  rcases h with h | h
  · simp [h]
  · cases hc : r.confirmed <;> simp [h]

lemma pickStorage_anchored {m : Option StorageMode} {db db' : Db} {anchor : Anchor} {side : Side}
    (h : pickStorage cfg m db = some (.hybrid db' anchor (.anchored side))) :
    ∃ mode, m = some mode ∧ mode.anchorsLogs = true := by
  cases m with
  | none => cases (pickStorage_ofDb cfg h).1
  | some mode => cases mode with
    | other name => cases (pickStorage_ofDb cfg h).1
    | strategy s =>
      refine ⟨_, rfl, ?_⟩
      cases s with
      | privateChain | publicChain => cases h
      | hybridPrivate | hybridPublic => rfl
      | databaseOnly | hybridPrivateBatch | hybridPublicBatch => cases (pickStorage_ofDb cfg h).1

section Steps

variable {X : Type} {t : Tag} {tr : Trace Req Req.Answer Tag X} {e : Req}

/-- The write of a log that leaves a row waiting. -/
lemma Storage.LogStep.suspends {opts : Option WriteOpts} {entry : LogEntry} {st : Storage}
    {key : StatusKey} (h : Storage.LogStep cfg opts entry t st e tr)
    (hkey : e.suspends = some key) :
    ∃ db anchor side, st = .hybrid db anchor (.anchored side) ∧ ∃ tx txHash,
      Did t (.submit tx) (Except.ok txHash) tr ∧ (submitOnly opts = true ∨
        ∃ n r, Did t (.getTransaction txHash n) r tr ∧ GivesUp n r) := by
  cases h with
  | offchain =>
    rw [Req.suspends_insert rfl] at hkey
    cases hkey
  | chain h =>
    rw [h.suspends] at hkey
    cases hkey
  | @hybrid db anchor mode _ _ h => cases h with
    | insert =>
      rw [Req.suspends_insert rfl] at hkey
      cases hkey
    | anchor _ h =>
      rw [h.suspends] at hkey
      cases hkey
    | update _ hout _ =>
      obtain ⟨hst, htx, side, hmode, -⟩ := Req.suspends_updateAnchorStatus hkey
      cases mode with
      | batched s => cases hmode
      | anchored s =>
        refine ⟨db, anchor, s, rfl, ?_⟩
        cases hout with
        | unsent | refused | lost => cases htx
        | confirmed => cases hst
        | submitted _ hs ho => exact ⟨_, _, hs, .inl ho⟩
        | givenUp _ hs _ hn hr => exact ⟨_, _, hs, .inr ⟨_, _, hn, hr⟩⟩

/-- The write of a batch leaves no log waiting. -/
lemma Storage.BatchStep.suspends_ne_log {opts : Option WriteOpts} {entries : List LogEntry}
    {st : Storage} {db : Db} {side : Side} {id : JsString}
    (h : Storage.BatchStep cfg opts entries t st e tr) : e.suspends ≠ some (.log db side id) := by
  intro hkey
  cases h with
  | chain h =>
    rw [h.suspends] at hkey
    cases hkey
  | hybrid h => cases h with
    | insert _ =>
      rw [Req.suspends_insert rfl] at hkey
      cases hkey
    | record _ =>
      rw [Req.suspends_insertBatchRecord rfl] at hkey
      cases hkey
    | link _ h =>
      rw [LinkReq.suspends h] at hkey
      cases hkey
    | anchor _ h =>
      rw [h.suspends] at hkey
      cases hkey
    | update _ _ _ =>
      obtain ⟨-, -, heq⟩ := Req.suspends_updateBatchAnchorStatus hkey
      cases heq

/-- A flush that leaves a log waiting has had a transaction accepted for it. -/
lemma FlushStep.suspends {key : WriterKey} {batch : List PendingEntry} {db : Db} {side : Side}
    {id : JsString} (h : FlushStep cfg key batch t e tr)
    (hkey : e.suspends = some (.log db side id)) :
    key.strategy.anchorsLogs = true ∧ ∃ tx txHash, Did t (.submit tx) (Except.ok txHash) tr := by
  cases h with
  | batch _ h => exact absurd hkey h.suspends_ne_log
  | log hst _ _ h =>
    obtain ⟨db', anchor, side', rfl, tx, txHash, hs, -⟩ := h.suspends hkey
    obtain ⟨mode, hmode, hanchors⟩ := pickStorage_anchored hst
    rw [Option.some.inj hmode]
    exact ⟨hanchors, tx, txHash, hs⟩
  | settle _ | reject | now | handOver _ _ _ _ => cases hkey

/-- The handler of a confirm message leaves a row waiting only if its last poll was undecided. -/
lemma ConfirmStep.suspends {msg : ConfirmMessage} {k : StatusKey}
    (h : ConfirmStep cfg msg.strategy msg t e tr) (hkey : e.suspends = some k) :
    msg.strategy.isHybrid = true ∧ ∃ r : TxCheck, Polled cfg msg.txHash t tr msg.chain r ∧
      r.status = .pending := by
  cases h with
  | update h => cases h with
    | looks h =>
      rw [h.suspends] at hkey
      cases hkey
    | batch hs hp _ _ => exact ⟨hs, _, hp, (Req.suspends_updateBatchAnchorStatus hkey).1⟩
    | log hs hp _ _ => exact ⟨hs, _, hp, (Req.suspends_updateAnchorStatus hkey).1⟩
  | reply _ _ _ | ack _ => cases hkey

end Steps

/-- If nothing happens that leaves a row to nobody, no request of the server does; `pre` is what the
server has done before, maybe among events of other kinds. -/
lemma Attended.kept_of_step {X : Type} {pre : Trace Req Req.Answer Tag X} {tr : ServerTrace}
    (hatt : Attended cfg tr) {t : Tag} {e : Req} {r : e.Answer}
    (hpre : ∀ t e r, Did t e r pre → Did t e r tr) (hstep : TagStep cfg t e pre)
    (hd : Did t e r tr) : Kept t e r := by
  constructor
  · rintro msg rfl hnames
    cases r with
    | ok u => rfl
    | error err =>
      refine absurd hd (hatt.taken t msg err ?_)
      by_contra hhybrid
      exact hnames (if_neg hhybrid)
  · rintro seq msg k rfl hattends
    refine ⟨hatt.stored seq msg e r hd (by simp [hattends]), ?_⟩
    by_contra hsome
    obtain ⟨k', hk'⟩ := Option.ne_none_iff_exists'.mp hsome
    obtain ⟨hhybrid, check, ⟨n, hn, hend⟩, hst⟩ := ConfirmStep.suspends hstep hk'
    apply TxCheck.status_ne_pending _ hst
    rcases hend with hc | hp | rfl
    · exact .inl hc
    · exact .inr hp
    · exact hatt.decided seq msg check hhybrid (hn.of_did hpre)
  · intro db side id ht hkey
    rw [← Bool.not_eq_true]
    intro hs
    cases t with
    | submit _ _ | confirm _ _ => cases ht
    | flush key batch =>
      obtain ⟨hanchors, tx, txHash, hd⟩ := FlushStep.suspends hstep hkey
      exact hatt.flushed _ key tx txHash rfl hanchors (hpre _ _ _ hd)
    | post req entry => cases hstep with
      | flush hm _ _ h =>
        obtain ⟨hanchors, tx, txHash, hd⟩ := h.suspends hkey
        exact hatt.flushed (.post req entry) req.writerKey tx txHash (if_pos hm) hanchors
          (hpre _ _ _ hd)
      | write _ _ hst h =>
        obtain ⟨db', anchor, side', rfl, tx, txHash, -, hor⟩ := h.suspends hkey
        obtain ⟨mode, hmode, hanchors⟩ := pickStorage_anchored hst
        rcases hor with ho | ⟨n, a, hn, hgives⟩
        · cases ho
        · exact hatt.waited req entry mode txHash n a hmode hanchors (hpre _ _ _ hn) hgives
      | now | enqueue _ _ | buffer _ | await _ | respond _ => cases hkey

lemma Attended.kept {c : Async.Config Req Req.Answer Tag External State}
    (h : Reach (system cfg objectHash) .start c) (hatt : Attended cfg c.world.trace)
    {t : Tag} {e : Req} {r : e.Answer} (hd : Did t e r c.world.trace) : Kept t e r := by
  obtain ⟨pre, hpre, -, hstep⟩ := (system_guarded h).did hd
  exact hatt.kept_of_step (fun _ _ _ hd => hd.later hpre) hstep hd

end Runs

/-- In every run with the broker connected in which nothing leaves a row to nobody: once no program
runs, every row that is pending and knows its transaction is named by a message in a confirm
queue. -/
theorem waiting_rows_named (cfg : ServerConfig) (objectHash : ObjectHash)
    (hmq : cfg.mqReady = true) {c : Async.Config Req Req.Answer Tag External State}
    (h : Reach (system cfg objectHash) .start c) (hatt : Attended cfg c.world.trace)
    (hquiet : c.procs = []) (key : StatusKey) (hkey : c.world.state.Awaits key) :
    ∃ m ∈ c.world.state.confirmQueue, m.2.names = some key := by
  by_contra hno
  have hunattended : key ∈ c.world.state.unattended :=
    ⟨hkey, fun m hm hnames => hno ⟨m, hm, hnames⟩⟩
  have hkept : ∀ ev ∈ c.world.trace, (waitLedger External).allowed ev := by
    rintro ev hev t e r rfl
    exact hatt.kept h hev
  obtain ⟨p, hp, -⟩ := attended_of_kept h hmq hkept key hunattended
  rw [hquiet] at hp
  cases hp

/-- A message for a hybrid strategy is handled and handed over, and the program ends. -/
def namedRun : Option (Async.Config Req Req.Answer Tag External State) :=
  (Config.start State.start).play (system connectedConfig fun _ => [])
    ([.ext (.enqueue anchoredMessage), .ext (.deliverSubmit 0 anchoredMessage)] ++
      List.replicate 7 (.act 0 State.prompt))

/-- Requests of submit handlers that are not refused a confirm message. -/
def handsOver : Event Req Req.Answer Tag External → Bool
  | .call (.submit ..) (.publishConfirm _) (Except.error _) => false
  | .call (.submit ..) _ _ | .ext _ => true
  | _ => false

lemma attended_of_handsOver {cfg : ServerConfig} {tr : ServerTrace}
    (h : ∀ ev ∈ tr, handsOver ev = true) : Attended cfg tr where
  taken t msg err _ hd := by
    cases t <;> exact Bool.noConfusion (h _ hd)
  stored seq msg e r hd := Bool.noConfusion (h _ hd)
  decided seq msg r _ hchecked := by
    generalize msg.chain = chain at hchecked
    cases hchecked with
    | exonum hd | noReceipt hd _ | reverted hd _ | noBlock hd _ _ | block hd _ _ =>
      exact Bool.noConfusion (h _ hd)
  waited req entry mode txHash n r _ _ hd := Bool.noConfusion (h _ hd)
  flushed t key tx txHash hkey _ hd := by
    cases t with
    | submit _ _ | confirm _ _ => cases hkey
    | post _ _ | flush _ _ => exact Bool.noConfusion (h _ hd)

theorem handed_over_row_named : ∃ h : namedRun.isSome,
    (namedRun.get h).world.state.Awaits (.log .postgres .priv [0x61]) ∧
      ∃ m ∈ (namedRun.get h).world.state.confirmQueue,
        m.2.names = some (.log .postgres .priv [0x61]) := by
  refine ⟨rfl, ?_⟩
  have hreach := Run.of_play (Option.some_get (x := namedRun) rfl).symm
  have hwaits : (namedRun.get rfl).world.state.Awaits (.log .postgres .priv [0x61]) := by
    show ∃ r ∈ ((namedRun.get rfl).world.state.dbs .postgres).logs (.anchored .priv), _
    decide
  exact ⟨hwaits, waiting_rows_named connectedConfig _ rfl hreach
    (attended_of_handsOver (by decide)) rfl _ hwaits⟩

/-- A request that is buffered for a strategy whose storage takes no batches. -/
def bufferedRequest : PostRequest :=
  { awaitingRequest .hybridPrivate .postgres with writeMode := .batch }

/-- The request is flushed by the timer of its batch writer, and answered. -/
def strandedRun : Option (Async.Config Req Req.Answer Tag External State) :=
  (Config.start State.start).play (system connectedConfig fun _ => [])
    ([.ext (.post bufferedRequest (List.replicate 36 0x61) .epoch), .act 0 State.prompt,
        .ext (.expire bufferedRequest.writerKey
          [⟨bufferedRequest.entry (List.replicate 36 0x61) .epoch, 0⟩])] ++
      List.replicate 6 (.act 1 State.prompt) ++ List.replicate 3 (.act 0 State.prompt))

theorem flushed_row_stranded : ¬∀ (cfg : ServerConfig) (objectHash : ObjectHash)
    (c : Async.Config Req Req.Answer Tag External State), cfg.mqReady = true →
    Reach (system cfg objectHash) .start c → c.procs = [] →
    ∀ key, c.world.state.Awaits key → ∃ m ∈ c.world.state.confirmQueue, m.2.names = some key := by
  intro hall
  have hreach := Run.of_play (Option.some_get (x := strandedRun) rfl).symm
  have hwaits : (strandedRun.get rfl).world.state.Awaits
      (.log .postgres .priv (List.replicate 36 0x61)) := by
    show ∃ r ∈ ((strandedRun.get rfl).world.state.dbs .postgres).logs (.anchored .priv), _
    decide
  obtain ⟨m, hm, -⟩ := hall connectedConfig _ _ rfl hreach rfl _ hwaits
  cases hm

end HybridLog
