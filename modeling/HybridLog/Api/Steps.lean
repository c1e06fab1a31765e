import HybridLog.Api.Server
import HybridLog.Queue.Steps

/-!
# What `POST /log` and the batch writers do
-/

namespace HybridLog

open Js Async

variable {T X : Type} (cfg : ServerConfig)

/-! ### Flushes -/

section Flush

variable (key : WriterKey) (pending : List PendingEntry)

/-- The message with which a flush hands a transaction over. -/
def flushMessage (s : LogStrategy) (result : BatchWriteResult) (txHash : TxHash)
    (enqueuedAt : ℕ) : ConfirmMessage where
  logId := result.batchHash
  txHash := txHash
  strategy := s
  chain := s.chainFor
  db := key.db
  dbTable := if s.isBatch then s.batchedTableFor else s.anchoredTableFor
  batchesTable := if s.isBatch then some s.batchesTableFor else none
  correlationId := result.batchHash
  replyTo := none
  enqueuedAt := enqueuedAt

/-- The write of a batch has ended with `result`. -/
inductive FlushResult (t : T) (tr : Trace Req Req.Answer T X) : Answer → Prop
  | batch {st : Storage} {r : BatchWriteResult} (hst : key.storage cfg = some st)
    (h : Storage.BatchResult cfg key.opts (pending.map PendingEntry.entry) t tr st r) :
    FlushResult t tr (.batch r)
  | logs {st : Storage} {rs : List WriteResult} (hst : key.storage cfg = some st)
    (hb : st.writeBatch? cfg = none)
    (h : List.Forall₂ (fun p r => Storage.LogResult cfg key.opts p.entry t tr st r) pending rs) :
    FlushResult t tr (.logs rs)

/-- The requests of a flush. -/
inductive FlushStep (t : T) : Req → Trace Req Req.Answer T X → Prop
  | batch {st : Storage} {e : Req} {tr : Trace Req Req.Answer T X} (hst : key.storage cfg = some st)
    (h : Storage.BatchStep cfg key.opts (pending.map PendingEntry.entry) t st e tr) :
    FlushStep t e tr
  | log {st : Storage} {p : PendingEntry} {e : Req} {tr : Trace Req Req.Answer T X}
    (hst : key.storage cfg = some st) (hb : st.writeBatch? cfg = none) (hp : p ∈ pending)
    (h : Storage.LogStep cfg key.opts p.entry t st e tr) : FlushStep t e tr
  | settle {a : Answer} {tr : Trace Req Req.Answer T X} (h : FlushResult cfg key pending t tr a) :
    FlushStep t (.settle (settlements pending (.ok a))) tr
  | reject {err : JsError} {tr : Trace Req Req.Answer T X} :
    FlushStep t (.settle (settlements pending (.error err))) tr
  | now {tr : Trace Req Req.Answer T X} : FlushStep t .now tr
  | handOver {s : LogStrategy} {r : BatchWriteResult} {txHash : TxHash} {enqueuedAt : ℕ}
    {tr : Trace Req Req.Answer T X} (hs : key.strategy = .strategy s)
    (h : FlushResult cfg key pending t tr (.batch r)) (htx : r.txId = some txHash)
    (hc : r.confirmed ≠ some true) :
    FlushStep t (.publishConfirm (flushMessage key s r txHash enqueuedAt)) tr

variable {cfg key pending} {t : T} {tr tr' : Trace Req Req.Answer T X}

lemma FlushResult.later {a : Answer} (h : FlushResult cfg key pending t tr a) (htr : tr <+: tr') :
    FlushResult cfg key pending t tr' a := by
  cases h with
  | batch hst h => exact .batch hst (h.later htr)
  | logs hst hb h => exact .logs hst hb (h.imp fun _ _ hr => hr.later htr)

variable (cfg key pending t tr)

/-- A task that only asks for the time and publishes what `handOver` says. -/
lemma onFlush_follows {r : BatchWriteResult} (h : FlushResult cfg key pending t tr (.batch r)) :
    FollowsTask (fun t e tr => FlushStep cfg key pending t e tr) t (fun _ _ => True)
      (fun _ _ => True) (onFlush key r) tr := by
  rw [onFlush]
  split
  · exact FollowsTask.pure fun _ _ => trivial
  next txHash htx =>
  split
  · exact FollowsTask.pure fun _ _ => trivial
  next hc =>
  split
  · exact FollowsTask.throw fun _ _ => trivial
  next s hs =>
  apply FollowsTask.bind
  apply FollowsTask.request
  · exact fun _ _ => .now
  intro enqueuedAt tr₁ htr₁ _
  simp only [publishConfirm]
  split
  · apply FollowsTask.request
    · exact fun _ htr => .handOver hs (h.later (htr₁.trans htr)) htx hc
    intro u tr₂ _ _
    cases u with
    | ok u => trivial
    | error err => trivial
  · exact FollowsTask.throw fun _ _ => trivial

lemma flushBatch_follows :
    FollowsTask (fun t e tr => FlushStep cfg key pending t e tr) t (fun _ _ => True)
      (fun _ _ => False) (flushBatch cfg key pending) tr := by
  have hreject (err : JsError) (tr : Trace Req Req.Answer T X) :
      FollowsTask (fun t e tr => FlushStep cfg key pending t e tr) t (fun _ _ => True)
        (fun _ _ => False) (settlePromises (settlements pending (.error err))) tr :=
    FollowsTask.request (fun _ _ => .reject) fun _ _ _ _ => trivial
  have hsettle {Er : JsError → Trace Req Req.Answer T X → Prop} {a : Answer}
      {tr : Trace Req Req.Answer T X} (h : FlushResult cfg key pending t tr a) :
      FollowsTask (fun t e tr => FlushStep cfg key pending t e tr) t
        (fun _ tr' => FlushResult cfg key pending t tr' a) Er
        (settlePromises (settlements pending (.ok a))) tr :=
    FollowsTask.request (fun _ htr => .settle (h.later htr)) fun _ _ htr _ => h.later htr
  apply FollowsTask.tryCatch
  split
  · exact FollowsTask.throw fun _ _ => hreject _ _
  next st hst =>
  split
  · next write hwrite =>
    apply FollowsTask.bind
    apply FollowsTask.weaken (FollowsTask.allow
      (Storage.writeBatch_follows cfg key.opts (pending.map PendingEntry.entry) t tr hwrite) _)
    · intro r tr₁ _ h
      apply FollowsTask.bind
      apply FollowsTask.weaken (hsettle (.batch hst h))
      · intro _ tr₂ _ h
        split
        · apply FollowsTask.weaken (onFlush_follows cfg key pending t tr₂ h)
          · exact fun _ _ _ _ => trivial
          · exact fun _ _ _ _ => hreject _ _
        · exact FollowsTask.pure fun _ _ => trivial
      · exact fun _ _ _ h => h
    · exact fun _ _ _ h => h.elim
    · exact fun _ _ _ h => .batch hst h
  · next hwrite =>
    have hall : FollowsTask (fun t e tr => FlushStep cfg key pending t e tr) t
        (fun rs tr' => List.Forall₂
          (fun p r => Storage.LogResult cfg key.opts p.entry t tr' st r) pending rs)
        (fun _ _ => ∃ p ∈ pending, False)
        (promiseAll (pending.map fun p => st.writeLog cfg p.entry key.opts)) tr := by
      refine @FollowsTask.promiseAll _ _ _ _ _ _ _ _ _
        (fun (p : PendingEntry) r tr => Storage.LogResult cfg key.opts p.entry t tr st r)
        (fun _ _ _ => False) _ tr
        (fun p _ _ _ htr h => Storage.LogResult.later h htr) (fun _ _ _ _ _ h => h) pending
        fun p hp => ?_
      apply FollowsTask.allow (st.writeLog_follows cfg key.opts p.entry t tr)
      exact fun _ _ _ h => .log hst hwrite hp h
    apply FollowsTask.bind
    apply FollowsTask.weaken hall
    · intro rs tr₁ _ h
      apply FollowsTask.weaken (hsettle (.logs hst hwrite h))
      · exact fun _ _ _ _ => trivial
      · exact fun _ _ _ h => h
    · rintro err tr₁ - ⟨p, -, h⟩
      exact h.elim

end Flush

/-! ### `POST /log` -/

section Post

variable (req : PostRequest) (entry : LogEntry)

/-- How a request is answered. -/
inductive Replied (t : T) (tr : Trace Req Req.Answer T X) : Reply → Prop
  | unavailable : Replied t tr .unavailable
  | queued {s : LogStrategy} {enqueuedAt : ℕ}
    (h : Did t (.publishSubmit ⟨.entry (toDTO entry), s, req.db, entry.id, none, enqueuedAt⟩)
      (Except.ok ()) tr) : Replied t tr .queued
  | batch {promise : ℕ} {batch : List PendingEntry} {r : WriteResult}
    (hm : req.writeMode = .batch)
    (hb : Did t (.buffer req.writerKey entry) (promise, batch) tr)
    (ha : Did t (.await promise) (.resolved r) tr) : Replied t tr (.result (isPendingChain r) r)
  | sync {st : Storage} {r : WriteResult} (hm : req.queuedMode? cfg = none)
    (hm' : req.writeMode ≠ .batch) (hst : pickStorage cfg req.storageMode req.db = some st)
    (h : Storage.LogResult cfg none entry t tr st r) : Replied t tr (.result false r)
  | error {err : JsError} : Replied t tr (.error err)

/-- The requests of `POST /log`. -/
inductive PostStep (t : T) : Req → Trace Req Req.Answer T X → Prop
  | now {tr : Trace Req Req.Answer T X} : PostStep t .now tr
  | enqueue {s : LogStrategy} {enqueuedAt : ℕ} {tr : Trace Req Req.Answer T X}
    (h : req.queuedMode? cfg = some (.strategy s)) (hs : s ≠ .databaseOnly) :
    PostStep t (.publishSubmit ⟨.entry (toDTO entry), s, req.db, entry.id, none, enqueuedAt⟩) tr
  | buffer {tr : Trace Req Req.Answer T X} (hm : req.writeMode = .batch) :
    PostStep t (.buffer req.writerKey entry) tr
  | flush {promise : ℕ} {batch : List PendingEntry} {e : Req} {tr : Trace Req Req.Answer T X}
    (hm : req.writeMode = .batch) (hb : Did t (.buffer req.writerKey entry) (promise, batch) tr)
    (hne : batch ≠ []) (h : FlushStep cfg req.writerKey batch t e tr) : PostStep t e tr
  | await {promise : ℕ} {batch : List PendingEntry} {tr : Trace Req Req.Answer T X}
    (hb : Did t (.buffer req.writerKey entry) (promise, batch) tr) : PostStep t (.await promise) tr
  | write {st : Storage} {e : Req} {tr : Trace Req Req.Answer T X}
    (hm : req.queuedMode? cfg = none) (hm' : req.writeMode ≠ .batch)
    (hst : pickStorage cfg req.storageMode req.db = some st)
    (h : Storage.LogStep cfg none entry t st e tr) : PostStep t e tr
  | respond {reply : Reply} {tr : Trace Req Req.Answer T X}
    (h : Replied cfg req entry t tr reply) : PostStep t (.respond reply) tr

variable {cfg req entry} {t : T} {tr tr' : Trace Req Req.Answer T X}

lemma Replied.later {reply : Reply} (h : Replied cfg req entry t tr reply) (htr : tr <+: tr') :
    Replied cfg req entry t tr' reply := by
  cases h with
  | unavailable => exact .unavailable
  | queued h => exact .queued (h.later htr)
  | batch hm hb ha => exact .batch hm (hb.later htr) (ha.later htr)
  | sync hm hm' hst h => exact .sync hm hm' hst (h.later htr)
  | error => exact .error

variable (cfg req entry t tr)

lemma batchWrite_follows (hm : req.writeMode = .batch) :
    FollowsTask (fun t e tr => PostStep cfg req entry t e tr) t
      (fun r tr' => Replied cfg req entry t tr' (.result (isPendingChain r) r)) (fun _ _ => True)
      (batchWrite cfg req.writerKey entry) tr := by
  apply FollowsTask.bind
  apply FollowsTask.request
  · exact fun _ _ => .buffer hm
  rintro ⟨promise, batch⟩ tr₁ _ hb
  -- a rejected promise is a rejection of the writer
  have hresolved (tr₂ : Trace Req Req.Answer T X) (htr : tr₁ <+: tr₂) :
      ∀ o tr₃, tr₂ <+: tr₃ → Did t (.await promise) o tr₃ → ∀ r, o = .resolved r →
        Replied cfg req entry t tr₃ (.result (isPendingChain r) r) := by
    rintro _ tr₃ htr' ha r rfl
    exact .batch hm (hb.later (htr.trans htr')) ha
  dsimp only
  split
  · apply FollowsTask.request
    · exact fun _ htr => .await (hb.later htr)
    intro o tr₂ htr ha
    cases o with
    | resolved r => exact hresolved tr₁ List.prefix_rfl _ tr₂ htr ha r rfl
    | rejected err => trivial
  · next hne =>
    apply FollowsTask.bind
    apply FollowsTask.spawn
    · apply Follows.detach
      apply Follows.allow (flushBatch_follows cfg req.writerKey batch t tr₁)
      exact fun _ _ htr h => .flush hm (hb.later htr) hne h
    · intro tr₂ htr
      apply FollowsTask.request
      · exact fun _ htr' => .await (hb.later (htr.trans htr'))
      intro o tr₃ htr' ha
      cases o with
      | resolved r => exact hresolved tr₂ htr _ tr₃ htr' ha r rfl
      | rejected err => trivial

lemma postLog_follows :
    FollowsTask (fun t e tr => PostStep cfg req entry t e tr) t (fun _ _ => True)
      (fun _ _ => False) (postLog cfg req entry) tr := by
  have hrespond {Er : JsError → Trace Req Req.Answer T X → Prop} {reply : Reply}
      {tr : Trace Req Req.Answer T X} (h : Replied cfg req entry t tr reply) :
      FollowsTask (fun t e tr => PostStep cfg req entry t e tr) t (fun _ _ => True) Er
        (respond reply) tr :=
    FollowsTask.request (fun _ htr => .respond (h.later htr)) fun _ _ _ _ => trivial
  apply FollowsTask.tryCatch
  split
  · exact hrespond .unavailable
  split
  · next mode hmode =>
    apply FollowsTask.bind
    cases mode with
    | other name => exact FollowsTask.throw fun _ _ => hrespond .error
    | strategy s =>
      simp only [publishLog]
      split
      · next h => cases h
      · exact FollowsTask.throw fun _ _ => hrespond .error
      next s' hs heq =>
      cases heq
      apply FollowsTask.bind
      apply FollowsTask.request
      · exact fun _ _ => .now
      intro enqueuedAt tr₁ _ _
      apply FollowsTask.request
      · exact fun _ _ => .enqueue hmode hs
      intro u tr₂ _ hp
      cases u with
      | ok u => exact hrespond (.queued hp)
      | error err => exact hrespond .error
  next hmode =>
  split
  · next hm =>
    apply FollowsTask.bind
    apply FollowsTask.weaken (batchWrite_follows cfg req entry t tr hm)
    · exact fun _ _ _ h => hrespond h
    · exact fun _ _ _ _ => hrespond .error
  next hm =>
  apply FollowsTask.bind
  unfold syncWrite
  split
  · exact FollowsTask.throw fun _ _ => hrespond .error
  next st hst =>
  apply FollowsTask.weaken (FollowsTask.allow (st.writeLog_follows cfg none entry t tr) _)
  · exact fun _ _ _ h => hrespond (.sync hmode hm hst h)
  · exact fun _ _ _ h => h.elim
  · exact fun _ _ _ h => .write hmode hm hst h

end Post

end HybridLog
