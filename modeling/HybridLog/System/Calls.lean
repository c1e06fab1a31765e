import HybridLog.Async.Dues
import HybridLog.Async.Schedule
import HybridLog.System.Accept
import HybridLog.System.Redelivery

/-!
# One answer for every call

A client waits for the response to its request and the broker for the acknowledgement of a message it
has delivered. The program that is started for a call owes that answer from the beginning, and no
path through it gives the answer twice or ends without it.
-/

namespace HybridLog

open Js Async

/-- Somebody who waits for an answer of the server. -/
inductive Caller
  /-- Whose request has been given this id. -/
  | client (id : JsString)
  /-- The broker, for a message of a submit queue or of a confirm queue. -/
  | submit (seq : ℕ)
  | confirm (seq : ℕ)
deriving DecidableEq

/-- Whom a program has to answer. -/
def Tag.callers : Tag → Multiset Caller
  | .post _ entry => {.client entry.id}
  | .flush .. => 0
  | .submit seq _ => {.submit seq}
  | .confirm seq _ => {.confirm seq}

/-- Whom a request of a program answers. -/
def Req.answers (t : Tag) : Req → Multiset Caller
  | .respond _ | .ack | .nack => t.callers
  | _ => 0

def Delivery.callers : Delivery → Multiset Caller
  | .server (.post _ id _) => {.client id}
  | .server (.deliverSubmit seq _) => {.submit seq}
  | .server (.deliverConfirm seq _) => {.confirm seq}
  | _ => 0

def answerTariff : Tariff Req Req.Answer Tag Delivery Caller where
  allowed _ := True
  gain _ _ _ := 0
  cost t e _ := e.answers t
  left := ⊥

/-! ### Programs -/

lemma Req.OfStorage.answers {t : Tag} {e : Req} (h : e.OfStorage) : answerTariff.Free t e := by
  intro r
  cases e with
  | respond reply | ack | nack => exact h.elim
  | _ => exact ⟨rfl, rfl⟩

/-- The guard of programs that answer nobody. -/
def Unanswering : Guard Req Req.Answer Tag Delivery := fun t e _ => answerTariff.Free t e

lemma FlushStep.unanswering {cfg : ServerConfig} {key : WriterKey} {batch : List PendingEntry}
    {t : Tag} {e : Req} {tr : RedeliveryTrace} (h : FlushStep cfg key batch t e tr) :
    Unanswering t e tr := by
  cases h with
  | batch _ h => exact h.ofStorage.answers
  | log _ _ _ h => exact h.ofStorage.answers
  | settle _ | reject | now | handOver _ _ _ _ => exact fun _ => ⟨rfl, rfl⟩

section Programs

variable {t : Tag} {tr : RedeliveryTrace}

lemma unanswering_request {α : Type} {e : Req} (k : e.Answer → Except JsError α)
    (he : e.answers t = 0) :
    FollowsTask Unanswering t (fun _ _ => True) (fun _ _ => True) (Task.request e k) tr := by
  apply FollowsTask.request
  · exact fun _ _ _ => ⟨rfl, he⟩
  · intro r _ _ _
    cases k r <;> trivial

/-- A task that answers nobody keeps its debt. -/
lemma pays_of_unanswering {α : Type} {p : Io α}
    (h : FollowsTask Unanswering t (fun _ _ => True) (fun _ _ => True) p tr)
    (m : Multiset Caller) :
    PaysTask answerTariff t (fun _ m' => m' = m) (fun _ m' => m' = m) p m := by
  apply PaysTask.weaken (PaysTask.of_free h (fun _ _ he => he) m)
  · exact fun _ _ h => h.2
  · exact fun _ _ h => h.2

lemma respond_pays {Er : JsError → Multiset Caller → Prop} (reply : Reply) :
    PaysTask answerTariff t (fun _ m' => m' = 0) Er (respond reply) t.callers :=
  PaysTask.request fun _ _ => ⟨0, rfl, rfl⟩

lemma ack_pays {Er : JsError → Multiset Caller → Prop} :
    PaysTask answerTariff t (fun _ m' => m' = 0) Er ack t.callers :=
  PaysTask.request fun _ _ => ⟨0, rfl, rfl⟩

lemma publishConfirm_unanswering (msg : ConfirmMessage) :
    FollowsTask Unanswering t (fun _ _ => True) (fun _ _ => True) (publishConfirm msg) tr := by
  simp only [publishConfirm]
  split
  · exact unanswering_request _ rfl
  · exact FollowsTask.throw fun _ _ => trivial

lemma publishLog_unanswering (entry : LogEntry) (mode : StorageMode) (db : Db) :
    FollowsTask Unanswering t (fun _ _ => True) (fun _ _ => True) (publishLog entry mode db) tr := by
  cases mode with
  | other name => exact FollowsTask.throw fun _ _ => trivial
  | strategy s =>
    simp only [publishLog]
    split
    · exact FollowsTask.throw fun _ _ => trivial
    · exact FollowsTask.throw fun _ _ => trivial
    · apply FollowsTask.bind
      apply FollowsTask.weaken (unanswering_request _ rfl)
      · exact fun _ _ _ _ => unanswering_request _ rfl
      · exact fun _ _ _ h => h

variable (cfg : ServerConfig)

lemma batchWrite_unanswering (key : WriterKey) (entry : LogEntry) :
    FollowsTask Unanswering t (fun _ _ => True) (fun _ _ => True) (batchWrite cfg key entry) tr := by
  apply FollowsTask.bind
  apply FollowsTask.weaken (unanswering_request _ rfl)
  · rintro ⟨promise, batch⟩ tr₁ _ _
    dsimp only
    split
    · exact unanswering_request _ rfl
    · apply FollowsTask.bind
      apply FollowsTask.spawn
      · apply Follows.detach
        exact Follows.allow (flushBatch_follows cfg key batch t tr₁) fun _ _ _ h => h.unanswering
      · exact fun _ _ => unanswering_request _ rfl
  · exact fun _ _ _ h => h

lemma syncWrite_unanswering (storage : Option Storage) (entry : LogEntry) :
    FollowsTask Unanswering t (fun _ _ => True) (fun _ _ => True) (syncWrite cfg storage entry)
      tr := by
  unfold syncWrite
  split
  · exact FollowsTask.throw fun _ _ => trivial
  next st =>
  apply FollowsTask.weaken (FollowsTask.allow (st.writeLog_follows cfg none entry t tr)
    fun _ _ _ h => h.ofStorage.answers)
  · exact fun _ _ _ _ => trivial
  · exact fun _ _ _ _ => trivial

/-- A request is answered once, on every path. -/
theorem postLog_pays (req : PostRequest) (entry : LogEntry) :
    PaysTask answerTariff t (fun _ m' => m' = 0) (fun _ _ => False) (postLog cfg req entry)
      t.callers := by
  have hwrite {α : Type} {p : Io α} {reply : α → Reply}
      (h : FollowsTask Unanswering t (fun _ _ => True) (fun _ _ => True) p []) :
      PaysTask answerTariff t (fun _ m' => m' = 0)
        (fun err m' => PaysTask answerTariff t (fun _ m' => m' = 0) (fun _ _ => False)
          (respond (.error err)) m')
        (do
          let a ← p
          respond (reply a)) t.callers := by
    apply PaysTask.bind
    apply PaysTask.weaken (pays_of_unanswering h t.callers)
    · rintro a _ rfl
      exact respond_pays _
    · rintro err _ rfl
      exact respond_pays _
  apply PaysTask.tryCatch
  split
  · exact respond_pays _
  split
  · next mode _ => exact hwrite (publishLog_unanswering entry mode req.db)
  split
  · exact hwrite (batchWrite_unanswering cfg req.writerKey entry)
  · exact hwrite (syncWrite_unanswering cfg (pickStorage cfg req.storageMode req.db) entry)

lemma replyIfAsked_unanswering (replyTo : Option JsString) (msg : ResultMessage) :
    FollowsTask Unanswering t (fun _ _ => True) (fun _ _ => False) (replyIfAsked replyTo msg) tr := by
  rw [replyIfAsked]
  cases replyQueue replyTo with
  | none => exact FollowsTask.pure fun _ _ => trivial
  | some queue =>
    apply FollowsTask.tryCatch
    apply FollowsTask.weaken (unanswering_request _ rfl)
    · exact fun _ _ _ _ => trivial
    · exact fun _ _ _ _ => FollowsTask.pure fun _ _ => trivial

/-- A handler that drops its exceptions acknowledges its message once. -/
lemma consume_answers {p : Io Unit}
    (h : FollowsTask Unanswering t (fun _ _ => True) (fun _ _ => False) p []) :
    Pays answerTariff t (fun _ m' => m' = 0) (consume (Task.finallyDo p ack)).run.detach
      t.callers := by
  apply PaysTask.detach
  apply PaysTask.tryCatch
  apply PaysTask.finallyDo
  apply PaysTask.weaken (PaysTask.of_free h (fun _ _ he => he) t.callers)
  · rintro _ _ ⟨-, rfl⟩
    exact ack_pays
  · rintro _ _ ⟨⟨_, h⟩, -⟩
    exact h.elim

theorem submitHandler_answers (strategy : LogStrategy) (raw : SubmitMessage) :
    Pays answerTariff t (fun _ m' => m' = 0)
      (consume (submitHandler cfg strategy raw)).run.detach t.callers := by
  apply consume_answers
  apply FollowsTask.tryCatch
  apply FollowsTask.bind
  apply FollowsTask.weaken (FollowsTask.allow
    (submitWrite_follows cfg (pickStorage cfg (some (.strategy strategy)) raw.db) raw.body t [])
    fun _ _ _ h => h.ofStorage.answers)
  · rintro ⟨txId, confirmed, logId⟩ tr _ _
    cases txId with
    | none => exact (replyIfAsked_unanswering _ _).weaken (fun _ _ _ h => h) fun _ _ _ h => h.elim
    | some txHash => cases confirmed with
      | true =>
        exact (replyIfAsked_unanswering _ _).weaken (fun _ _ _ h => h) fun _ _ _ h => h.elim
      | false =>
        exact (publishConfirm_unanswering _).weaken (fun _ _ _ h => h)
          fun _ _ _ _ => replyIfAsked_unanswering _ _
  · exact fun _ _ _ _ => replyIfAsked_unanswering _ _

theorem confirmHandler_answers (strategy : LogStrategy) (raw : ConfirmMessage) :
    Pays answerTariff t (fun _ m' => m' = 0)
      (consume (confirmHandler cfg strategy raw)).run.detach t.callers := by
  apply consume_answers
  apply FollowsTask.tryCatch
  apply FollowsTask.bind
  apply FollowsTask.weaken (FollowsTask.allow
    (pollFrom_follows cfg raw.txHash t raw.chain 60 0 ⟨false, true⟩ [] rfl nofun)
    fun _ _ _ h => (Req.OfStorage.of_looks h).answers)
  · intro r tr₁ _ hpolled
    apply FollowsTask.bind
    apply FollowsTask.weaken (FollowsTask.allow (confirmUpdate_follows cfg strategy raw t tr₁ hpolled)
      fun _ _ _ h => h.ofStorage.answers)
    · exact fun _ _ _ _ => (replyIfAsked_unanswering _ _).weaken (fun _ _ _ h => h)
        fun _ _ _ h => h.elim
    · exact fun _ _ _ _ => replyIfAsked_unanswering _ _
  · exact fun _ _ _ _ => replyIfAsked_unanswering _ _

end Programs

/-! ### Runs -/

/-- Who has been given a call to wait for, and who has been answered. -/
def called (tr : RedeliveryTrace) : Multiset Caller :=
  (tr.map (answerTariff.charged Delivery.callers)).sum

def answered (tr : RedeliveryTrace) : Multiset Caller := (tr.map answerTariff.paid).sum

@[simp] lemma called_append (tr : RedeliveryTrace) (ev : Event Req Req.Answer Tag Delivery) :
    called (tr ++ [ev]) = called tr + answerTariff.charged Delivery.callers ev := by
  simp [called]

@[simp] lemma charged_call (t : Tag) (e : Req) (r : e.Answer) :
    answerTariff.charged Delivery.callers (.call t e r) = 0 := rfl

@[simp] lemma charged_ext (x : Delivery) :
    answerTariff.charged Delivery.callers (.ext x) = x.callers := rfl

variable {cfg : ServerConfig} {objectHash : ObjectHash}

/-- A program owes what it is started for. -/
lemma Arrival.pays {s s' : State} {x : External} {ps : List (Tag × Prog Req Req.Answer Unit)}
    (h : Arrival cfg s x s' ps) :
    PoolPays answerTariff ps (Delivery.server x).callers := by
  cases h with
  | post _ _ _ =>
    apply PoolPays.single
    apply PaysTask.detach
    apply PaysTask.weaken (postLog_pays cfg _ _)
    · exact fun _ _ h => h
    · exact fun _ _ h => h.elim
  | flush _ _ =>
    apply PoolPays.single
    apply PaysTask.detach
    apply PaysTask.weaken (PaysTask.of_free (flushBatch_follows cfg _ _ _ [])
      (fun _ _ h => h.unanswering) 0)
    · exact fun _ _ h => h.2
    · exact fun _ _ h => h.2
  | deliverSubmit _ => exact .single (submitHandler_answers cfg _ _)
  | deliverConfirm _ => exact .single (confirmHandler_answers cfg _ _)
  | enqueue _ | expire _ _ | chain => exact .nil

/-- A program that still owes an answer owes it to its own caller. -/
lemma mem_callers {t : Tag} {p : Prog Req Req.Answer Unit} {m : Multiset Caller}
    (h : Pays answerTariff t (fun _ m' => m' ∈ answerTariff.left) p m) {k : Caller} (hk : k ∈ m) :
    k ∈ t.callers := by
  rcases h.mem (fun e => ⟨decidedAnswer .included e, trivial⟩) hk with ⟨_, m', hm, hk⟩ | ⟨e, r, hk⟩
  · rw [AddSubmonoid.mem_bot.mp hm] at hk
    cases hk
  · cases e with
    | respond reply | ack | nack => exact hk
    | _ => cases hk

/-- What is started for a call gives one answer on every path. -/
lemma started_pays {x : Delivery} {s s' : State} {ps : List (Tag × Prog Req Req.Answer Unit)}
    (hx : (atLeastOnce cfg objectHash).accept x s = some (s', ps)) :
    PoolPays answerTariff ps x.callers := by
  rcases atLeastOnce_accept cfg objectHash hx with ⟨y, rfl, hy⟩ | ⟨seq, msg, rfl, -, rfl⟩
  · exact (State.accept_eq_some hy).pays
  · exact .nil

/-- Who has called has been answered, or a running program answers on every path. -/
theorem calls_balanced {c : RedeliveryConfig} (h : Reach (atLeastOnce cfg objectHash) .start c) :
    ∃ dues, PoolPays answerTariff c.procs dues ∧
      called c.world.trace = answered c.world.trace + dues := by
  obtain ⟨dues, left, hpool, hleft, hsum⟩ :=
    Reach.balanced (L := answerTariff) (fun _ _ _ _ => started_pays) h fun _ _ => trivial
  rw [AddSubmonoid.mem_bot.mp hleft, add_zero] at hsum
  exact ⟨dues, hpool, hsum⟩

lemma exists_caller {ps : List (Tag × Prog Req Req.Answer Unit)} {dues : Multiset Caller}
    (h : PoolPays answerTariff ps dues) {k : Caller} (hk : k ∈ dues) :
    ∃ p ∈ ps, k ∈ p.1.callers := by
  induction h with
  | nil => cases hk
  | cons hp _ ih =>
    rcases Multiset.mem_add.mp hk with hk | hk
    · exact ⟨_, List.mem_cons_self .., mem_callers hp hk⟩
    · obtain ⟨p, hmem, hk⟩ := ih hk
      exact ⟨p, List.mem_cons_of_mem _ hmem, hk⟩

/-- Nobody is answered more often than it has called, and as often once nothing runs for it. -/
theorem answers_of_calls {c : RedeliveryConfig} (h : Reach (atLeastOnce cfg objectHash) .start c)
    (k : Caller) : (answered c.world.trace).count k ≤ (called c.world.trace).count k ∧
      ((∀ p ∈ c.procs, k ∉ p.1.callers) →
        (answered c.world.trace).count k = (called c.world.trace).count k) := by
  obtain ⟨dues, hpool, hsum⟩ := calls_balanced h
  rw [hsum, Multiset.count_add]
  constructor
  · exact Nat.le_add_right _ _
  · intro hnone
    have hdues : dues.count k = 0 := by
      rw [Multiset.count_eq_zero]
      intro hk
      obtain ⟨p, hp, hk⟩ := exists_caller hpool hk
      exact hnone p hp hk
    rw [hdues, add_zero]

/-- The ids that have been given to requests. -/
structure Numbers (s : State) (tr : RedeliveryTrace) : Prop where
  count : ∀ id, (called tr).count (.client id) = s.usedIds.count id
  nodup : s.usedIds.Nodup

lemma Numbers.call {s s' : State} {tr : RedeliveryTrace} (h : Numbers s tr) {t : Tag} {e : Req}
    {r : e.Answer} (hs : s.apply t e r = some s') : Numbers s' (tr ++ [.call t e r]) := by
  have hids : s'.usedIds = s.usedIds := by
    rcases State.apply_eq_some hs with ⟨-, rfl⟩ | ⟨-, -, hs⟩
    · cases t <;> rfl
    · cases State.answer_effect hs <;> rfl
  constructor
  · simpa [hids] using h.count
  · rw [hids]
    exact h.nodup

lemma Numbers.server {s s' : State} {tr : RedeliveryTrace} (h : Numbers s tr) {x : External}
    {ps : List (Tag × Prog Req Req.Answer Unit)} (hs : Arrival cfg s x s' ps) :
    Numbers s' (tr ++ [.ext (.server x)]) := by
  cases hs with
  | @post req id timestamp hid _ _ =>
    constructor
    · intro id'
      rw [called_append, Multiset.count_add, h.count, charged_ext, List.count_cons]
      by_cases heq : id' = id
      · simp [Delivery.callers, heq]
      · simp [Delivery.callers, heq, Ne.symm heq]
    · exact List.nodup_cons.mpr ⟨hid, h.nodup⟩
  | enqueue _ | expire _ _ | flush _ _ | deliverSubmit _ | deliverConfirm _ | chain =>
    refine ⟨fun id => ?_, h.nodup⟩
    rw [called_append, Multiset.count_add, h.count]
    rfl

theorem numbers {c : RedeliveryConfig} (h : Reach (atLeastOnce cfg objectHash) .start c) :
    Numbers c.world.state c.world.trace := by
  induction h with
  | refl => exact ⟨fun _ => rfl, List.nodup_nil⟩
  | tail _ hstep ih =>
    cases hstep with
    | call hs => exact ih.call hs
    | fork | left | right | done => exact ih
    | ext hs =>
      rcases atLeastOnce_accept cfg objectHash hs with ⟨y, rfl, hy⟩ | ⟨seq, msg, rfl, hr, rfl⟩
      · exact ih.server (State.accept_eq_some hy)
      · obtain ⟨-, rfl⟩ := requeue_eq_some hr
        exact ⟨by simpa [Delivery.callers] using ih.count, ih.nodup⟩

lemma count_posted {c : RedeliveryConfig} (h : Reach (atLeastOnce cfg objectHash) .start c)
    {req : PostRequest} {id : JsString} {timestamp : JsDate}
    (hx : .ext (.server (.post req id timestamp)) ∈ c.world.trace) :
    (called c.world.trace).count (.client id) = 1 := by
  apply le_antisymm
  · rw [(numbers h).count]
    exact List.nodup_iff_count_le_one.mp (numbers h).nodup id
  · obtain ⟨pre, post, heq⟩ := List.append_of_mem hx
    rw [Nat.succ_le_iff, Multiset.count_pos, heq]
    simp [called, Delivery.callers]

/-- The program of a request or a delivery gives one answer on every path, so what has been answered
and what running programs have yet to answer is what has been called. Every request gets at most one
response, and it has got one when its program has ended; and every delivery of a message is
acknowledged at most once, and is acknowledged when its handler has ended. -/
theorem one_answer_each {c : RedeliveryConfig} (h : Reach (atLeastOnce cfg objectHash) .start c) :
    (∀ x s s' ps, (atLeastOnce cfg objectHash).accept x s = some (s', ps) →
      PoolPays answerTariff ps x.callers) ∧
    (∃ dues, PoolPays answerTariff c.procs dues ∧
      called c.world.trace = answered c.world.trace + dues) ∧
    (∀ req id timestamp, .ext (.server (.post req id timestamp)) ∈ c.world.trace →
      (answered c.world.trace).count (.client id) ≤ 1 ∧
        ((∀ p ∈ c.procs, .client id ∉ p.1.callers) →
          (answered c.world.trace).count (.client id) = 1)) ∧
      ∀ k, (answered c.world.trace).count k ≤ (called c.world.trace).count k ∧
        ((∀ p ∈ c.procs, k ∉ p.1.callers) →
          (answered c.world.trace).count k = (called c.world.trace).count k) := by
  refine ⟨fun _ _ _ _ => started_pays, calls_balanced h, ?_, ?_⟩
  · intro req id timestamp hx
    rw [← count_posted h hx]
    exact answers_of_calls h (.client id)
  · exact answers_of_calls h

/-- A request for the database only, to try statements on. -/
def plainRequest : PostRequest where
  level := infoLevel
  source := []
  message := ofString "hello"
  metadata := none
  storageMode := none
  writeMode := .sync
  db := .postgres

/-- The request is responded to after its row has been inserted. -/
def answeredRun : Option RedeliveryConfig :=
  (Config.start State.start).play (atLeastOnce connectedConfig fun _ => [])
    (.ext (.server (.post plainRequest (List.replicate 36 0x61) .epoch)) ::
      List.replicate 3 (.act 0 State.prompt))

theorem answeredRun_answered : ∃ h : answeredRun.isSome,
    (answered (answeredRun.get h).world.trace).count (.client (List.replicate 36 0x61)) = 1 := by
  refine ⟨rfl, ?_⟩
  have hreach := Run.of_play (Option.some_get (x := answeredRun) rfl).symm
  have hprocs : (answeredRun.get rfl).procs = [] := rfl
  refine ((one_answer_each hreach).2.2.1 plainRequest _ .epoch (.head _)).2 ?_
  rw [hprocs]
  simp

end HybridLog
