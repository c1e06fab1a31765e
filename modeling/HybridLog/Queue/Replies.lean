import HybridLog.Async.Dues
import HybridLog.Async.Schedule
import HybridLog.System.Steps
import Mathlib.Tactic.Abel

/-!
# Exactly one reply

A message that asks for a reply charges its handler with one. The submit handler pays by replying or
by passing the charge on with a confirm message, whose handler pays by replying. So the replies
asked for are those in the queues, those that running handlers still have to send, and those sent.
-/

namespace HybridLog

open Js Async

/-- The reply a message asks for, by its correlation id. -/
def SubmitMessage.asked (msg : SubmitMessage) : Multiset JsString :=
  if (replyQueue msg.replyTo).isSome then {msg.correlationId} else 0

def ConfirmMessage.asked (msg : ConfirmMessage) : Multiset JsString :=
  if (replyQueue msg.replyTo).isSome then {msg.correlationId} else 0

/-- The reply sent by an answered request. -/
def Req.replies : (e : Req) → e.Answer → Multiset JsString
  | .publishReply _ msg, Except.ok () => {msg.correlationId}
  | _, _ => 0

/-- What an answered request pays: a reply, or a message that asks for one. -/
def Req.pays : (e : Req) → e.Answer → Multiset JsString
  | .publishReply _ msg, Except.ok () => {msg.correlationId}
  | .publishConfirm msg, Except.ok () => msg.asked
  | .publishSubmit msg, Except.ok () => msg.asked
  | _, _ => 0

/-- The publication of a reply that fails. -/
def Req.replyFails : (e : Req) → e.Answer → Bool
  | .publishReply _ _, Except.error _ => true
  | _, _ => false

/-- No publication of a reply fails. -/
def ReplyTaken : Event Req Req.Answer Tag External → Prop
  | .call _ e r => e.replyFails r = false
  | .ext _ => True

instance : DecidablePred ReplyTaken
  | .call _ e r => inferInstanceAs (Decidable (e.replyFails r = false))
  | .ext _ => inferInstanceAs (Decidable True)

def replyTariff : Tariff Req Req.Answer Tag External JsString where
  allowed := ReplyTaken
  gain _ _ _ := 0
  cost _ e r := e.pays r
  left := ⊥

@[simp] lemma replyTariff_gain (t : Tag) (e : Req) (r : e.Answer) : replyTariff.gain t e r = 0 := rfl

@[simp] lemma replyTariff_cost (t : Tag) (e : Req) (r : e.Answer) :
    replyTariff.cost t e r = e.pays r := rfl

/-- What a delivery charges the handler with. -/
def External.charges : External → Multiset JsString
  | .deliverSubmit _ msg => msg.asked
  | .deliverConfirm _ msg => msg.asked
  | _ => 0

/-! ### Handlers -/

/-- A storage has nothing to do with replies. -/
lemma Req.OfStorage.pays {e : Req} (h : e.OfStorage) (r : e.Answer) : e.pays r = 0 := by
  cases e with
  | publishReply _ _ | publishConfirm _ | publishSubmit _ => exact h.elim
  | _ => rfl

lemma Req.OfStorage.free {t : Tag} {e : Req} (h : e.OfStorage) : replyTariff.Free t e :=
  fun r => ⟨rfl, h.pays r⟩

section Handlers

variable {t : Tag} {Q : Unit → Multiset JsString → Prop}

lemma replyIfAsked_pays {Er : JsError → Multiset JsString → Prop} (replyTo : Option JsString)
    (msg : ResultMessage) :
    PaysTask replyTariff t (fun _ m' => m' = 0) Er (replyIfAsked replyTo msg)
      (if (replyQueue replyTo).isSome then {msg.correlationId} else 0) := by
  rw [replyIfAsked]
  cases replyQueue replyTo with
  | none => exact PaysTask.pure rfl
  | some queue =>
    apply PaysTask.tryCatch
    apply PaysTask.request
    intro r hr
    cases r with
    | ok u => exact ⟨0, rfl, rfl⟩
    | error err => cases hr

variable (cfg : ServerConfig)

lemma submitWrite_pays (storage : Option Storage) (body : SubmitBody) (m : Multiset JsString) :
    PaysTask replyTariff t (fun _ m' => m' = m) (fun _ m' => m' = m)
      (submitWrite cfg storage body) m := by
  apply PaysTask.weaken (PaysTask.of_free (submitWrite_follows cfg storage body t [])
    (fun _ _ h => h.ofStorage.free) m)
  · exact fun _ _ h => h.2
  · exact fun _ _ h => h.2

lemma submitHandler_pays (strategy : LogStrategy) (raw : SubmitMessage) :
    PaysTask replyTariff t (fun _ m' => m' = 0) (fun _ _ => False)
      (submitHandler cfg strategy raw) raw.asked := by
  refine PaysTask.finallyDo (PaysTask.weaken
    (?body : PaysTask replyTariff t (fun _ m' => m' = 0) (fun _ _ => False) _ _) ?_ ?_)
  case body =>
    apply PaysTask.tryCatch
    apply PaysTask.bind
    apply PaysTask.weaken (submitWrite_pays cfg (raw.storage cfg strategy) raw.body raw.asked)
    · rintro ⟨txId, confirmed, logId⟩ _ rfl
      cases txId with
      | none => exact replyIfAsked_pays _ _
      | some txHash => cases confirmed with
        | true => exact replyIfAsked_pays _ _
        | false =>
          simp only [publishConfirm]
          split
          · apply PaysTask.request
            intro r _
            cases r with
            | ok u => exact ⟨0, rfl, rfl⟩
            | error err => exact ⟨raw.asked, add_comm _ _, replyIfAsked_pays _ _⟩
          · exact PaysTask.throw (replyIfAsked_pays _ _)
    · rintro err _ rfl
      exact replyIfAsked_pays _ _
  · rintro _ _ rfl
    apply PaysTask.request
    exact fun _ _ => ⟨0, rfl, rfl⟩
  · exact fun _ _ h => h.elim

lemma confirmHandler_pays (strategy : LogStrategy) (raw : ConfirmMessage) :
    PaysTask replyTariff t (fun _ m' => m' = 0) (fun _ _ => False)
      (confirmHandler cfg strategy raw) raw.asked := by
  have hpoll : PaysTask replyTariff t
      (fun r m' => (∃ tr : ServerTrace, Polled cfg raw.txHash t tr raw.chain r) ∧ m' = raw.asked)
      (fun _ _ => False) (pollFrom cfg raw.chain raw.txHash ⟨false, true⟩ 60 0) raw.asked := by
    apply PaysTask.weaken (PaysTask.of_free
      (pollFrom_follows cfg raw.txHash t raw.chain 60 0 ⟨false, true⟩ [] rfl nofun)
      (fun _ _ h => (Req.OfStorage.of_looks h).free) raw.asked)
    · exact fun _ _ h => h
    · rintro _ _ ⟨⟨_, h⟩, _⟩
      exact h
  have hbody : PaysTask replyTariff t (fun _ m' => m' = 0) (fun _ _ => False)
      (tryCatch (do
        let r ← pollFrom cfg raw.chain raw.txHash ⟨false, true⟩ 60 0
        confirmUpdate cfg strategy raw r
        replyIfAsked raw.replyTo ⟨raw.correlationId, r.confirmed, some raw.txHash, none⟩)
        fun err => replyIfAsked raw.replyTo ⟨raw.correlationId, false, none, some err⟩)
      raw.asked := by
    apply PaysTask.tryCatch
    apply PaysTask.bind
    apply PaysTask.weaken hpoll
    · rintro r _ ⟨⟨tr, hp⟩, rfl⟩
      apply PaysTask.bind
      apply PaysTask.weaken (PaysTask.of_free (confirmUpdate_follows cfg strategy raw t tr hp)
        (fun _ _ h => h.ofStorage.free) raw.asked)
      · rintro _ _ ⟨-, rfl⟩
        exact replyIfAsked_pays _ _
      · rintro err _ ⟨-, rfl⟩
        exact replyIfAsked_pays _ _
    · exact fun _ _ h => h.elim
  apply PaysTask.finallyDo
  apply PaysTask.weaken hbody
  · rintro _ _ rfl
    apply PaysTask.request
    exact fun _ _ => ⟨0, rfl, rfl⟩
  · exact fun _ _ h => h.elim

end Handlers

/-! ### Requests and flushes -/

/-- A message a flush publishes asks for no reply. -/
lemma FlushStep.pays {cfg : ServerConfig} {key : WriterKey} {batch : List PendingEntry} {t : Tag}
    {e : Req} {tr : ServerTrace} (h : FlushStep cfg key batch t e tr) (r : e.Answer) :
    e.pays r = 0 := by
  cases h with
  | batch _ h => exact h.ofStorage.pays r
  | log _ _ _ h => exact h.ofStorage.pays r
  | settle _ | reject | now => rfl
  | handOver _ _ _ _ => cases r <;> rfl

lemma PostStep.pays {cfg : ServerConfig} {req : PostRequest} {entry : LogEntry} {t : Tag}
    {e : Req} {tr : ServerTrace} (h : PostStep cfg req entry t e tr) (r : e.Answer) :
    e.pays r = 0 := by
  cases h with
  | now | buffer _ | await _ | respond _ => rfl
  | enqueue _ _ => cases r <;> rfl
  | flush _ _ _ h => exact h.pays r
  | write _ _ _ h => exact h.ofStorage.pays r

variable {cfg : ServerConfig} {objectHash : ObjectHash}

lemma consume_pays {t : Tag} {p : Io Unit} {m : Multiset JsString}
    (h : PaysTask replyTariff t (fun _ m' => m' = 0) (fun _ _ => False) p m) :
    Pays replyTariff t (fun _ m' => m' = 0) (consume p).run.detach m := by
  apply PaysTask.detach
  apply PaysTask.tryCatch
  apply PaysTask.weaken h
  · exact fun _ _ h => h
  · exact fun _ _ h => h.elim

/-- A program is charged with the reply its message asks for. -/
lemma accept_pays {x : External} {s s' : State} {ps : List (Tag × Prog Req Req.Answer Unit)}
    (h : (system cfg objectHash).accept x s = some (s', ps)) :
    PoolPays replyTariff ps x.charges := by
  cases x with
  | post req id timestamp =>
    simp only [system, State.accept] at h
    split at h
    · cases h
      apply PoolPays.single
      apply PaysTask.detach
      apply PaysTask.weaken (PaysTask.of_free (postLog_follows cfg req _ _ [])
        (fun _ _ h r => ⟨rfl, h.pays r⟩) 0)
      · exact fun _ _ h => h.2
      · exact fun _ _ h => h.2
    · cases h
  | enqueue msg =>
    simp only [system, State.accept] at h
    split at h
    · cases h
      exact .nil
    · cases h
  | expire key batch =>
    simp only [system, State.accept] at h
    split at h
    · cases h
      split
      · exact .nil
      · apply PoolPays.single
        apply PaysTask.detach
        apply PaysTask.weaken (PaysTask.of_free (flushBatch_follows cfg key batch _ [])
          (fun _ _ h r => ⟨rfl, h.pays r⟩) 0)
        · exact fun _ _ h => h.2
        · exact fun _ _ h => h.2
    · cases h
  | deliverSubmit seq msg =>
    simp only [system, State.accept] at h
    split at h
    · cases h
      exact .single (consume_pays (submitHandler_pays cfg msg.strategy msg))
    · cases h
  | deliverConfirm seq msg =>
    simp only [system, State.accept] at h
    split at h
    · cases h
      exact .single (consume_pays (confirmHandler_pays cfg msg.strategy msg))
    · cases h
  | chain x =>
    obtain ⟨s₁, _, heq⟩ := Option.map_eq_some_iff.mp h
    cases heq
    exact .nil

/-! ### Messages in flight -/

/-- The replies asked for by the messages of the queues. -/
def State.asking (s : State) : Multiset JsString :=
  (s.submitQueue.map fun m => m.2.asked).sum + (s.confirmQueue.map fun m => m.2.asked).sum

/-- The replies asked for by what somebody else publishes. -/
def External.asks : External → Multiset JsString
  | .enqueue msg => msg.asked
  | _ => 0

/-- The reply an event asks for or sends. -/
def eventAsks : Event Req Req.Answer Tag External → Multiset JsString
  | .call .. => 0
  | .ext x => x.asks

def eventReplies : Event Req Req.Answer Tag External → Multiset JsString
  | .call _ e r => e.replies r
  | .ext _ => 0

lemma Effect.asking {s s' : State} {e : Req} {r : e.Answer} (h : Effect s e r s') :
    s'.asking + e.replies r = s.asking + e.pays r := by
  cases h with
  | @publishSubmit msg =>
    show ((s.submitQueue ++ [(s.messages, msg)]).map fun m => m.2.asked).sum + _ + 0 = _
    rw [List.map_append, List.sum_append, add_zero, add_right_comm]
    simp [State.asking, State.publishSubmit, Req.pays]
  | @publishConfirm msg =>
    show _ + ((s.confirmQueue ++ [(s.messages, msg)]).map fun m => m.2.asked).sum + 0 = _
    rw [List.map_append, List.sum_append, add_zero, ← add_assoc]
    simp [State.asking, State.publishConfirm, Req.pays]
  | idle h =>
    cases e with
    | publishReply _ _ => cases r <;> rfl
    | publishSubmit _ | publishConfirm _ =>
      cases r with
      | ok u => exact h.elim
      | error err => rfl
    | _ => rfl
  | _ => rfl

/-- What leaves a queue has been counted there. -/
lemma sum_erase {M : Type*} [BEq M] [LawfulBEq M] {l : List M} {m : M}
    (f : M → Multiset JsString) (h : m ∈ l) : ((l.erase m).map f).sum + f m = (l.map f).sum := by
  rw [((List.perm_cons_erase h).map f).sum_eq, List.map_cons, List.sum_cons, add_comm]

lemma asking_of_accept {x : External} {s s' : State}
    {ps : List (Tag × Prog Req Req.Answer Unit)}
    (h : (system cfg objectHash).accept x s = some (s', ps)) :
    s'.asking + x.charges = s.asking + x.asks := by
  cases x with
  | post req id timestamp =>
    simp only [system, State.accept] at h
    split at h
    · cases h
      rfl
    · cases h
  | enqueue msg =>
    simp only [system, State.accept] at h
    split at h
    · cases h
      exact Effect.asking (s := s) .publishSubmit
    · cases h
  | expire key batch =>
    simp only [system, State.accept] at h
    split at h
    · cases h
      rfl
    · cases h
  | deliverSubmit seq msg =>
    simp only [system, State.accept] at h
    split at h
    · next hmem =>
      cases h
      show ((s.submitQueue.erase (seq, msg)).map fun m => m.2.asked).sum + _ + msg.asked = _ + 0
      have hsum : ((s.submitQueue.erase (seq, msg)).map fun m => m.2.asked).sum + msg.asked =
          (s.submitQueue.map fun m => m.2.asked).sum := sum_erase _ hmem
      rw [add_right_comm, hsum, add_zero]
      rfl
    · cases h
  | deliverConfirm seq msg =>
    simp only [system, State.accept] at h
    split at h
    · next hmem =>
      cases h
      show _ + ((s.confirmQueue.erase (seq, msg)).map fun m => m.2.asked).sum + msg.asked = _ + 0
      have hsum : ((s.confirmQueue.erase (seq, msg)).map fun m => m.2.asked).sum + msg.asked =
          (s.confirmQueue.map fun m => m.2.asked).sum := sum_erase _ hmem
      rw [add_assoc, hsum, add_zero]
      rfl
    · cases h
  | chain x =>
    obtain ⟨s₁, hs, heq⟩ := Option.map_eq_some_iff.mp h
    cases heq
    cases x with
    | commit _ | nextBlock _ | mine _ _ =>
      obtain ⟨n, _, rfl⟩ := Option.map_eq_some_iff.mp hs
      rfl

/-! ### Runs -/

/-- The replies somebody else has asked for, and those sent. -/
def repliesAsked (tr : ServerTrace) : Multiset JsString := (tr.map eventAsks).sum

def repliesSent (tr : ServerTrace) : Multiset JsString := (tr.map eventReplies).sum

/-- A request pays by a reply or by a message that is put into a queue. -/
lemma asking_of_apply {t : Tag} {s s' : State} {e : Req} {r : e.Answer}
    (h : s.apply t e r = some s') : s'.asking + e.replies r = s.asking + e.pays r := by
  rcases State.apply_eq_some h with ⟨he, rfl⟩ | ⟨_, _, h⟩
  · have hdrop : (s.drop t).asking = s.asking := by cases t <;> rfl
    rw [hdrop]
    rcases he with rfl | rfl <;> rfl
  · exact (State.answer_effect h).asking

/-- What has been paid and what somebody else has asked for is in a queue, has been delivered or
has been sent. -/
lemma asking_balanced {c : Async.Config Req Req.Answer Tag External State}
    (h : Reach (system cfg objectHash) .start c) :
    c.world.state.asking + repliesSent c.world.trace +
        (c.world.trace.map (replyTariff.charged External.charges)).sum =
      (c.world.trace.map replyTariff.paid).sum + repliesAsked c.world.trace := by
  induction h with
  | refl => rfl
  | tail _ hstep ih =>
    cases hstep with
    | @call w l l' t e k r s hs =>
      have hasking := asking_of_apply hs
      simp only [repliesSent, repliesAsked, World.push_state, World.push_trace, List.map_append,
        List.sum_append, List.map_cons, List.map_nil, List.sum_singleton, eventReplies, eventAsks,
        Tariff.charged, Tariff.paid, replyTariff_gain, replyTariff_cost, add_zero] at ih ⊢
      calc s.asking + ((w.trace.map eventReplies).sum + e.replies r) +
              (w.trace.map (replyTariff.charged External.charges)).sum
          = s.asking + e.replies r + ((w.trace.map eventReplies).sum +
              (w.trace.map (replyTariff.charged External.charges)).sum) := by abel
        _ = w.state.asking + (w.trace.map eventReplies).sum +
              (w.trace.map (replyTariff.charged External.charges)).sum + e.pays r := by
            rw [hasking]
            abel
        _ = _ := by
            rw [ih]
            abel
    | fork => exact ih
    | left => exact ih
    | right => exact ih
    | done => exact ih
    | @ext w l x s ps hs =>
      have hasking := asking_of_accept hs
      simp only [repliesSent, repliesAsked, World.push_state, World.push_trace, List.map_append,
        List.sum_append, List.map_cons, List.map_nil, List.sum_singleton, eventReplies, eventAsks,
        Tariff.charged, Tariff.paid, add_zero] at ih ⊢
      calc s.asking + (w.trace.map eventReplies).sum +
              ((w.trace.map (replyTariff.charged External.charges)).sum + x.charges)
          = s.asking + x.charges + ((w.trace.map eventReplies).sum +
              (w.trace.map (replyTariff.charged External.charges)).sum) := by abel
        _ = w.state.asking + (w.trace.map eventReplies).sum +
              (w.trace.map (replyTariff.charged External.charges)).sum + x.asks := by
            rw [hasking]
            abel
        _ = _ := by rw [ih, add_assoc]

/-- Every reply asked for has been sent, or is asked for by a message in a queue, or is due from a
running handler. -/
theorem replies_balanced {c : Async.Config Req Req.Answer Tag External State}
    (h : Reach (system cfg objectHash) .start c) (htaken : ∀ ev ∈ c.world.trace, ReplyTaken ev) :
    ∃ dues, PoolPays replyTariff c.procs dues ∧
      repliesAsked c.world.trace = repliesSent c.world.trace + (c.world.state.asking + dues) := by
  obtain ⟨dues, left, hpool, hleft, hsum⟩ := Reach.balanced
    (fun _ _ _ _ hx => accept_pays hx) h htaken
  refine ⟨dues, hpool, ?_⟩
  have hasking := asking_balanced h
  rw [AddSubmonoid.mem_bot.mp hleft, add_zero] at hsum
  rw [hsum] at hasking
  apply add_left_cancel (a := (c.world.trace.map replyTariff.paid).sum)
  rw [← hasking]
  abel

/-- What somebody else has published to the submit queues. -/
def enqueued (tr : ServerTrace) : List SubmitMessage :=
  tr.filterMap fun
    | .ext (.enqueue msg) => some msg
    | _ => none

lemma repliesAsked_eq {tr : ServerTrace} (h : ∀ msg ∈ enqueued tr, (replyQueue msg.replyTo).isSome) :
    repliesAsked tr = ↑((enqueued tr).map SubmitMessage.correlationId) := by
  induction tr with
  | nil => rfl
  | cons ev tr ih =>
    have ih := ih fun msg hmsg => h msg (List.mem_filterMap.mpr (by
      obtain ⟨ev', hev', heq⟩ := List.mem_filterMap.mp hmsg
      exact ⟨ev', List.mem_cons_of_mem _ hev', heq⟩))
    rw [repliesAsked] at ih ⊢
    rw [List.map_cons, List.sum_cons, ih]
    cases ev with
    | call t e r => exact zero_add _
    | ext x => cases x with
      | enqueue msg =>
        have hmsg : (replyQueue msg.replyTo).isSome := h msg (by simp [enqueued])
        simp [eventAsks, External.asks, SubmitMessage.asked, hmsg, enqueued]
      | _ => exact zero_add _

/-- For every run in which somebody else publishes messages that ask for a reply, with correlation
ids of their own, and in which no publication of a reply fails: no reply is sent twice, and once
the queues are empty and nothing runs, exactly one has been sent for each message. -/
theorem one_reply_each {c : Async.Config Req Req.Answer Tag External State}
    (h : Reach (system cfg objectHash) .start c) (htaken : ∀ ev ∈ c.world.trace, ReplyTaken ev)
    (hasks : ∀ msg ∈ enqueued c.world.trace, (replyQueue msg.replyTo).isSome)
    (hids : ((enqueued c.world.trace).map SubmitMessage.correlationId).Nodup) :
    (∀ id, (repliesSent c.world.trace).count id ≤ 1) ∧
      (c.world.state.submitQueue = [] → c.world.state.confirmQueue = [] → c.procs = [] →
        (∀ msg ∈ enqueued c.world.trace,
          (repliesSent c.world.trace).count msg.correlationId = 1) ∧
        ∀ id ∈ repliesSent c.world.trace,
          ∃ msg ∈ enqueued c.world.trace, msg.correlationId = id) := by
  obtain ⟨dues, hpool, hasked⟩ := replies_balanced h htaken
  rw [repliesAsked_eq hasks] at hasked
  rw [← Multiset.coe_nodup] at hids
  constructor
  · intro id
    have hle : repliesSent c.world.trace ≤
        ↑((enqueued c.world.trace).map SubmitMessage.correlationId) := by
      rw [hasked]
      exact Multiset.le_add_right _ _
    exact (Multiset.count_le_of_le id hle).trans (Multiset.nodup_iff_count_le_one.mp hids id)
  · intro hsubmit hconfirm hprocs
    have hempty : c.world.state.asking = 0 := by
      rw [State.asking, hsubmit, hconfirm]
      rfl
    have hdues : dues = 0 := by
      rw [hprocs] at hpool
      cases hpool
      rfl
    rw [hempty, hdues, add_zero, add_zero] at hasked
    rw [← hasked]
    constructor
    · intro msg hmsg
      apply Multiset.count_eq_one_of_mem hids
      exact Multiset.mem_coe.mpr (List.mem_map_of_mem hmsg)
    · intro id hid
      exact List.mem_map.mp (Multiset.mem_coe.mp hid)

/-- A message with two entries. -/
def askingBatch : SubmitMessage :=
  { askingMessage with
    body := .entries [toDTO (.create [0x61] .epoch infoLevel [] (ofString "hello") none),
      toDTO (.create [0x62] .epoch infoLevel [] (ofString "hello") none)]
    correlationId := [0x64] }

/-- A node that takes no transactions. -/
def unreachable : (e : Req) → State → e.Answer
  | .submit _, _ => (Except.error "AxiosError: connect ECONNREFUSED" : Except JsError TxHash)
  | e, s => State.prompt e s

/-- The first message is handed over to the confirm queue, whose handler finds its transaction
committed. The transaction of the second is not taken. -/
def repliedRun : Option (Async.Config Req Req.Answer Tag External State) :=
  (Config.start State.start).play (system connectedConfig fun _ => [])
    ([.ext (.enqueue askingMessage), .ext (.enqueue askingBatch),
        .ext (.deliverSubmit 0 askingMessage)] ++
      List.replicate 5 (.act 0 State.prompt) ++
      [.ext (.chain (.commit "t")),
        .ext (.deliverConfirm 2 (confirmMessage .privateChain askingMessage [0x61] "t"))] ++
      List.replicate 4 (.act 0 State.prompt) ++ [.ext (.deliverSubmit 1 askingBatch)] ++
      List.replicate 5 (.act 0 unreachable))

theorem one_reply_for_message : ∃ h : repliedRun.isSome,
    (repliesSent (repliedRun.get h).world.trace).count [0x63] = 1 ∧
      (repliesSent (repliedRun.get h).world.trace).count [0x64] = 1 := by
  refine ⟨rfl, ?_⟩
  have hreach := Run.of_play (Option.some_get (x := repliedRun) rfl).symm
  have hone := (one_reply_each hreach (by decide) (by decide) (by decide)).2 rfl rfl rfl
  exact ⟨hone.1 askingMessage (List.mem_cons_self ..),
    hone.1 askingBatch (List.mem_cons_of_mem _ (List.mem_cons_self ..))⟩

end HybridLog
