import HybridLog.Async.Hold
import HybridLog.System.Queues
import HybridLog.System.Quiescence

/-!
# One message of a queue at a time

The channel is opened with `prefetch(1)`: the consumer of a queue gets its next message only after
it has acknowledged the last one. The runs under this rule are some of the runs above. In them the
messages of each queue are handled in the order of their publication, and what the handlers submit to
a chain is submitted in that order. The rule holds nobody up for ever.
-/

namespace HybridLog

open Js Async

variable (cfg : ServerConfig) (objectHash : ObjectHash)

/-! ### The rule -/

/-- `channel.prefetch(1)` -/
def inTurn : Delivery → State → Bool
  | .server (.deliverSubmit seq msg), s => submitQueues.next s msg.strategy = some (seq, msg)
  | .server (.deliverConfirm seq msg), s => confirmQueues.next s msg.strategy = some (seq, msg)
  | _, _ => true

/-- The server with a broker that keeps to the rule. -/
def prefetched : Machine Req Req.Answer Tag Delivery State :=
  (atLeastOnce cfg objectHash).restrict inTurn

/-! ### Unacknowledged messages as holds -/

/-- The handler of a submit message holds it until it acknowledges it; what it submits to a chain
belongs to the message. -/
def messageHold : Hold Req Tag State where
  needs t e := (∃ seq msg, t = .submit seq msg) ∧ ∃ tx, e = .submit tx
  frees t e := (∃ seq msg, t = .submit seq msg) ∧ (e = .ack ∨ e = .nack)
  held s
    | .submit seq msg => (seq, msg) ∈ s.submitUnacked
    | _ => False

section Retains

variable {t : Tag} {α : Type}

lemma not_frees {e : Req} (h : e.OfStorage) : ¬messageHold.frees t e := by
  rintro ⟨-, rfl | rfl⟩
  · exact h
  · exact h

lemma retains_request {e : Req} {k : e.Answer → Except JsError α} (h : e.OfStorage) :
    Retains messageHold t (Task.request e k : Io α) := Retains.request (not_frees h)

lemma insertBatched_retains (db : Db) (entries : List LogEntry) (table : LogTable) :
    Retains messageHold t
      (promiseAll (entries.map fun e => insertBatched db e e.dataHash table)) := by
  have hall := @FollowsTask.promiseAll Req Req.Answer Tag External _ _ _
    (fun t e _ => ¬messageHold.needs t e ∧ ¬messageHold.frees t e) t (fun _ _ _ => True)
    (fun _ _ _ => True) (fun e => insertBatched db e e.dataHash table) []
    (fun _ _ _ _ _ h => h) (fun _ _ _ _ _ h => h) entries fun e _ => by
      apply FollowsTask.request
      · intro _ _
        refine ⟨?_, not_frees trivial⟩
        rintro ⟨-, tx, htx⟩
        cases htx
      · intro r _ _ _
        cases r <;> trivial
  exact Retains.of_follows hall fun _ _ h => h

lemma linkEach_retains (table : Side) (root : JsString) (i : ℕ) (ids : List JsString) :
    Retains messageHold t (linkEach table root i ids) := by
  induction ids generalizing i with
  | nil => exact Retains.pure ()
  | cons id ids ih => exact Retains.bind (retains_request trivial) fun _ => ih (i + 1)

lemma linkBatchLeaves_retains (db : Db) (ids : List JsString) (root : JsString) (table : Side) :
    Retains messageHold t (linkBatchLeaves db ids root table) := by
  cases db with
  | postgres => exact retains_request trivial
  | mongo => exact linkEach_retains table root 0 ids

lemma anchoredNow_retains (confirmed : Option Bool) :
    Retains messageHold t (anchoredNow confirmed) :=
  Retains.ite (Retains.bind (retains_request trivial) fun _ => Retains.pure _) (Retains.pure _)

lemma exonumCheckTx_retains (txHash : TxHash) (attempt : ℕ) :
    Retains messageHold t (ExonumAnchor.checkTx txHash attempt) := by
  refine Retains.tryCatch (Retains.bind (retains_request trivial) fun type => ?_) fun _ =>
    Retains.pure _
  cases type <;> exact Retains.pure _

lemma waitFrom_retains (txHash : TxHash) (left attempt : ℕ) :
    Retains messageHold t (ExonumAnchor.waitFrom txHash left attempt) := by
  induction left generalizing attempt with
  | zero => exact Retains.pure _
  | succ left ih =>
    refine Retains.bind (exonumCheckTx_retains txHash attempt) fun r => ?_
    exact Retains.ite (Retains.pure _) (Retains.ite (ih (attempt + 1)) (Retains.pure _))

lemma ofExcept_retains (x : Except JsError α) : Retains messageHold t (Task.ofExcept x : Io α) := by
  cases x with
  | ok a => exact Retains.pure a
  | error err => exact Retains.throw err

lemma anchorWriteLog_retains (anchor : Anchor) (entry : LogEntry) (opts : Option WriteOpts) :
    Retains messageHold t (anchor.writeLog cfg entry opts) := by
  cases anchor with
  | exonum mode =>
    refine Retains.tryCatch (Retains.bind (retains_request trivial) fun ms => ?_) fun _ =>
      Retains.pure _
    refine Retains.bind (retains_request trivial) fun txHash => ?_
    exact Retains.ite (Retains.pure _)
      (Retains.bind (waitFrom_retains txHash 30 0) fun _ => Retains.pure _)
  | ethereum =>
    refine Retains.tryCatch (Retains.bind (ofExcept_retains _) fun call => ?_) fun _ =>
      Retains.pure _
    refine Retains.bind (retains_request trivial) fun txHash => ?_
    exact Retains.ite (Retains.pure _)
      (Retains.bind (retains_request trivial) fun _ => Retains.pure _)

lemma anchorWriteBatch_retains (anchor : Anchor) (entries : List LogEntry)
    (opts : Option WriteOpts) : Retains messageHold t (anchor.writeBatch cfg entries opts) := by
  cases anchor with
  | exonum mode =>
    refine Retains.ite (Retains.pure _) (Retains.tryCatch (Retains.bind (retains_request trivial)
      fun ms => ?_) fun _ => Retains.pure _)
    refine Retains.bind (retains_request trivial) fun txHash => ?_
    exact Retains.ite (Retains.pure _)
      (Retains.bind (waitFrom_retains txHash 30 0) fun _ => Retains.pure _)
  | ethereum =>
    refine Retains.ite (Retains.pure _) (Retains.tryCatch (Retains.bind (ofExcept_retains _)
      fun call => ?_) fun _ => Retains.pure _)
    refine Retains.bind (retains_request trivial) fun txHash => ?_
    exact Retains.ite (Retains.pure _)
      (Retains.bind (retains_request trivial) fun _ => Retains.pure _)

lemma writeLog_retains (st : Storage) (entry : LogEntry) (opts : Option WriteOpts) :
    Retains messageHold t (st.writeLog cfg entry opts) := by
  cases st with
  | offchain db =>
    refine Retains.tryCatch (Retains.bind (retains_request trivial) fun _ => Retains.pure _) fun _ =>
      Retains.pure _
  | chain anchor => exact anchorWriteLog_retains cfg anchor entry opts
  | hybrid db anchor mode =>
    refine Retains.tryCatch (Retains.bind (retains_request trivial) fun _ => ?_) fun _ =>
      Retains.pure _
    refine Retains.bind (anchorWriteLog_retains cfg anchor _ opts) fun r => ?_
    refine Retains.bind (anchoredNow_retains _) fun anchoredAt => ?_
    exact Retains.bind (retains_request trivial) fun _ => Retains.pure _

lemma writeBatch_retains {st : Storage} {entries : List LogEntry} {opts : Option WriteOpts}
    {writeBatch : List LogEntry → Option WriteOpts → Io BatchWriteResult}
    (h : st.writeBatch? cfg = some writeBatch) :
    Retains messageHold t (writeBatch entries opts) := by
  cases st with
  | offchain db => cases h
  | chain anchor =>
    cases h
    exact anchorWriteBatch_retains cfg anchor entries opts
  | hybrid db anchor mode =>
    cases mode with
    | anchored side => cases h
    | batched side =>
      cases h
      refine Retains.ite (Retains.pure _) (Retains.tryCatch
        (Retains.bind (insertBatched_retains db _ _) fun _ => ?_) fun _ => Retains.pure _)
      refine Retains.bind (retains_request trivial) fun _ => ?_
      refine Retains.bind (linkBatchLeaves_retains db _ _ _) fun _ => ?_
      refine Retains.bind (anchorWriteBatch_retains cfg anchor _ opts) fun r => ?_
      refine Retains.bind (anchoredNow_retains _) fun anchoredAt => ?_
      exact Retains.bind (retains_request trivial) fun _ => Retains.pure _

lemma submitWrite_retains (storage : Option Storage) (body : SubmitBody) :
    Retains messageHold t (submitWrite cfg storage body) := by
  cases storage with
  | none => exact Retains.throw _
  | some st =>
    cases body with
    | entry dto => exact Retains.bind (writeLog_retains cfg st _ _) fun _ => Retains.pure _
    | entries dtos =>
      simp only [submitWrite]
      split
      · exact Retains.throw _
      · next writeBatch h => exact Retains.bind (writeBatch_retains cfg h) fun _ => Retains.pure _

lemma publishConfirm_retains (msg : ConfirmMessage) :
    Retains messageHold t (publishConfirm msg) :=
  Retains.ite (Retains.request fun h => by rcases h.2 with h | h <;> cases h) (Retains.throw _)

lemma replyIfAsked_retains (replyTo : Option JsString) (msg : ResultMessage) :
    Retains messageHold t (replyIfAsked replyTo msg) := by
  rw [replyIfAsked]
  cases replyQueue replyTo with
  | none => exact Retains.pure ()
  | some queue =>
    exact Retains.tryCatch (Retains.request fun h => by rcases h.2 with h | h <;> cases h) fun _ =>
      Retains.pure ()

/-- The handler of a submit message makes no request for it after the acknowledgement. -/
lemma submitHandler_within (seq : ℕ) (msg : SubmitMessage) :
    Within messageHold (.submit seq msg) True (fun _ _ => True)
      (consume (submitHandler cfg msg.strategy msg)).run.detach := by
  have hbody : Within messageHold (.submit seq msg) True
      (fun _ b => b → ¬messageHold.frees (.submit seq msg) .ack)
      (submitHandler cfg msg.strategy msg).run := by
    apply Retains.finallyDo
    refine Retains.tryCatch (Retains.bind (submitWrite_retains cfg _ _) fun written => ?_) fun err =>
      replyIfAsked_retains _ _
    split
    · exact publishConfirm_retains _
    · exact replyIfAsked_retains _ _
  have hend := submitHandler_follows (X := External) cfg msg.strategy msg (Tag.submit seq msg) []
  rw [FollowsTask] at hend
  have hboth := hbody.and_follows hend
  apply Within.bind
  apply Within.bind (p := (submitHandler cfg msg.strategy msg).run)
  refine hboth.weaken fun r b hb => ?_
  cases r with
  | ok _ => trivial
  | error err =>
    obtain ⟨-, _, hfalse⟩ := hb
    exact hfalse.elim

end Retains

/-! ### Turns -/

section Turns

variable {cfg objectHash} {s : State}

/-- Deliveries are in turn. -/
lemma turn_of_ext {x : Delivery} (h : inTurn x s = true) :
    submitQueues.Turn s (.ext x) ∧ confirmQueues.Turn s (.ext x) := by
  constructor
  · intro m hm
    cases x with
    | server y => cases y with
      | deliverSubmit seq msg =>
        cases hm
        exact Queues.next_eq_some (of_decide_eq_true h)
      | _ => cases hm
    | requeue seq msg => cases hm
  · intro m hm
    cases x with
    | server y => cases y with
      | deliverConfirm seq msg =>
        cases hm
        exact Queues.next_eq_some (of_decide_eq_true h)
      | _ => cases hm
    | requeue seq msg => cases hm

lemma prefetched_lines {P : ServerWorld → Prop} {c : RedeliveryConfig}
    (hkeep : ∀ w ev s', submitQueues.Change w.state s' ev ∧ submitQueues.Turn w.state ev →
      confirmQueues.Change w.state s' ev ∧ confirmQueues.Turn w.state ev → P w → P (w.push ev s'))
    (hstart : P (Config.start State.start : RedeliveryConfig).world)
    (h : Reach (prefetched cfg objectHash) .start c) : P c.world := by
  induction h with
  | refl => exact hstart
  | tail _ hstep ih =>
    cases hstep with
    | call hs =>
      refine hkeep _ _ _ ⟨(change_of_call hs).1, ?_⟩ ⟨(change_of_call hs).2, ?_⟩ ih
      · intro m hm
        cases hm
      · intro m hm
        cases hm
    | fork | left | right | done => exact ih
    | ext hs =>
      obtain ⟨hturn, hs⟩ := Machine.restrict_accept hs
      exact hkeep _ _ _ ⟨(change_of_ext hs).1, (turn_of_ext hturn).1⟩
        ⟨(change_of_ext hs).2, (turn_of_ext hturn).2⟩ ih

end Turns

/-! ### In turn -/

section Turn

variable {cfg objectHash} {c : RedeliveryConfig}

theorem submit_inOrder (h : Reach (prefetched cfg objectHash) .start c) (strategy : LogStrategy) :
    (submitQueues.line strategy c.world).InOrder :=
  prefetched_lines (P := fun w => (submitQueues.line strategy w).InOrder)
    (fun _ _ _ hsubmit _ hw => hw.step (hsubmit.1.line hsubmit.2 hw)) Line.InOrder.empty h

lemma submit_once (h : Reach (prefetched cfg objectHash) .start c) (strategy : LogStrategy) :
    (submitQueues.line strategy c.world).Once := by
  refine (prefetched_lines (P := fun w => (submitQueues.line strategy w).Once ∧
    (submitQueues.line strategy w).InOrder) ?_ ⟨Line.Once.empty, Line.InOrder.empty⟩ h).1
  intro w ev s' hsubmit _ hw
  have hstep := hsubmit.1.line hsubmit.2 hw.2
  exact ⟨hw.1.step id hstep, hw.2.step hstep⟩

theorem confirm_inOrder (h : Reach (prefetched cfg objectHash) .start c) (strategy : LogStrategy) :
    (confirmQueues.line strategy c.world).InOrder :=
  prefetched_lines (P := fun w => (confirmQueues.line strategy w).InOrder)
    (fun _ _ _ _ hconfirm hw => hw.step (hconfirm.1.line hconfirm.2 hw)) Line.InOrder.empty h

/-- The message of a running handler has been delivered. -/
lemma delivered_of_proc (h : Reach (prefetched cfg objectHash) .start c) {seq : ℕ}
    {msg : SubmitMessage} {e : Req} {k : e.Answer → Prog Req Req.Answer Unit}
    (hmem : (.submit seq msg, .call e k) ∈ c.procs) :
    (seq, msg) ∈ c.world.trace.filterMap submitQueues.delivered := by
  have hfollows := procs_follow h.of_restrict _ hmem
  cases (hfollows c.world.trace List.prefix_rfl).1.begun with
  | submit hx => exact List.mem_filterMap.mpr ⟨_, hx, rfl⟩

lemma Arrival.within {s s' : State} {x : External} {ps : List (Tag × Prog Req Req.Answer Unit)}
    (h : Arrival cfg s x s' ps) : ∀ p ∈ ps, Idle messageHold p ∨
      ∃ seq msg, x = .deliverSubmit seq msg ∧ p.1 = .submit seq msg ∧
        Within messageHold p.1 True (fun _ _ => True) p.2 := by
  intro p hp
  cases h with
  | post _ _ _ =>
    cases List.mem_singleton.mp hp
    exact .inl (Within.of_free (fun e => by simp [messageHold]) _)
  | flush _ _ =>
    cases List.mem_singleton.mp hp
    exact .inl (Within.of_free (fun e => by simp [messageHold]) _)
  | deliverConfirm _ =>
    cases List.mem_singleton.mp hp
    exact .inl (Within.of_free (fun e => by simp [messageHold]) _)
  | @deliverSubmit seq msg _ =>
    cases List.mem_singleton.mp hp
    exact .inr ⟨seq, msg, rfl, rfl, submitHandler_within cfg seq msg⟩
  | enqueue _ => cases hp
  | expire _ _ => cases hp
  | chain => cases hp

lemma Arrival.length_le {s s' : State} {x : External}
    {ps : List (Tag × Prog Req Req.Answer Unit)} (h : Arrival cfg s x s' ps) : ps.length ≤ 1 := by
  cases h <;> simp

lemma Arrival.submitUnacked {s s' : State} {x : External}
    {ps : List (Tag × Prog Req Req.Answer Unit)} (h : Arrival cfg s x s' ps) :
    ∀ m ∈ s.submitUnacked, m ∈ s'.submitUnacked := by
  intro m hm
  cases h with
  | deliverSubmit _ => exact List.mem_cons_of_mem _ hm
  | _ => exact hm

/-- The handler of a submit message has it in hand while it may submit anything for it. -/
theorem orderly (h : Reach (prefetched cfg objectHash) .start c) : Orderly messageHold c := by
  induction h with
  | refl => exact .start
  | @tail c c' hrun hstep ih =>
    refine ih.step ?_ ?_ hstep
    · intro t e k r s' hmem hs t' hheld hfrees
      cases t' with
      | submit seq msg =>
        show (seq, msg) ∈ s'.submitUnacked
        rcases State.apply_eq_some hs with ⟨he, rfl⟩ | ⟨-, -, hs⟩
        · cases t with
          | submit seq' msg' =>
            refine List.mem_filter.mpr ⟨hheld, decide_eq_true fun heq => ?_⟩
            -- the number is that of the message the program acknowledges
            obtain ⟨told, htold⟩ := submit_numbered (Run.of_restrict hrun)
            obtain rfl : seq = seq' := heq
            have hmsg : msg = msg' := Option.some.inj ((htold.unacked _ hheld).symm.trans
              (htold.delivered _ (delivered_of_proc hrun hmem)))
            exact hfrees (hmsg ▸ rfl) ⟨⟨_, _, rfl⟩, he⟩
          | _ => exact hheld
        · rw [(State.answer_effect hs).submitUnacked]
          exact hheld
      | _ => exact hheld.elim
    · intro x s' ps hx
      obtain ⟨hturn, hx⟩ := Machine.restrict_accept hx
      rcases atLeastOnce_accept cfg objectHash hx with ⟨y, rfl, hy⟩ | ⟨seq, msg, rfl, hr, rfl⟩
      · have hy := State.accept_eq_some hy
        refine ⟨fun t ht => ?_, fun t => List.countP_le_length.trans hy.length_le,
          fun p hp => ?_⟩
        · cases t with
          | submit seq msg => exact hy.submitUnacked _ ht
          | _ => exact ht
        · refine (hy.within p hp).imp_right ?_
          rintro ⟨seq, msg, rfl, htag, hwithin⟩
          obtain ⟨hnone, -⟩ := Queues.next_eq_some (of_decide_eq_true hturn)
          refine ⟨fun hheld => ?_, ?_, hwithin⟩
          · rw [htag] at hheld
            exact hnone _ hheld rfl
          · rw [htag]
            cases hy with
            | deliverSubmit _ => exact List.mem_cons_self ..
      · obtain ⟨-, rfl⟩ := requeue_eq_some hr
        refine ⟨fun t ht => ?_, fun t => by simp [busy], by simp⟩
        cases t <;> exact ht

/-- The message for which an event sends a transaction to a chain. -/
def sentFor : ServerEvent → Option (ℕ × SubmitMessage)
  | .call (.submit seq msg) (.submit _) _ => some (seq, msg)
  | _ => none

/-- The messages of a submit queue for which transactions were sent to a chain, in the order they
were sent. -/
def chainSubmits (strategy : LogStrategy) (tr : RedeliveryTrace) : List (ℕ × SubmitMessage) :=
  (tr.filterMap sentFor).filter fun m => m.2.strategy = strategy

/-- Transactions are sent for the message in hand. -/
lemma sentFor_unacked (h : Reach (prefetched cfg objectHash) .start c) {t : Tag} {e : Req}
    {k : e.Answer → Prog Req Req.Answer Unit} {r : e.Answer} (hmem : (t, .call e k) ∈ c.procs)
    {m : ℕ × SubmitMessage} (hm : sentFor (.call t e r) = some m) :
    m ∈ c.world.state.submitUnacked ∧ m ∈ c.world.trace.filterMap submitQueues.delivered := by
  cases t with
  | submit seq msg => cases e with
    | submit tx =>
      cases hm
      exact ⟨(orderly h).held hmem ⟨⟨_, _, rfl⟩, _, rfl⟩, delivered_of_proc h hmem⟩
    | _ => cases hm
  | _ => cases hm

/-- What is sent to the chains is sent in the order of the deliveries. -/
structure Sends (strategy : LogStrategy) (w : ServerWorld) : Prop where
  ordered : (chainSubmits strategy w.trace).Pairwise fun m m' => m.1 ≤ m'.1
  delivered : ∀ m ∈ chainSubmits strategy w.trace, m ∈ (submitQueues.line strategy w).delivered

lemma Sends.push {strategy : LogStrategy} {w : ServerWorld} {ev : ServerEvent} {s' : State}
    (h : Sends strategy w) (hline : (submitQueues.line strategy w).InOrder)
    (hnew : ∀ m, sentFor ev = some m →
      m ∈ w.state.submitUnacked ∧ m ∈ w.trace.filterMap submitQueues.delivered) :
    Sends strategy (w.push ev s') := by
  have hsplit : chainSubmits strategy (w.push ev s').trace =
      chainSubmits strategy w.trace ++ chainSubmits strategy [ev] := by
    simp only [chainSubmits, World.push_trace, List.filterMap_append, List.filter_append]
  have hlater : ∀ m ∈ (submitQueues.line strategy w).delivered,
      m ∈ (submitQueues.line strategy (w.push ev s')).delivered := by
    simp only [Queues.line, World.push_trace, List.filterMap_append, List.filter_append]
    exact fun m hm => List.mem_append_left _ hm
  have hlast : ∀ m ∈ chainSubmits strategy [ev],
      m ∈ (submitQueues.line strategy w).unacked ∧
        m ∈ (submitQueues.line strategy w).delivered := by
    intro m hm
    obtain ⟨hm, hs⟩ := List.mem_filter.mp hm
    obtain ⟨ev', hev', hm⟩ := List.mem_filterMap.mp hm
    rw [List.mem_singleton.mp hev'] at hm
    obtain ⟨hunacked, hdelivered⟩ := hnew m hm
    exact ⟨List.mem_filter.mpr ⟨hunacked, hs⟩, List.mem_filter.mpr ⟨hdelivered, hs⟩⟩
  have hone : (chainSubmits strategy [ev]).length ≤ 1 :=
    (List.length_filter_le _ _).trans (List.length_filterMap_le _ _)
  constructor
  · rw [hsplit]
    refine List.pairwise_append.mpr ⟨h.ordered, ?_, fun m hm m' hm' => ?_⟩
    · rcases hevs : chainSubmits strategy [ev] with _ | ⟨m, _ | ⟨m', rest⟩⟩
      · exact .nil
      · exact List.pairwise_singleton _ _
      · simp [hevs] at hone
    · exact hline.le_of_unacked (hlast m' hm').1 (h.delivered m hm)
  · rw [hsplit]
    intro m hm
    rcases List.mem_append.mp hm with hm | hm
    · exact hlater m (h.delivered m hm)
    · exact hlater m (hlast m hm).2

theorem sends_inTurn (h : Reach (prefetched cfg objectHash) .start c) (strategy : LogStrategy) :
    Sends strategy c.world := by
  induction h with
  | refl => exact ⟨.nil, by simp [chainSubmits, Config.start]⟩
  | tail hrun hstep ih =>
    have hline := submit_inOrder hrun strategy
    cases hstep with
    | @call w l l' t e k r s hs =>
      have hmem : (t, .call e k) ∈ l ++ (t, .call e k) :: l' :=
        List.mem_append_right _ (List.mem_cons_self ..)
      exact ih.push hline fun m hm => sentFor_unacked hrun hmem hm
    | fork | left | right | done => exact ih
    | ext hs => exact ih.push hline fun m hm => by cases hm

end Turn

/-! ### The rule holds nobody up -/

lemma prefetched_timed : Timed (prefetched cfg objectHash) where
  apply := rfl
  expire h := (atLeastOnce_timed cfg objectHash).expire h

section Progress

variable {cfg objectHash} {c : RedeliveryConfig}

lemma prefetched_step {x : External} {o : State × List (Tag × Prog Req Req.Answer Unit)}
    (hx : (Delivery.server x).quiet = true) (hturn : inTurn (.server x) c.world.state = true)
    (h : c.world.state.accept cfg objectHash x = some o) :
    ∃ c', Step ((prefetched cfg objectHash).only Delivery.quiet) c c' :=
  step_of_accept hx ((if_pos hturn).trans h)

/-- While no message of its queue is in hand, the first one can be delivered. -/
lemma prefetched_step_of_submitQueue (hunacked : c.world.state.submitUnacked = [])
    (h : c.world.state.submitQueue ≠ []) :
    ∃ c', Step ((prefetched cfg objectHash).only Delivery.quiet) c c' := by
  obtain ⟨⟨seq, msg⟩, rest, hqueue⟩ := List.exists_cons_of_ne_nil h
  apply prefetched_step (x := .deliverSubmit seq msg) rfl
  · simp [inTurn, Queues.next, submitQueues, hunacked, hqueue]
  · exact if_pos (by simp [hqueue])

lemma prefetched_step_of_confirmQueue (hunacked : c.world.state.confirmUnacked = [])
    (h : c.world.state.confirmQueue ≠ []) :
    ∃ c', Step ((prefetched cfg objectHash).only Delivery.quiet) c c' := by
  obtain ⟨⟨seq, msg⟩, rest, hqueue⟩ := List.exists_cons_of_ne_nil h
  apply prefetched_step (x := .deliverConfirm seq msg) rfl
  · simp [inTurn, Queues.next, confirmQueues, hunacked, hqueue]
  · exact if_pos (by simp [hqueue])

theorem prefetched_drains (h : Reach (prefetched cfg objectHash) .start c) :
    Inevitable (Onward (prefetched cfg objectHash) Delivery.quiet Delivery.onChain) Drained c := by
  have hfalls : serverWorkload.Falls (prefetched cfg objectHash) Delivery.quiet Delivery.onChain
      (Reach (prefetched cfg objectHash) .start) :=
    (server_falls cfg objectHash).restrict inTurn fun _ h => h.of_restrict
  refine hfalls.inevitable (fun h hstep => h.tail hstep) (fun c hc hrest => ?_) h
  by_contra hstuck
  refine hrest (drained_of_stuck (prefetched_timed cfg objectHash) hc.of_restrict hstuck ?_ ?_)
  · exact prefetched_step_of_submitQueue
  · exact prefetched_step_of_confirmQueue

end Progress

/-! ### The result -/

/-- Each queue is worked off in the order of publication, one message at a time. -/
structure InTurn (w : ServerWorld) : Prop where
  submitOnce : ∀ strategy, (submitQueues.line strategy w).Once
  submit : ∀ strategy, (submitQueues.line strategy w).InOrder
  confirm : ∀ strategy, (confirmQueues.line strategy w).InOrder
  chain : ∀ strategy, Sends strategy w

/-- Who is about to send a transaction for a message has the message in hand. -/
def SendsInHand (c : RedeliveryConfig) : Prop :=
  ∀ (t : Tag) (e : Req) (k : e.Answer → Prog Req Req.Answer Unit) (r : e.Answer),
    (t, .call e k) ∈ c.procs → ∀ m, sentFor (.call t e r) = some m → m ∈ c.world.state.submitUnacked

variable {cfg objectHash} in
/-- With `prefetch(1)` the messages of a submit queue are handled once each, one after the other, in
the order of publication, and what their handlers send to a chain is sent in that order, each
transaction while its message is in hand; messages of a confirm queue are handled in order as well,
though perhaps again. And the server still comes to rest. -/
theorem prefetch_in_turn {c : RedeliveryConfig} (h : Reach (prefetched cfg objectHash) .start c) :
    Reach (atLeastOnce cfg objectHash) .start c ∧ InTurn c.world ∧ SendsInHand c ∧
      Inevitable (Onward (prefetched cfg objectHash) Delivery.quiet Delivery.onChain) Drained c :=
  ⟨h.of_restrict, ⟨submit_once h, submit_inOrder h, confirm_inOrder h, sends_inTurn h⟩,
    fun _ _ _ _ hmem _ hm => (sentFor_unacked h hmem hm).1, prefetched_drains h⟩

/-- Messages for one queue, to try statements on. -/
def queuedMessage (id : JsString) : SubmitMessage where
  body := .entry (toDTO (.create id .epoch infoLevel [] (ofString "hello") none))
  strategy := .hybridPrivate
  db := .postgres
  correlationId := id
  replyTo := none
  enqueuedAt := 0

/-- The first message is in hand and its transaction sent, the second one waits. -/
def crowdedRun : Option RedeliveryConfig :=
  (Config.start State.start).play (prefetched connectedConfig fun _ => [])
    ([.ext (.server (.enqueue (queuedMessage [0x61]))),
        .ext (.server (.enqueue (queuedMessage [0x62]))),
        .ext (.server (.deliverSubmit 0 (queuedMessage [0x61])))] ++
      List.replicate 4 (.act 0 State.prompt))

theorem crowdedRun_in_turn : ∃ h : crowdedRun.isSome,
    InTurn (crowdedRun.get h).world ∧ SendsInHand (crowdedRun.get h) ∧
    (crowdedRun.get h).world.state.submitQueue.map Prod.fst = [1] ∧
    (chainSubmits .hybridPrivate (crowdedRun.get h).world.trace).map Prod.fst = [0] ∧
    ∃ c, Relation.ReflTransGen (Onward (prefetched connectedConfig fun _ => []) Delivery.quiet
      Delivery.onChain) (crowdedRun.get h) c ∧ Drained c := by
  have hreach := Run.of_play (Option.some_get (x := crowdedRun) (by decide +kernel)).symm
  obtain ⟨-, hturn, hsends, hdrains⟩ := prefetch_in_turn hreach
  exact ⟨by decide +kernel, hturn, hsends, by decide +kernel, by decide +kernel, hdrains.exists_run⟩

end HybridLog
