import HybridLog.Async.Line
import HybridLog.System.Accept
import HybridLog.System.Redelivery

/-!
# The queues of the broker

There is one submit queue and one confirm queue for each strategy. Both kinds change in the same few
ways: a message is published, delivered, acknowledged or, if the broker delivers again, put back.
-/

namespace HybridLog

open Js Async

abbrev ServerEvent := Event Req Req.Answer Tag Delivery

abbrev ServerWorld := World Req Req.Answer Tag Delivery State

/-- The queues of one kind, one for each strategy. -/
structure Queues (M : Type) where
  strategy : M → LogStrategy
  queue : State → List (ℕ × M)
  unacked : State → List (ℕ × M)
  /-- The message an event publishes to one of the queues. -/
  published : ServerEvent → Option M
  /-- The message an event delivers. -/
  delivered : ServerEvent → Option (ℕ × M)
  /-- The broker may deliver a message again. -/
  again : Prop

def submitQueues : Queues SubmitMessage where
  strategy := SubmitMessage.strategy
  queue := State.submitQueue
  unacked := State.submitUnacked
  published
    | .call _ (.publishSubmit msg) (Except.ok _) => some msg
    | .ext (.server (.enqueue msg)) => some msg
    | _ => none
  delivered
    | .ext (.server (.deliverSubmit seq msg)) => some (seq, msg)
    | _ => none
  again := False

def confirmQueues : Queues ConfirmMessage where
  strategy := ConfirmMessage.strategy
  queue := State.confirmQueue
  unacked := State.confirmUnacked
  published
    | .call _ (.publishConfirm msg) (Except.ok _) => some msg
    | _ => none
  delivered
    | .ext (.server (.deliverConfirm seq msg)) => some (seq, msg)
    | _ => none
  again := True

namespace Queues

variable {M : Type} (B : Queues M) (strategy : LogStrategy)

/-- The queue of a strategy. -/
def line (w : ServerWorld) : Line M where
  published := (w.trace.filterMap B.published).filter fun m => B.strategy m = strategy
  delivered := (w.trace.filterMap B.delivered).filter fun m => B.strategy m.2 = strategy
  unacked := (B.unacked w.state).filter fun m => B.strategy m.2 = strategy
  waiting := (B.queue w.state).filter fun m => B.strategy m.2 = strategy
  next := w.state.messages

/-- The message the consumer of a queue gets next, if none of the queue is in hand. -/
def next (s : State) (strategy : LogStrategy) : Option (ℕ × M) :=
  if (B.unacked s).all fun m => B.strategy m.2 ≠ strategy then
    (B.queue s).find? fun m => B.strategy m.2 = strategy
  else none

variable {B strategy} in
lemma next_eq_some {s : State} {m : ℕ × M} (h : B.next s strategy = some m) :
    (∀ m' ∈ B.unacked s, B.strategy m'.2 ≠ strategy) ∧
      (B.queue s).find? (fun m' => B.strategy m'.2 = strategy) = some m := by
  rw [Queues.next] at h
  split at h
  · next hall => exact ⟨by simpa using hall, h⟩
  · cases h

variable [DecidableEq M]

/-- What an event may do to the queues. -/
inductive Change (s s' : State) (ev : ServerEvent) : Prop
  | keep (hp : B.published ev = none) (hd : B.delivered ev = none) (hq : B.queue s' = B.queue s)
    (hu : B.unacked s' = B.unacked s) (hn : s.messages ≤ s'.messages)
  | publish {m : M} (hp : B.published ev = some m) (hd : B.delivered ev = none)
    (hq : B.queue s' = B.queue s ++ [(s.messages, m)]) (hu : B.unacked s' = B.unacked s)
    (hn : s'.messages = s.messages + 1)
  | deliver {m : ℕ × M} (hp : B.published ev = none) (hd : B.delivered ev = some m)
    (hm : m ∈ B.queue s) (hq : B.queue s' = (B.queue s).erase m) (hu : B.unacked s' = m :: B.unacked s)
    (hn : s'.messages = s.messages)
  | drop {seq : ℕ} (hp : B.published ev = none) (hd : B.delivered ev = none)
    (hq : B.queue s' = B.queue s) (hu : B.unacked s' = (B.unacked s).filter fun m => m.1 ≠ seq)
    (hn : s'.messages = s.messages)
  | requeue {m : ℕ × M} (ha : B.again) (hp : B.published ev = none) (hd : B.delivered ev = none)
    (hm : m ∈ B.unacked s) (hq : B.queue s' = m :: B.queue s)
    (hu : B.unacked s' = (B.unacked s).erase m) (hn : s'.messages = s.messages)

/-- What an event delivers is the first message of its queue, and no other one is in hand. -/
def Turn (s : State) (ev : ServerEvent) : Prop :=
  ∀ m, B.delivered ev = some m → (∀ m' ∈ B.unacked s, B.strategy m'.2 ≠ B.strategy m.2) ∧
    (B.queue s).find? (fun m' => B.strategy m'.2 = B.strategy m.2) = some m

variable {B strategy} {w : ServerWorld} {ev : ServerEvent} {s' : State}

/-- What an event does to the queue of a strategy whose messages are in order. -/
theorem Change.line (h : B.Change w.state s' ev) (hturn : B.Turn w.state ev)
    (hline : (B.line strategy w).InOrder) :
    (B.line strategy w).Step B.again (B.line strategy (w.push ev s')) := by
  cases h with
  | keep hp hd hq hu hn =>
    have hstep : (B.line strategy w).Step B.again _ := .skip hn
    simpa [Queues.line, hp, hd, hq, hu] using hstep
  | @publish m hp hd hq hu hn =>
    by_cases hm : B.strategy m = strategy
    · have hstep : (B.line strategy w).Step B.again _ := .publish m
      simpa [Queues.line, hp, hd, hq, hu, hn, hm] using hstep
    · have hstep : (B.line strategy w).Step B.again _ := .skip (Nat.le_succ w.state.messages)
      simpa [Queues.line, hp, hd, hq, hu, hn, hm] using hstep
  | @deliver m hp hd hmem hq hu hn =>
    obtain ⟨hnone, hfirst⟩ := hturn m hd
    have herase := List.erase_filter (f := fun m' => B.strategy m'.2 = strategy)
      (l := B.queue w.state) (a := m)
    by_cases hm : B.strategy m.2 = strategy
    · subst hm
      rw [← List.head?_filter] at hfirst
      obtain ⟨rest, hrest⟩ := List.head?_eq_some_iff.mp hfirst
      have hunacked : (B.unacked w.state).filter (fun m' => B.strategy m'.2 = B.strategy m.2) = [] :=
        List.filter_eq_nil_iff.mpr fun m' hm' => by simpa using hnone m' hm'
      have hstep : (B.line (B.strategy m.2) w).Step B.again _ := .deliver hunacked hrest
      rw [hrest, List.erase_cons_head] at herase
      simpa [Queues.line, hp, hd, hq, hu, hn, herase, hunacked] using hstep
    · have hstep : (B.line strategy w).Step B.again _ := .skip le_rfl
      rw [List.erase_of_not_mem (by simp [hm])] at herase
      simpa [Queues.line, hp, hd, hq, hu, hn, hm, ← herase] using hstep
  | @drop seq hp hd hq hu hn =>
    have hstep : (B.line strategy w).Step B.again _ := .acknowledge fun m => m.1 ≠ seq
    simpa [Queues.line, hp, hd, hq, hu, hn, List.filter_filter, Bool.and_comm] using hstep
  | @requeue m ha hp hd hm hq hu hn =>
    have herase := List.erase_filter (f := fun m' => B.strategy m'.2 = strategy)
      (l := B.unacked w.state) (a := m)
    by_cases hs : B.strategy m.2 = strategy
    · have hmem : m ∈ (B.line strategy w).unacked := by simpa [Queues.line, hs] using hm
      have hunacked : (B.unacked w.state).filter (fun m' => B.strategy m'.2 = strategy) = [m] :=
        hline.unacked_eq hmem
      have hstep : (B.line strategy w).Step B.again _ := .giveBack ha
      rw [hunacked, List.erase_cons_head] at herase
      simpa [Queues.line, hp, hd, hq, hu, hn, hs, hunacked, ← herase] using hstep
    · have hstep : (B.line strategy w).Step B.again _ := .skip le_rfl
      rw [List.erase_of_not_mem (by simp [hs])] at herase
      simpa [Queues.line, hp, hd, hq, hu, hn, hs, ← herase] using hstep

/-! ### Numbers -/

variable (B) in
/-- Number `n` is the number of message `told n`, wherever it turns up. -/
structure Numbered (w : ServerWorld) (told : ℕ → Option M) : Prop where
  fresh : ∀ n, w.state.messages ≤ n → told n = none
  queue : ∀ m ∈ B.queue w.state, told m.1 = some m.2
  unacked : ∀ m ∈ B.unacked w.state, told m.1 = some m.2
  delivered : ∀ m ∈ w.trace.filterMap B.delivered, told m.1 = some m.2

/-- No number is used twice. -/
theorem Change.numbered (h : B.Change w.state s' ev) {told : ℕ → Option M}
    (hw : B.Numbered w told) : ∃ told', B.Numbered (w.push ev s') told' := by
  cases h with
  | keep hp hd hq hu hn =>
    refine ⟨told, fun n hle => hw.fresh n (hn.trans hle), ?_, ?_, ?_⟩
    · simpa [hq] using hw.queue
    · simpa [hu] using hw.unacked
    · simpa [hd] using hw.delivered
  | @publish m hp hd hq hu hn =>
    have hold {m' : ℕ × M} (h : told m'.1 = some m'.2) :
        Function.update told w.state.messages (some m) m'.1 = some m'.2 := by
      rwa [Function.update_of_ne]
      intro heq
      rw [hw.fresh m'.1 heq.ge] at h
      cases h
    refine ⟨Function.update told w.state.messages (some m), fun n hle => ?_, ?_, ?_, ?_⟩
    · rw [World.push_state, hn] at hle
      rw [Function.update_of_ne (Nat.lt_of_succ_le hle).ne', hw.fresh n (Nat.le_of_succ_le hle)]
    · rw [World.push_state, hq]
      intro m' hm'
      rcases List.mem_append.mp hm' with hm' | hm'
      · exact hold (hw.queue m' hm')
      · rw [List.mem_singleton.mp hm', Function.update_self]
    · rw [World.push_state, hu]
      exact fun m' hm' => hold (hw.unacked m' hm')
    · simpa [hd] using fun m' hm' => hold (hw.delivered m' hm')
  | @deliver m hp hd hmem hq hu hn =>
    have hm : told m.1 = some m.2 := hw.queue m hmem
    refine ⟨told, ?_, ?_, ?_, ?_⟩
    · simpa [hn] using hw.fresh
    · rw [World.push_state, hq]
      exact fun m' hm' => hw.queue m' (List.mem_of_mem_erase hm')
    · rw [World.push_state, hu]
      intro m' hm'
      rcases List.mem_cons.mp hm' with rfl | hm'
      · exact hm
      · exact hw.unacked m' hm'
    · intro m' hm'
      rw [World.push_trace, List.filterMap_append, List.mem_append] at hm'
      rcases hm' with hm' | hm'
      · exact hw.delivered m' hm'
      · obtain rfl : m' = m := by simpa [hd] using hm'
        exact hm
  | @drop seq hp hd hq hu hn =>
    refine ⟨told, ?_, ?_, ?_, ?_⟩
    · simpa [hn] using hw.fresh
    · simpa [hq] using hw.queue
    · rw [World.push_state, hu]
      exact fun m' hm' => hw.unacked m' (List.mem_of_mem_filter hm')
    · simpa [hd] using hw.delivered
  | @requeue m ha hp hd hm hq hu hn =>
    refine ⟨told, ?_, ?_, ?_, ?_⟩
    · simpa [hn] using hw.fresh
    · rw [World.push_state, hq]
      intro m' hm'
      rcases List.mem_cons.mp hm' with rfl | hm'
      · exact hw.unacked m' hm
      · exact hw.queue m' hm'
    · rw [World.push_state, hu]
      exact fun m' hm' => hw.unacked m' (List.mem_of_mem_erase hm')
    · simpa [hd] using hw.delivered

end Queues

/-! ### Steps -/

section Steps

variable {cfg : ServerConfig} {objectHash : ObjectHash} {s s' : State}

lemma Effect.submitUnacked {e : Req} {r : e.Answer} (h : Effect s e r s') :
    s'.submitUnacked = s.submitUnacked := by
  cases h <;> rfl

lemma Effect.confirmUnacked {e : Req} {r : e.Answer} (h : Effect s e r s') :
    s'.confirmUnacked = s.confirmUnacked := by
  cases h <;> rfl

/-- What an answered request does to the queues. -/
lemma change_of_call {t : Tag} {e : Req} {r : e.Answer} (hs : s.apply t e r = some s') :
    submitQueues.Change s s' (.call t e r) ∧ confirmQueues.Change s s' (.call t e r) := by
  have hkeep (hp : submitQueues.published (.call t e r) = none)
      (hp' : confirmQueues.published (.call t e r) = none) :
      submitQueues.Change s s (.call t e r) ∧ confirmQueues.Change s s (.call t e r) :=
    ⟨.keep hp rfl rfl rfl le_rfl, .keep hp' rfl rfl rfl le_rfl⟩
  rcases State.apply_eq_some hs with ⟨he, rfl⟩ | ⟨-, -, hs⟩
  · have hp : submitQueues.published (.call t e r) = none ∧
        confirmQueues.published (.call t e r) = none := by
      rcases he with rfl | rfl <;> exact ⟨rfl, rfl⟩
    cases t with
    | submit seq msg => exact ⟨.drop hp.1 rfl rfl rfl rfl, .keep hp.2 rfl rfl rfl le_rfl⟩
    | confirm seq msg => exact ⟨.keep hp.1 rfl rfl rfl le_rfl, .drop hp.2 rfl rfl rfl rfl⟩
    | _ => exact hkeep hp.1 hp.2
  · cases State.answer_effect hs with
    | publishSubmit => exact ⟨.publish rfl rfl rfl rfl rfl, .keep rfl rfl rfl rfl (Nat.le_succ _)⟩
    | publishConfirm => exact ⟨.keep rfl rfl rfl rfl (Nat.le_succ _), .publish rfl rfl rfl rfl rfl⟩
    | idle hidle =>
      cases e with
      | publishSubmit msg | publishConfirm msg =>
        cases r with
        | ok u => exact hidle.elim
        | error err => exact hkeep rfl rfl
      | _ => exact hkeep rfl rfl
    | _ => exact ⟨.keep rfl rfl rfl rfl le_rfl, .keep rfl rfl rfl rfl le_rfl⟩

/-- What an outside event does to the queues. -/
lemma change_of_ext {x : Delivery} {ps : List (Tag × Prog Req Req.Answer Unit)}
    (h : (atLeastOnce cfg objectHash).accept x s = some (s', ps)) :
    submitQueues.Change s s' (.ext x) ∧ confirmQueues.Change s s' (.ext x) := by
  rcases atLeastOnce_accept cfg objectHash h with ⟨y, rfl, hy⟩ | ⟨seq, msg, rfl, hr, rfl⟩
  · cases State.accept_eq_some hy with
    | enqueue _ =>
      exact ⟨.publish rfl rfl rfl rfl rfl, .keep rfl rfl rfl rfl (Nat.le_succ _)⟩
    | deliverSubmit hm => exact ⟨.deliver rfl rfl hm rfl rfl rfl, .keep rfl rfl rfl rfl le_rfl⟩
    | deliverConfirm hm => exact ⟨.keep rfl rfl rfl rfl le_rfl, .deliver rfl rfl hm rfl rfl rfl⟩
    | _ => exact ⟨.keep rfl rfl rfl rfl le_rfl, .keep rfl rfl rfl rfl le_rfl⟩
  · obtain ⟨hmem, rfl⟩ := requeue_eq_some hr
    exact ⟨.keep rfl rfl rfl rfl le_rfl, .requeue trivial rfl rfl hmem rfl rfl rfl⟩

/-- What holds of the world is kept by every step if it is kept by what may happen to the queues. -/
lemma queues_invariant {P : ServerWorld → Prop} {c : RedeliveryConfig}
    (hkeep : ∀ w ev s', submitQueues.Change w.state s' ev → confirmQueues.Change w.state s' ev →
      P w → P (w.push ev s'))
    (hstart : P (Config.start State.start : RedeliveryConfig).world)
    (h : Reach (atLeastOnce cfg objectHash) .start c) : P c.world := by
  induction h with
  | refl => exact hstart
  | tail _ hstep ih =>
    cases hstep with
    | call hs => exact hkeep _ _ _ (change_of_call hs).1 (change_of_call hs).2 ih
    | fork | left | right | done => exact ih
    | ext hs => exact hkeep _ _ _ (change_of_ext hs).1 (change_of_ext hs).2 ih

lemma submit_numbered (h : Reach (atLeastOnce cfg objectHash) .start c) :
    ∃ told, submitQueues.Numbered c.world told := by
  refine queues_invariant (P := fun w => ∃ told, submitQueues.Numbered w told) ?_ ?_ h
  · rintro w ev s' hsubmit - ⟨told, hw⟩
    exact hsubmit.numbered hw
  · exact ⟨fun _ => none, fun _ _ => rfl, by simp [submitQueues, Config.start, State.start],
      by simp [submitQueues, Config.start, State.start], by simp [Config.start]⟩

end Steps

end HybridLog
