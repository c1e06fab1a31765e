import HybridLog.System.Steps

/-!
# Redelivery of confirm messages

A broker that has not got the acknowledgement of a message may deliver it again. Here it puts a
delivered confirm message back into its queue whenever it likes; the handler of the first delivery
may have got anywhere by then, or still be running.

Messages are numbered when they are published, so what is delivered is one message published once.
-/

namespace HybridLog

open Js Async

/-- The outside events of a server whose broker redelivers. -/
inductive Delivery
  | server (x : External)
  | requeue (seq : ℕ) (msg : ConfirmMessage)

/-- Deliveries are compared by what they are. -/
instance lawfulBEq_delivery : LawfulBEq (ℕ × ConfirmMessage) := inferInstance

def State.requeue (s : State) (seq : ℕ) (msg : ConfirmMessage) : Option State :=
  if (seq, msg) ∈ s.confirmUnacked then
    some { s with
      confirmUnacked := s.confirmUnacked.erase (seq, msg)
      confirmQueue := (seq, msg) :: s.confirmQueue }
  else none

variable (cfg : ServerConfig) (objectHash : ObjectHash)

/-- The server with a broker that delivers confirm messages at least once. -/
def atLeastOnce : Machine Req Req.Answer Tag Delivery State where
  apply := State.apply
  accept
    | .server x, s => s.accept cfg objectHash x
    | .requeue seq msg, s => (s.requeue seq msg).map fun s' => (s', [])

abbrev RedeliveryTrace := Trace Req Req.Answer Tag Delivery

abbrev RedeliveryConfig := Async.Config Req Req.Answer Tag Delivery State

lemma requeue_eq_some {s s' : State} {seq : ℕ} {msg : ConfirmMessage}
    (h : s.requeue seq msg = some s') :
    (seq, msg) ∈ s.confirmUnacked ∧ s' = { s with
      confirmUnacked := s.confirmUnacked.erase (seq, msg)
      confirmQueue := (seq, msg) :: s.confirmQueue } := by
  rw [State.requeue] at h
  split at h
  · next hmem => exact ⟨hmem, (Option.some.inj h).symm⟩
  · cases h

/-- A redelivery starts no program by itself. -/
lemma atLeastOnce_accept {x : Delivery} {s s' : State}
    {ps : List (Tag × Prog Req Req.Answer Unit)}
    (h : (atLeastOnce cfg objectHash).accept x s = some (s', ps)) :
    (∃ y, x = .server y ∧ s.accept cfg objectHash y = some (s', ps)) ∨
      ∃ seq msg, x = .requeue seq msg ∧ s.requeue seq msg = some s' ∧ ps = [] := by
  cases x with
  | server y => exact .inl ⟨y, rfl, h⟩
  | requeue seq msg =>
    obtain ⟨s₁, hs, heq⟩ := Option.map_eq_some_iff.mp h
    cases heq
    exact .inr ⟨seq, msg, rfl, hs, rfl⟩

lemma atLeastOnce_faithful : Faithful (atLeastOnce cfg objectHash) where
  apply h := (system_faithful cfg objectHash).apply h
  accept {x s s' ps} h := by
    rcases atLeastOnce_accept cfg objectHash h with ⟨y, rfl, hy⟩ | ⟨seq, msg, rfl, hs, rfl⟩
    · exact (system_faithful cfg objectHash).accept hy
    · obtain ⟨-, rfl⟩ := requeue_eq_some hs
      exact ⟨fun _ => .refl _, .refl _, .refl _, fun _ _ h => h⟩

variable {cfg objectHash}

theorem atLeastOnce_guarded {s₀ : State} {c : RedeliveryConfig}
    (h : Reach (atLeastOnce cfg objectHash) s₀ c) :
    Guarded (ServerStep .server cfg) c.world.trace := by
  refine (Run.guarded ?_ h Guarded.nil ?_).1
  · intro tr x s s' ps hx p hp
    rcases atLeastOnce_accept cfg objectHash hx with ⟨y, rfl, hy⟩ | ⟨seq, msg, rfl, hs, rfl⟩
    · exact accept_follows .server cfg objectHash hy tr p hp
    · cases hp
  · simp [Config.start]

/-! ### Published messages -/

/-- The event publishes a message. -/
def publishes : Event Req Req.Answer Tag Delivery → Bool
  | .call _ (.publishSubmit _) (Except.ok ()) | .call _ (.publishConfirm _) (Except.ok ())
  | .ext (.server (.enqueue _)) => true
  | _ => false

/-- A message is the `seq`th one published, and it has been published by a request of `t`. -/
def Published (tr : RedeliveryTrace) (t : Tag) (seq : ℕ) (msg : ConfirmMessage) : Prop :=
  ∃ pre post, tr = pre ++ .call t (.publishConfirm msg) (Except.ok ()) :: post ∧
    pre.countP publishes = seq

lemma Published.later {tr tr' : RedeliveryTrace} {t : Tag} {seq : ℕ} {msg : ConfirmMessage}
    (h : Published tr t seq msg) (htr : tr <+: tr') : Published tr' t seq msg := by
  obtain ⟨pre, post, rfl, hseq⟩ := h
  obtain ⟨more, rfl⟩ := htr
  exact ⟨pre, post ++ more, by simp, hseq⟩

/-- A place in a trace is found by the number of its message. -/
lemma split_unique {tr pre post pre' post' : RedeliveryTrace}
    {ev ev' : Event Req Req.Answer Tag Delivery} (h : tr = pre ++ ev :: post)
    (h' : tr = pre' ++ ev' :: post') (hev : publishes ev = true) (hev' : publishes ev' = true)
    (hcount : pre.countP publishes = pre'.countP publishes) : pre = pre' ∧ ev = ev' := by
  subst h
  rcases List.append_eq_append_iff.mp h' with ⟨mid, rfl, hmid⟩ | ⟨mid, rfl, hmid⟩
  · cases mid with
    | nil => exact ⟨(List.append_nil _).symm, (List.cons.inj hmid).1⟩
    | cons x mid =>
      obtain ⟨rfl, -⟩ := List.cons.inj hmid
      simp [hev] at hcount
  · cases mid with
    | nil => exact ⟨List.append_nil _, (List.cons.inj hmid).1.symm⟩
    | cons x mid =>
      obtain ⟨rfl, -⟩ := List.cons.inj hmid
      simp [hev'] at hcount

lemma Published.unique {tr : RedeliveryTrace} {t t' : Tag} {seq : ℕ} {msg msg' : ConfirmMessage}
    (h : Published tr t seq msg) (h' : Published tr t' seq msg') : msg = msg' := by
  obtain ⟨pre, post, hsplit, hseq⟩ := h
  obtain ⟨pre', post', hsplit', hseq'⟩ := h'
  have heq := (split_unique hsplit hsplit' rfl rfl (hseq.trans hseq'.symm)).2
  cases heq
  rfl

/-- What the queues and the handlers of confirm messages have was published. -/
structure Delivers (s : State) (tr : RedeliveryTrace) : Prop where
  messages : s.messages = tr.countP publishes
  queue : ∀ seq msg, (seq, msg) ∈ s.confirmQueue → ∃ t, Published tr t seq msg
  unacked : ∀ seq msg, (seq, msg) ∈ s.confirmUnacked → ∃ t, Published tr t seq msg
  delivered : ∀ seq msg, .ext (.server (.deliverConfirm seq msg)) ∈ tr → ∃ t, Published tr t seq msg

/-- One more event: what is new in the queue has been put back or is published just now. -/
lemma Delivers.push {s s' : State} {tr : RedeliveryTrace} {ev : Event Req Req.Answer Tag Delivery}
    (h : Delivers s tr) (hmessages : s'.messages = s.messages + if publishes ev then 1 else 0)
    (hqueue : ∀ seq msg, (seq, msg) ∈ s'.confirmQueue → (seq, msg) ∈ s.confirmQueue ∨
      (seq, msg) ∈ s.confirmUnacked ∨
        seq = s.messages ∧ ∃ t, ev = .call t (.publishConfirm msg) (Except.ok ()))
    (hunacked : ∀ seq msg, (seq, msg) ∈ s'.confirmUnacked → (seq, msg) ∈ s.confirmUnacked ∨
      (seq, msg) ∈ s.confirmQueue)
    (hdelivered : ∀ seq msg, ev = .ext (.server (.deliverConfirm seq msg)) →
      (seq, msg) ∈ s.confirmQueue) : Delivers s' (tr ++ [ev]) := by
  have hlater {seq : ℕ} {msg : ConfirmMessage} (hp : ∃ t, Published tr t seq msg) :
      ∃ t, Published (tr ++ [ev]) t seq msg := by
    obtain ⟨t, hp⟩ := hp
    exact ⟨t, hp.later (List.prefix_append _ _)⟩
  constructor
  · rw [hmessages, h.messages, List.countP_append, List.countP_singleton]
  · intro seq msg hm
    rcases hqueue seq msg hm with hm | hm | ⟨rfl, t, rfl⟩
    · exact hlater (h.queue seq msg hm)
    · exact hlater (h.unacked seq msg hm)
    · exact ⟨t, tr, [], rfl, h.messages.symm⟩
  · intro seq msg hm
    rcases hunacked seq msg hm with hm | hm
    · exact hlater (h.unacked seq msg hm)
    · exact hlater (h.queue seq msg hm)
  · intro seq msg hm
    rcases List.mem_append.mp hm with hm | hm
    · exact hlater (h.delivered seq msg hm)
    · exact hlater (h.queue seq msg (hdelivered seq msg (List.mem_singleton.mp hm).symm))

/-- An event that leaves the confirm queues and the numbering alone. -/
lemma Delivers.skip {s s' : State} {tr : RedeliveryTrace} {ev : Event Req Req.Answer Tag Delivery}
    (h : Delivers s tr) (hev : publishes ev = false) (hmessages : s'.messages = s.messages)
    (hqueue : s'.confirmQueue = s.confirmQueue)
    (hunacked : ∀ m ∈ s'.confirmUnacked, m ∈ s.confirmUnacked)
    (hdelivered : ∀ seq msg, ev ≠ .ext (.server (.deliverConfirm seq msg))) :
    Delivers s' (tr ++ [ev]) := by
  apply h.push
  · rw [hmessages, if_neg (by simp [hev]), add_zero]
  · exact fun seq msg hm => .inl (hqueue ▸ hm)
  · exact fun seq msg hm => .inl (hunacked _ hm)
  · exact fun seq msg heq => absurd heq (hdelivered seq msg)

lemma Delivers.call {s s' : State} {tr : RedeliveryTrace} {t : Tag} {e : Req} {r : e.Answer}
    (h : Delivers s tr) (hs : s.apply t e r = some s') : Delivers s' (tr ++ [.call t e r]) := by
  rcases State.apply_eq_some hs with ⟨he, rfl⟩ | ⟨_, _, hs⟩
  · apply h.skip
    · rcases he with rfl | rfl <;> rfl
    · cases t <;> rfl
    · cases t <;> rfl
    · intro m hm
      cases t with
      | confirm seq msg => exact (List.mem_filter.mp hm).1
      | _ => exact hm
    · simp
  · cases State.answer_effect hs with
    | publishSubmit =>
      apply h.push rfl
      · exact fun seq msg hm => .inl hm
      · exact fun seq msg hm => .inl hm
      · simp
    | publishConfirm =>
      apply h.push rfl
      · intro seq msg hm
        rcases List.mem_append.mp hm with hm | hm
        · exact .inl hm
        · cases List.mem_singleton.mp hm
          exact .inr (.inr ⟨rfl, t, rfl⟩)
      · exact fun seq msg hm => .inl hm
      · simp
    | idle hidle =>
      apply h.skip _ rfl rfl (fun _ hm => hm) (by simp)
      cases e with
      | publishSubmit msg | publishConfirm msg =>
        cases r with
        | ok u => exact hidle.elim
        | error err => rfl
      | _ => rfl
    | _ => exact h.skip rfl rfl rfl (fun _ hm => hm) (by simp)

lemma Delivers.server {s s' : State} {tr : RedeliveryTrace} {x : External}
    {ps : List (Tag × Prog Req Req.Answer Unit)} (h : Delivers s tr)
    (hx : s.accept cfg objectHash x = some (s', ps)) :
    Delivers s' (tr ++ [.ext (.server x)]) := by
  cases x with
  | post req id timestamp =>
    simp only [State.accept] at hx
    split at hx
    · cases hx
      exact h.skip rfl rfl rfl (fun _ hm => hm) (by simp)
    · cases hx
  | enqueue msg =>
    simp only [State.accept] at hx
    split at hx
    · cases hx
      apply h.push rfl
      · exact fun seq msg hm => .inl hm
      · exact fun seq msg hm => .inl hm
      · simp
    · cases hx
  | expire key batch =>
    simp only [State.accept] at hx
    split at hx
    · cases hx
      exact h.skip rfl rfl rfl (fun _ hm => hm) (by simp)
    · cases hx
  | deliverSubmit seq msg =>
    simp only [State.accept] at hx
    split at hx
    · cases hx
      exact h.skip rfl rfl rfl (fun _ hm => hm) (by simp)
    · cases hx
  | deliverConfirm seq msg =>
    simp only [State.accept] at hx
    split at hx
    · next hmem =>
      cases hx
      apply h.push rfl
      · exact fun seq' msg' hm => .inl (List.mem_of_mem_erase hm)
      · intro seq' msg' hm
        rcases List.mem_cons.mp hm with heq | hm
        · cases heq
          exact .inr hmem
        · exact .inl hm
      · intro seq' msg' heq
        cases heq
        exact hmem
    · cases hx
  | chain x =>
    obtain ⟨s₁, hs, heq⟩ := Option.map_eq_some_iff.mp hx
    cases heq
    cases x with
    | commit _ | nextBlock _ | mine _ _ =>
      obtain ⟨n, _, rfl⟩ := Option.map_eq_some_iff.mp hs
      exact h.skip rfl rfl rfl (fun _ hm => hm) (by simp)

/-- Whatever is delivered, however often, has been published. -/
theorem delivers {c : RedeliveryConfig} (h : Reach (atLeastOnce cfg objectHash) .start c) :
    Delivers c.world.state c.world.trace := by
  induction h with
  | refl =>
    constructor
    · rfl
    · intro seq msg hm
      cases hm
    · intro seq msg hm
      cases hm
    · intro seq msg hm
      cases hm
  | tail _ hstep ih =>
    cases hstep with
    | call hs => exact ih.call hs
    | fork => exact ih
    | left => exact ih
    | right => exact ih
    | done => exact ih
    | ext hs =>
      rcases atLeastOnce_accept cfg objectHash hs with ⟨y, rfl, hy⟩ | ⟨seq, msg, rfl, hr, rfl⟩
      · exact ih.server hy
      · obtain ⟨hmem, rfl⟩ := requeue_eq_some hr
        apply ih.push rfl
        · intro seq' msg' hm
          rcases List.mem_cons.mp hm with heq | hm
          · cases heq
            exact .inr (.inl hmem)
          · exact .inl hm
        · exact fun seq' msg' hm => .inl (List.mem_of_mem_erase hm)
        · simp

end HybridLog
