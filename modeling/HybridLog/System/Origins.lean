import HybridLog.System.Redelivery

/-!
# Where entries come from

Unless somebody else publishes to its submit queues, what the server writes was posted to it: the
entries in the buffers and in the queues are as the requests have made them.
-/

namespace HybridLog

open Js Async

/-! ### Fresh entries -/

/-- An entry as a request makes it. No hash has been put into it. -/
structure LogEntry.Fresh (e : LogEntry) : Prop where
  id : e.id.length = 36
  level : Small e.level
  dataHash : e.dataHash = []

/-- A batch as a writer hands it over. -/
structure FreshBatch (batch : List PendingEntry) : Prop where
  fresh : ∀ p ∈ batch, p.entry.Fresh
  length : batch.length ≤ batchSize

/-- A buffer that is not full. -/
structure BatchWriter.Fresh (w : BatchWriter) : Prop where
  fresh : ∀ p ∈ w.buffer, p.entry.Fresh
  length : w.buffer.length < batchSize

/-- The message carries one entry. -/
def SubmitMessage.Fresh (msg : SubmitMessage) : Prop :=
  ∃ e : LogEntry, e.Fresh ∧ msg.body = .entry (toDTO e)

lemma LogEntry.Fresh.isDigest {e : LogEntry} (h : e.Fresh) (sha : Sha256) :
    IsDigest (sha.leafHash e) := by
  rw [Sha256.leafHash, if_pos h.dataHash]
  exact sha.isDigest_computeLogHash e

/-- The way through a queue changes the metadata only. -/
lemma LogEntry.Fresh.queued {e : LogEntry} (h : e.Fresh) : e.queued.Fresh :=
  ⟨h.id, h.level, h.dataHash⟩

lemma PostRequest.fresh_entry {req : PostRequest} {id : JsString} (timestamp : JsDate)
    (hid : id.length = 36) (hfits : req.Fits) : (req.entry id timestamp).Fresh :=
  ⟨hid, hfits.level, rfl⟩

lemma BatchWriter.Fresh.empty : BatchWriter.Fresh .empty := by
  constructor
  · intro p hp
    cases hp
  · decide

lemma BatchWriter.Fresh.write {w : BatchWriter} (h : w.Fresh) {p : PendingEntry}
    (hp : p.entry.Fresh) :
    (w.write batchSize p).1.Fresh ∧ FreshBatch (w.write batchSize p).2 := by
  have hall : ∀ q ∈ w.buffer ++ [p], q.entry.Fresh := by
    intro q hq
    rcases List.mem_append.mp hq with hq | hq
    · exact h.fresh q hq
    · rw [List.mem_singleton.mp hq]
      exact hp
  have hlen := h.length
  rw [BatchWriter.write]
  split
  · refine ⟨.empty, hall, ?_⟩
    simp only [BatchWriter.flush, List.length_append, List.length_singleton]
    omega
  · next hroom =>
    refine ⟨⟨hall, not_le.mp hroom⟩, ?_, Nat.zero_le _⟩
    simp

lemma BatchWriter.Fresh.expire {w : BatchWriter} (h : w.Fresh) : FreshBatch w.expire.2 :=
  ⟨h.fresh, h.length.le⟩

/-! ### The invariant -/

/-- Nobody else publishes to the submit queues. -/
def Undisturbed (tr : RedeliveryTrace) : Prop := ∀ msg, .ext (.server (.enqueue msg)) ∉ tr

lemma Undisturbed.mono {tr tr' : RedeliveryTrace} (h : Undisturbed tr') (htr : tr <+: tr') :
    Undisturbed tr := fun msg hmsg => h msg (htr.subset hmsg)

/-- What an event brings in is fresh. -/
def FreshEvent : Event Req Req.Answer Tag Delivery → Prop
  | .ext (.server (.post req id timestamp)) => (req.entry id timestamp).Fresh
  | .ext (.server (.expire _ batch)) => FreshBatch batch
  | .ext (.server (.deliverSubmit _ msg)) => msg.Fresh
  | .call _ (.buffer ..) (_, batch) => FreshBatch batch
  | _ => True

/-- Everything on its way to a storage was posted. -/
structure FromPosts (s : State) (tr : RedeliveryTrace) : Prop where
  events : ∀ ev ∈ tr, FreshEvent ev
  writers : ∀ key, (s.writers key).Fresh
  queue : ∀ seq msg, (seq, msg) ∈ s.submitQueue → msg.Fresh

lemma FromPosts.start : FromPosts .start [] := by
  constructor
  · intro ev hev
    cases hev
  · exact fun _ => .empty
  · intro seq msg hmsg
    cases hmsg

lemma FromPosts.push {s s' : State} {tr : RedeliveryTrace} {ev : Event Req Req.Answer Tag Delivery}
    (h : FromPosts s tr) (hev : FreshEvent ev) (hwriters : ∀ key, (s'.writers key).Fresh)
    (hqueue : ∀ seq msg, (seq, msg) ∈ s'.submitQueue → msg.Fresh) : FromPosts s' (tr ++ [ev]) := by
  refine ⟨fun ev' hev' => ?_, hwriters, hqueue⟩
  rcases List.mem_append.mp hev' with hold | hnew
  · exact h.events ev' hold
  · rw [List.mem_singleton.mp hnew]
    exact hev

lemma FreshEvent.idle {t : Tag} {e : Req} {r : e.Answer} (h : e.Idle r) :
    FreshEvent (.call t e r) := by
  cases e with
  | buffer key entry => exact h.elim
  | _ => trivial

variable {cfg : ServerConfig} {objectHash : ObjectHash}

/-- An entry is buffered by its own request. -/
lemma ServerStep.buffered {t : Tag} {key : WriterKey} {entry : LogEntry} {tr : RedeliveryTrace}
    (h : ServerStep .server cfg t (.buffer key entry) tr) : ∃ req id timestamp,
      .ext (.server (.post req id timestamp)) ∈ tr ∧ entry = req.entry id timestamp := by
  cases h.own (by simp [Req.OfStorage]) with
  | buffer hx _ => exact ⟨_, _, _, hx, rfl⟩

/-- An entry is published by its own request. -/
lemma ServerStep.published {t : Tag} {msg : SubmitMessage} {tr : RedeliveryTrace}
    (h : ServerStep .server cfg t (.publishSubmit msg) tr) : ∃ req id timestamp,
      .ext (.server (.post req id timestamp)) ∈ tr ∧
        msg.body = .entry (toDTO (req.entry id timestamp)) := by
  cases h.own (by simp [Req.OfStorage]) with
  | enqueue hx _ _ => exact ⟨_, _, _, hx, rfl⟩

/-- What a request does to the writers and to the submit queue. -/
lemma FromPosts.call {s s' : State} {tr : RedeliveryTrace} {t : Tag} {e : Req} {r : e.Answer}
    (h : FromPosts s tr) (hs : s.apply t e r = some s') (hstep : ServerStep .server cfg t e tr) :
    FromPosts s' (tr ++ [.call t e r]) := by
  rcases State.apply_eq_some hs with ⟨he, rfl⟩ | ⟨-, -, hs⟩
  · apply h.push
    · rcases he with rfl | rfl <;> trivial
    · cases t <;> exact h.writers
    · cases t <;> exact h.queue
  cases State.answer_effect hs with
  | @buffer key entry =>
    obtain ⟨req, id, timestamp, hpost, rfl⟩ := hstep.buffered
    have hwrite := (h.writers key).write (p := ⟨_, s.promises⟩) (h.events _ hpost)
    apply h.push
    · exact hwrite.2
    · intro key'
      by_cases hkey : key' = key
      · subst hkey
        simp only [State.buffer, Function.update_self]
        exact hwrite.1
      · simp only [State.buffer, Function.update_of_ne hkey]
        exact h.writers key'
    · exact h.queue
  | @publishSubmit msg =>
    obtain ⟨req, id, timestamp, hpost, hbody⟩ := hstep.published
    apply h.push
    · trivial
    · exact h.writers
    · intro seq msg' hmsg
      rcases List.mem_append.mp hmsg with hmsg | hmsg
      · exact h.queue seq msg' hmsg
      · cases List.mem_singleton.mp hmsg
        exact ⟨_, h.events _ hpost, hbody⟩
  | idle hidle => exact h.push (.idle hidle) h.writers h.queue
  | _ => exact h.push trivial h.writers h.queue

lemma FromPosts.server {s s' : State} {tr : RedeliveryTrace} {x : External}
    {ps : List (Tag × Prog Req Req.Answer Unit)} (h : FromPosts s tr)
    (hs : s.accept cfg objectHash x = some (s', ps)) (hx : ∀ msg, x ≠ .enqueue msg) :
    FromPosts s' (tr ++ [.ext (.server x)]) := by
  cases x with
  | post req id timestamp =>
    simp only [State.accept] at hs
    split at hs
    · next hreq =>
      cases hs
      exact h.push (PostRequest.fresh_entry timestamp hreq.2.1 hreq.2.2) h.writers h.queue
    · cases hs
  | enqueue msg => exact absurd rfl (hx msg)
  | expire key batch =>
    simp only [State.accept] at hs
    split at hs
    · next hkey =>
      cases hs
      apply h.push
      · show FreshBatch batch
        rw [hkey.2]
        exact (h.writers key).expire
      · intro key'
        by_cases heq : key' = key
        · subst heq
          simpa [BatchWriter.expire, BatchWriter.flush] using BatchWriter.Fresh.empty
        · simpa [heq] using h.writers key'
      · exact h.queue
    · cases hs
  | deliverSubmit seq msg =>
    simp only [State.accept] at hs
    split at hs
    · next hmem =>
      cases hs
      apply h.push
      · exact h.queue seq msg hmem
      · exact h.writers
      · exact fun seq' msg' hmsg => h.queue seq' msg' (List.mem_of_mem_erase hmsg)
    · cases hs
  | deliverConfirm seq msg =>
    simp only [State.accept] at hs
    split at hs
    · cases hs
      exact h.push trivial h.writers h.queue
    · cases hs
  | chain x =>
    obtain ⟨s₁, hs₁, heq⟩ := Option.map_eq_some_iff.mp hs
    cases heq
    cases x with
    | commit _ | nextBlock _ | mine _ _ =>
      obtain ⟨n, _, rfl⟩ := Option.map_eq_some_iff.mp hs₁
      exact h.push trivial h.writers h.queue

/-- Whatever is on its way to a storage was posted. -/
theorem from_posts {c : RedeliveryConfig} (h : Reach (atLeastOnce cfg objectHash) .start c)
    (hown : Undisturbed c.world.trace) : FromPosts c.world.state c.world.trace := by
  induction h with
  | refl => exact .start
  | tail hreach hstep ih =>
    have h := ih (hown.mono hstep.trace_le)
    have hguard := atLeastOnce_guarded (hreach.tail hstep)
    cases hstep with
    | call hs => exact h.call hs (hguard _ _ _ _ [] rfl)
    | fork | left | right | done => exact h
    | ext hs =>
      rcases atLeastOnce_accept cfg objectHash hs with ⟨y, rfl, hy⟩ | ⟨seq, msg, rfl, hr, rfl⟩
      · apply h.server hy
        rintro msg rfl
        exact hown msg (by simp)
      · obtain ⟨-, rfl⟩ := requeue_eq_some hr
        exact h.push trivial h.writers h.queue

/-- A batch that is flushed is fresh. -/
lemma Flushes.fresh {tr : RedeliveryTrace} {t : Tag} {key : WriterKey} {batch : List PendingEntry}
    (h : Flushes .server tr t key batch) (hevents : ∀ ev ∈ tr, FreshEvent ev) :
    FreshBatch batch := by
  cases h with
  | full hb => exact hevents _ hb
  | timer hx => exact hevents _ hx

/-- What a program of the server handles is fresh. -/
def Tag.Fresh : Tag → Prop
  | .post _ entry => entry.Fresh
  | .flush _ batch => FreshBatch batch
  | .submit _ msg => msg.Fresh
  | .confirm .. => True

lemma Begun.fresh {s : State} {tr : RedeliveryTrace} {t : Tag} (h : FromPosts s tr)
    (hbegun : Begun .server tr t) : t.Fresh := by
  cases hbegun with
  | post hx => exact h.events _ hx
  | flush hx => exact h.events _ hx
  | submit hx => exact h.events _ hx
  | confirm _ => trivial

end HybridLog
