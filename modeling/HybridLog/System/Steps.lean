import HybridLog.Api.Steps
import HybridLog.System.Effects

/-!
# What the server does

Every request of a run of the server is one its program may make, after what the program has seen.
Messages that are delivered have been published.
-/

namespace HybridLog

open Js Async

/-- A trace of the server. -/
abbrev ServerTrace := Trace Req Req.Answer Tag External

/-! ### Programs that have begun

The outside events of the server may be some among others; `outside` finds them. -/

section Begun

variable {X : Type} (outside : External → X)

/-- What has started a program. -/
inductive Begun (tr : Trace Req Req.Answer Tag X) : Tag → Prop
  | post {req : PostRequest} {id : JsString} {timestamp : JsDate}
    (h : .ext (outside (.post req id timestamp)) ∈ tr) :
    Begun tr (.post req (req.entry id timestamp))
  | flush {key : WriterKey} {batch : List PendingEntry}
    (h : .ext (outside (.expire key batch)) ∈ tr) : Begun tr (.flush key batch)
  | submit {seq : ℕ} {msg : SubmitMessage} (h : .ext (outside (.deliverSubmit seq msg)) ∈ tr) :
    Begun tr (.submit seq msg)
  | confirm {seq : ℕ} {msg : ConfirmMessage} (h : .ext (outside (.deliverConfirm seq msg)) ∈ tr) :
    Begun tr (.confirm seq msg)

variable {outside} in
lemma Begun.later {tr tr' : Trace Req Req.Answer Tag X} {t : Tag} (h : Begun outside tr t)
    (htr : tr <+: tr') : Begun outside tr' t := by
  cases h with
  | post h => exact .post (htr.subset h)
  | flush h => exact .flush (htr.subset h)
  | submit h => exact .submit (htr.subset h)
  | confirm h => exact .confirm (htr.subset h)

variable (cfg : ServerConfig)

/-- The requests of the programs of the server. -/
def TagStep : Guard Req Req.Answer Tag X
  | .post req entry => PostStep cfg req entry (.post req entry)
  | .flush key batch => FlushStep cfg key batch (.flush key batch)
  | .submit seq msg => SubmitStep cfg msg.strategy msg (.submit seq msg)
  | .confirm seq msg => ConfirmStep cfg msg.strategy msg (.confirm seq msg)

/-- The requests of a run of the server. -/
structure ServerStep (t : Tag) (e : Req) (tr : Trace Req Req.Answer Tag X) : Prop where
  begun : Begun outside tr t
  step : TagStep cfg t e tr

/-! ### Requests of a storage -/

/-- A request of a storage comes from a write, or from a confirmation. -/
inductive StorageStep (t : Tag) (e : Req) (tr : Trace Req Req.Answer Tag X) : Prop
  | looks (h : e.Looks)
  | log {st : Storage} {entry : LogEntry} {opts : Option WriteOpts}
    (h : Storage.LogStep cfg opts entry t st e tr)
  | batch {st : Storage} {entries : List LogEntry} {opts : Option WriteOpts}
    (h : Storage.BatchStep cfg opts entries t st e tr)
  | update {strategy : LogStrategy} {raw : ConfirmMessage} (h : UpdateStep cfg strategy raw t e tr)

variable {cfg} in
lemma FlushStep.storage {t : Tag} {key : WriterKey} {batch : List PendingEntry} {e : Req}
    {tr : Trace Req Req.Answer Tag X} (h : FlushStep cfg key batch t e tr) (he : e.OfStorage) :
    StorageStep cfg t e tr := by
  cases h with
  | batch _ h => exact .batch h
  | log _ _ _ h => exact .log h
  | now => exact .looks trivial
  | settle | reject | handOver => exact he.elim

variable {cfg} in
lemma TagStep.storage {t : Tag} {e : Req} {tr : Trace Req Req.Answer Tag X}
    (h : TagStep cfg t e tr) (he : e.OfStorage) : StorageStep cfg t e tr := by
  cases t with
  | post req entry => cases h with
    | now => exact .looks trivial
    | flush _ _ _ h => exact h.storage he
    | write _ _ _ h => exact .log h
    | enqueue | buffer | await | respond => exact he.elim
  | flush key batch => exact FlushStep.storage h he
  | submit seq msg => cases h with
    | write h =>
      generalize msg.body = body at h
      cases h with
      | entry _ h => exact .log h
      | entries _ h => exact .batch h
    | handOver | reply | ack => exact he.elim
  | confirm seq msg => cases h with
    | update h => exact .update h
    | reply | ack => exact he.elim

/-! ### Requests of the programs themselves

What a storage does is told by the guards of the storage. The other requests are few. -/

/-- A program flushes a batch, since the batch has become full or the timer has expired. -/
inductive Flushes (tr : Trace Req Req.Answer Tag X) : Tag → WriterKey → List PendingEntry → Prop
  | full {req : PostRequest} {entry : LogEntry} {promise : ℕ} {batch : List PendingEntry}
    (h : Did (.post req entry) (.buffer req.writerKey entry) (promise, batch) tr) :
    Flushes tr (.post req entry) req.writerKey batch
  | timer {key : WriterKey} {batch : List PendingEntry}
    (h : .ext (outside (.expire key batch)) ∈ tr) : Flushes tr (.flush key batch) key batch

inductive OwnStep (tr : Trace Req Req.Answer Tag X) : Tag → Req → Prop
  | enqueue {req : PostRequest} {id : JsString} {timestamp : JsDate} {s : LogStrategy}
    {enqueuedAt : ℕ} (hx : .ext (outside (.post req id timestamp)) ∈ tr)
    (h : req.queuedMode? cfg = some (.strategy s)) (hs : s ≠ .databaseOnly) :
    OwnStep tr (.post req (req.entry id timestamp)) (.publishSubmit
      ⟨.entry (toDTO (req.entry id timestamp)), s, req.db, (req.entry id timestamp).id, none,
        enqueuedAt⟩)
  | buffer {req : PostRequest} {id : JsString} {timestamp : JsDate}
    (hx : .ext (outside (.post req id timestamp)) ∈ tr) (hm : req.writeMode = .batch) :
    OwnStep tr (.post req (req.entry id timestamp))
      (.buffer req.writerKey (req.entry id timestamp))
  | await {req : PostRequest} {entry : LogEntry} {promise : ℕ} {batch : List PendingEntry}
    (h : Did (.post req entry) (.buffer req.writerKey entry) (promise, batch) tr) :
    OwnStep tr (.post req entry) (.await promise)
  | respond {req : PostRequest} {entry : LogEntry} {reply : Reply}
    (h : Replied cfg req entry (.post req entry) tr reply) :
    OwnStep tr (.post req entry) (.respond reply)
  | settle {t : Tag} {key : WriterKey} {batch : List PendingEntry} {a : Answer}
    (hf : Flushes outside tr t key batch) (h : FlushResult cfg key batch t tr a) :
    OwnStep tr t (.settle (settlements batch (.ok a)))
  | reject {t : Tag} {key : WriterKey} {batch : List PendingEntry} {err : JsError}
    (hf : Flushes outside tr t key batch) : OwnStep tr t (.settle (settlements batch (.error err)))
  | flushed {t : Tag} {key : WriterKey} {batch : List PendingEntry} {s : LogStrategy}
    {r : BatchWriteResult} {txHash : TxHash} {enqueuedAt : ℕ}
    (hf : Flushes outside tr t key batch) (hs : key.strategy = .strategy s)
    (h : FlushResult cfg key batch t tr (.batch r)) (htx : r.txId = some txHash) :
    OwnStep tr t (.publishConfirm (flushMessage key s r txHash enqueuedAt))
  | handOver {seq : ℕ} {msg : SubmitMessage} {logId : JsString} {txHash : TxHash}
    (h : HandsOver cfg msg.strategy msg (.submit seq msg) tr logId txHash) :
    OwnStep tr (.submit seq msg) (.publishConfirm (confirmMessage msg.strategy msg logId txHash))
  | reply {t : Tag} {queue : JsString} {msg : ResultMessage} :
    OwnStep tr t (.publishReply queue msg)
  | submitAck {seq : ℕ} {msg : SubmitMessage}
    (h : SubmitEnd cfg msg.strategy msg (.submit seq msg) tr) : OwnStep tr (.submit seq msg) .ack
  | confirmAck {seq : ℕ} {msg : ConfirmMessage}
    (h : ConfirmEnd cfg msg.strategy msg (.confirm seq msg) tr) :
    OwnStep tr (.confirm seq msg) .ack

variable {outside cfg}

lemma FlushStep.own {t : Tag} {key : WriterKey} {batch : List PendingEntry} {e : Req}
    {tr : Trace Req Req.Answer Tag X} (h : FlushStep cfg key batch t e tr)
    (hf : Flushes outside tr t key batch) (he : ¬e.OfStorage) : OwnStep outside cfg tr t e := by
  cases h with
  | batch _ h => exact absurd h.ofStorage he
  | log _ _ _ h => exact absurd h.ofStorage he
  | settle h => exact .settle hf h
  | reject => exact .reject hf
  | now => exact absurd trivial he
  | handOver hs h htx _ => exact .flushed hf hs h htx

/-- A request is one that a storage may make, or the program has its own reason for it. -/
theorem ServerStep.own {t : Tag} {e : Req} {tr : Trace Req Req.Answer Tag X}
    (h : ServerStep outside cfg t e tr) (he : ¬e.OfStorage) : OwnStep outside cfg tr t e := by
  obtain ⟨hbegun, h⟩ := h
  cases hbegun with
  | post hx => cases h with
    | now => exact absurd trivial he
    | enqueue h hs => exact .enqueue hx h hs
    | buffer hm => exact .buffer hx hm
    | flush _ hb _ h => exact FlushStep.own h (.full hb) he
    | await hb => exact .await hb
    | write _ _ _ h => exact absurd h.ofStorage he
    | respond h => exact .respond h
  | flush hx => exact FlushStep.own h (.timer hx) he
  | submit hx => cases h with
    | write h => exact absurd h.ofStorage he
    | handOver h => exact .handOver h
    | reply _ _ _ => exact .reply
    | ack h => exact .submitAck h
  | confirm hx => cases h with
    | update h => exact absurd h.ofStorage he
    | reply _ _ _ => exact .reply
    | ack h => exact .confirmAck h

variable (outside cfg)

/-- A program that has begun. -/
lemma follows_of_begun {t : Tag} {p : Prog Req Req.Answer Unit} {tr : Trace Req Req.Answer Tag X}
    (h : Follows (TagStep cfg) t (fun _ _ => True) p tr) (ht : Begun outside tr t) :
    Follows (ServerStep outside cfg) t (fun _ _ => True) p tr :=
  Follows.allow h fun _ _ htr hstep => ⟨ht.later htr, hstep⟩

variable (objectHash : ObjectHash)

lemma accept_follows {x : External} {s s' : State} {ps : List (Tag × Prog Req Req.Answer Unit)}
    (h : s.accept cfg objectHash x = some (s', ps)) (tr : Trace Req Req.Answer Tag X) :
    ∀ p ∈ ps, Follows (ServerStep outside cfg) p.1 (fun _ _ => True) p.2
      (tr ++ [.ext (outside x)]) := by
  have hlast : .ext (outside x) ∈ tr ++ [.ext (outside x)] := by simp
  intro p hp
  cases x with
  | post req id timestamp =>
    simp only [State.accept] at h
    split at h
    · cases h
      cases List.mem_singleton.mp hp
      apply follows_of_begun outside cfg _ (.post hlast)
      exact Follows.detach (Follows.allow (postLog_follows cfg req _ _ _) fun _ _ _ h => h)
    · cases h
  | enqueue msg =>
    simp only [State.accept] at h
    split at h
    · cases h
      cases hp
    · cases h
  | expire key batch =>
    simp only [State.accept] at h
    split at h
    · cases h
      split at hp
      · cases hp
      · cases List.mem_singleton.mp hp
        apply follows_of_begun outside cfg _ (.flush hlast)
        exact Follows.detach (Follows.allow (flushBatch_follows cfg key batch _ _) fun _ _ _ h => h)
    · cases h
  | deliverSubmit seq msg =>
    simp only [State.accept] at h
    split at h
    · cases h
      cases List.mem_singleton.mp hp
      apply follows_of_begun outside cfg _ (.submit hlast)
      exact Follows.detach (Follows.allow
        (consume_follows (submitHandler_follows cfg msg.strategy msg _ _)) fun _ _ _ h => h)
    · cases h
  | deliverConfirm seq msg =>
    simp only [State.accept] at h
    split at h
    · cases h
      cases List.mem_singleton.mp hp
      apply follows_of_begun outside cfg _ (.confirm hlast)
      exact Follows.detach (Follows.allow
        (consume_follows (confirmHandler_follows cfg msg.strategy msg _ _)) fun _ _ _ h => h)
    · cases h
  | chain x =>
    obtain ⟨s₁, _, heq⟩ := Option.map_eq_some_iff.mp h
    cases heq
    cases hp

end Begun

variable {cfg : ServerConfig} {objectHash : ObjectHash}

/-- Every request of a run of the server is one its program may make. -/
theorem system_guarded {s₀ : State} {c : Async.Config Req Req.Answer Tag External State}
    (h : Reach (system cfg objectHash) s₀ c) : Guarded (ServerStep id cfg) c.world.trace := by
  refine (Run.guarded (fun tr x s s' ps hx => accept_follows id cfg objectHash hx tr) h Guarded.nil
    ?_).1
  simp [Config.start]

/-! ### The queues -/

/-- A message is published to the confirm queues by its request only. -/
lemma Effect.confirmQueue {s s' : State} {e : Req} {r : e.Answer} (h : Effect s e r s') :
    s'.confirmQueue = s.confirmQueue ∨ ∃ msg,
      (⟨e, r⟩ : Σ e : Req, e.Answer) = ⟨.publishConfirm msg, (Except.ok () : Except JsError Unit)⟩ ∧
        s'.confirmQueue = s.confirmQueue ++ [(s.messages, msg)] := by
  cases h with
  | @publishConfirm msg => exact .inr ⟨msg, rfl, rfl⟩
  | _ => exact .inl rfl

lemma Effect.submitQueue {s s' : State} {e : Req} {r : e.Answer} (h : Effect s e r s') :
    s'.submitQueue = s.submitQueue ∨ ∃ msg,
      (⟨e, r⟩ : Σ e : Req, e.Answer) = ⟨.publishSubmit msg, (Except.ok () : Except JsError Unit)⟩ ∧
        s'.submitQueue = s.submitQueue ++ [(s.messages, msg)] := by
  cases h with
  | @publishSubmit msg => exact .inr ⟨msg, rfl, rfl⟩
  | _ => exact .inl rfl

end HybridLog
