import HybridLog.Async.Drain
import HybridLog.Async.Schedule
import HybridLog.System.Accept
import HybridLog.System.Promises
import Mathlib.Data.Set.Card
import Mathlib.Tactic.Abel

/-!
# The server comes to rest

When no more requests come in, the server works off what it has: its programs end, timers flush what
the batch writers hold, and messages are delivered. Nothing can go round in circles, since a request
publishes to the submit queues, a submit message to the confirm queues, and a confirm message
nowhere. And nothing can get stuck, since a request that waits for its promise waits for a batch
that is in the buffer of a writer with a running timer, or in the hands of a program that settles
every promise of it without waiting for anybody.
-/

namespace HybridLog

open Js Async

variable {T X : Type} {cfg : ServerConfig} {objectHash : ObjectHash}

/-! ### Duties -/

/-- What a program of the server has to do for others. -/
inductive Duty
  | promise (n : ℕ)
  /-- The broker keeps a copy of a message until it is acknowledged. -/
  | submitAck (seq : ℕ)
  | confirmAck (seq : ℕ)

def Req.Waits : Req → Prop
  | .await _ => True
  | _ => False

/-- An acknowledgement of the program meets the duty. -/
def Tag.Acks : Tag → Duty → Prop
  | .submit seq _, .submitAck seq' => seq = seq'
  | .confirm seq _, .confirmAck seq' => seq = seq'
  | _, _ => False

def Req.Meets (t : Tag) : Req → Duty → Prop
  | .settle settled, .promise n => n ∈ settled.map Prod.fst
  | .ack, d | .nack, d => t.Acks d
  | _, _ => False

/-- A batch is handed to the program that has filled it. -/
def Req.Hands : (e : Req) → e.Answer → Duty → Prop
  | .buffer _ _, (_, batch), .promise n => n ∈ batch.map PendingEntry.promise
  | _, _, _ => False

def State.Due (s : State) : Duty → Prop
  | .promise n => n < s.promises ∧ s.settled n = none
  | .submitAck seq => ∃ msg, (seq, msg) ∈ s.submitUnacked
  | .confirmAck seq => ∃ msg, (seq, msg) ∈ s.confirmUnacked

/-- The promise of an entry that is flushed when the timer of its writer expires. -/
def State.Keeps (s : State) : Duty → Prop
  | .promise n => ∃ key, (s.writers key).armed = true ∧
    n ∈ (s.writers key).buffer.map PendingEntry.promise
  | _ => False

def serverDuties : Duties Req Req.Answer Tag State Duty where
  waits := Req.Waits
  meets := Req.Meets
  hands := Req.Hands
  due := State.Due
  kept := State.Keeps

/-! ### Programs that clear their duties -/

lemma Req.OfStorage.not_waits {e : Req} (h : e.OfStorage) : ¬e.Waits := by
  cases e with
  | await n => exact h.elim
  | _ => exact id

lemma Req.OfStorage.not_hands {e : Req} (h : e.OfStorage) (r : e.Answer) (d : Duty) :
    ¬e.Hands r d := by
  cases e with
  | buffer key entry => exact h.elim
  | _ => exact id

lemma FlushResult.outcomes_length {key : WriterKey} {pending : List PendingEntry} {t : T}
    {tr : Trace Req Req.Answer T X} {a : Answer} (h : FlushResult cfg key pending t tr a) :
    (outcomes pending (.ok a)).length = pending.length := by
  cases h with
  | batch _ _ => simp [outcomes]
  | logs _ _ h => simpa [outcomes] using h.length_eq.symm

/-- A settlement with one outcome for each promise settles all of them. -/
lemma settlements_fst {pending : List PendingEntry} {answer : Except JsError Answer}
    (h : (outcomes pending answer).length = pending.length) :
    (settlements pending answer).map Prod.fst = pending.map PendingEntry.promise := by
  rw [settlements, List.map_fst_zip]
  rw [List.length_map, h]

section Clears

variable {t : Tag} {n : ℕ}

lemma settlePromises_clears {Q : Unit → Prop} {Er : JsError → Prop} {pending : List PendingEntry}
    {answer : Except JsError Answer} (h : (outcomes pending answer).length = pending.length)
    (hn : n ∈ pending.map PendingEntry.promise) :
    ClearsTask serverDuties t (.promise n) Q Er (settlePromises (settlements pending answer)) := by
  apply ClearsTask.meet
  · exact id
  · show n ∈ (settlements pending answer).map Prod.fst
    rwa [settlements_fst h]

/-- A flush settles every promise of its batch. -/
theorem flushBatch_clears (cfg : ServerConfig) {key : WriterKey} {pending : List PendingEntry}
    (hn : n ∈ pending.map PendingEntry.promise) :
    ClearsTask serverDuties t (.promise n) (fun _ => False) (fun _ => False)
      (flushBatch cfg key pending) := by
  have hreject (err : JsError) : ClearsTask serverDuties t (.promise n) (fun _ => False)
      (fun _ => False) (settlePromises (settlements pending (.error err))) :=
    settlePromises_clears (by simp [outcomes]) hn
  apply ClearsTask.tryCatch
  split
  · exact ClearsTask.throw (hreject _)
  next st hst =>
  split
  · next write hwrite =>
    apply ClearsTask.bind
    apply Clears.weaken (Clears.of_follows (X := External)
      (Storage.writeBatch_follows cfg key.opts (pending.map PendingEntry.entry) t [] hwrite)
      fun _ _ h => h.ofStorage.not_waits)
    rintro r ⟨tr, hr⟩
    cases r with
    | error err => exact hr.elim
    | ok r =>
      apply ClearsTask.bind
      exact settlePromises_clears (FlushResult.outcomes_length (.batch hst hr)) hn
  · next hwrite =>
    have hall := @FollowsTask.promiseAll _ _ _ External _ _ _
      (fun t e tr => ∃ p ∈ pending, Storage.LogStep cfg key.opts p.entry t st e tr) t
      (fun (p : PendingEntry) r tr => Storage.LogResult cfg key.opts p.entry t tr st r)
      (fun _ _ _ => False) (fun p => st.writeLog cfg p.entry key.opts) []
      (fun p _ _ _ htr h => Storage.LogResult.later h htr) (fun _ _ _ _ _ h => h) pending
      fun p hp => FollowsTask.allow (st.writeLog_follows cfg key.opts p.entry t [])
        fun _ _ _ h => ⟨p, hp, h⟩
    apply ClearsTask.bind
    have hwaits (e : Req) (tr : ServerTrace)
        (he : ∃ p ∈ pending, Storage.LogStep cfg key.opts p.entry t st e tr) : ¬e.Waits := by
      obtain ⟨_, _, h⟩ := he
      exact h.ofStorage.not_waits
    apply Clears.weaken (Clears.of_follows hall hwaits)
    rintro r ⟨tr, hr⟩
    cases r with
    | error err =>
      obtain ⟨_, _, h⟩ := hr
      exact h.elim
    | ok rs => exact settlePromises_clears (FlushResult.outcomes_length (.logs hst hwrite hr)) hn

/-- A handler acknowledges its message, and waits for nobody before. -/
lemma consume_clears {P : Guard Req Req.Answer Tag External} {d : Duty} {p : Io Unit}
    {Q : Unit → ServerTrace → Prop}
    (h : FollowsTask P t Q (fun _ _ => False) (Task.finallyDo p ack) [])
    (hP : ∀ e tr, P t e tr → ¬e.Waits) (hd : Req.Meets t .ack d) :
    Clears serverDuties t d (fun _ => False) (consume (Task.finallyDo p ack)).run.detach := by
  apply ClearsTask.detach
  apply ClearsTask.tryCatch
  apply ClearsTask.finallyDo
  · exact (Clears.of_follows (Follows.of_bind h) hP).weaken fun _ _ => trivial
  · exact ClearsTask.meet id hd

lemma SubmitStep.not_waits {strategy : LogStrategy} {raw : SubmitMessage} {e : Req}
    {tr : ServerTrace} (h : SubmitStep cfg strategy raw t e tr) : ¬e.Waits := by
  cases h with
  | write h => exact h.ofStorage.not_waits
  | handOver _ | reply _ _ _ | ack _ => exact id

lemma ConfirmStep.not_waits {strategy : LogStrategy} {raw : ConfirmMessage} {e : Req}
    {tr : ServerTrace} (h : ConfirmStep cfg strategy raw t e tr) : ¬e.Waits := by
  cases h with
  | update h => exact h.ofStorage.not_waits
  | reply _ _ _ | ack _ => exact id

lemma submitHandler_clears (cfg : ServerConfig) (seq : ℕ) (msg : SubmitMessage) :
    Clears serverDuties (.submit seq msg) (.submitAck seq) (fun _ => False)
      (consume (submitHandler cfg msg.strategy msg)).run.detach :=
  consume_clears (submitHandler_follows cfg msg.strategy msg _ [])
    (fun _ _ h => SubmitStep.not_waits h) rfl

lemma confirmHandler_clears (cfg : ServerConfig) (seq : ℕ) (msg : ConfirmMessage) :
    Clears serverDuties (.confirm seq msg) (.confirmAck seq) (fun _ => False)
      (consume (confirmHandler cfg msg.strategy msg)).run.detach :=
  consume_clears (confirmHandler_follows cfg msg.strategy msg _ [])
    (fun _ _ h => ConfirmStep.not_waits h) rfl

end Clears

/-! ### Programs that tend to what they are handed -/

section Tends

variable {t : Tag}

lemma FlushStep.not_hands {key : WriterKey} {batch : List PendingEntry} {e : Req}
    {tr : ServerTrace} (h : FlushStep cfg key batch t e tr) (r : e.Answer) (d : Duty) :
    ¬e.Hands r d := by
  cases h with
  | batch _ h => exact h.ofStorage.not_hands r d
  | log _ _ _ h => exact h.ofStorage.not_hands r d
  | settle _ | reject | now | handOver _ _ _ _ => exact id

lemma SubmitStep.not_hands {strategy : LogStrategy} {raw : SubmitMessage} {e : Req}
    {tr : ServerTrace} (h : SubmitStep cfg strategy raw t e tr) (r : e.Answer) (d : Duty) :
    ¬e.Hands r d := by
  cases h with
  | write h => exact h.ofStorage.not_hands r d
  | handOver _ | reply _ _ _ | ack _ => exact id

lemma ConfirmStep.not_hands {strategy : LogStrategy} {raw : ConfirmMessage} {e : Req}
    {tr : ServerTrace} (h : ConfirmStep cfg strategy raw t e tr) (r : e.Answer) (d : Duty) :
    ¬e.Hands r d := by
  cases h with
  | update h => exact h.ofStorage.not_hands r d
  | reply _ _ _ | ack _ => exact id

variable (cfg)

lemma flushBatch_tends (key : WriterKey) (batch : List PendingEntry) :
    Tends serverDuties t (flushBatch cfg key batch).run :=
  Tends.of_follows (X := External) (flushBatch_follows cfg key batch t [])
    fun _ _ h => FlushStep.not_hands h

lemma respond_tends (reply : Reply) : Tends serverDuties t (respond reply).run :=
  Tends.request fun _ _ => id

lemma publishLog_tends (entry : LogEntry) (mode : StorageMode) (db : Db) :
    Tends serverDuties t (publishLog entry mode db).run := by
  cases mode with
  | other name => trivial
  | strategy s =>
    simp only [publishLog]
    split
    · trivial
    · trivial
    · exact Tends.andThen (Tends.request fun _ _ => id) fun _ => Tends.request fun _ _ => id

/-- The flush of a full batch is left running before the caller waits for its promise. -/
lemma batchWrite_tends (key : WriterKey) (entry : LogEntry) :
    Tends serverDuties t (batchWrite cfg key entry).run := by
  rintro ⟨promise, batch⟩
  have hwait {f : Outcome → Except JsError WriteResult} :
      Tends serverDuties t (Task.request (.await promise) f).run := Tends.request fun _ _ => id
  constructor
  · rintro (n | seq | seq) hn
    · have hne : batch ≠ [] := by
        rintro rfl
        cases hn
      show Clears _ _ _ _ (if batch = [] then _ else _ : Io WriteResult).run
      rw [if_neg hne]
      exact .inl (flushBatch_clears cfg hn).detach
    · exact hn.elim
    · exact hn.elim
  · show Tends _ _ (if batch = [] then _ else _ : Io WriteResult).run
    split
    · exact hwait
    · exact ⟨(flushBatch_tends cfg key batch).bind fun _ => trivial, hwait⟩

lemma postLog_tends (req : PostRequest) (entry : LogEntry) :
    Tends serverDuties t (postLog cfg req entry).run := by
  refine Tends.tryCatch ?_ fun err => respond_tends _
  split
  · exact respond_tends _
  split
  · next mode _ => exact Tends.andThen (publishLog_tends entry mode req.db) fun _ => respond_tends _
  split
  · exact Tends.andThen (batchWrite_tends cfg req.writerKey entry) fun _ => respond_tends _
  refine Tends.andThen ?_ fun _ => respond_tends _
  unfold syncWrite
  split
  · trivial
  next st hst =>
  exact Tends.of_follows (X := External) (st.writeLog_follows cfg none entry t [])
    fun _ _ h => h.ofStorage.not_hands

end Tends

/-! ### Timers -/

/-- Finitely many timers run, and one does for every writer that holds something. -/
structure Timers (s : State) : Prop where
  finite : {key | (s.writers key).armed = true}.Finite
  armed : ∀ key, (s.writers key).buffer ≠ [] → (s.writers key).armed = true

/-- A writer buffers an entry and starts its timer, or it hands over all it had and the entry. -/
lemma State.buffer_cases (s : State) (key : WriterKey) (entry : LogEntry) :
    (s.buffer key entry).2.2 = [] ∧
        (s.buffer key entry).1.writers = Function.update s.writers key
          ⟨(s.writers key).buffer ++ [⟨entry, s.promises⟩], true⟩ ∨
      (s.buffer key entry).2.2 = (s.writers key).buffer ++ [⟨entry, s.promises⟩] ∧
        (s.buffer key entry).1.writers = Function.update s.writers key .empty := by
  simp only [buffer, BatchWriter.write]
  split
  · exact .inr ⟨rfl, rfl⟩
  · exact .inl ⟨rfl, rfl⟩

lemma Effect.writers {s s' : State} {e : Req} {r : e.Answer} (h : Effect s e r s') :
    s'.writers = s.writers ∨ ∃ key entry, e = .buffer key entry ∧
      s'.writers = (s.buffer key entry).1.writers := by
  cases h with
  | @buffer key entry => exact .inr ⟨key, entry, rfl, rfl⟩
  | _ => exact .inl rfl

namespace Timers

variable {s s' : State}

lemma start : Timers .start where
  finite := by simp [State.start, BatchWriter.empty]
  armed _ h := (h rfl).elim

lemma subset_insert {w : BatchWriter} (key : WriterKey)
    (h : s'.writers = Function.update s.writers key w) :
    {k | (s'.writers k).armed = true} ⊆ insert key {k | (s.writers k).armed = true} := by
  intro k hk
  by_cases hkey : k = key
  · exact .inl hkey
  · rw [Set.mem_ofPred_eq, h, Function.update_of_ne hkey] at hk
    exact .inr hk

/-- One writer changes. -/
lemma update (h : Timers s) {key : WriterKey} {w : BatchWriter}
    (hs : s'.writers = Function.update s.writers key w) (hw : w.buffer ≠ [] → w.armed = true) :
    Timers s' where
  finite := (h.finite.insert key).subset (subset_insert key hs)
  armed k hk := by
    by_cases hkey : k = key
    · subst hkey
      rw [hs, Function.update_self] at hk ⊢
      exact hw hk
    · rw [hs, Function.update_of_ne hkey] at hk ⊢
      exact h.armed k hk

lemma same (h : Timers s) (hs : s'.writers = s.writers) : Timers s' := by
  constructor
  · rw [hs]
    exact h.finite
  · rw [hs]
    exact h.armed

lemma call {t : Tag} {e : Req} {r : e.Answer} (h : Timers s) (hs : s.apply t e r = some s') :
    Timers s' := by
  rcases State.apply_eq_some hs with ⟨-, rfl⟩ | ⟨-, -, hs⟩
  · exact h.same (by cases t <;> rfl)
  rcases (State.answer_effect hs).writers with hsame | ⟨key, entry, -, hbuffer⟩
  · exact h.same hsame
  · rcases s.buffer_cases key entry with ⟨-, hw⟩ | ⟨-, hw⟩
    · exact h.update (hbuffer.trans hw) fun _ => rfl
    · exact h.update (hbuffer.trans hw) fun hne => (hne rfl).elim

lemma server {x : External} {ps : List (Tag × Prog Req Req.Answer Unit)} (h : Timers s)
    (hs : Arrival cfg s x s' ps) : Timers s' := by
  cases hs with
  | expire _ _ | flush _ _ => exact h.update rfl fun hne => (hne rfl).elim
  | _ => exact h.same rfl

end Timers

theorem timers {c : RedeliveryConfig} (h : Reach (atLeastOnce cfg objectHash) .start c) :
    Timers c.world.state := by
  induction h with
  | refl => exact .start
  | tail _ hstep ih =>
    cases hstep with
    | call hs => exact ih.call hs
    | fork | left | right | done => exact ih
    | ext hs =>
      rcases atLeastOnce_accept cfg objectHash hs with ⟨y, rfl, hy⟩ | ⟨seq, msg, rfl, hr, rfl⟩
      · exact ih.server (State.accept_eq_some hy)
      · obtain ⟨-, rfl⟩ := requeue_eq_some hr
        exact ih.same rfl

/-! ### Assured duties -/

lemma settleAll_eq_none {m : ℕ} : ∀ {l : List (ℕ × Outcome)} {settled : ℕ → Option Outcome},
    settleAll (l.map Prod.fst) (l.map Prod.snd) settled m = none →
      settled m = none ∧ m ∉ l.map Prod.fst
  | [], _, h => ⟨h, List.not_mem_nil⟩
  | (n, o) :: l, settled, h => by
    obtain ⟨hnone, hl⟩ := settleAll_eq_none (l := l) h
    have hne : m ≠ n := by
      rintro rfl
      rw [settle, Function.update_self] at hnone
      cases hnone
    rw [settle_of_ne o hne] at hnone
    exact ⟨hnone, by simpa [hne] using hl⟩

lemma mem_filter_ne {M : Type} {l : List (ℕ × M)} {seq seq' : ℕ}
    (h : ∃ msg, (seq', msg) ∈ l.filter fun m => m.1 ≠ seq) :
    (∃ msg, (seq', msg) ∈ l) ∧ seq ≠ seq' := by
  obtain ⟨msg, hm⟩ := h
  obtain ⟨hmem, hne⟩ := List.mem_filter.mp hm
  exact ⟨⟨msg, hmem⟩, (of_decide_eq_true hne).symm⟩

/-- An acknowledgement drops the message of its program. -/
lemma State.due_of_drop {s : State} {t : Tag} {d : Duty} (h : (s.drop t).Due d) :
    s.Due d ∧ ¬t.Acks d := by
  cases d with
  | promise n => cases t <;> exact ⟨h, id⟩
  | submitAck seq => cases t with
    | submit seq' msg => exact mem_filter_ne h
    | _ => exact ⟨h, id⟩
  | confirmAck seq => cases t with
    | confirm seq' msg => exact mem_filter_ne h
    | _ => exact ⟨h, id⟩

lemma State.keeps_drop {s : State} {t : Tag} {d : Duty} (h : s.Keeps d) : (s.drop t).Keeps d := by
  cases d with
  | promise n => cases t <;> exact h
  | _ => exact h

/-- The promises of a writer that changes are kept still, or they are handed over. -/
lemma State.buffer_due {s : State} {key : WriterKey} {entry : LogEntry} {d : Duty}
    (h : (s.buffer key entry).1.Due d) :
    (s.buffer key entry).1.Keeps d ∨ Req.Hands (.buffer key entry) (s.buffer key entry).2 d ∨
      s.Due d ∧ ¬s.Keeps d := by
  by_cases hold : s.Due d ∧ ¬s.Keeps d
  · exact .inr (.inr hold)
  cases d with
  | submitAck seq => exact (hold ⟨h, id⟩).elim
  | confirmAck seq => exact (hold ⟨h, id⟩).elim
  | promise n =>
    -- the promise is the new one or in the buffer of some writer
    have hn : n = s.promises ∨ s.Keeps (.promise n) := by
      by_cases hn : n = s.promises
      · exact .inl hn
      · right
        by_contra hk
        exact hold ⟨⟨lt_of_le_of_ne (Nat.le_of_lt_succ h.1) hn, h.2⟩, hk⟩
    have hnew : n ∈ ((s.writers key).buffer ++ [(⟨entry, s.promises⟩ : PendingEntry)]).map
        PendingEntry.promise ∨
        ∃ key', key' ≠ key ∧ (s.writers key').armed = true ∧
          n ∈ (s.writers key').buffer.map PendingEntry.promise := by
      rw [List.map_append, List.mem_append]
      rcases hn with rfl | ⟨key', harmed, hn⟩
      · exact .inl (.inr (List.mem_singleton_self _))
      · by_cases hkey : key' = key
        · subst hkey
          exact .inl (.inl hn)
        · exact .inr ⟨key', hkey, harmed, hn⟩
    rcases s.buffer_cases key entry with ⟨-, hw⟩ | ⟨hb, hw⟩
    · left
      rcases hnew with hn | ⟨key', hkey, harmed, hn⟩
      · refine ⟨key, ?_⟩
        rw [hw, Function.update_self]
        exact ⟨rfl, hn⟩
      · refine ⟨key', ?_⟩
        rw [hw, Function.update_of_ne hkey]
        exact ⟨harmed, hn⟩
    · rcases hnew with hn | ⟨key', hkey, harmed, hn⟩
      · right
        left
        rw [← hb] at hn
        exact hn
      · left
        refine ⟨key', ?_⟩
        rw [hw, Function.update_of_ne hkey]
        exact ⟨harmed, hn⟩

/-- What an answered request does to the duties. -/
lemma Effect.due {s s' : State} {t : Tag} {e : Req} {r : e.Answer} (h : Effect s e r s')
    (hack : e ≠ .ack) (hnack : e ≠ .nack) {d : Duty} (hd : s'.Due d) :
    s'.Keeps d ∨ e.Hands r d ∨ s.Due d ∧ ¬s.Keeps d ∧ ¬Req.Meets t e d := by
  by_cases hkeeps : s'.Keeps d
  · exact .inl hkeeps
  cases h with
  | buffer =>
    rcases State.buffer_due hd with hk | hh | ⟨hd, hk⟩
    · exact .inl hk
    · exact .inr (.inl hh)
    · exact .inr (.inr ⟨hd, hk, id⟩)
  | settle =>
    right
    right
    cases d with
    | promise n =>
      obtain ⟨hnone, hn⟩ := settleAll_eq_none hd.2
      exact ⟨⟨hd.1, hnone⟩, hkeeps, hn⟩
    | _ => exact ⟨hd, hkeeps, id⟩
  | idle hidle =>
    refine .inr (.inr ⟨hd, hkeeps, ?_⟩)
    cases e with
    | settle l => exact hidle.elim
    | ack => exact (hack rfl).elim
    | nack => exact (hnack rfl).elim
    | _ => exact id
  | _ => exact .inr (.inr ⟨hd, hkeeps, id⟩)

theorem serverDuties_call (t : Tag) (e : Req) (r : e.Answer) (s s' : State)
    (h : s.apply t e r = some s') (d : Duty) (hd : s'.Due d) :
    s'.Keeps d ∨ e.Hands r d ∨ s.Due d ∧ ¬s.Keeps d ∧ ¬Req.Meets t e d := by
  rcases State.apply_eq_some h with ⟨he, rfl⟩ | ⟨hack, hnack, hs⟩
  · by_cases hkeeps : s.Keeps d
    · exact .inl (State.keeps_drop hkeeps)
    · obtain ⟨hdue, hacks⟩ := State.due_of_drop hd
      rcases he with rfl | rfl
      · exact .inr (.inr ⟨hdue, hkeeps, hacks⟩)
      · exact .inr (.inr ⟨hdue, hkeeps, hacks⟩)
  · exact (State.answer_effect hs).due hack hnack hd

/-- A program that is started clears what it is started for. -/
lemma Arrival.due {s s' : State} {x : External} {ps : List (Tag × Prog Req Req.Answer Unit)}
    (h : Arrival cfg s x s' ps) {d : Duty} (hd : s'.Due d) :
    s'.Keeps d ∨ (∃ p ∈ ps, Clears serverDuties p.1 d (fun _ => False) p.2) ∨
      s.Due d ∧ ¬s.Keeps d := by
  by_cases hold : s.Due d ∧ ¬s.Keeps d
  · exact .inr (.inr hold)
  -- the promises of other writers are kept still
  have hwriter {key : WriterKey} {n : ℕ} (hw : s'.writers = Function.update s.writers key .empty)
      (hn : n ∉ (s.writers key).buffer.map PendingEntry.promise) (hk : s.Keeps (.promise n)) :
      s'.Keeps (.promise n) := by
    obtain ⟨key', harmed, hn'⟩ := hk
    have hkey : key' ≠ key := by
      rintro rfl
      exact hn hn'
    refine ⟨key', ?_⟩
    rw [hw, Function.update_of_ne hkey]
    exact ⟨harmed, hn'⟩
  cases h with
  | expire harmed hempty =>
    cases d with
    | promise n =>
      have hk : s.Keeps (.promise n) := by
        by_contra hk
        exact hold ⟨hd, hk⟩
      exact .inl (hwriter rfl (by rw [hempty]; exact List.not_mem_nil) hk)
    | _ => exact (hold ⟨hd, id⟩).elim
  | @flush key harmed hne =>
    cases d with
    | promise n =>
      have hk : s.Keeps (.promise n) := by
        by_contra hk
        exact hold ⟨hd, hk⟩
      by_cases hn : n ∈ (s.writers key).buffer.map PendingEntry.promise
      · exact .inr (.inl ⟨_, List.mem_singleton_self _, (flushBatch_clears cfg hn).detach⟩)
      · exact .inl (hwriter rfl hn hk)
    | _ => exact (hold ⟨hd, id⟩).elim
  | @deliverSubmit seq msg hmem =>
    cases d with
    | submitAck seq' =>
      obtain ⟨msg', hm⟩ := hd
      rcases List.mem_cons.mp hm with heq | hm
      · cases heq
        exact .inr (.inl ⟨_, List.mem_singleton_self _, submitHandler_clears cfg seq msg⟩)
      · exact (hold ⟨⟨msg', hm⟩, id⟩).elim
    | promise n => exact .inl (by_contra fun hk => hold ⟨hd, hk⟩)
    | confirmAck seq' => exact (hold ⟨hd, id⟩).elim
  | @deliverConfirm seq msg hmem =>
    cases d with
    | confirmAck seq' =>
      obtain ⟨msg', hm⟩ := hd
      rcases List.mem_cons.mp hm with heq | hm
      · cases heq
        exact .inr (.inl ⟨_, List.mem_singleton_self _, confirmHandler_clears cfg seq msg⟩)
      · exact (hold ⟨⟨msg', hm⟩, id⟩).elim
    | promise n => exact .inl (by_contra fun hk => hold ⟨hd, hk⟩)
    | submitAck seq' => exact (hold ⟨hd, id⟩).elim
  | _ => exact .inl (by_contra fun hk => hold ⟨hd, hk⟩)

lemma Arrival.tends {s s' : State} {x : External} {ps : List (Tag × Prog Req Req.Answer Unit)}
    (h : Arrival cfg s x s' ps) : ∀ p ∈ ps, Tends serverDuties p.1 p.2 := by
  intro p hp
  cases h with
  | post _ _ _ =>
    cases List.mem_singleton.mp hp
    exact (postLog_tends cfg _ _).bind fun _ => trivial
  | flush _ _ =>
    cases List.mem_singleton.mp hp
    exact (flushBatch_tends cfg _ _).bind fun _ => trivial
  | deliverSubmit _ =>
    cases List.mem_singleton.mp hp
    exact Tends.bind (Tends.of_follows (X := External)
      (consume_follows (submitHandler_follows cfg _ _ _ []))
      fun _ _ h => SubmitStep.not_hands h) fun _ => trivial
  | deliverConfirm _ =>
    cases List.mem_singleton.mp hp
    exact Tends.bind (Tends.of_follows (X := External)
      (consume_follows (confirmHandler_follows cfg _ _ _ []))
      fun _ _ h => ConfirmStep.not_hands h) fun _ => trivial
  | enqueue _ => cases hp
  | expire _ _ => cases hp
  | chain => cases hp

/-- Every open promise is in the buffer of a writer with a running timer, or a program settles it
before it waits for anybody; and every message not yet acknowledged has a handler that will. -/
theorem assured {c : RedeliveryConfig} (h : Reach (atLeastOnce cfg objectHash) .start c) :
    Assured serverDuties c := by
  induction h with
  | refl =>
    apply Assured.start
    rintro (n | seq | seq) hd
    · exact Nat.not_lt_zero n hd.1
    · obtain ⟨_, hm⟩ := hd
      cases hm
    · obtain ⟨_, hm⟩ := hd
      cases hm
  | tail _ hstep ih =>
    refine ih.step ?_ ?_ hstep
    · exact fun t e r s s' hs d hd => serverDuties_call t e r s s' hs d hd
    · intro x s s' ps hs
      rcases atLeastOnce_accept cfg objectHash hs with ⟨y, rfl, hy⟩ | ⟨seq, msg, rfl, hr, rfl⟩
      · have hy := State.accept_eq_some hy
        exact ⟨hy.tends, fun d hd => hy.due hd⟩
      · obtain ⟨-, rfl⟩ := requeue_eq_some hr
        refine ⟨by simp, fun d hd => ?_⟩
        cases d with
        | promise n =>
          by_cases hk : s.Keeps (.promise n)
          · exact .inl hk
          · exact .inr (.inr ⟨hd, hk⟩)
        | submitAck seq' => exact .inr (.inr ⟨hd, id⟩)
        | confirmAck seq' =>
          obtain ⟨msg', hm⟩ := hd
          exact .inr (.inr ⟨⟨msg', List.mem_of_mem_erase hm⟩, id⟩)

/-! ### Levels -/

def Tag.level : Tag → ℕ
  | .post .. => 5
  | .flush .. | .submit .. => 3
  | .confirm .. => 1

/-- How many timers run. -/
noncomputable def State.timerCount (s : State) : ℕ := {key | (s.writers key).armed = true}.ncard

/-- A timer and a submit message lie between the requests and the programs they start, and a confirm
message between the programs that publish it and its handler. -/
noncomputable def serverWorkload : Workload Tag State where
  level := Tag.level
  stored s := Multiset.replicate (s.timerCount + s.submitQueue.length) 4 +
    Multiset.replicate s.confirmQueue.length 2

/-- The events that work something off. -/
def Delivery.quiet : Delivery → Bool
  | .server (.expire ..) | .server (.deliverSubmit ..) | .server (.deliverConfirm ..) => true
  | _ => false

def Delivery.onChain : Delivery → Bool
  | .server (.chain _) => true
  | _ => false

lemma stored_le {s s' : State} {n m : ℕ}
    (h : s'.timerCount + s'.submitQueue.length ≤ s.timerCount + s.submitQueue.length + n)
    (h' : s'.confirmQueue.length ≤ s.confirmQueue.length + m) :
    serverWorkload.stored s' ≤ serverWorkload.stored s +
      (Multiset.replicate n 4 + Multiset.replicate m 2) := by
  simp only [serverWorkload]
  calc _ ≤ Multiset.replicate (s.timerCount + s.submitQueue.length + n) 4 +
        Multiset.replicate (s.confirmQueue.length + m) 2 :=
      add_le_add (Multiset.replicate_mono 4 h) (Multiset.replicate_mono 2 h')
    _ = _ := by
      rw [Multiset.replicate_add, Multiset.replicate_add _ m]
      abel

section Levels

variable {s s' : State}

lemma timerCount_update (h : Timers s) {key : WriterKey} {w : BatchWriter}
    (hs : s'.writers = Function.update s.writers key w) : s'.timerCount ≤ s.timerCount + 1 :=
  (Set.ncard_le_ncard (Timers.subset_insert key hs) (h.finite.insert key)).trans
    (Set.ncard_insert_le key _)

lemma timerCount_expire (h : Timers s) {key : WriterKey} (harmed : (s.writers key).armed = true)
    (hs : s'.writers = Function.update s.writers key .empty) :
    s'.timerCount + 1 ≤ s.timerCount := by
  have hsub : {k | (s'.writers k).armed = true} ⊆ {k | (s.writers k).armed = true} \ {key} := by
    intro k hk
    have hkey : k ≠ key := by
      rintro rfl
      rw [Set.mem_ofPred_eq, hs, Function.update_self] at hk
      cases hk
    rw [Set.mem_ofPred_eq, hs, Function.update_of_ne hkey] at hk
    exact ⟨hk, hkey⟩
  have hle := Set.ncard_le_ncard hsub (h.finite.sdiff)
  have hcard := Set.ncard_sdiff_singleton_add_one (a := key) harmed h.finite
  calc s'.timerCount + 1 ≤ _ := Nat.add_le_add_right hle 1
    _ = s.timerCount := hcard

/-- What a request adds to the queues and the timers. -/
lemma Effect.stored {e : Req} {r : e.Answer} (h : Effect s e r s') (ht : Timers s) :
    serverWorkload.stored s' ≤ serverWorkload.stored s ∨
      ((∃ key entry, e = .buffer key entry) ∨ ∃ msg, e = .publishSubmit msg) ∧
        serverWorkload.stored s' ≤ serverWorkload.stored s + {4} ∨
      (∃ msg, e = .publishConfirm msg) ∧
        serverWorkload.stored s' ≤ serverWorkload.stored s + {2} := by
  cases h with
  | @buffer key entry =>
    right
    left
    refine ⟨.inl ⟨key, entry, rfl⟩, stored_le (n := 1) (m := 0) ?_ le_rfl⟩
    have hcount : (s.buffer key entry).1.timerCount ≤ s.timerCount + 1 := timerCount_update ht rfl
    calc (s.buffer key entry).1.timerCount + s.submitQueue.length
      _ ≤ s.timerCount + 1 + s.submitQueue.length := Nat.add_le_add_right hcount _
      _ = s.timerCount + s.submitQueue.length + 1 := Nat.add_right_comm _ _ _
  | @publishSubmit msg =>
    right
    left
    refine ⟨.inr ⟨msg, rfl⟩, stored_le (n := 1) (m := 0) ?_ le_rfl⟩
    show s.timerCount + (s.submitQueue ++ [(s.messages, msg)]).length ≤ _
    rw [List.length_append, add_assoc]
    rfl
  | @publishConfirm msg =>
    right
    right
    refine ⟨⟨msg, rfl⟩, stored_le (n := 0) (m := 1) le_rfl ?_⟩
    simp [State.publishConfirm]
  | _ => exact .inl le_rfl

/-- The programs that publish a message or start a timer are above it. -/
lemma stored_of_call {c : RedeliveryConfig} (h : Reach (atLeastOnce cfg objectHash) .start c)
    {t : Tag} {e : Req} {r : e.Answer} (hs : c.world.state.apply t e r = some s')
    (hstep : ServerStep .server cfg t e c.world.trace) :
    ∃ new, (∀ n ∈ new, n < t.level) ∧
      serverWorkload.stored s' ≤ serverWorkload.stored c.world.state + new := by
  rcases State.apply_eq_some hs with ⟨-, rfl⟩ | ⟨-, -, hs⟩
  · refine ⟨0, fun _ hn => (Multiset.notMem_zero _ hn).elim, ?_⟩
    rw [add_zero]
    cases t <;> exact le_of_eq rfl
  rcases (State.answer_effect hs).stored (timers h) with hle | ⟨he, hle⟩ | ⟨⟨msg, rfl⟩, hle⟩
  · exact ⟨0, fun _ hn => (Multiset.notMem_zero _ hn).elim, by rwa [add_zero]⟩
  · refine ⟨{4}, fun n hn => ?_, hle⟩
    rw [Multiset.mem_singleton.mp hn]
    rcases he with ⟨key, entry, rfl⟩ | ⟨msg, rfl⟩
    · cases hstep.own (by simp [Req.OfStorage]) with
      | buffer _ _ => simp [Tag.level]
    · cases hstep.own (by simp [Req.OfStorage]) with
      | enqueue _ _ _ => simp [Tag.level]
  · refine ⟨{2}, fun n hn => ?_, hle⟩
    rw [Multiset.mem_singleton.mp hn]
    cases hstep.own (by simp [Req.OfStorage]) with
    | flushed hf _ _ _ => cases hf with
      | full _ => simp [Tag.level]
      | timer _ => simp [Tag.level]
    | handOver _ => simp [Tag.level]

/-- A timer or a message is taken away, and the program it starts is below it. -/
lemma Arrival.stored {x : External} {ps : List (Tag × Prog Req Req.Answer Unit)}
    (h : Arrival cfg s x s' ps) (ht : Timers s) (hquiet : (Delivery.server x).quiet = true) :
    ∃ n, (∀ p ∈ ps, p.1.level < n) ∧
      serverWorkload.stored s' + {n} ≤ serverWorkload.stored s := by
  have hfour (hle : s'.timerCount + s'.submitQueue.length + 1 ≤ s.timerCount + s.submitQueue.length)
      (hqueue : s'.confirmQueue = s.confirmQueue) :
      serverWorkload.stored s' + {4} ≤ serverWorkload.stored s := by
    simp only [serverWorkload, hqueue]
    calc
      _ = Multiset.replicate (s'.timerCount + s'.submitQueue.length + 1) 4 +
          Multiset.replicate s.confirmQueue.length 2 := by
        rw [Multiset.replicate_succ, ← Multiset.singleton_add]
        abel
      _ ≤ _ := add_le_add_left (Multiset.replicate_mono 4 hle) _
  have htimer {key : WriterKey} (harmed : (s.writers key).armed = true) :
      State.timerCount { s with writers := Function.update s.writers key .empty } +
        s.submitQueue.length + 1 ≤ s.timerCount + s.submitQueue.length := by
    rw [add_right_comm]
    exact Nat.add_le_add_right (timerCount_expire ht harmed rfl) _
  cases h with
  | expire harmed _ => exact ⟨4, by simp, hfour (htimer harmed) rfl⟩
  | flush harmed _ =>
    refine ⟨4, fun p hp => ?_, hfour (htimer harmed) rfl⟩
    cases List.mem_singleton.mp hp
    simp [Tag.level]
  | @deliverSubmit seq msg hmem =>
    refine ⟨4, fun p hp => ?_, hfour ?_ rfl⟩
    · cases List.mem_singleton.mp hp
      simp [Tag.level]
    · show s.timerCount + (s.submitQueue.erase (seq, msg)).length + 1 ≤ _
      rw [add_assoc, ← List.length_erase_add_one hmem]
  | @deliverConfirm seq msg hmem =>
    refine ⟨2, fun p hp => ?_, le_of_eq ?_⟩
    · cases List.mem_singleton.mp hp
      simp [Tag.level]
    · show Multiset.replicate (s.timerCount + s.submitQueue.length) 4 +
        Multiset.replicate (s.confirmQueue.erase (seq, msg)).length 2 + {2} = _
      simp only [serverWorkload]
      rw [← List.length_erase_add_one hmem, Multiset.replicate_succ, ← Multiset.singleton_add]
      abel
  | post _ _ _ => cases hquiet
  | enqueue _ => cases hquiet
  | chain => cases hquiet

variable (cfg objectHash) in
/-- Whatever the server does takes work away. -/
theorem server_falls : serverWorkload.Falls (atLeastOnce cfg objectHash) Delivery.quiet
    Delivery.onChain (Reach (atLeastOnce cfg objectHash) .start) where
  call {w l l' t e k r s} h hs := by
    have hguard := atLeastOnce_guarded (h.tail (.call hs))
    exact stored_of_call h hs (hguard w.trace t e r [] rfl)
  quiet {c x s ps} h hx hs := by
    rcases atLeastOnce_accept cfg objectHash hs with ⟨y, rfl, hy⟩ | ⟨seq, msg, rfl, -, -⟩
    · obtain ⟨n, hps, hle⟩ := (State.accept_eq_some hy).stored (timers h) hx
      exact ⟨n, 0, fun _ hn => (Multiset.notMem_zero _ hn).elim, hps, by rwa [add_zero]⟩
    · cases hx
  back {c x s ps} _ hx hs := by
    rcases atLeastOnce_accept cfg objectHash hs with ⟨y, rfl, hy⟩ | ⟨seq, msg, rfl, -, -⟩
    · cases State.accept_eq_some hy with
      | chain => exact ⟨rfl, le_rfl⟩
      | _ => cases hx
    · cases hx

end Levels

/-! ### Progress -/

/-- Any request but one that waits has some answer. -/
lemma exists_answer (t : Tag) (e : Req) (s : State) (h : ¬e.Waits) :
    ∃ r s', s.apply t e r = some s' := by
  cases e with
  | insert | insertBatchRecord | linkLeaves | linkLeaf | updateAnchorStatus
  | updateBatchAnchorStatus | waitReceipt | publishSubmit | publishConfirm | publishReply | submit
  | getTransaction | getReceipt | getBlockNumber => exact ⟨Except.error "", s, rfl⟩
  | ack => exact ⟨(), s.drop t, rfl⟩
  | nack => exact ⟨(), s.drop t, rfl⟩
  | now => exact ⟨(0 : ℕ), s, rfl⟩
  | buffer key entry => exact ⟨(s.buffer key entry).2, (s.buffer key entry).1, if_pos rfl⟩
  | settle l => exact ⟨(), _, rfl⟩
  | respond reply => exact ⟨(), s, rfl⟩
  | await n => exact (h trivial).elim

/-- Who waits for a promise has been given it. -/
lemma promise_lt {c : RedeliveryConfig} (h : Reach (atLeastOnce cfg objectHash) .start c) {t : Tag}
    {n : ℕ} (hstep : ServerStep .server cfg t (.await n) c.world.trace) :
    n < c.world.state.promises := by
  have hp := promised h
  cases hstep.own (by simp [Req.OfStorage]) with
  | await hb =>
    rw [hp.count]
    exact (List.getElem?_eq_some_iff.mp (hp.events _ hb).1).1

/-- The programs of a run keep to what they may do. -/
lemma procs_follow {c : RedeliveryConfig} (h : Reach (atLeastOnce cfg objectHash) .start c) :
    ∀ p ∈ c.procs, Follows (ServerStep .server cfg) p.1 (fun _ _ => True) p.2 c.world.trace := by
  refine (Run.guarded ?_ h Guarded.nil ?_).2
  · intro tr x s s' ps hx p hp
    rcases atLeastOnce_accept cfg objectHash hx with ⟨y, rfl, hy⟩ | ⟨seq, msg, rfl, hs, rfl⟩
    · exact accept_follows .server cfg objectHash hy tr p hp
    · cases hp
  · simp [Config.start]

/-- Nothing runs, waits in a queue or a buffer, or is left open. -/
structure Drained (c : RedeliveryConfig) : Prop where
  procs : c.procs = []
  submitQueue : c.world.state.submitQueue = []
  confirmQueue : c.world.state.confirmQueue = []
  submitUnacked : c.world.state.submitUnacked = []
  confirmUnacked : c.world.state.confirmUnacked = []
  writers : ∀ key, c.world.state.writers key = .empty
  settled : ∀ n < c.world.state.promises, (c.world.state.settled n).isSome = true

/-- A machine with the programs and the timers of the server. -/
structure Timed (M : Machine Req Req.Answer Tag Delivery State) : Prop where
  apply : M.apply = State.apply
  expire : ∀ {s : State} {key : WriterKey}, (s.writers key).armed = true →
    ∃ o, M.accept (.server (.expire key (s.writers key).expire.2)) s = some o

variable (cfg objectHash) in
lemma atLeastOnce_timed : Timed (atLeastOnce cfg objectHash) where
  apply := rfl
  expire h := ⟨_, if_pos ⟨h, rfl⟩⟩

section Progress

variable {c : RedeliveryConfig} {M : Machine Req Req.Answer Tag Delivery State}

lemma step_of_accept {x : External} {o : State × List (Tag × Prog Req Req.Answer Unit)}
    (hx : (Delivery.server x).quiet = true)
    (h : M.accept (.server x) c.world.state = some o) :
    ∃ c', Step (M.only Delivery.quiet) c c' := by
  have haccept : (M.only Delivery.quiet).accept (.server x) c.world.state = some o :=
    (if_pos hx).trans h
  exact ⟨_, .ext haccept⟩

lemma step_of_armed (hM : Timed M) {key : WriterKey}
    (h : (c.world.state.writers key).armed = true) : ∃ c', Step (M.only Delivery.quiet) c c' := by
  obtain ⟨o, ho⟩ := hM.expire h
  exact step_of_accept rfl ho

lemma step_of_submitQueue (h : c.world.state.submitQueue ≠ []) :
    ∃ c', Step ((atLeastOnce cfg objectHash).only Delivery.quiet) c c' := by
  obtain ⟨⟨seq, msg⟩, hmem⟩ := List.exists_mem_of_ne_nil _ h
  exact step_of_accept (x := .deliverSubmit seq msg) rfl (if_pos hmem)

lemma step_of_confirmQueue (h : c.world.state.confirmQueue ≠ []) :
    ∃ c', Step ((atLeastOnce cfg objectHash).only Delivery.quiet) c c' := by
  obtain ⟨⟨seq, msg⟩, hmem⟩ := List.exists_mem_of_ne_nil _ h
  exact step_of_accept (x := .deliverConfirm seq msg) rfl (if_pos hmem)

/-- Programs go on, or a timer runs: a program that waits has been given a promise that is settled
or still open. -/
lemma step_of_procs (hM : Timed M) (h : Reach (atLeastOnce cfg objectHash) .start c)
    (hne : c.procs ≠ []) : ∃ c', Step (M.only Delivery.quiet) c c' := by
  have hwait : ∀ p ∈ c.procs, ∀ e k, p.2 = .call e k → e.Waits →
      (∃ r s', M.apply p.1 e r c.world.state = some s') ∨ ∃ d, c.world.state.Due d := by
    rintro ⟨t, p⟩ hp e k rfl he
    cases e with
    | await n =>
      have hlt := promise_lt h ((procs_follow h _ hp) c.world.trace List.prefix_rfl).1
      rw [hM.apply]
      cases ho : c.world.state.settled n with
      | none => exact .inr ⟨.promise n, hlt, ho⟩
      | some o => exact .inl ⟨o, _, if_pos ho⟩
    | _ => exact he.elim
  rcases (assured h).go hne (fun t e s he => hM.apply ▸ exists_answer t e s he) hwait
    Delivery.quiet with hstep | ⟨d, hd⟩
  · exact hstep
  · cases d with
    | promise n =>
      obtain ⟨key, harmed, -⟩ := hd
      exact step_of_armed hM harmed
    | submitAck seq => exact hd.elim
    | confirmAck seq => exact hd.elim

/-- A server that is stuck has come to rest if it can deliver a message while none is in hand. -/
theorem drained_of_stuck (hM : Timed M) (h : Reach (atLeastOnce cfg objectHash) .start c)
    (hstuck : ¬∃ c', Step (M.only Delivery.quiet) c c')
    (hsubmit : c.world.state.submitUnacked = [] → c.world.state.submitQueue ≠ [] →
      ∃ c', Step (M.only Delivery.quiet) c c')
    (hconfirm : c.world.state.confirmUnacked = [] → c.world.state.confirmQueue ≠ [] →
      ∃ c', Step (M.only Delivery.quiet) c c') : Drained c := by
  have hprocs : c.procs = [] := by
    by_contra hne
    exact hstuck (step_of_procs hM h hne)
  have harmed (key : WriterKey) : (c.world.state.writers key).armed = false := by
    by_contra hne
    exact hstuck (step_of_armed hM (Bool.not_eq_false _ ▸ hne))
  -- no duty is kept and no program has one in hand
  have hdue (d : Duty) : ¬c.world.state.Due d := by
    intro hd
    rcases (assured h).due d hd with hkept | ⟨p, hp, -⟩
    · cases d with
      | promise n =>
        obtain ⟨key, hkey, -⟩ := hkept
        rw [harmed key] at hkey
        cases hkey
      | submitAck seq => exact hkept
      | confirmAck seq => exact hkept
    · rw [hprocs] at hp
      cases hp
  have hsubmitUnacked : c.world.state.submitUnacked = [] := by
    by_contra hne
    obtain ⟨⟨seq, msg⟩, hmem⟩ := List.exists_mem_of_ne_nil _ hne
    exact hdue (.submitAck seq) ⟨msg, hmem⟩
  have hconfirmUnacked : c.world.state.confirmUnacked = [] := by
    by_contra hne
    obtain ⟨⟨seq, msg⟩, hmem⟩ := List.exists_mem_of_ne_nil _ hne
    exact hdue (.confirmAck seq) ⟨msg, hmem⟩
  constructor
  · exact hprocs
  · by_contra hne
    exact hstuck (hsubmit hsubmitUnacked hne)
  · by_contra hne
    exact hstuck (hconfirm hconfirmUnacked hne)
  · exact hsubmitUnacked
  · exact hconfirmUnacked
  · intro key
    have hbuffer : (c.world.state.writers key).buffer = [] := by
      by_contra hne
      have hkey := (timers h).armed key hne
      rw [harmed key] at hkey
      cases hkey
    calc c.world.state.writers key
      _ = ⟨(c.world.state.writers key).buffer, (c.world.state.writers key).armed⟩ := rfl
      _ = .empty := by rw [hbuffer, harmed key, BatchWriter.empty]
  · intro n hn
    by_contra hnone
    exact hdue (.promise n) ⟨hn, by simpa using hnone⟩

/-- A server that has not come to rest can go on without the chains and without new requests. -/
theorem exists_step_of_not_drained (h : Reach (atLeastOnce cfg objectHash) .start c)
    (hc : ¬Drained c) : ∃ c', Step ((atLeastOnce cfg objectHash).only Delivery.quiet) c c' := by
  by_contra hstuck
  apply hc
  apply drained_of_stuck (atLeastOnce_timed cfg objectHash) h hstuck
  · exact fun _ => step_of_submitQueue
  · exact fun _ => step_of_confirmQueue

end Progress

/-- The server comes to rest, however its programs, its timers and the deliveries interleave and
whatever the chains do meanwhile: it cannot go on for ever and cannot get stuck before. -/
theorem server_drains {c : RedeliveryConfig} (h : Reach (atLeastOnce cfg objectHash) .start c) :
    Inevitable (Onward (atLeastOnce cfg objectHash) Delivery.quiet Delivery.onChain) Drained c :=
  (server_falls cfg objectHash).inevitable (fun h hstep => h.tail hstep)
    (fun _ h hc => exists_step_of_not_drained h hc) h

/-- A request that is buffered, to try statements on. -/
def timedRequest : PostRequest where
  level := infoLevel
  source := []
  message := ofString "hello"
  metadata := none
  storageMode := some (.strategy .hybridPrivateBatch)
  writeMode := .batch
  db := .postgres

/-- The request waits for its promise. -/
def timedRun : Option RedeliveryConfig :=
  (Config.start State.start).play (atLeastOnce connectedConfig fun _ => [])
    [.ext (.server (.post timedRequest (List.replicate 36 0x61) .epoch)), .act 0 State.prompt]

theorem timedRun_drains : ∃ h : timedRun.isSome, (timedRun.get h).procs ≠ [] ∧
    ∃ c, Relation.ReflTransGen (Onward (atLeastOnce connectedConfig fun _ => []) Delivery.quiet
      Delivery.onChain) (timedRun.get h) c ∧ Drained c := by
  refine ⟨rfl, List.cons_ne_nil _ _, ?_⟩
  have hreach := Run.of_play (Option.some_get (x := timedRun) rfl).symm
  exact (server_drains hreach).exists_run

end HybridLog
