import HybridLog.Async.Path
import HybridLog.Queue.Steps
import HybridLog.Storage.SubmitOnly

/-!
# What a success reply promises

A reply that tells of success may come from the handler of a submit message or from the handler of
the confirm message it hands over. It keeps its promise if the storage call has succeeded and every
transaction it submitted was accepted. The outcomes of all requests are those of a path through the
handlers.
-/

namespace HybridLog

open Js Async

abbrev Turns := List (Turn Req Req.Answer)

/-! ### The call of the storage -/

section StorageCall

variable (cfg : ServerConfig) (storage : Option Storage)

/-- The storage call of a submit handler takes the turns of a list and returns, with `success` and
with what the handler goes on with. -/
inductive StorageReturns : SubmitBody → Turns → Bool → Submitted → Prop
  | entry {st : Storage} {dto : EntryDTO} {l : Turns} {r : WriteResult} (hst : storage = some st)
    (h : TaskPath (st.writeLog cfg (dtoToEntry dto.parsed) (some submitOnlyOpts)) l (.ok r)) :
    StorageReturns (.entry dto) l r.success ⟨r.txId, r.confirmed.getD true, r.logId⟩
  | entries {st : Storage} {dtos : List EntryDTO} {l : Turns} {r : BatchWriteResult}
    {write : List LogEntry → Option WriteOpts → Io BatchWriteResult} (hst : storage = some st)
    (hwrite : st.writeBatch? cfg = some write)
    (h : TaskPath (write (SubmitBody.entries dtos).read (some submitOnlyOpts)) l (.ok r)) :
    StorageReturns (.entries dtos) l r.success ⟨r.txId, r.confirmed.getD true, r.batchHash⟩

/-- What the entries of a message come to can be sent. -/
def Sendable : SubmitBody → Prop
  | .entry dto => ∀ st, storage = some st → st.LogSendable cfg (dtoToEntry dto.parsed)
  | .entries dtos => ∀ st, storage = some st → st.BatchSendable cfg (SubmitBody.entries dtos).read

variable {cfg storage} {body : SubmitBody} {l : Turns}

/-- The call goes one way with the same answers. -/
lemma StorageReturns.unique {success success' : Bool} {w w' : Submitted} {l' rest rest' : Turns}
    (h : StorageReturns cfg storage body l success w)
    (h' : StorageReturns cfg storage body l' success' w') (heq : l ++ rest = l' ++ rest') :
    l = l' ∧ success = success' ∧ w = w' := by
  cases h with
  | entry hst h => cases h' with
    | entry hst' h' =>
      obtain rfl := Option.some.inj (hst.symm.trans hst')
      obtain ⟨rfl, hr⟩ := Path.unique h h' heq
      cases hr
      exact ⟨rfl, rfl, rfl⟩
  | entries hst hwrite h => cases h' with
    | entries hst' hwrite' h' =>
      obtain rfl := Option.some.inj (hst.symm.trans hst')
      obtain rfl := Option.some.inj (hwrite.symm.trans hwrite')
      obtain ⟨rfl, hr⟩ := Path.unique h h' heq
      cases hr
      exact ⟨rfl, rfl, rfl⟩

lemma StorageReturns.writeEnd {success : Bool} {w : Submitted}
    (h : StorageReturns cfg storage body l success w) :
    ∃ confirmed, WriteEnd (Sendable cfg storage body) (deeds l) success w.txId confirmed ∧
      w.confirmed = confirmed.getD true := by
  cases h with
  | @entry st dto l r hst h =>
    refine ⟨r.confirmed, ?_, rfl⟩
    have hend := Emits.path (st.writeLog_emits cfg (dtoToEntry dto.parsed)) h
    rw [zero_add] at hend
    have hsendable : st.LogSendable cfg (dtoToEntry dto.parsed) ↔
        Sendable cfg storage (.entry dto) := by
      simp [Sendable, hst]
    rwa [← hsendable]
  | @entries st dtos l r write hst hwrite h =>
    refine ⟨r.confirmed, ?_, rfl⟩
    have hend := Emits.path (st.writeBatch_emits cfg hwrite (SubmitBody.entries dtos).read) h
    rw [zero_add] at hend
    have hsendable : st.BatchSendable cfg (SubmitBody.entries dtos).read ↔
        Sendable cfg storage (.entries dtos) := by
      simp [Sendable, hst]
    rwa [← hsendable]

/-- Its requests are those of a storage. -/
lemma StorageReturns.ofStorage {success : Bool} {w : Submitted}
    (h : StorageReturns cfg storage body l success w) {e : Req} {r : e.Answer}
    (hmem : Turn.call e r ∈ l) : e.OfStorage := by
  cases h with
  | @entry st dto l r hst h =>
    have hfollows := st.writeLog_follows (X := Empty) cfg (some submitOnlyOpts)
      (dtoToEntry dto.parsed) () []
    obtain ⟨_, hstep⟩ := Follows.path_guard hfollows h hmem
    exact hstep.ofStorage
  | @entries st dtos l r write hst hwrite h =>
    have hfollows := Storage.writeBatch_follows (X := Empty) cfg (some submitOnlyOpts)
      (SubmitBody.entries dtos).read () [] hwrite
    obtain ⟨_, hstep⟩ := Follows.path_guard hfollows h hmem
    exact hstep.ofStorage

/-- A submit handler writes by a call of its storage, unless there is none to call. -/
lemma submitWrite_path {x : Except JsError Submitted}
    (h : TaskPath (submitWrite cfg storage body) l x) :
    (∃ success w, StorageReturns cfg storage body l success w ∧ x = .ok w) ∨
      l = [] ∧ NotWritten cfg storage body ∧ ∃ err, x = .error err := by
  cases storage with
  | none =>
    obtain ⟨rfl, rfl⟩ := taskPath_throw.mp h
    exact .inr ⟨rfl, .noStorage rfl, _, rfl⟩
  | some st => cases body with
    | entry dto =>
      rcases taskPath_bind.mp h with ⟨l₁, l₂, r, rfl, hwrite, hret⟩ | ⟨err, hwrite, rfl⟩
      · obtain ⟨rfl, rfl⟩ := taskPath_pure.mp hret
        rw [List.append_nil]
        exact .inl ⟨_, _, .entry rfl hwrite, rfl⟩
      · exact (Emits.path (st.writeLog_emits cfg (dtoToEntry dto.parsed)) hwrite).elim
    | entries dtos =>
      simp only [submitWrite] at h
      split at h
      · next hnone =>
        obtain ⟨rfl, rfl⟩ := taskPath_throw.mp h
        exact .inr ⟨rfl, .noBatch rfl hnone, _, rfl⟩
      · next write hsome =>
        rcases taskPath_bind.mp h with ⟨l₁, l₂, r, rfl, hwrite, hret⟩ | ⟨err, hwrite, rfl⟩
        · obtain ⟨rfl, rfl⟩ := taskPath_pure.mp hret
          rw [List.append_nil]
          exact .inl ⟨_, _, .entries rfl hsome hwrite, rfl⟩
        · exact (Emits.path (st.writeBatch_emits cfg hsome (SubmitBody.entries dtos).read)
            hwrite).elim

end StorageCall

/-! ### Handlers -/

lemma replyIfAsked_path {replyTo : Option JsString} {msg : ResultMessage} {l : Turns}
    {x : Except JsError Unit} (h : TaskPath (replyIfAsked replyTo msg) l x) :
    x = .ok () ∧ (replyQueue replyTo = none ∧ l = [] ∨
      ∃ queue r, replyQueue replyTo = some queue ∧ l = [.call (.publishReply queue msg) r]) := by
  rw [replyIfAsked] at h
  cases hq : replyQueue replyTo with
  | none =>
    rw [hq] at h
    obtain ⟨rfl, rfl⟩ := taskPath_pure.mp h
    exact ⟨rfl, .inl ⟨rfl, rfl⟩⟩
  | some queue =>
    rw [hq] at h
    rcases taskPath_tryCatch.mp h with ⟨u, hreply, rfl⟩ | ⟨l₁, l₂, err, rfl, hreply, hdrop⟩
    · obtain ⟨r, rfl, -⟩ := taskPath_request.mp hreply
      exact ⟨rfl, .inr ⟨queue, r, rfl, rfl⟩⟩
    · obtain ⟨r, rfl, -⟩ := taskPath_request.mp hreply
      obtain ⟨rfl, rfl⟩ := taskPath_pure.mp hdrop
      exact ⟨rfl, .inr ⟨queue, r, rfl, rfl⟩⟩

section Handlers

variable (cfg : ServerConfig) (strategy : LogStrategy) (raw : SubmitMessage)

/-- The turns of a submit handler whose message asks for a reply, and what its storage call has
come to before. -/
inductive Handled (queue : JsString) : Turns → Prop
  | handedOver {l : Turns} {success : Bool} {txHash : TxHash} {logId : JsString}
    (h : StorageReturns cfg (raw.storage cfg strategy) raw.body l success
      ⟨some txHash, false, logId⟩) :
    Handled queue (l ++ [.call (.publishConfirm (confirmMessage strategy raw logId txHash))
      (Except.ok ()), .call .ack ()])
  | replied {l : Turns} {success : Bool} {w : Submitted} {r : Except JsError Unit}
    (h : StorageReturns cfg (raw.storage cfg strategy) raw.body l success w)
    (hw : w.txId = none ∨ w.confirmed = true) :
    Handled queue (l ++ [.call (.publishReply queue ⟨raw.correlationId, true, w.txId, none⟩) r,
      .call .ack ()])
  | notHandedOver {l more : Turns} {success : Bool} {txHash : TxHash} {logId : JsString}
    {r : Except JsError Unit} {err : JsError}
    (h : StorageReturns cfg (raw.storage cfg strategy) raw.body l success
      ⟨some txHash, false, logId⟩)
    (hmore : more = [] ∨ ∃ err, more = [.call (.publishConfirm
      (confirmMessage strategy raw logId txHash)) (Except.error err)]) :
    Handled queue (l ++ more ++ [.call (.publishReply queue
      ⟨raw.correlationId, false, none, some err⟩) r, .call .ack ()])
  | notWritten {r : Except JsError Unit} {err : JsError}
    (h : NotWritten cfg (raw.storage cfg strategy) raw.body) :
    Handled queue [.call (.publishReply queue ⟨raw.correlationId, false, none, some err⟩) r,
      .call .ack ()]

variable {cfg strategy raw} {l : Turns} {x : Except JsError Unit}

/-- What follows the write of a submit handler: the transaction is handed over, or it is not and
an exception is thrown, or a reply is sent. -/
lemma afterWrite_path {w : Submitted} {rest : Turns}
    (h : TaskPath (match w.txId, w.confirmed with
      | some txHash, false => publishConfirm (confirmMessage strategy raw w.logId txHash)
      | txHash, _ => replyIfAsked raw.replyTo ⟨raw.correlationId, true, txHash, none⟩) rest x) :
    (∃ txHash, w = ⟨some txHash, false, w.logId⟩ ∧
      (x = .ok () ∧ rest = [.call (.publishConfirm (confirmMessage strategy raw w.logId txHash))
          (Except.ok ())] ∨
        (∃ err, x = .error err) ∧ (rest = [] ∨ ∃ err, rest = [.call (.publishConfirm
          (confirmMessage strategy raw w.logId txHash)) (Except.error err)]))) ∨
      (w.txId = none ∨ w.confirmed = true) ∧
        TaskPath (replyIfAsked raw.replyTo ⟨raw.correlationId, true, w.txId, none⟩) rest x := by
  rcases w with ⟨_ | txHash, confirmed, logId⟩
  · exact .inr ⟨.inl rfl, h⟩
  cases confirmed with
  | true => exact .inr ⟨.inr rfl, h⟩
  | false =>
    refine .inl ⟨txHash, rfl, ?_⟩
    simp only [publishConfirm] at h
    split at h
    · obtain ⟨_, rfl, rfl⟩ := taskPath_request.mp h
      cases x with
      | ok u => exact .inl ⟨rfl, rfl⟩
      | error err => exact .inr ⟨⟨err, rfl⟩, .inr ⟨err, rfl⟩⟩
    · obtain ⟨rfl, rfl⟩ := taskPath_throw.mp h
      exact .inr ⟨⟨_, rfl⟩, .inl rfl⟩

lemma submitHandler_path {queue : JsString} (hq : replyQueue raw.replyTo = some queue)
    (h : TaskPath (submitHandler cfg strategy raw) l x) : Handled cfg strategy raw queue l := by
  obtain ⟨lb, la, _, _, rfl, hbody, hack⟩ := TaskPath.finallyDo h
  obtain ⟨_, rfl, -⟩ := taskPath_request.mp hack
  rcases taskPath_tryCatch.mp hbody with ⟨_, hbody, -⟩ | ⟨l₁, l₂, err, rfl, hthrow, hcatch⟩
  · rcases taskPath_bind.mp hbody with ⟨lw, rest, w, rfl, hwrite, hrest⟩ | ⟨_, -, herr⟩
    swap
    · cases herr
    rcases submitWrite_path hwrite with ⟨success, _, hret, hw⟩ | ⟨-, -, _, herr⟩
    swap
    · cases herr
    cases hw
    rcases afterWrite_path hrest with ⟨txHash, hw, ⟨-, rfl⟩ | ⟨⟨_, herr⟩, -⟩⟩ | ⟨hw, hreply⟩
    · rw [hw] at hret
      rw [List.append_assoc]
      exact .handedOver hret
    · cases herr
    · obtain ⟨-, ⟨hnone, -⟩ | ⟨_, r, hqueue, rfl⟩⟩ := replyIfAsked_path hreply
      · rw [hq] at hnone
        cases hnone
      · obtain rfl := Option.some.inj (hq.symm.trans hqueue)
        rw [List.append_assoc]
        exact .replied hret hw
  · obtain ⟨-, ⟨hnone, -⟩ | ⟨_, r, hqueue, rfl⟩⟩ := replyIfAsked_path hcatch
    · rw [hq] at hnone
      cases hnone
    obtain rfl := Option.some.inj (hq.symm.trans hqueue)
    rw [List.append_assoc]
    rcases taskPath_bind.mp hthrow with ⟨lw, rest, w, rfl, hwrite, hrest⟩ | ⟨_, hwrite, -⟩
    · rcases submitWrite_path hwrite with ⟨success, _, hret, hw⟩ | ⟨-, -, _, herr⟩
      swap
      · cases herr
      cases hw
      rcases afterWrite_path hrest with ⟨txHash, hw, ⟨herr, -⟩ | ⟨-, hmore⟩⟩ | ⟨hw, hreply⟩
      · cases herr
      · rw [hw] at hret
        exact .notHandedOver hret hmore
      · cases (replyIfAsked_path hreply).1
    · rcases submitWrite_path hwrite with ⟨_, _, -, herr⟩ | ⟨rfl, hnot, -⟩
      · cases herr
      · exact .notWritten hnot

/-- The requests of the handler on its own, as a trace. -/
abbrev ownTurns (l : Turns) : Trace Req Req.Answer Unit Empty := ownTrace () l

/-- A confirm handler sends a success reply after the chain has told that the transaction is
confirmed. -/
lemma confirmReply_path {cm : ConfirmMessage} {queue : JsString} {msg : ResultMessage}
    {r : Except JsError Unit} (h : TaskPath (do
      let r ← pollFrom cfg cm.chain cm.txHash ⟨false, true⟩ 60 0
      confirmUpdate cfg strategy cm r
      replyIfAsked cm.replyTo ⟨cm.correlationId, r.confirmed, some cm.txHash, none⟩) l x)
    (hmem : Turn.call (.publishReply queue msg) r ∈ l) (hsuccess : msg.success = true) :
    SeenConfirmed () (ownTurns l) cm.txHash cm.chain := by
  have hpolls := pollFrom_follows (X := Empty) cfg cm.txHash () cm.chain 60 0 ⟨false, true⟩ [] rfl
    nofun
  rcases taskPath_bind.mp h with ⟨lp, rest, c, rfl, hp, hrest⟩ | ⟨err, hp, -⟩
  swap
  · exact (Follows.path hpolls hp).elim
  have hpolled : Polled cfg cm.txHash () (ownTurns lp) cm.chain c := Follows.path hpolls hp
  have hnext := confirmUpdate_follows cfg strategy cm () (ownTurns lp) hpolled
  -- neither the polls nor the update send a reply
  have hfirst : Turn.call (.publishReply queue msg) r ∉ lp := by
    intro hin
    obtain ⟨_, hlook⟩ := Follows.path_guard hpolls hp hin
    exact hlook
  have hsecond {lu : Turns} {u : Except JsError Unit}
      (hu : TaskPath (confirmUpdate cfg strategy cm c) lu u) :
      Turn.call (.publishReply queue msg) r ∉ lu := by
    intro hin
    obtain ⟨_, hstep⟩ := Follows.path_guard hnext hu hin
    exact hstep.ofStorage
  rw [ownTurns, ownTrace_append]
  apply SeenConfirmed.later _ (List.prefix_append _ _)
  rcases taskPath_bind.mp hrest with ⟨lu, lr, _, rfl, hu, hreply⟩ | ⟨err, hu, -⟩
  · obtain ⟨-, ⟨-, rfl⟩ | ⟨_, _, -, rfl⟩⟩ := replyIfAsked_path hreply
    · simp [hfirst, hsecond hu] at hmem
    · simp only [List.mem_append, hfirst, hsecond hu, false_or, List.mem_singleton] at hmem
      cases hmem
      exact hpolled.seenConfirmed hsuccess
  · simp [hfirst, hsecond hu] at hmem

lemma confirmHandler_path {cm : ConfirmMessage} {queue : JsString} {msg : ResultMessage}
    {r : Except JsError Unit} (h : TaskPath (confirmHandler cfg strategy cm) l x)
    (hmem : Turn.call (.publishReply queue msg) r ∈ l) (hsuccess : msg.success = true) :
    SeenConfirmed () (ownTurns l) cm.txHash cm.chain := by
  obtain ⟨lb, la, _, _, rfl, hbody, hack⟩ := TaskPath.finallyDo h
  obtain ⟨_, rfl, -⟩ := taskPath_request.mp hack
  have hin : Turn.call (.publishReply queue msg) r ∈ lb := by
    rcases List.mem_append.mp hmem with hin | hin
    · exact hin
    · cases List.mem_singleton.mp hin
  rw [ownTurns, ownTrace_append]
  apply SeenConfirmed.later _ (List.prefix_append _ _)
  rcases taskPath_tryCatch.mp hbody with ⟨_, hbody, -⟩ | ⟨l₁, l₂, err, rfl, hthrow, hcatch⟩
  · exact confirmReply_path hbody hin hsuccess
  rcases List.mem_append.mp hin with hin | hin
  · rw [ownTrace_append]
    exact (confirmReply_path hthrow hin hsuccess).later (List.prefix_append _ _)
  -- a reply of the `catch` block is none of success
  · obtain ⟨-, ⟨-, rfl⟩ | ⟨_, _, -, rfl⟩⟩ := replyIfAsked_path hcatch
    · cases hin
    · cases List.mem_singleton.mp hin
      cases hsuccess

end Handlers

/-! ### Honest replies -/

section Honest

variable (cfg : ServerConfig) (strategy : LogStrategy) (raw : SubmitMessage)

/-- The storage call of a handler has returned `success: true` with the transaction `txId`, if any,
and every transaction it submitted was accepted. -/
def Accepted (txId : Option TxHash) (l : Turns) : Prop :=
  ∃ l₁ l₂ w, l = l₁ ++ l₂ ∧ StorageReturns cfg (raw.storage cfg strategy) raw.body l₁ true w ∧
    w.txId = txId ∧ ∀ tx err, Turn.call (.submit tx) (Except.error err) ∉ l₁

/-- A success reply that is published about a message tells the truth, be it sent by the submit
handler with turns `l` or by the handler of the confirm message it has published. -/
structure RepliesHonest (l : Turns) : Prop where
  submit : ∀ queue msg, msg.success = true →
    Turn.call (.publishReply queue msg) (Except.ok ()) ∈ l → Accepted cfg strategy raw msg.txHash l
  confirm : ∀ cm lc x queue msg, Turn.call (.publishConfirm cm) (Except.ok ()) ∈ l →
    TaskPath (confirmHandler cfg cm.strategy cm) lc x → msg.success = true →
    Turn.call (.publishReply queue msg) (Except.ok ()) ∈ lc →
    Accepted cfg strategy raw (some cm.txHash) l ∧
      SeenConfirmed () (ownTurns lc) cm.txHash cm.chain

variable {cfg strategy raw} {l : Turns}

lemma clean_deeds : Clean (deeds l) ↔ ∀ e r, Turn.call e r ∈ l → ¬ Refused ⟨e, r⟩ := by
  constructor
  · intro h e r hmem
    exact h _ (mem_deeds.mpr hmem)
  · rintro h ⟨e, r⟩ hd
    exact h e r (mem_deeds.mp hd)

/-- A call that comes through keeps the promise of a success reply. -/
lemma StorageReturns.accepted {w : Submitted} {rest : Turns}
    (h : StorageReturns cfg (raw.storage cfg strategy) raw.body l true w) (hc : Clean (deeds l)) :
    Accepted cfg strategy raw w.txId (l ++ rest) := by
  refine ⟨l, rest, w, rfl, h, rfl, ?_⟩
  intro tx err hmem
  exact clean_deeds.mp hc _ _ hmem .submit

/-- A call that does not come through does not. -/
lemma StorageReturns.not_accepted {success : Bool} {w : Submitted} {txId : Option TxHash}
    {rest : Turns} (h : StorageReturns cfg (raw.storage cfg strategy) raw.body l success w)
    (hs : success = true → SubmitRefused (deeds l)) :
    ¬ Accepted cfg strategy raw txId (l ++ rest) := by
  rintro ⟨l₁, l₂, w', heq, h', -, hsubmit⟩
  obtain ⟨rfl, rfl, -⟩ := h.unique h' heq
  obtain ⟨tx, err, hmem⟩ := hs rfl
  exact hsubmit tx err (mem_deeds.mp hmem)

/-- No success reply is published, and no transaction is handed over. -/
structure Silent (l : Turns) : Prop where
  reply : ∀ queue msg, msg.success = true →
    Turn.call (.publishReply queue msg) (Except.ok ()) ∉ l
  confirm : ∀ cm, Turn.call (.publishConfirm cm) (Except.ok ()) ∉ l

/-- Where nothing is said, nothing is promised. -/
lemma Silent.repliesHonest (h : Silent l) : RepliesHonest cfg strategy raw l := by
  constructor
  · intro queue msg hsuccess hmem
    exact absurd hmem (h.reply queue msg hsuccess)
  · intro cm lc x queue msg hmem
    exact absurd hmem (h.confirm cm)

lemma Silent.append {l' : Turns} (h : Silent l) (h' : Silent l') : Silent (l ++ l') := by
  constructor
  · intro queue msg hsuccess hmem
    rcases List.mem_append.mp hmem with hmem | hmem
    · exact h.reply queue msg hsuccess hmem
    · exact h'.reply queue msg hsuccess hmem
  · intro cm hmem
    rcases List.mem_append.mp hmem with hmem | hmem
    · exact h.confirm cm hmem
    · exact h'.confirm cm hmem

lemma StorageReturns.silent {success : Bool} {w : Submitted}
    (h : StorageReturns cfg (raw.storage cfg strategy) raw.body l success w) : Silent l :=
  ⟨fun _ _ _ hmem => h.ofStorage hmem, fun _ hmem => h.ofStorage hmem⟩

/-- A reply that does not get through or tells of a failure. -/
lemma silent_reply {queue : JsString} {msg : ResultMessage} {r : Except JsError Unit}
    (h : msg.success = false ∨ ∃ err, r = .error err) :
    Silent [.call (.publishReply queue msg) r, .call .ack ()] := by
  constructor
  · intro queue' msg' hsuccess hmem
    rcases List.mem_cons.mp hmem with hmem | hmem
    · cases hmem
      rcases h with h | ⟨err, h⟩
      · cases h.symm.trans hsuccess
      · cases h
    · cases List.mem_singleton.mp hmem
  · intro cm hmem
    rcases List.mem_cons.mp hmem with hmem | hmem
    · cases hmem
    · cases List.mem_singleton.mp hmem

/-- A transaction is not handed over. -/
lemma silent_notHandedOver {more : Turns} {cm : ConfirmMessage}
    (h : more = [] ∨ ∃ err, more = [.call (.publishConfirm cm) (Except.error err)]) :
    Silent more := by
  rcases h with rfl | ⟨err, rfl⟩
  · exact ⟨fun _ _ _ hmem => (by cases hmem), fun _ hmem => (by cases hmem)⟩
  · constructor
    · intro queue msg _ hmem
      cases List.mem_singleton.mp hmem
    · intro cm' hmem
      cases List.mem_singleton.mp hmem

/-- What is asked of the broker is asked after the storage call. -/
lemma StorageReturns.mem_rest {success : Bool} {w : Submitted} {rest : Turns}
    (h : StorageReturns cfg (raw.storage cfg strategy) raw.body l success w) {e : Req}
    {r : e.Answer} (he : ¬ e.OfStorage) (hmem : Turn.call e r ∈ l ++ rest) :
    Turn.call e r ∈ rest := by
  rcases List.mem_append.mp hmem with hmem | hmem
  · exact absurd (h.ofStorage hmem) he
  · exact hmem

lemma clean_append {rest : Turns} (hc : Clean (deeds l))
    (hrest : ∀ e r, Turn.call e r ∈ rest → ¬ e.OfStorage) : Clean (deeds (l ++ rest)) := by
  apply clean_deeds.mpr
  intro e r hmem
  rcases List.mem_append.mp hmem with hmem | hmem
  · exact clean_deeds.mp hc e r hmem
  · exact not_refused_ok (.inl (hrest e r hmem))

/-- The last turn of a handler is its acknowledgement. -/
lemma not_ofStorage_of_mem {e₀ e : Req} {r₀ : e₀.Answer} {r : e.Answer} (h : ¬ e₀.OfStorage)
    (hmem : Turn.call e r ∈ [Turn.call e₀ r₀, .call .ack ()]) : ¬ e.OfStorage := by
  rcases List.mem_cons.mp hmem with hmem | hmem
  · cases hmem
    exact h
  · cases List.mem_singleton.mp hmem
    exact id

lemma StorageReturns.written {success : Bool} {w : Submitted}
    (h : StorageReturns cfg (raw.storage cfg strategy) raw.body l success w) :
    ¬ NotWritten cfg (raw.storage cfg strategy) raw.body := by
  generalize raw.storage cfg strategy = storage at h
  generalize raw.body = body at h
  intro hnot
  cases h with
  | entry hst h => cases hnot with
    | noStorage hst' => cases hst.symm.trans hst'
  | entries hst hwrite h => cases hnot with
    | noStorage hst' => cases hst.symm.trans hst'
    | noBatch hst' hnone =>
      obtain rfl := Option.some.inj (hst.symm.trans hst')
      cases hwrite.symm.trans hnone

/-- A transaction that is handed over was accepted, and a later success reply says truly that it is
confirmed. -/
lemma repliesHonest_handedOver {success : Bool} {txHash : TxHash} {logId : JsString}
    (h : StorageReturns cfg (raw.storage cfg strategy) raw.body l success
      ⟨some txHash, false, logId⟩) (hs : success = true) (hc : Clean (deeds l)) :
    RepliesHonest cfg strategy raw (l ++
      [.call (.publishConfirm (confirmMessage strategy raw logId txHash)) (Except.ok ()),
        .call .ack ()]) := by
  subst hs
  constructor
  · intro queue msg _ hmem
    rcases List.mem_cons.mp (h.mem_rest id hmem) with hmem | hmem
    · cases hmem
    · cases List.mem_singleton.mp hmem
  · intro cm lc x queue msg hmem hpath hsuccess hreply
    rcases List.mem_cons.mp (h.mem_rest id hmem) with hmem | hmem
    · cases hmem
      exact ⟨h.accepted hc, confirmHandler_path hpath hreply hsuccess⟩
    · cases List.mem_singleton.mp hmem

/-- A success reply of the submit handler is honest if the storage call has come through. -/
lemma repliesHonest_replied {success : Bool} {w : Submitted} {queue : JsString}
    {r : Except JsError Unit}
    (h : StorageReturns cfg (raw.storage cfg strategy) raw.body l success w)
    (hs : success = true) (hc : Clean (deeds l)) :
    RepliesHonest cfg strategy raw (l ++
      [.call (.publishReply queue ⟨raw.correlationId, true, w.txId, none⟩) r, .call .ack ()]) := by
  subst hs
  constructor
  · intro queue' msg _ hmem
    rcases List.mem_cons.mp (h.mem_rest id hmem) with hmem | hmem
    · cases hmem
      exact h.accepted hc
    · cases List.mem_singleton.mp hmem
  · intro cm lc x queue' msg hmem
    rcases List.mem_cons.mp (h.mem_rest id hmem) with hmem | hmem
    · cases hmem
    · cases List.mem_singleton.mp hmem

section Turns

variable {queue : JsString} {x : Except JsError Unit}

/-- Where the replies are honest, the storage could not be called, no reply got through, or all that
was to be sent went through. -/
lemma RepliesHonest.kept (hq : replyQueue raw.replyTo = some queue)
    (hl : TaskPath (submitHandler cfg strategy raw) l x)
    (hhonest : RepliesHonest cfg strategy raw l)
    (hwritten : ¬ NotWritten cfg (raw.storage cfg strategy) raw.body)
    (htold : ∀ msg err, Turn.call (.publishReply queue msg) (Except.error err) ∉ l) :
    Sendable cfg (raw.storage cfg strategy) raw.body ∧ Clean (deeds l) := by
  cases submitHandler_path hq hl with
  | handedOver h =>
    obtain ⟨confirmed, hend, -⟩ := h.writeEnd
    cases hend with
    | submitted hsend hc => exact ⟨hsend, clean_append hc fun _ _ => not_ofStorage_of_mem id⟩
  | @replied l success w r h hw =>
    obtain ⟨confirmed, hend, hconfirmed⟩ := h.writeEnd
    rcases w with ⟨txId, _, logId⟩
    cases hend with
    | submitted hsend hc => exact ⟨hsend, clean_append hc fun _ _ => not_ofStorage_of_mem id⟩
    | stored hsend hc => exact ⟨hsend, clean_append hc fun _ _ => not_ofStorage_of_mem id⟩
    | failed hnot hs =>
      cases r with
      | ok u =>
        have htrue := hhonest.submit queue ⟨raw.correlationId, true, none, none⟩ rfl
          (List.mem_append_right _ (List.mem_cons_self ..))
        exact absurd htrue (h.not_accepted hs)
      | error err =>
        exact absurd (List.mem_append_right _ (List.mem_cons_self ..)) (htold _ err)
  | @notHandedOver l more _ txHash logId r err h hmore =>
    obtain ⟨confirmed, hend, -⟩ := h.writeEnd
    cases hend with
    | submitted hsend hc =>
      refine ⟨hsend, clean_append (clean_append hc fun e r hmem => ?_) fun _ _ =>
        not_ofStorage_of_mem id⟩
      rcases hmore with rfl | ⟨err', rfl⟩
      · cases hmem
      · cases List.mem_singleton.mp hmem
        exact id
  | notWritten h => exact absurd h hwritten

/-- Where all that was to be sent went through, the replies are honest. -/
lemma repliesHonest_of_clean (hq : replyQueue raw.replyTo = some queue)
    (hl : TaskPath (submitHandler cfg strategy raw) l x)
    (hsend : Sendable cfg (raw.storage cfg strategy) raw.body) (hclean : Clean (deeds l)) :
    RepliesHonest cfg strategy raw l := by
  cases submitHandler_path hq hl with
  | handedOver h =>
    obtain ⟨confirmed, hend, -⟩ := h.writeEnd
    cases hend with
    | submitted _ hc => exact repliesHonest_handedOver h rfl hc
  | @replied l success w r h hw =>
    have hc : Clean (deeds l) := clean_deeds.mpr fun e r hmem =>
      clean_deeds.mp hclean e r (List.mem_append_left _ hmem)
    obtain ⟨confirmed, hend, -⟩ := h.writeEnd
    rcases w with ⟨txId, _, logId⟩
    cases hend with
    | submitted _ _ => exact repliesHonest_replied h rfl hc
    | stored _ _ => exact repliesHonest_replied h rfl hc
    | failed hnot _ => exact absurd ⟨hsend, hc⟩ hnot
  | notHandedOver h hmore =>
    exact ((h.silent.append (silent_notHandedOver hmore)).append
      (silent_reply (.inl rfl))).repliesHonest
  | notWritten h => exact (silent_reply (.inl rfl)).repliesHonest

/-- Where there is no storage to call, or no reply gets through, no success is told. -/
lemma repliesHonest_of_untold (hq : replyQueue raw.replyTo = some queue)
    (hl : TaskPath (submitHandler cfg strategy raw) l x)
    (h : NotWritten cfg (raw.storage cfg strategy) raw.body ∨
      ∃ msg err, Turn.call (.publishReply queue msg) (Except.error err) ∈ l) :
    RepliesHonest cfg strategy raw l := by
  cases submitHandler_path hq hl with
  | handedOver hret =>
    rcases h with hnot | ⟨msg, err, hmem⟩
    · exact absurd hnot hret.written
    · rcases List.mem_cons.mp (hret.mem_rest id hmem) with hmem | hmem
      · cases hmem
      · cases List.mem_singleton.mp hmem
  | replied hret _ =>
    rcases h with hnot | ⟨msg, err, hmem⟩
    · exact absurd hnot hret.written
    · rcases List.mem_cons.mp (hret.mem_rest id hmem) with hmem | hmem
      · cases hmem
        exact (hret.silent.append (silent_reply (.inr ⟨err, rfl⟩))).repliesHonest
      · cases List.mem_singleton.mp hmem
  | notHandedOver hret hmore =>
    exact ((hret.silent.append (silent_notHandedOver hmore)).append
      (silent_reply (.inl rfl))).repliesHonest
  | notWritten hnot => exact (silent_reply (.inl rfl)).repliesHonest

end Turns

/-- The replies about a message are honest exactly where its storage cannot be called, no reply gets
through, or there is something to send and no request of the storage is refused. -/
theorem replies_honest_iff (cfg : ServerConfig) (strategy : LogStrategy) (raw : SubmitMessage)
    {queue : JsString} (hq : replyQueue raw.replyTo = some queue) {l : Turns} {x : Except JsError Unit}
    (hl : TaskPath (submitHandler cfg strategy raw) l x) :
    RepliesHonest cfg strategy raw l ↔
      NotWritten cfg (raw.storage cfg strategy) raw.body ∨
        (∃ msg err, Turn.call (.publishReply queue msg) (Except.error err) ∈ l) ∨
        Sendable cfg (raw.storage cfg strategy) raw.body ∧
          ∀ e r, Turn.call e r ∈ l → ¬ Refused ⟨e, r⟩ := by
  rw [← clean_deeds]
  constructor
  · intro hhonest
    by_cases hnot : NotWritten cfg (raw.storage cfg strategy) raw.body
    · exact .inl hnot
    by_cases htold : ∃ msg err, Turn.call (.publishReply queue msg) (Except.error err) ∈ l
    · exact .inr (.inl htold)
    · exact .inr (.inr (hhonest.kept hq hl hnot fun msg err hmem => htold ⟨msg, err, hmem⟩))
  · rintro (hnot | htold | ⟨hsend, hclean⟩)
    · exact repliesHonest_of_untold hq hl (.inl hnot)
    · exact repliesHonest_of_untold hq hl (.inr htold)
    · exact repliesHonest_of_clean hq hl hsend hclean

end Honest

/-- The way of the handler of a message for the private chain with given answers. -/
def askedPath (answer : (e : Req) → e.Answer) : Turns × Except JsError Unit :=
  (submitHandler connectedConfig .privateChain askingMessage).run.walk (fun _ => answer) []

lemma askedPath_path (answer : (e : Req) → e.Answer) :
    TaskPath (submitHandler connectedConfig .privateChain askingMessage) (askedPath answer).1
      (askedPath answer).2 := path_walk _ _ _

lemma askedPath_included : ∃ tx cm, (askedPath (decidedAnswer .included)).1 =
    [.call .now (0 : ℕ), .call (.submit tx) (Except.ok includedHash),
      .call (.publishConfirm cm) (Except.ok ()), .call .ack ()] := ⟨_, _, rfl⟩

theorem handed_over_honest :
    RepliesHonest connectedConfig .privateChain askingMessage
      (askedPath (decidedAnswer .included)).1 := by
  apply (replies_honest_iff connectedConfig .privateChain askingMessage rfl
    (askedPath_path (decidedAnswer .included))).mpr
  refine .inr (.inr ⟨fun st hst => ?_, fun e r hmem href => ?_⟩)
  · cases hst
    exact ⟨_, 0, rfl⟩
  · obtain ⟨tx, cm, hturns⟩ := askedPath_included
    rw [hturns] at hmem
    simp only [List.mem_cons, List.not_mem_nil, or_false] at hmem
    rcases hmem with hmem | hmem | hmem | hmem
    all_goals
      cases hmem
      cases href

/-- A chain that takes no transaction. -/
def refusedSubmit : (e : Req) → e.Answer
  | .submit _ => (Except.error "Error: connect ECONNREFUSED" : Except JsError TxHash)
  | e => decidedAnswer .included e

lemma askedPath_refused : ∃ tx msg, (askedPath refusedSubmit).1 =
    [.call .now (0 : ℕ), .call (.submit tx) (Except.error "Error: connect ECONNREFUSED"),
      .call (.publishReply [0x71] msg) (Except.ok ()), .call .ack ()] := ⟨_, _, rfl⟩

theorem refused_transaction_reported : ¬ ∀ (cfg : ServerConfig) (strategy : LogStrategy)
    (raw : SubmitMessage) (queue : JsString) (l : Turns) (x : Except JsError Unit),
    replyQueue raw.replyTo = some queue → TaskPath (submitHandler cfg strategy raw) l x →
    RepliesHonest cfg strategy raw l := by
  intro hall
  have hhonest := hall _ _ _ _ _ _ rfl (askedPath_path refusedSubmit)
  obtain ⟨tx, msg, hturns⟩ := askedPath_refused
  have hkept := hhonest.kept rfl (askedPath_path refusedSubmit) ?_ ?_
  · apply clean_deeds.mp hkept.2 (.submit tx) (Except.error "Error: connect ECONNREFUSED") _ .submit
    rw [hturns]
    simp
  · intro hnot
    cases hnot with
    | noStorage h => cases h
  · intro msg' err hmem
    rw [hturns] at hmem
    simp only [List.mem_cons, List.not_mem_nil, or_false] at hmem
    rcases hmem with hmem | hmem | hmem | hmem
    all_goals cases hmem

end HybridLog
