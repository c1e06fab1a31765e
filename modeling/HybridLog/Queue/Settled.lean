import HybridLog.Async.Schedule
import HybridLog.Queue.Handovers

/-!
# Settled rows

A status other than pending settles a row. Since a row is handed over once, only the handlers of one
confirm message write its status after that, so a settled row changes again only if that message is
handled again.
-/

namespace HybridLog

open Js Async

/-- A request that writes status `st` for the row of key `k`. -/
inductive Req.WritesStatus : StatusKey → AnchorStatus → Req → Prop
  | log {db : Db} {s : Side} {id : JsString} {st : AnchorStatus} {txHash : Option TxHash}
    {anchoredAt : Option ℕ} : WritesStatus (.log db s id) st
      (.updateAnchorStatus db (.anchored s) id st txHash anchoredAt)
  | batch {db : Db} {s : Side} {root : JsString} {st : AnchorStatus} {txHash : Option TxHash}
    {anchoredAt : Option ℕ} : WritesStatus (.batch db s root) st
      (.updateBatchAnchorStatus db s root st txHash anchoredAt)

/-- A status for the row of key `k` has been written by `t`. -/
def Wrote (t : Tag) (k : StatusKey) (st : AnchorStatus) (ev : Event Req Req.Answer Tag Delivery) :
    Prop :=
  ∃ e r, ev = .call t e r ∧ e.succeeds r = true ∧ e.WritesStatus k st

/-! ### Counting tokens -/

@[simp] lemma given_append (tr tr' : RedeliveryTrace) : given (tr ++ tr') = given tr + given tr' := by
  simp [given]

@[simp] lemma taken_append (tr tr' : RedeliveryTrace) : taken (tr ++ tr') = taken tr + taken tr' := by
  simp [taken]

lemma given_cons (ev : Event Req Req.Answer Tag Delivery) (tr : RedeliveryTrace) :
    given (ev :: tr) = given [ev] + given tr := given_append [ev] tr

lemma taken_cons (ev : Event Req Req.Answer Tag Delivery) (tr : RedeliveryTrace) :
    taken (ev :: tr) = taken [ev] + taken tr := taken_append [ev] tr

lemma given_call {t : Tag} {e : Req} {r : e.Answer} (h : e.succeeds r = true) :
    given [.call t e r] = tokens (e.gives t) := by
  simp [given, Tariff.charged, statusTariff, h]

lemma taken_call {t : Tag} {e : Req} {r : e.Answer} (h : e.succeeds r = true) :
    taken [.call t e r] = tokens (e.takes t) := by
  simp [taken, Tariff.paid, statusTariff, h]

lemma given_failed {t : Tag} {e : Req} {r : e.Answer} (h : e.succeeds r = false) :
    given [.call t e r] = 0 := by
  simp [given, Tariff.charged, statusTariff, h]

@[simp] lemma given_ext (x : Delivery) : given [.ext x] = 0 := rfl

lemma count_tokens (o : Option Token) (tok : Token) :
    (tokens o).count tok = if o = some tok then 1 else 0 := by
  cases o with
  | none => rfl
  | some k =>
    rw [tokens_some, Multiset.count_singleton]
    simp [eq_comm]

lemma Req.takes_of_gives {t : Tag} {e : Req} {k : StatusKey} (h : e.gives t = some (.handOver k)) :
    e.takes t = some (.write k) := by
  cases e with
  | insert db table row =>
    simp only [gives] at h
    split at h
    · cases h
    · simp at h
  | insertBatchRecord db table row => simp [gives] at h
  | updateAnchorStatus db table id status txHash anchoredAt =>
    cases status with
    | pending =>
      cases ht : t.writes with
      | false => simp [gives, ht] at h
      | true =>
        simp only [gives, takes, ht, if_true] at h ⊢
        obtain ⟨k', hk, heq⟩ := Option.map_eq_some_iff.mp h
        cases heq
        rw [hk]
        rfl
    | confirmed | failed => cases h
  | updateBatchAnchorStatus db table root status txHash anchoredAt =>
    cases status with
    | pending =>
      cases ht : t.writes with
      | false => simp [gives, ht] at h
      | true =>
        simp only [gives, takes, ht, if_true] at h ⊢
        cases h
        rfl
    | confirmed | failed => cases h
  | _ => cases h

/-- The right to hand a row over comes with an update that takes the right to write its status. -/
lemma handOver_le_write (k : StatusKey) (tr : RedeliveryTrace) :
    (given tr).count (.handOver k) ≤ (taken tr).count (.write k) := by
  induction tr with
  | nil => exact le_rfl
  | cons ev tr ih =>
    rw [given_cons, taken_cons, Multiset.count_add, Multiset.count_add]
    apply add_le_add _ ih
    cases ev with
    | ext x => exact Nat.zero_le _
    | call t e r =>
      cases hs : e.succeeds r with
      | false =>
        rw [given_failed hs]
        exact Nat.zero_le _
      | true =>
        rw [given_call hs, taken_call hs, count_tokens, count_tokens]
        split
        · next hg => rw [if_pos (Req.takes_of_gives hg)]
        · exact Nat.zero_le _

/-- An update by the program that has inserted the row takes the right to write its status. -/
lemma Req.WritesStatus.takes {k : StatusKey} {st : AnchorStatus} {e : Req} {t : Tag}
    (h : e.WritesStatus k st) (ht : t.writes = true) : e.takes t = some (.write k) := by
  cases h with
  | log => simp [Req.takes, ht, LogTable.statusKey]
  | batch => simp [Req.takes, ht]

lemma Wrote.taken {t : Tag} {k : StatusKey} {st : AnchorStatus}
    {ev : Event Req Req.Answer Tag Delivery} (h : Wrote t k st ev) (ht : t.writes = true) :
    taken [ev] = {.write k} := by
  obtain ⟨e, r, rfl, hs, hw⟩ := h
  rw [taken_call hs, hw.takes ht, tokens_some]

/-! ### Keys in use -/

/-- The key of a batch record, or of a leaf that is written on its own, with its insertion. -/
def batchKey : Event Req Req.Answer Tag Delivery → Option (Db × Side × JsString)
  | .call _ (.insertBatchRecord db table row) (Except.ok ()) => some (db, table, row.merkleRoot)
  | .call _ (.insert db (.batched s) row) (Except.ok ()) =>
    if row.anchorStatus = none then none else some (db, s, row.id)
  | _ => none

/-- No record of a batch is inserted under a root that is in use. -/
def RootsOnce (tr : RedeliveryTrace) : Prop := (tr.filterMap batchKey).Nodup

lemma Req.gives_write {t : Tag} {e : Req} {k : StatusKey} (h : e.gives t = some (.write k)) :
    (∃ db table row, e = .insert db table row ∧ row.anchorStatus ≠ none ∧
        table.statusKey db row.id = some k) ∨
      ∃ db table row, e = .insertBatchRecord db table row ∧ k = .batch db table row.merkleRoot := by
  cases e with
  | insert db table row =>
    simp only [gives] at h
    split at h
    · cases h
    · next hnone =>
      obtain ⟨k', hk, heq⟩ := Option.map_eq_some_iff.mp h
      cases heq
      exact .inl ⟨db, table, row, rfl, hnone, hk⟩
  | insertBatchRecord db table row =>
    cases h
    exact .inr ⟨db, table, row, rfl, rfl⟩
  | updateAnchorStatus db table id status txHash anchoredAt =>
    cases status with
    | pending =>
      simp only [gives] at h
      split at h
      · simp at h
      · cases h
    | confirmed | failed => cases h
  | updateBatchAnchorStatus db table root status txHash anchoredAt =>
    cases status with
    | pending =>
      simp only [gives] at h
      split at h <;> cases h
    | confirmed | failed => cases h
  | _ => cases h

/-- The right to write the status of a row is given with its insertion. -/
lemma write_le_keys {α : Type} [DecidableEq α] {f : Event Req Req.Answer Tag Delivery → Option α}
    {k : StatusKey} (key : α)
    (hf : ∀ (t : Tag) (e : Req) (r : e.Answer), e.succeeds r = true → e.gives t = some (.write k) →
      f (.call t e r) = some key) (tr : RedeliveryTrace) :
    (given tr).count (.write k) ≤ (tr.filterMap f : Multiset α).count key := by
  induction tr with
  | nil => exact Nat.zero_le _
  | cons ev tr ih =>
    rw [given_cons, Multiset.count_add]
    have hrest : (tr.filterMap f : Multiset α).count key ≤
        ((ev :: tr).filterMap f : Multiset α).count key := by
      apply Multiset.count_le_of_le
      exact Multiset.coe_le.mpr ((List.sublist_cons_self ev tr).filterMap f).subperm
    cases ev with
    | ext x =>
      rw [given_ext, Multiset.count_zero, zero_add]
      exact ih.trans hrest
    | call t e r =>
      cases hs : e.succeeds r with
      | false =>
        rw [given_failed hs, Multiset.count_zero, zero_add]
        exact ih.trans hrest
      | true =>
        rw [given_call hs, count_tokens]
        split
        · next hg =>
          rw [List.filterMap_cons_some (hf t e r hs hg), ← Multiset.cons_coe,
            Multiset.count_cons_self, add_comm]
          exact Nat.succ_le_succ ih
        · rw [zero_add]
          exact ih.trans hrest

variable {cfg : ServerConfig} {objectHash : ObjectHash}

/-- The right to write the status of a row is given once. -/
lemma write_given_once {c : RedeliveryConfig} (h : Reach (atLeastOnce cfg objectHash) .start c)
    (hroots : RootsOnce c.world.trace) (k : StatusKey) :
    (given c.world.trace).count (.write k) ≤ 1 := by
  cases k with
  | log db s id =>
    have hinserts := (atLeastOnce_faithful cfg objectHash).inserts_once h
    refine (write_le_keys (db, LogTable.anchored s, id) ?_ _).trans
      (Multiset.nodup_iff_count_le_one.mp (Multiset.coe_nodup.mpr hinserts) _)
    intro t e r hs hg
    rcases Req.gives_write hg with ⟨db', table, row, rfl, -, hk⟩ | ⟨db', table, row, rfl, hk⟩
    · cases r with
      | error err => cases hs
      | ok u => cases table with
        | offchain => cases hk
        | anchored s' => cases hk; rfl
        | batched s' => cases hk
    · cases hk
  | batch db s root =>
    refine (write_le_keys (db, s, root) ?_ _).trans
      (Multiset.nodup_iff_count_le_one.mp (Multiset.coe_nodup.mpr hroots) _)
    intro t e r hs hg
    rcases Req.gives_write hg with ⟨db', table, row, rfl, hrow, hk⟩ | ⟨db', table, row, rfl, hk⟩
    · cases r with
      | error err => cases hs
      | ok u => cases table with
        | offchain => cases hk
        | anchored s' => cases hk
        | batched s' =>
          cases hk
          exact if_neg hrow
    · cases hk
      cases r with
      | error err => cases hs
      | ok u => rfl

/-! ### Messages that name a row -/

lemma taken_publishConfirm (t : Tag) {msg : ConfirmMessage} {k : StatusKey}
    (hk : msg.statusKey = some k) :
    taken [.call t (.publishConfirm msg) (Except.ok ())] = {.handOver k} := by
  apply (taken_call (e := .publishConfirm msg) rfl).trans
  rw [Req.takes, hk]
  rfl

/-- A message that has been published has taken the right to hand its row over. -/
lemma taken_of_published {tr : RedeliveryTrace} {t : Tag} {seq : ℕ} {msg : ConfirmMessage}
    {k : StatusKey} (h : Published tr t seq msg) (hk : msg.statusKey = some k) :
    0 < (taken tr).count (.handOver k) := by
  obtain ⟨pre, post, rfl, -⟩ := h
  rw [taken_append, taken_cons, taken_publishConfirm t hk, Multiset.count_add, Multiset.count_add,
    Multiset.count_singleton_self]
  omega

/-- Two messages for one row have taken the right twice. -/
lemma taken_twice {tr : RedeliveryTrace} {t t' : Tag} {seq seq' : ℕ} {msg msg' : ConfirmMessage}
    {k : StatusKey} (h : Published tr t seq msg) (h' : Published tr t' seq' msg')
    (hk : msg.statusKey = some k) (hk' : msg'.statusKey = some k) (hlt : seq < seq') :
    2 ≤ (taken tr).count (.handOver k) := by
  obtain ⟨pre, post, rfl, rfl⟩ := h'
  -- the first message stands before the second one
  have hpre : Published pre t seq msg := by
    obtain ⟨pre', post', hsplit, rfl⟩ := h
    rcases List.append_eq_append_iff.mp hsplit.symm with ⟨mid, rfl, hmid⟩ | ⟨mid, rfl, hmid⟩
    · cases mid with
      | nil => simp at hlt
      | cons x mid =>
        obtain ⟨rfl, rfl⟩ := List.cons.inj hmid
        exact ⟨pre', mid, rfl, rfl⟩
    · rw [List.countP_append] at hlt
      omega
  have hfirst := taken_of_published hpre hk
  rw [taken_append, taken_cons, taken_publishConfirm t' hk', Multiset.count_add,
    Multiset.count_add, Multiset.count_singleton_self]
  omega

/-- At most one message for a row is published. -/
lemma published_once {c : RedeliveryConfig} (h : Reach (atLeastOnce cfg objectHash) .start c)
    (hroots : RootsOnce c.world.trace) {t t' : Tag} {seq seq' : ℕ} {msg msg' : ConfirmMessage}
    {k : StatusKey} (hp : Published c.world.trace t seq msg)
    (hp' : Published c.world.trace t' seq' msg') (hk : msg.statusKey = some k)
    (hk' : msg'.statusKey = some k) : seq = seq' ∧ msg = msg' := by
  have hone : (taken c.world.trace).count (.handOver k) ≤ 1 :=
    calc _ ≤ (given c.world.trace).count (.handOver k) :=
          Multiset.count_le_of_le _ (taken_le_given h)
      _ ≤ (taken c.world.trace).count (.write k) := handOver_le_write k _
      _ ≤ (given c.world.trace).count (.write k) :=
          Multiset.count_le_of_le _ (taken_le_given h)
      _ ≤ 1 := write_given_once h hroots k
  rcases lt_trichotomy seq seq' with hlt | rfl | hlt
  · have htwo := taken_twice hp hp' hk hk' hlt
    omega
  · exact ⟨rfl, hp.unique hp'⟩
  · have htwo := taken_twice hp' hp hk' hk hlt
    omega

lemma statusKey_of_batch {raw : ConfirmMessage} {table : Side}
    (hs : raw.strategy.isHybrid = true) (hb : raw.UpdatesBatch raw.strategy table) :
    raw.statusKey = some (.batch raw.db table raw.logId) := by
  rw [ConfirmMessage.statusKey, if_pos hs, hb.1, hb.2]

lemma statusKey_of_log {raw : ConfirmMessage} (hs : raw.strategy.isHybrid = true)
    (hb : raw.UpdatesLog raw.strategy) :
    raw.statusKey = raw.dbTable.statusKey raw.db raw.logId := by
  rw [ConfirmMessage.statusKey, if_pos hs]
  split
  · next table hbatch htable => exact absurd ⟨table, hbatch, htable⟩ hb
  · rfl

lemma Req.WritesStatus.statusKey {db : Db} {table : LogTable} {id : JsString} {st : AnchorStatus}
    {txHash : Option TxHash} {anchoredAt : Option ℕ} {k : StatusKey} {st' : AnchorStatus}
    (h : (Req.updateAnchorStatus db table id st txHash anchoredAt).WritesStatus k st') :
    table.statusKey db id = some k := by
  cases h
  rfl

/-- The handler of a confirm message writes the status of the row the message names. -/
lemma ConfirmStep.writesStatus {raw : ConfirmMessage} {t : Tag} {e : Req} {tr : RedeliveryTrace}
    {k : StatusKey} {st : AnchorStatus} (h : ConfirmStep cfg raw.strategy raw t e tr)
    (hw : e.WritesStatus k st) : raw.statusKey = some k := by
  cases h with
  | update h => cases h with
    | looks h => cases hw <;> exact h.elim
    | batch hs _ hb =>
      cases hw
      exact statusKey_of_batch hs hb
    | log hs _ hb =>
      rw [statusKey_of_log hs hb]
      exact hw.statusKey
  | reply _ _ _ | ack _ => cases hw

/-- The handler of a confirm message that writes the status of a row: its message has been
published. -/
lemma published_of_writes {c : RedeliveryConfig} (h : Reach (atLeastOnce cfg objectHash) .start c)
    {seq : ℕ} {msg : ConfirmMessage} {k : StatusKey} {st : AnchorStatus} {e : Req}
    {tr : RedeliveryTrace} (hstep : ServerStep .server cfg (.confirm seq msg) e tr)
    (htr : tr <+: c.world.trace) (hw : e.WritesStatus k st) :
    msg.statusKey = some k ∧ ∃ t, Published c.world.trace t seq msg := by
  refine ⟨ConfirmStep.writesStatus hstep.step hw, ?_⟩
  cases hstep.begun.later htr with
  | confirm hdelivered => exact (delivers h).delivered seq msg hdelivered

lemma RootsOnce.mono {tr tr' : RedeliveryTrace} (h : RootsOnce tr') (htr : tr <+: tr') :
    RootsOnce tr := List.Nodup.sublist (htr.sublist.filterMap batchKey) h

/-- The program that has inserted a row writes its status first, and before that no message for the
row is published. -/
lemma first_write {c c' : RedeliveryConfig} (h' : Reach (atLeastOnce cfg objectHash) .start c')
    {ev : Event Req Req.Answer Tag Delivery} (htrace : c'.world.trace = c.world.trace ++ [ev])
    (h : Reach (atLeastOnce cfg objectHash) .start c) (hroots : RootsOnce c'.world.trace) {t : Tag}
    {k : StatusKey} {st : AnchorStatus} (hw : Wrote t k st ev) (ht : t.writes = true) :
    (taken c.world.trace).count (.write k) = 0 ∧ (taken c.world.trace).count (.handOver k) = 0 := by
  have hbound : (taken c'.world.trace).count (.write k) ≤ 1 :=
    (Multiset.count_le_of_le _ (taken_le_given h')).trans (write_given_once h' hroots k)
  have hlast : (taken c'.world.trace).count (.write k) =
      (taken c.world.trace).count (.write k) + 1 := by
    rw [htrace, taken_append, hw.taken ht, Multiset.count_add, Multiset.count_singleton_self]
  have hhanded : (taken c.world.trace).count (.handOver k) ≤
      (given c.world.trace).count (.handOver k) :=
    Multiset.count_le_of_le _ (taken_le_given h)
  have hwrites := handOver_le_write k c.world.trace
  omega

/-! ### Rows -/

/-- A row is inserted with a status that is pending, if it has one. -/
def Req.InsertsPending : Req → Prop
  | .insert _ _ row => row.anchorStatus = none ∨ row.anchorStatus = some .pending
  | .insertBatchRecord _ _ row => row.anchorStatus = .pending
  | _ => True

lemma AnchorStep.insertsPending {payload : Payload} {t : Tag} {e : Req} {tr : RedeliveryTrace}
    (h : AnchorStep payload t e tr) : e.InsertsPending := by
  cases h with
  | looks h => cases e <;> trivial
  | submit _ => trivial

lemma Storage.LogStep.insertsPending {opts : Option WriteOpts} {entry : LogEntry} {st : Storage}
    {t : Tag} {e : Req} {tr : RedeliveryTrace} (h : Storage.LogStep cfg opts entry t st e tr) :
    e.InsertsPending := by
  cases h with
  | offchain => exact .inl rfl
  | chain h => exact h.insertsPending
  | @hybrid db _ mode _ _ h => cases h with
    | insert =>
      cases db with
      | postgres => cases mode with
        | anchored s => exact .inr rfl
        | batched s => exact .inl rfl
      | mongo => exact .inr rfl
    | anchor _ h => exact h.insertsPending
    | update _ _ => trivial

lemma Storage.BatchStep.insertsPending {opts : Option WriteOpts} {entries : List LogEntry}
    {st : Storage} {t : Tag} {e : Req} {tr : RedeliveryTrace}
    (h : Storage.BatchStep cfg opts entries t st e tr) : e.InsertsPending := by
  cases h with
  | chain h => exact h.insertsPending
  | @hybrid db _ _ _ _ h => cases h with
    | insert _ => exact .inl rfl
    | record _ => rfl
    | link _ h => cases db with
      | postgres =>
        cases h
        trivial
      | mongo =>
        obtain ⟨_, _, _, rfl⟩ := h
        trivial
    | anchor _ h => exact h.insertsPending
    | update _ _ => trivial

lemma ServerStep.insertsPending {t : Tag} {e : Req} {tr : RedeliveryTrace}
    (h : ServerStep .server cfg t e tr) : e.InsertsPending := by
  by_cases he : e.OfStorage
  · cases TagStep.storage h.step he with
    | looks h => cases e <;> trivial
    | log h => exact h.insertsPending
    | batch h => exact h.insertsPending
    | update h => cases h with
      | looks h => cases e <;> trivial
      | batch _ _ _ | log _ _ _ => trivial
  · -- nothing else is inserted
    cases e with
    | insert | insertBatchRecord => exact absurd trivial he
    | _ => trivial

/-- A step leaves the databases alone, or it is the effect of a request. -/
lemma step_dbs {c c' : RedeliveryConfig} (h : Step (atLeastOnce cfg objectHash) c c') :
    c'.world.state.dbs = c.world.state.dbs ∨
      ∃ (t : Tag) (e : Req) (r : e.Answer) (s : State), Effect c.world.state e r s ∧
        c'.world.state.dbs = s.dbs ∧ c'.world.trace = c.world.trace ++ [.call t e r] := by
  cases h with
  | @call w l l' t e k r s hs =>
    rcases State.apply_eq_some hs with ⟨-, rfl⟩ | ⟨-, -, hs⟩
    · left
      cases t <;> rfl
    · exact .inr ⟨t, e, r, s, State.answer_effect hs, rfl, rfl⟩
  | ext hs =>
    rcases atLeastOnce_accept cfg objectHash hs with ⟨y, rfl, hy⟩ | ⟨seq, msg, rfl, hr, rfl⟩
    · exact .inl (State.accept_dbs hy)
    · obtain ⟨-, rfl⟩ := requeue_eq_some hr
      exact .inl rfl
  | fork | left | right | done => exact .inl rfl

/-- What holds of a new row by the request that makes it, and of a changed row by the request that
changes it or made the old one, holds of every row by a request of the run. -/
lemma traced_of_mem {Row : Type} (rows : (Db → Database) → List Row)
    (Q : Row → Event Req Req.Answer Tag Delivery → Prop)
    (hempty : rows State.start.dbs = [])
    (hmade : ∀ (c₁ c₂ : RedeliveryConfig) (t : Tag) (e : Req) (r : e.Answer) (s : State) (row : Row),
      Reach (atLeastOnce cfg objectHash) .start c₂ → Effect c₁.world.state e r s →
      c₂.world.trace = c₁.world.trace ++ [.call t e r] → row ∈ rows s.dbs →
        (∃ old ∈ rows c₁.world.state.dbs, ∀ ev, Q old ev → Q row ev) ∨ Q row (.call t e r))
    {c : RedeliveryConfig} (h : Reach (atLeastOnce cfg objectHash) .start c) {row : Row}
    (hrow : row ∈ rows c.world.state.dbs) : ∃ ev ∈ c.world.trace, Q row ev := by
  induction h generalizing row with
  | refl =>
    have hnone : row ∈ rows State.start.dbs := hrow
    rw [hempty] at hnone
    cases hnone
  | @tail c₁ c₂ hreach hstep ih =>
    have hlater {old : Row} (hold : old ∈ rows c₁.world.state.dbs)
        (htold : ∀ ev, Q old ev → Q row ev) : ∃ ev ∈ c₂.world.trace, Q row ev := by
      obtain ⟨ev, hev, hq⟩ := ih hold
      exact ⟨ev, hstep.trace_le.subset hev, htold ev hq⟩
    rcases step_dbs hstep with hsame | ⟨t, e, r, s, heffect, hdbs, htrace⟩
    · exact hlater (hsame ▸ hrow) fun _ hq => hq
    · rcases hmade _ _ _ _ _ _ _ (hreach.tail hstep) heffect htrace (hdbs ▸ hrow) with ⟨old, hold, htold⟩ | hq
      · exact hlater hold htold
      · refine ⟨_, ?_, hq⟩
        rw [htrace]
        exact List.mem_append_right _ (List.mem_singleton_self _)

def LogRow.Settled (r : LogRow) : Prop := ∃ st, r.anchorStatus = some st ∧ st ≠ .pending

def BatchRow.Settled (r : BatchRow) : Prop := r.anchorStatus ≠ .pending

/-- The row of key `k` is settled. -/
def State.Settled (s : State) : StatusKey → Prop
  | .log db side id => ∃ r ∈ (s.dbs db).logs (.anchored side), r.id = id ∧ r.Settled
  | .batch db side root => ∃ r ∈ (s.dbs db).batches side, r.merkleRoot = root ∧ r.Settled

/-- A table whose rows have a status: a row is settled by a write of its status, and only such a
write changes it. -/
structure StatusTable (Row : Type) where
  rows : (Db → Database) → List Row
  key : Row → StatusKey
  Settled : Row → Prop
  empty : rows State.start.dbs = []
  settles : ∀ {s s' : State} {e : Req} {r : e.Answer}, Effect s e r s' → e.InsertsPending →
    ∀ row ∈ rows s'.dbs, Settled row → row ∈ rows s.dbs ∨
      ∃ st, st ≠ .pending ∧ e.succeeds r = true ∧ e.WritesStatus (key row) st
  keeps : ∀ {s s' : State} {e : Req} {r : e.Answer}, Effect s e r s' → ∀ row ∈ rows s.dbs,
    row ∈ rows s'.dbs ∨ ∃ st, e.succeeds r = true ∧ e.WritesStatus (key row) st

lemma LogRow.not_settled {r : LogRow} (h : r.anchorStatus = none ∨ r.anchorStatus = some .pending) :
    ¬r.Settled := by
  rintro ⟨st, hst, hne⟩
  rcases h with hnone | hpending
  · rw [hnone] at hst
    cases hst
  · rw [hpending] at hst
    exact hne (Option.some.inj hst).symm

def anchoredTable (db : Db) (side : Side) : StatusTable LogRow where
  rows dbs := (dbs db).logs (.anchored side)
  key row := .log db side row.id
  Settled := LogRow.Settled
  empty := rfl
  settles {s s' e r} h he row hrow hsettled := by
    rcases h.anchored db side with hsame | ⟨new, heq, hnew⟩ |
      ⟨id, status, txHash, anchoredAt, heq, hupdate⟩
    · exact .inl (hsame ▸ hrow)
    · rw [hnew] at hrow
      rcases List.mem_append.mp hrow with hrow | hrow
      · exact .inl hrow
      · cases heq
        cases List.mem_singleton.mp hrow
        exact absurd hsettled (LogRow.not_settled he)
    · rw [hupdate] at hrow
      obtain ⟨old, hold, rfl⟩ := List.mem_map.mp hrow
      by_cases hid : old.id = id
      · rw [if_pos hid] at hsettled ⊢
        cases heq
        subst hid
        obtain ⟨st, hst, hne⟩ := hsettled
        cases hst
        exact .inr ⟨status, hne, rfl, .log⟩
      · rw [if_neg hid]
        exact .inl hold
  keeps {s s' e r} h row hrow := by
    rcases h.anchored db side with hsame | ⟨new, heq, hnew⟩ |
      ⟨id, status, txHash, anchoredAt, heq, hupdate⟩
    · exact .inl (hsame ▸ hrow)
    · rw [hnew]
      exact .inl (List.mem_append_left _ hrow)
    · rw [hupdate]
      by_cases hid : row.id = id
      · cases heq
        subst hid
        exact .inr ⟨status, rfl, .log⟩
      · exact .inl (List.mem_map.mpr ⟨row, hrow, if_neg hid⟩)

def batchesTable (db : Db) (side : Side) : StatusTable BatchRow where
  rows dbs := (dbs db).batches side
  key row := .batch db side row.merkleRoot
  Settled := BatchRow.Settled
  empty := rfl
  settles {s s' e r} h he row hrow hsettled := by
    rcases h.batches db side with hsame | ⟨new, heq, hnew⟩ |
      ⟨root, status, txHash, anchoredAt, heq, hupdate⟩
    · exact .inl (hsame ▸ hrow)
    · rw [hnew] at hrow
      rcases List.mem_append.mp hrow with hrow | hrow
      · exact .inl hrow
      · cases heq
        cases List.mem_singleton.mp hrow
        exact absurd he hsettled
    · rw [hupdate] at hrow
      obtain ⟨old, hold, rfl⟩ := List.mem_map.mp hrow
      by_cases hroot : old.merkleRoot = root
      · rw [if_pos hroot] at hsettled ⊢
        cases heq
        subst hroot
        exact .inr ⟨status, hsettled, rfl, .batch⟩
      · rw [if_neg hroot]
        exact .inl hold
  keeps {s s' e r} h row hrow := by
    rcases h.batches db side with hsame | ⟨new, heq, hnew⟩ |
      ⟨root, status, txHash, anchoredAt, heq, hupdate⟩
    · exact .inl (hsame ▸ hrow)
    · rw [hnew]
      exact .inl (List.mem_append_left _ hrow)
    · rw [hupdate]
      by_cases hroot : row.merkleRoot = root
      · cases heq
        subst hroot
        exact .inr ⟨status, rfl, .batch⟩
      · exact .inl (List.mem_map.mpr ⟨row, hrow, if_neg hroot⟩)

/-- A row or record that is settled after a request was so before it, or its status is written. -/
lemma settled_before {s s' : State} {e : Req} {r : e.Answer} (h : Effect s e r s')
    (he : e.InsertsPending) {k : StatusKey} (hk : s'.Settled k) :
    s.Settled k ∨ ∃ st, e.succeeds r = true ∧ e.WritesStatus k st := by
  cases k with
  | log db side id =>
    obtain ⟨row, hrow, rfl, hsettled⟩ := hk
    rcases (anchoredTable db side).settles h he row hrow hsettled with hold | ⟨st, -, hs, hw⟩
    · exact .inl ⟨row, hold, rfl, hsettled⟩
    · exact .inr ⟨st, hs, hw⟩
  | batch db side root =>
    obtain ⟨row, hrow, rfl, hsettled⟩ := hk
    rcases (batchesTable db side).settles h he row hrow hsettled with hold | ⟨st, -, hs, hw⟩
    · exact .inl ⟨row, hold, rfl, hsettled⟩
    · exact .inr ⟨st, hs, hw⟩

namespace StatusTable

variable {Row : Type} (table : StatusTable Row)

/-- The status of a settled row has been written. -/
lemma wrote {c : RedeliveryConfig} (h : Reach (atLeastOnce cfg objectHash) .start c) {row : Row}
    (hrow : row ∈ table.rows c.world.state.dbs) (hsettled : table.Settled row) :
    ∃ t st, st ≠ .pending ∧ ∃ ev ∈ c.world.trace, Wrote t (table.key row) st ev := by
  have htraced : ∃ ev ∈ c.world.trace,
      table.Settled row → ∃ t st, st ≠ .pending ∧ Wrote t (table.key row) st ev := by
    refine traced_of_mem table.rows
      (fun row ev => table.Settled row → ∃ t st, st ≠ .pending ∧ Wrote t (table.key row) st ev)
      table.empty ?_ h hrow
    intro c₁ c₂ t e r s row hreach heffect htrace hrow
    have hguard := atLeastOnce_guarded hreach _ t e r [] htrace
    by_cases hold : row ∈ table.rows c₁.world.state.dbs
    · exact .inl ⟨row, hold, fun _ hw => hw⟩
    · right
      intro hsettled
      rcases table.settles heffect hguard.insertsPending row hrow hsettled with
        h | ⟨st, hst, hs, hw⟩
      · exact absurd h hold
      · exact ⟨t, st, hst, e, r, rfl, hs, hw⟩
  obtain ⟨ev, hev, hwrote⟩ := htraced
  obtain ⟨t, st, hst, hw⟩ := hwrote hsettled
  exact ⟨t, st, hst, ev, hev, hw⟩

end StatusTable

/-- A message for a hybrid strategy, to try statements on. -/
def anchoredMessage : SubmitMessage where
  body := .entry (toDTO (.create [0x61] .epoch infoLevel [] (ofString "hello") none))
  strategy := .hybridPrivate
  db := .postgres
  correlationId := [0x63]
  replyTo := none
  enqueuedAt := 0

end HybridLog
