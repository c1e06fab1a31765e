import HybridLog.Api.Kept
import HybridLog.System.Queues

/-!
# Whose rows there are

Every row of a log table is that of a log for which the table of that database was asked: a log that
was posted, that was posted and came through a queue, or that somebody else has put into a queue.
-/

namespace HybridLog

open Js Async

variable {cfg : ServerConfig} {objectHash : ObjectHash}

/-! ### Messages -/

namespace Queues

variable {M : Type} {B : Queues M} [DecidableEq M] {w : ServerWorld} {ev : ServerEvent} {s' : State}

variable (B) in
/-- The messages the broker has or has delivered were published. -/
structure Circulates (w : ServerWorld) : Prop where
  queue : ∀ m ∈ B.queue w.state, m.2 ∈ w.trace.filterMap B.published
  unacked : ∀ m ∈ B.unacked w.state, m.2 ∈ w.trace.filterMap B.published
  delivered : ∀ m ∈ w.trace.filterMap B.delivered, m.2 ∈ w.trace.filterMap B.published

omit [DecidableEq M] in
/-- What is new in the queue has been in hand or is published just now. -/
lemma Circulates.push (h : B.Circulates w)
    (hq : ∀ m ∈ B.queue s', m ∈ B.queue w.state ∨ m ∈ B.unacked w.state ∨ B.published ev = some m.2)
    (hu : ∀ m ∈ B.unacked s', m ∈ B.unacked w.state ∨ m ∈ B.queue w.state)
    (hd : ∀ m, B.delivered ev = some m → m ∈ B.queue w.state) : B.Circulates (w.push ev s') := by
  have hold {m : M} (hm : m ∈ w.trace.filterMap B.published) :
      m ∈ (w.push ev s').trace.filterMap B.published := by
    rw [World.push_trace, List.filterMap_append]
    exact List.mem_append_left _ hm
  constructor
  · intro m hm
    rcases hq m hm with hm | hm | hm
    · exact hold (h.queue m hm)
    · exact hold (h.unacked m hm)
    · rw [World.push_trace, List.filterMap_append]
      exact List.mem_append_right _ (by simp [hm])
  · intro m hm
    rcases hu m hm with hm | hm
    · exact hold (h.unacked m hm)
    · exact hold (h.queue m hm)
  · intro m hm
    rw [World.push_trace, List.filterMap_append, List.mem_append] at hm
    rcases hm with hm | hm
    · exact hold (h.delivered m hm)
    · exact hold (h.queue m (hd m (by simpa using hm)))

lemma Change.circulates (h : B.Change w.state s' ev) (hw : B.Circulates w) :
    B.Circulates (w.push ev s') := by
  cases h with
  | keep hp hd hq hu hn =>
    exact hw.push (fun m hm => .inl (hq ▸ hm)) (fun m hm => .inl (hu ▸ hm)) (by simp [hd])
  | publish hp hd hq hu hn =>
    refine hw.push (fun m hm => ?_) (fun m hm => .inl (hu ▸ hm)) (by simp [hd])
    rw [hq] at hm
    rcases List.mem_append.mp hm with hm | hm
    · exact .inl hm
    · rw [List.mem_singleton.mp hm]
      exact .inr (.inr hp)
  | deliver hp hd hm hq hu hn =>
    refine hw.push (fun m' hm' => ?_) (fun m' hm' => ?_) (fun m' hm' => ?_)
    · rw [hq] at hm'
      exact .inl (List.mem_of_mem_erase hm')
    · rw [hu] at hm'
      rcases List.mem_cons.mp hm' with rfl | hm'
      · exact .inr hm
      · exact .inl hm'
    · rw [hd] at hm'
      exact Option.some.inj hm' ▸ hm
  | drop hp hd hq hu hn =>
    refine hw.push (fun m hm => .inl (hq ▸ hm)) (fun m hm => ?_) (by simp [hd])
    rw [hu] at hm
    exact .inl (List.mem_of_mem_filter hm)
  | requeue ha hp hd hm hq hu hn =>
    refine hw.push (fun m' hm' => ?_) (fun m' hm' => ?_) (by simp [hd])
    · rw [hq] at hm'
      rcases List.mem_cons.mp hm' with rfl | hm'
      · exact .inr (.inl hm)
      · exact .inl hm'
    · rw [hu] at hm'
      exact .inl (List.mem_of_mem_erase hm')

end Queues

lemma submits_circulate {c : RedeliveryConfig} (h : Reach (atLeastOnce cfg objectHash) .start c) :
    submitQueues.Circulates c.world := by
  refine queues_invariant (P := submitQueues.Circulates) ?_ ?_ h
  · exact fun w ev s' hsubmit _ hw => hsubmit.circulates hw
  · constructor
    · simp [submitQueues, Config.start, State.start]
    · simp [submitQueues, Config.start, State.start]
    · simp [Config.start]

/-- A submit message was published for a posted log, or somebody else has published it. -/
inductive MessageOrigin (cfg : ServerConfig) (tr : RedeliveryTrace) (msg : SubmitMessage) : Prop
  | posted {req : PostRequest} {id : JsString} {timestamp : JsDate} {s : LogStrategy}
    (hx : .ext (.server (.post req id timestamp)) ∈ tr)
    (hmode : req.queuedMode? cfg = some (.strategy s)) (hs : s ≠ .databaseOnly)
    (hstrategy : msg.strategy = s) (hdb : msg.db = req.db)
    (hbody : msg.body = .entry (toDTO (req.entry id timestamp)))
  | foreign (hx : .ext (.server (.enqueue msg)) ∈ tr) (hqueue : msg.strategy.hasQueue = true)

lemma origin_of_delivered {c : RedeliveryConfig}
    (h : Reach (atLeastOnce cfg objectHash) .start c) {seq : ℕ} {msg : SubmitMessage}
    (hx : .ext (.server (.deliverSubmit seq msg)) ∈ c.world.trace) :
    MessageOrigin cfg c.world.trace msg := by
  have hdelivered : (seq, msg) ∈ c.world.trace.filterMap submitQueues.delivered :=
    List.mem_filterMap.mpr ⟨_, hx, rfl⟩
  obtain ⟨ev, hev, hpublished⟩ :=
    List.mem_filterMap.mp ((submits_circulate h).delivered _ hdelivered)
  cases ev with
  | call t e r => cases e with
    | publishSubmit msg' => cases r with
      | ok u =>
        cases hpublished
        obtain ⟨pre, hpre, hstep⟩ := (atLeastOnce_guarded h).did hev
        cases hstep.own (by simp [Req.OfStorage]) with
        | enqueue hpost hmode hs => exact .posted (hpre.subset hpost) hmode hs rfl rfl rfl
      | error err => cases hpublished
    | _ => cases hpublished
  | ext x => cases x with
    | server y => cases y with
      | enqueue msg' =>
        cases hpublished
        obtain ⟨s, s', ps, hs⟩ := h.accepted hev
        have hs : s.accept cfg objectHash (.enqueue msg) = some (s', ps) := hs
        cases State.accept_eq_some hs with
        | enqueue hqueue => exact .foreign hev hqueue
      | _ => cases hpublished
    | requeue seq' msg' => cases hpublished

/-! ### Rows -/

/-- The database and the table a storage inserts logs into. -/
def Storage.target? : Storage → Option (Db × LogTable)
  | .offchain db => some (db, .offchain)
  | .chain _ => none
  | .hybrid db _ mode => some (db, mode.logTable)

/-- The row of a log in a table; the off-chain table has no column for the hash. -/
def storedRow (cfg : ServerConfig) (db : Db) (table : LogTable) (e : LogEntry) : LogRow :=
  entryRow db e (if table = .offchain then [] else cfg.sha.leafHash e)

/-- The row is newly made of a log. -/
structure LogRow.NewFor (row : LogRow) (cfg : ServerConfig) (db : Db) (table : LogTable)
    (e : LogEntry) : Prop where
  core : row.core = (storedRow cfg db table e).core
  unlinked : row.batchRoot = none

/-- A log for which a table of a database is asked. -/
inductive Destined (cfg : ServerConfig) (tr : RedeliveryTrace) (db : Db) (table : LogTable) :
    LogEntry → Prop
  | posted {req : PostRequest} {id : JsString} {timestamp : JsDate} {st : Storage}
    (hx : .ext (.server (.post req id timestamp)) ∈ tr)
    (hst : pickStorage cfg req.storageMode req.db = some st) (ht : st.target? = some (db, table)) :
    Destined cfg tr db table (req.entry id timestamp)
  | queued {req : PostRequest} {id : JsString} {timestamp : JsDate} {s : LogStrategy}
    {st : Storage} (hx : .ext (.server (.post req id timestamp)) ∈ tr)
    (hmode : req.queuedMode? cfg = some (.strategy s)) (hs : s ≠ .databaseOnly)
    (hst : pickStorage cfg (some (.strategy s)) req.db = some st)
    (ht : st.target? = some (db, table)) : Destined cfg tr db table (req.entry id timestamp).queued
  | foreign {msg : SubmitMessage} {st : Storage} {e : LogEntry}
    (hx : .ext (.server (.enqueue msg)) ∈ tr) (hqueue : msg.strategy.hasQueue = true)
    (hst : msg.storage cfg msg.strategy = some st) (ht : st.target? = some (db, table))
    (he : e ∈ msg.body.read) : Destined cfg tr db table e

section Rows

variable {T X : Type} {t : T} {tr : Trace Req Req.Answer T X} {db : Db} {table : LogTable}
  {row : LogRow} {opts : Option WriteOpts} {st : Storage}

lemma AnchorStep.not_insert {payload : Payload}
    (h : AnchorStep payload t (.insert db table row) tr) : False := by
  cases h with
  | looks h => exact h

lemma Storage.LogStep.inserted {entry : LogEntry}
    (h : Storage.LogStep cfg opts entry t st (.insert db table row) tr) :
    st.target? = some (db, table) ∧ row.NewFor cfg db table entry := by
  cases h with
  | offchain => exact ⟨rfl, rfl, rfl⟩
  | chain h => exact h.not_insert.elim
  | @hybrid db' anchor mode _ _ h => cases h with
    | insert =>
      refine ⟨rfl, ?_, rfl⟩
      have htable : mode.logTable ≠ .offchain := by cases mode <;> simp [HybridMode.logTable]
      rw [storedRow, if_neg htable]
      rfl
    | anchor _ h => exact h.not_insert.elim

lemma Storage.BatchStep.inserted {entries : List LogEntry}
    (h : Storage.BatchStep cfg opts entries t st (.insert db table row) tr) :
    st.target? = some (db, table) ∧ ∃ e ∈ entries, row.NewFor cfg db table e := by
  cases h with
  | chain h => exact h.not_insert.elim
  | @hybrid db' anchor side _ _ h => cases h with
    | insert he => exact ⟨rfl, _, he, rfl, rfl⟩
    | link _ h => cases db' with
      | postgres => cases h
      | mongo =>
        obtain ⟨_, _, _, heq⟩ := h
        cases heq
    | anchor _ h => exact h.not_insert.elim

lemma FlushStep.inserted {key : WriterKey} {batch : List PendingEntry}
    (h : FlushStep cfg key batch t (.insert db table row) tr) : ∃ st, key.storage cfg = some st ∧
      st.target? = some (db, table) ∧
      ∃ p ∈ batch, row.NewFor cfg db table p.entry := by
  cases h with
  | batch hst h =>
    obtain ⟨ht, e, he, hrow⟩ := h.inserted
    obtain ⟨p, hp, rfl⟩ := List.mem_map.mp he
    exact ⟨_, hst, ht, p, hp, hrow⟩
  | log hst _ hp h => exact ⟨_, hst, h.inserted.1, _, hp, h.inserted.2⟩

lemma SubmitStep.inserted {strategy : LogStrategy} {msg : SubmitMessage}
    (h : SubmitStep cfg strategy msg t (.insert db table row) tr) :
    ∃ st, msg.storage cfg strategy = some st ∧ st.target? = some (db, table) ∧
      ∃ e ∈ msg.body.read, row.NewFor cfg db table e := by
  obtain ⟨body, strategy', db', correlationId, replyTo, enqueuedAt⟩ := msg
  cases h with
  | write h => cases h with
    | entry hst h => exact ⟨_, hst, h.inserted.1, _, List.mem_singleton_self _, h.inserted.2⟩
    | entries hst h => exact ⟨_, hst, h.inserted⟩

end Rows

section Runs

variable {c : RedeliveryConfig} {db : Db} {table : LogTable}

/-- A log in a batch that is flushed was posted to the batch writer. -/
lemma posted_of_flushes (h : Reach (atLeastOnce cfg objectHash) .start c) {pre : RedeliveryTrace}
    (hpre : pre <+: c.world.trace) {t : Tag} {key : WriterKey} {batch : List PendingEntry}
    (hf : Flushes .server pre t key batch) {p : PendingEntry} (hp : p ∈ batch) :
    ∃ req id timestamp, .ext (.server (.post req id timestamp)) ∈ c.world.trace ∧
      req.writerKey = key ∧ p.entry = req.entry id timestamp := by
  have hnumbered := hf.numbered hpre (promised h).events p hp
  obtain ⟨ev, hev, hbuffered⟩ := List.mem_filterMap.mp (List.mem_of_getElem? hnumbered)
  cases ev with
  | ext x => cases hbuffered
  | call t' e r => cases e with
    | buffer key' entry =>
      obtain ⟨rfl, rfl⟩ := Prod.mk.inj (Option.some.inj hbuffered)
      obtain ⟨pre', hpre', hstep⟩ := (atLeastOnce_guarded h).did hev
      generalize p.entry = entry at hstep
      cases hstep.own (by simp [Req.OfStorage]) with
      | buffer hx _ => exact ⟨_, _, _, hpre'.subset hx, rfl, rfl⟩
    | _ => cases hbuffered

/-- Whatever is inserted was meant for its table. -/
lemma destined_of_insert (h : Reach (atLeastOnce cfg objectHash) .start c) {t : Tag} {row : LogRow}
    (hd : Did t (.insert db table row) (Except.ok ()) c.world.trace) :
    ∃ e, Destined cfg c.world.trace db table e ∧ row.NewFor cfg db table e := by
  obtain ⟨pre, hpre, hbegun, hstep⟩ := (atLeastOnce_guarded h).did hd
  have hflush {key : WriterKey} {batch : List PendingEntry} (hf : Flushes .server pre t key batch)
      (hs : FlushStep cfg key batch t (.insert db table row) pre) :
      ∃ e, Destined cfg c.world.trace db table e ∧ row.NewFor cfg db table e := by
    obtain ⟨st, hst, ht, p, hp, hrow⟩ := hs.inserted
    obtain ⟨req, id, timestamp, hx, rfl, hentry⟩ := posted_of_flushes h hpre hf hp
    rw [req.writerKey_storage] at hst
    exact ⟨_, .posted hx hst ht, hentry ▸ hrow⟩
  cases hbegun with
  | post hx => cases hstep with
    | flush _ hb _ hs => exact hflush (.full hb) hs
    | write _ _ hst hs =>
      obtain ⟨ht, hrow⟩ := hs.inserted
      exact ⟨_, .posted (hpre.subset hx) hst ht, hrow⟩
  | flush hx => exact hflush (.timer hx) hstep
  | submit hx =>
    obtain ⟨st, hst, ht, e, he, hrow⟩ := SubmitStep.inserted hstep
    cases origin_of_delivered h (hpre.subset hx) with
    | posted hx hmode hs hstrategy hdb hbody =>
      rw [hbody] at he
      obtain rfl : e = _ := List.mem_singleton.mp he
      rw [SubmitMessage.storage, hstrategy, hdb] at hst
      exact ⟨_, .queued hx hmode hs hst ht, hrow⟩
    | foreign hx hqueue => exact ⟨e, .foreign hx hqueue hst ht he, hrow⟩
  | confirm hx => cases hstep with
    | update h => cases h with
      | looks h => exact h.elim

/-- Every row of a table is that of a log for which the table was asked. -/
lemma destined_of_mem (h : Reach (atLeastOnce cfg objectHash) .start c) {row : LogRow}
    (hrow : row ∈ (c.world.state.dbs db).logs table) :
    ∃ e, Destined cfg c.world.trace db table e ∧ row.core = (storedRow cfg db table e).core := by
  obtain ⟨t, row₀, hd, hcore⟩ := inserted_of_mem h hrow
  obtain ⟨e, he, hrow₀⟩ := destined_of_insert h hd
  exact ⟨e, he, hcore.trans hrow₀.core⟩

end Runs

/-! ### Tables -/

/-- The row an event inserts into a table, without the columns that updates change. -/
def insertedCore (db : Db) (table : LogTable) : ServerEvent → Option LogRow
  | .call _ (.insert db' table' row) (Except.ok _) =>
    if db' = db ∧ table' = table then some row.core else none
  | _ => none

lemma insertedCore_eq_some {db : Db} {table : LogTable} {t : Tag} {e : Req} {r : e.Answer}
    {row : LogRow} (h : insertedCore db table (.call t e r) = some row) : ∃ row₀,
      (⟨e, r⟩ : Σ e : Req, e.Answer) =
        ⟨.insert db table row₀, (Except.ok () : Except JsError Unit)⟩ := by
  cases e with
  | insert db' table' row' => cases r with
    | ok u =>
      simp only [insertedCore] at h
      split at h
      · next heq =>
        obtain ⟨rfl, rfl⟩ := heq
        exact ⟨row', rfl⟩
      · cases h
    | error err => cases h
  | _ => cases h

/-- A request adds to a table what it inserts and nothing else. -/
lemma Effect.tells {s s' : State} {e : Req} {r : e.Answer} (h : Effect s e r s') (t : Tag) (db : Db)
    (table : LogTable) : ((s'.dbs db).logs table).map LogRow.core =
      ((s.dbs db).logs table).map LogRow.core ++
        [Event.call t e r].filterMap (insertedCore db table) := by
  rcases h.core db table with hsame | ⟨row, heq, -, hnew⟩
  · cases hi : insertedCore db table (.call t e r) with
    | none => simpa [hi] using hsame
    | some row =>
      obtain ⟨row₀, heq⟩ := insertedCore_eq_some hi
      cases heq
      cases h with
      | insert hins =>
        have hlen := congrArg List.length hsame
        simp [(Database.insert_eq_some hins).2] at hlen
      | idle hidle => exact hidle.elim
  · cases heq
    simpa [insertedCore] using hnew

section Tables

variable {c : RedeliveryConfig}

/-- A table holds what was inserted into it, in that order and under ids of their own. -/
lemma table_tells (h : Reach (atLeastOnce cfg objectHash) .start c) (db : Db) (table : LogTable) :
    ((c.world.state.dbs db).logs table).map LogRow.core =
        c.world.trace.filterMap (insertedCore db table) ∧
      (((c.world.state.dbs db).logs table).map LogRow.id).Nodup := by
  induction h with
  | refl => exact ⟨rfl, List.nodup_nil⟩
  | tail hreach hstep ih =>
    obtain ⟨hrows, hnodup⟩ := ih
    cases hstep with
    | @call w l l' t e k r s hs =>
      rw [World.push_trace, World.push_state, List.filterMap_append, ← hrows]
      rcases State.apply_eq_some hs with ⟨he, rfl⟩ | ⟨-, -, hs⟩
      · have hdbs : (w.state.drop t).dbs = w.state.dbs := by cases t <;> rfl
        have hnone : insertedCore db table (.call t e r) = none := by
          rcases he with rfl | rfl <;> rfl
        rw [hdbs]
        exact ⟨by simp [hnone], hnodup⟩
      · have heffect := State.answer_effect hs
        exact ⟨heffect.tells t db table, heffect.nodup_ids hnodup⟩
    | fork | left | right | done => exact ⟨hrows, hnodup⟩
    | @ext w l x s ps hs =>
      have hdbs : s.dbs = w.state.dbs := by
        rcases atLeastOnce_accept cfg objectHash hs with ⟨y, rfl, hy⟩ | ⟨seq, msg, rfl, hr, rfl⟩
        · exact State.accept_dbs hy
        · obtain ⟨-, rfl⟩ := requeue_eq_some hr
          rfl
      rw [World.push_trace, World.push_state, List.filterMap_append, ← hrows, hdbs]
      exact ⟨(List.append_nil _).symm, hnodup⟩

/-- In every run, whatever its requests, queues and timers do at the same time, a log table holds
exactly the rows that were inserted, in that order, each under an id of its own and with the content
it was inserted with; and each of them is the row of a log for which this table of this database was
asked. -/
theorem tables_tell (h : Reach (atLeastOnce cfg objectHash) .start c) (db : Db) (table : LogTable) :
    ((c.world.state.dbs db).logs table).map LogRow.core =
        c.world.trace.filterMap (insertedCore db table) ∧
      (((c.world.state.dbs db).logs table).map LogRow.id).Nodup ∧
      ∀ row ∈ (c.world.state.dbs db).logs table, ∃ e, Destined cfg c.world.trace db table e ∧
        row.core = (storedRow cfg db table e).core :=
  ⟨(table_tells h db table).1, (table_tells h db table).2, fun _ hrow => destined_of_mem h hrow⟩

end Tables

theorem awaited_table_tells : ∃ h : (awaitedRun .hybridPrivate .postgres).isSome,
    ∃ row ∈ (((awaitedRun .hybridPrivate .postgres).get h).world.state.dbs .postgres).logs
        (.anchored .priv),
      ((awaitedRun .hybridPrivate .postgres).get h).world.trace.filterMap
          (insertedCore .postgres (.anchored .priv)) = [row.core] ∧
        ∃ e, Destined connectedConfig ((awaitedRun .hybridPrivate .postgres).get h).world.trace
            .postgres (.anchored .priv) e ∧
          row.core = (storedRow connectedConfig .postgres (.anchored .priv) e).core := by
  have hreach := Run.of_play (Option.some_get (x := awaitedRun .hybridPrivate .postgres) rfl).symm
  obtain ⟨-, -, hrows⟩ := tables_tell hreach .postgres (.anchored .priv)
  exact ⟨rfl, _, List.mem_singleton_self _, rfl, hrows _ (List.mem_singleton_self _)⟩

end HybridLog
