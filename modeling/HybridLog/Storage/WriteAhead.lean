import HybridLog.Async.Schedule
import HybridLog.Storage.Hybrid
import HybridLog.System.Effects

/-!
# Database before chain

Any number of calls of `writeLog` and `writeBatch` run at once over one pair of databases. A call
that has invoked its anchor finds its rows in the database then and ever after.
-/

namespace HybridLog

open Js Async

/-! ### Calls of hybrid storages -/

inductive Call
  | log (db : Db) (anchor : Anchor) (mode : HybridMode) (entry : LogEntry)
    (opts : Option WriteOpts)
  | batch (db : Db) (anchor : Anchor) (s : Side) (entries : List LogEntry)
    (opts : Option WriteOpts)

inductive Elsewhere
  | start (call : Call)
  | chain (x : ChainEvent)

variable (cfg : ServerConfig) (objectHash : ObjectHash)

def Call.program : Call → Prog Req Req.Answer Unit
  | log db anchor mode entry opts =>
    (HybridStorage.writeLog cfg db anchor mode entry opts).run.detach
  | batch db anchor s entries opts =>
    (HybridStorage.writeBatch cfg db anchor (.batched s) entries opts).run.detach

/-- Calls start whenever somebody makes them. -/
def calls : Machine Req Req.Answer Call Elsewhere State where
  apply _ := State.answer
  accept
    | .start call, s => some (s, [(call, call.program cfg)])
    | .chain x, s => (s.onChain cfg objectHash x).map fun s' => (s', [])

lemma calls_faithful : Faithful (calls cfg objectHash) where
  apply {_ _ _ _ s'} h := ⟨s', State.answer_effect h, .refl s'⟩
  accept {x s s' ps} h := by
    cases x with
    | start call =>
      cases h
      exact .refl s
    | chain x =>
      obtain ⟨s₁, hs, heq⟩ := Option.map_eq_some_iff.mp h
      cases heq
      exact State.le_onChain hs

/-- The requests of a call. -/
def CallStep : Guard Req Req.Answer Call Elsewhere
  | .log db anchor mode entry opts => HybridStorage.LogStep cfg db anchor mode entry opts
      (.log db anchor mode entry opts)
  | .batch db anchor s entries opts => HybridStorage.BatchStep cfg db anchor s entries opts
      (.batch db anchor s entries opts)

lemma Call.program_follows (call : Call) (tr : Trace Req Req.Answer Call Elsewhere) :
    Follows (CallStep cfg) call (fun _ _ => True) (call.program cfg) tr := by
  cases call with
  | log db anchor mode entry opts =>
    apply Follows.detach
    apply Follows.allow (HybridStorage.writeLog_follows cfg db anchor mode entry opts _ tr)
    intro e tr' _ h
    exact h
  | batch db anchor s entries opts =>
    apply Follows.detach
    apply Follows.allow (HybridStorage.writeBatch_follows cfg db anchor s entries opts _ tr)
    intro e tr' _ h
    exact h

variable {cfg objectHash}

lemma calls_guarded {s₀ : State} {c : Async.Config Req Req.Answer Call Elsewhere State}
    (h : Reach (calls cfg objectHash) s₀ c) : Guarded (CallStep cfg) c.world.trace ∧
      ∀ p ∈ c.procs, Follows (CallStep cfg) p.1 (fun _ _ => True) p.2 c.world.trace := by
  apply Run.guarded _ h Guarded.nil
  · simp [Config.start]
  · intro tr x s s' ps hx p hp
    cases x with
    | start call =>
      cases hx
      cases List.mem_singleton.mp hp
      exact call.program_follows cfg _
    | chain x =>
      obtain ⟨s₁, _, heq⟩ := Option.map_eq_some_iff.mp hx
      cases heq
      cases hp

/-! ### Links of leaves -/

/-- The answered request puts the row `id` at place `i` of the batch with root `root`. -/
inductive Req.Links : (e : Req) → e.Answer → Db → Side → JsString → JsString → ℕ → Prop
  | all {s : Side} {ids : List JsString} {id root : JsString} {i : ℕ} (h : ids[i]? = some id) :
    Links (.linkLeaves s ids root) (Except.ok ()) .postgres s id root i
  | one {s : Side} {id root : JsString} {i : ℕ} :
    Links (.linkLeaf s id root i) (Except.ok ()) .mongo s id root i

/-- Two rows stand under one id at the same place of the same batch. -/
def LogRow.SamePlace (r r' : LogRow) : Prop :=
  r.id = r'.id ∧ r.batchRoot = r'.batchRoot ∧ r.leafIndex = r'.leafIndex

/-- A row of a table for batches after a request: it stands as before, or has just been put in
its place, or is new. -/
inductive Placed (s : State) (e : Req) (r : e.Answer) (db : Db) (sd : Side) (row : LogRow) : Prop
  | kept {old : LogRow} (h : old ∈ (s.dbs db).logs (.batched sd)) (hrow : old.SamePlace row)
    (hnot : ∀ root i, ¬e.Links r db sd row.id root i)
  | linked {root : JsString} {i : ℕ} (h : e.Links r db sd row.id root i)
    (hroot : row.batchRoot = some root) (hindex : row.leafIndex = some (i : ℤ))
  | new {d : Database} (h : (s.dbs db).insert (.batched sd) row = some d)
    (hnot : ∀ root i, ¬e.Links r db sd row.id root i)

/-- Updates of the columns about anchoring leave a row in its place. -/
lemma mem_onLog {d : Database} {table table' : LogTable} {id : JsString} {u : AnchorUpdate}
    {row : LogRow} (h : row ∈ (d.updateLog table id u.onLog).logs table') :
    ∃ old ∈ d.logs table', old.SamePlace row := by
  by_cases ht : table' = table
  · subst ht
    obtain ⟨old, hold, rfl⟩ := Database.mem_updateLog.mp h
    refine ⟨old, hold, ?_⟩
    split
    · exact ⟨rfl, rfl, rfl⟩
    · exact ⟨rfl, rfl, rfl⟩
  · rw [Database.updateLog_logs_of_ne ht] at h
    exact ⟨row, h, rfl, rfl, rfl⟩

lemma Effect.placed {s s' : State} {e : Req} {r : e.Answer} (h : Effect s e r s') {db : Db}
    {sd : Side} {row : LogRow} (hrow : row ∈ (s'.dbs db).logs (.batched sd)) :
    Placed s e r db sd row := by
  have hsame (hnot : ∀ root i, ¬e.Links r db sd row.id root i)
      (hrow : row ∈ (s.dbs db).logs (.batched sd)) : Placed s e r db sd row :=
    .kept hrow ⟨rfl, rfl, rfl⟩ hnot
  cases h with
  | insert hins =>
    rcases State.mem_setDb hrow with ⟨rfl, hr⟩ | ⟨_, hr⟩
    · rcases Database.mem_of_insert hins hr with hr | ⟨rfl, rfl⟩
      · exact hsame nofun hr
      · exact .new hins nofun
    · exact hsame nofun hr
  | record hins =>
    rcases State.mem_setDb hrow with ⟨rfl, hr⟩ | ⟨_, hr⟩
    · rw [Database.insertBatchRecord_logs hins] at hr
      exact hsame nofun hr
    · exact hsame nofun hr
  | @links table ids root =>
    rcases State.mem_setDb hrow with ⟨rfl, hr⟩ | ⟨hdb, hr⟩
    · by_cases ht : sd = table
      · subst ht
        rcases Database.mem_linkFrom hr with ⟨hid, hr⟩ | ⟨j, hj, hroot, hindex⟩
        · refine hsame ?_ hr
          rintro root' i ⟨hi⟩
          exact hid (List.mem_of_getElem? hi)
        · rw [Nat.zero_add] at hindex
          exact .linked (.all hj) hroot hindex
      · rw [Database.linkFrom_logs_of_ne (fun h => ht (LogTable.batched.inj h))] at hr
        refine hsame ?_ hr
        rintro root' i ⟨-⟩
        exact ht rfl
    · refine hsame ?_ hr
      rintro root' i ⟨-⟩
      exact hdb rfl
  | @link table id root i =>
    rcases State.mem_setDb hrow with ⟨rfl, hr⟩ | ⟨hdb, hr⟩
    · by_cases ht : sd = table
      · subst ht
        obtain ⟨old, hold, rfl⟩ := Database.mem_updateLog.mp hr
        by_cases hid : old.id = id
        · subst hid
          rw [if_pos rfl]
          exact .linked .one rfl rfl
        · rw [if_neg hid] at hsame ⊢
          refine hsame ?_ hold
          rintro root' j ⟨-⟩
          exact hid rfl
      · rw [Database.updateLog_logs_of_ne (fun h => ht (LogTable.batched.inj h))] at hr
        refine hsame ?_ hr
        rintro root' i ⟨-⟩
        exact ht rfl
    · refine hsame ?_ hr
      rintro root' i ⟨-⟩
      exact hdb rfl
  | status _ =>
    rcases State.mem_setDb hrow with ⟨rfl, hr⟩ | ⟨_, hr⟩
    · obtain ⟨old, hold, hplace⟩ := mem_onLog hr
      exact .kept hold hplace nofun
    · exact hsame nofun hr
  | batchStatus =>
    rcases State.mem_setDb hrow with ⟨rfl, hr⟩ | ⟨_, hr⟩
    · exact hsame nofun hr
    · exact hsame nofun hr
  | idle hidle =>
    refine hsame (fun root i hlinks => ?_) hrow
    cases hlinks with
    | all _ => exact hidle
    | one => exact hidle
  | _ => exact hsame nofun hrow

/-! ### Who links -/

section Owner

variable {c : Async.Config Req Req.Answer Call Elsewhere State} {s₀ : State}

/-- The call that has put a row in its place, with all its leaves inserted. -/
structure Owner (cfg : ServerConfig) (tr : Trace Req Req.Answer Call Elsewhere) (db : Db)
    (sd : Side) (id root : JsString) (i : ℕ) (call : Call) (entries : List LogEntry) : Prop where
  isBatch : ∃ anchor opts, call = .batch db anchor sd entries opts
  root_eq : root = cfg.sha.computeBatchHash entries
  place : (entries.map LogEntry.id)[i]? = some id
  leaves : HybridStorage.Leaves cfg db sd entries call tr

lemma owner_of_links (hguard : Guarded (CallStep cfg) c.world.trace) {t : Call} {e : Req}
    {r : e.Answer} (hd : Did t e r c.world.trace) {db : Db} {sd : Side} {id root : JsString} {i : ℕ}
    (hlinks : e.Links r db sd id root i) :
    ∃ entries, Owner cfg c.world.trace db sd id root i t entries := by
  obtain ⟨pre, hpre, hstep⟩ := hguard.did hd
  cases t with
  | log db' anchor mode entry opts =>
    -- `writeLog` links nothing
    cases hlinks with
    | all _ =>
      cases hstep with
      | anchor _ h => cases h with
        | looks h => exact h.elim
    | one =>
      cases hstep with
      | anchor _ h => cases h with
        | looks h => exact h.elim
  | batch db' anchor s entries opts =>
    refine ⟨entries, ?_⟩
    cases hlinks with
    | all hi =>
      cases hstep with
      | anchor _ h => cases h with
        | looks h => exact h.elim
      | link hrec h =>
        cases db' with
        | mongo =>
          obtain ⟨_, _, _, h⟩ := h
          cases h
        | postgres =>
          cases h
          exact ⟨⟨anchor, opts, rfl⟩, rfl, hi, (hrec.later cfg _ _ _ hpre).leaves⟩
    | one =>
      cases hstep with
      | anchor _ h => cases h with
        | looks h => exact h.elim
      | link hrec h =>
        cases db' with
        | postgres => cases h
        | mongo =>
          obtain ⟨i, id, hi, heq⟩ := h
          cases heq
          exact ⟨⟨anchor, opts, rfl⟩, rfl, hi, (hrec.later cfg _ _ _ hpre).leaves⟩

lemma Owner.did {tr : Trace Req Req.Answer Call Elsewhere} {db : Db} {sd : Side}
    {id root : JsString} {i : ℕ} {call : Call} {entries : List LogEntry}
    (h : Owner cfg tr db sd id root i call entries) :
    ∃ row, row.id = id ∧ Did call (.insert db (.batched sd) row) (Except.ok ()) tr := by
  obtain ⟨e, he, rfl⟩ := List.mem_map.mp (List.mem_of_getElem? h.place)
  exact ⟨_, rfl, h.leaves.did cfg db sd entries he⟩

/-- The ids of a batch whose leaves are all inserted are distinct. -/
lemma Owner.nodup (h : Reach (calls cfg objectHash) s₀ c) {db : Db} {sd : Side}
    {id root : JsString} {i : ℕ} {call : Call} {entries : List LogEntry}
    (howner : Owner cfg c.world.trace db sd id root i call entries) :
    (entries.map LogEntry.id).Nodup := by
  have hevents : (Deeds.events Elsewhere call
      (entries.map (HybridStorage.leafDeed cfg db sd) : Deeds Req Req.Answer)).filterMap
        Faithful.insertKey =
      (entries.map LogEntry.id).map fun id => (db, LogTable.batched sd, id) := by
    rw [Deeds.events, Multiset.map_coe, Multiset.filterMap_coe, List.map_map, List.filterMap_map,
      List.map_map]
    exact congrArg _ (congrFun List.filterMap_eq_map entries)
  have hle := Multiset.filterMap_le_filterMap Faithful.insertKey howner.leaves
  rw [hevents] at hle
  have hnodup := (calls_faithful cfg objectHash).inserts_once h
  exact List.Nodup.of_map _ (Multiset.coe_nodup.mp
    (Multiset.nodup_of_le hle (Multiset.coe_nodup.mpr hnodup)))

/-- A row is put in its place by one call only, and in one place. -/
lemma links_unique (h : Reach (calls cfg objectHash) s₀ c) {t t' : Call} {e e' : Req}
    {r : e.Answer} {r' : e'.Answer} (hd : Did t e r c.world.trace)
    (hd' : Did t' e' r' c.world.trace) {db : Db} {sd : Side} {id root root' : JsString} {i i' : ℕ}
    (hlinks : e.Links r db sd id root i) (hlinks' : e'.Links r' db sd id root' i') :
    root = root' ∧ i = i' := by
  have hguard := (calls_guarded h).1
  obtain ⟨entries, howner⟩ := owner_of_links hguard hd hlinks
  obtain ⟨entries', howner'⟩ := owner_of_links hguard hd' hlinks'
  obtain ⟨row, hid, hins⟩ := howner.did
  obtain ⟨row', hid', hins'⟩ := howner'.did
  obtain ⟨rfl, -⟩ := (calls_faithful cfg objectHash).insert_unique h hins hins' (hid.trans hid'.symm)
  obtain ⟨anchor, opts, rfl⟩ := howner.isBatch
  obtain ⟨anchor', opts', heq⟩ := howner'.isBatch
  cases heq
  refine ⟨howner.root_eq.trans howner'.root_eq.symm, ?_⟩
  have hi : i < (entries.map LogEntry.id).length := (List.getElem?_eq_some_iff.mp howner.place).1
  exact (List.getElem?_inj hi (howner.nodup h)).mp (howner.place.trans howner'.place.symm)

end Owner

/-- A row that was put in its place stays there: its place is given by no other call, and no row
is inserted under its id again. -/
theorem links_stay {s₀ : State} {c : Async.Config Req Req.Answer Call Elsewhere State}
    (h : Reach (calls cfg objectHash) s₀ c) {t : Call} {e : Req} {r : e.Answer}
    (hd : Did t e r c.world.trace) {db : Db} {sd : Side} {row : LogRow} {root : JsString} {i : ℕ}
    (hlinks : e.Links r db sd row.id root i)
    (hrow : row ∈ (c.world.state.dbs db).logs (.batched sd)) :
    row.batchRoot = some root ∧ row.leafIndex = some (i : ℤ) := by
  have hfaithful := calls_faithful cfg objectHash
  induction h generalizing t e r row root i with
  | refl => cases hd
  | @tail c₀ c₁ hreach hstep ih =>
    cases hstep with
    | @call w l l' t' e' k r' s' hs =>
      have hnext : Reach (calls cfg objectHash) s₀
          ⟨w.push (.call t' e' r') s', l ++ (t', k r') :: l'⟩ := .tail hreach (.call hs)
      have hlast : Did t' e' r' (w.trace ++ [.call t' e' r']) := by simp [Did]
      cases (State.answer_effect hs).placed hrow with
      | linked hlinks' hroot hindex =>
        obtain ⟨rfl, rfl⟩ := links_unique hnext hd hlast hlinks hlinks'
        exact ⟨hroot, hindex⟩
      | kept hold hplace hnot =>
        obtain ⟨hid, hroot, hindex⟩ := hplace
        rcases List.mem_append.mp hd with hd | hd
        · rw [← hroot, ← hindex]
          exact ih hd (hid ▸ hlinks) hold
        · cases List.mem_singleton.mp hd
          exact absurd hlinks (hnot root i)
      | new hins hnot =>
        rcases List.mem_append.mp hd with hd | hd
        · -- the leaf had been inserted before
          obtain ⟨entries, howner⟩ := owner_of_links (calls_guarded hreach).1 hd hlinks
          obtain ⟨row', hid, hdid⟩ := howner.did
          obtain ⟨old, hold, hcore⟩ := hfaithful.marked hreach hdid
          exact absurd (.inl ((LogRow.core_eq hcore).1.trans hid))
            ((Database.insert_eq_some hins).1 old hold)
        · cases List.mem_singleton.mp hd
          exact absurd hlinks (hnot root i)
    | @ext w l x s' ps hs =>
      have hd' : Did t e r w.trace := by
        rcases List.mem_append.mp hd with hd | hd
        · exact hd
        · cases List.mem_singleton.mp hd
      have hsame : s'.dbs = w.state.dbs := by
        cases x with
        | start call => cases hs; rfl
        | chain x =>
          obtain ⟨s₁, hchain, heq⟩ := Option.map_eq_some_iff.mp hs
          cases heq
          exact State.onChain_dbs hchain
      rw [World.push_state, hsame] at hrow
      exact ih hd' hlinks hrow
    | fork | left | right | done => exact ih hd hlinks hrow

/-! ### Database before chain -/

/-- The requests with which a call stores its rows. Every other request comes from its anchor, or
after that. -/
def Req.Stores : Req → Prop
  | .insert .. | .insertBatchRecord .. | .linkLeaves .. | .linkLeaf .. => True
  | _ => False

/-- A call has made a request, or waits for the answer to it. -/
inductive Made (call : Call) (e : Req) (c : Async.Config Req Req.Answer Call Elsewhere State) : Prop
  | did {r : e.Answer} (h : Did call e r c.world.trace)
  | waits {k : e.Answer → Prog Req Req.Answer Unit} (h : (call, .call e k) ∈ c.procs)

/-- The rows of a call are in its database: the log under its id and hash, or the record and the
leaves of the batch, each in its place. -/
def Call.RowsStored (cfg : ServerConfig) : Call → State → Prop
  | log db _ mode entry _, s => ∃ row ∈ (s.dbs db).logs mode.logTable,
      row.id = entry.id ∧ row.contentHash = cfg.sha.leafHash entry
  | batch db _ sd entries _, s =>
    (∃ b ∈ (s.dbs db).batches sd, b.merkleRoot = cfg.sha.computeBatchHash entries) ∧
      ∀ (i : ℕ) e, entries[i]? = some e → ∃ row ∈ (s.dbs db).logs (.batched sd), row.id = e.id ∧
        row.contentHash = cfg.sha.leafHash e ∧
        row.batchRoot = some (cfg.sha.computeBatchHash entries) ∧ row.leafIndex = some (i : ℤ)

/-- What a call has seen before it goes to its anchor. -/
def Call.Prepared (cfg : ServerConfig) (call : Call) (tr : Trace Req Req.Answer Call Elsewhere) :
    Prop :=
  match call with
  | log db _ mode entry _ =>
    Did call (.insert db mode.logTable (HybridStorage.logRow cfg db mode entry)) (Except.ok ()) tr
  | batch db _ sd entries _ => HybridStorage.Stored cfg db sd entries call tr

lemma prepared_of_step {call : Call} {e : Req} {tr : Trace Req Req.Answer Call Elsewhere}
    (h : CallStep cfg call e tr) (he : ¬e.Stores) : call.Prepared cfg tr := by
  cases call with
  | log db anchor mode entry opts =>
    cases h with
    | insert => exact absurd trivial he
    | anchor hi _ => exact hi
    | update hi _ => exact hi
  | batch db anchor sd entries opts =>
    cases h with
    | insert _ => exact absurd trivial he
    | record _ => exact absurd trivial he
    | link _ h =>
      refine absurd ?_ he
      cases db with
      | postgres =>
        cases h
        trivial
      | mongo =>
        obtain ⟨_, _, _, rfl⟩ := h
        trivial
    | anchor hs _ => exact hs
    | update hs _ => exact hs

/-- All leaves of a batch that is linked are. -/
lemma links_of_linked {db : Db} {s : Side} {ids : List JsString} {root : JsString} {call : Call}
    {tr : Trace Req Req.Answer Call Elsewhere}
    (h : HybridStorage.Linked s ids root call tr db) {i : ℕ} {id : JsString}
    (hid : ids[i]? = some id) :
    ∃ (e : Req) (r : e.Answer), Did call e r tr ∧ e.Links r db s id root i := by
  cases db with
  | postgres => exact ⟨_, _, h, .all hid⟩
  | mongo => exact ⟨_, _, h i id hid, .one⟩

lemma rows_stored {s₀ : State} {c : Async.Config Req Req.Answer Call Elsewhere State}
    (h : Reach (calls cfg objectHash) s₀ c) {call : Call}
    (hprepared : call.Prepared cfg c.world.trace) : call.RowsStored cfg c.world.state := by
  have hmarked := fun {e : Req} {r : e.Answer} (hd : Did call e r c.world.trace) =>
    (calls_faithful cfg objectHash).marked h hd
  cases call with
  | log db anchor mode entry opts =>
    obtain ⟨row, hrow, hcore⟩ := hmarked hprepared
    exact ⟨row, hrow, LogRow.core_eq hcore⟩
  | batch db anchor sd entries opts =>
    obtain ⟨⟨hleaves, hrecord⟩, hlinked⟩ := hprepared
    constructor
    · obtain ⟨b, hb, hroot⟩ := hmarked hrecord
      refine ⟨b, hb, hroot.trans ?_⟩
      exact computeBatchHash_withHash cfg.sha entries
    · intro i e he
      obtain ⟨row, hrow, hcore⟩ :=
        hmarked (hleaves.did cfg db sd entries (List.mem_of_getElem? he))
      have hid : (entries.map LogEntry.id)[i]? = some row.id := by
        rw [List.getElem?_map, he, (LogRow.core_eq hcore).1]
        rfl
      obtain ⟨e', r', hd, hlinks⟩ := links_of_linked hlinked hid
      exact ⟨row, hrow, (LogRow.core_eq hcore).1, (LogRow.core_eq hcore).2,
        links_stay h hd hlinks hrow⟩

/-- Whatever calls run at once and whichever of their steps fail: where a call has gone to its
anchor, or is about to, its rows are in the database. -/
theorem database_before_chain {s₀ : State} {c : Async.Config Req Req.Answer Call Elsewhere State}
    (h : Reach (calls cfg objectHash) s₀ c) {call : Call} {e : Req} (he : ¬e.Stores)
    (hmade : Made call e c) : call.RowsStored cfg c.world.state := by
  obtain ⟨hguard, hprocs⟩ := calls_guarded h
  apply rows_stored h
  cases hmade with
  | did hd =>
    obtain ⟨pre, hpre, hstep⟩ := hguard.did hd
    have hprepared := prepared_of_step hstep he
    cases call with
    | log => exact Did.later hprepared hpre
    | batch => exact HybridStorage.Stored.later cfg _ _ _ hprepared hpre
  | waits hp => exact prepared_of_step ((hprocs _ hp) _ List.prefix_rfl).1 he

/-- One log, to try statements on. -/
def plainEntry : LogEntry :=
  .create [0x61] .epoch infoLevel [] (ofString "hello") none

/-- Another log. -/
def otherEntry : LogEntry := { plainEntry with id := [0x62, 0x62] }

/-- A batch of two logs, until its rows are in the database. -/
def storedBatch : Option (Async.Config Req Req.Answer Call Elsewhere State) :=
  (Config.start State.start).play (calls connectedConfig fun _ => [])
    ([.ext (.start (.batch .postgres (.exonum .batch) .priv [plainEntry, otherEntry] none))] ++
      List.replicate 5 (.act 0 State.prompt))

set_option maxRecDepth 2000 in
/-- The anchor of the batch asks for the time, for the seed of its transaction. -/
theorem stored_batch_before_chain : ∃ h : storedBatch.isSome,
    (Call.batch .postgres (.exonum .batch) .priv [plainEntry, otherEntry] none).RowsStored
      connectedConfig (storedBatch.get h).world.state := by
  have hsome : storedBatch.isSome := rfl
  have hreach := Run.of_play (Option.some_get hsome).symm
  refine ⟨hsome, database_before_chain hreach (e := .now) (fun h => h) ?_⟩
  exact .waits (List.mem_singleton.mpr rfl)

end HybridLog
