import HybridLog.Async.Solo
import HybridLog.Storage.WriteAhead

/-!
# A batch alone

A batch of distinct entries that finds its table empty, and whose anchor only submits, is written
with success, whatever its length.
-/

namespace HybridLog

open Js Async

variable (cfg : ServerConfig) (objectHash : ObjectHash) (call : Call) {db : Db} {sd : Side}

/-- A world of the calls. -/
abbrev CallWorld := World Req Req.Answer Call Elsewhere State

section Requests

variable {w : CallWorld} {α : Type}

variable {cfg objectHash call} in
lemma runsTo_answer {e : Req} {k : e.Answer → Except JsError α} {r : e.Answer} {s : State}
    (h : w.state.answer e r = some s) :
    (Task.request e k).RunsTo ((calls cfg objectHash).serves call) w (k r)
      (w.push (.call call e r) s) :=
  Task.runsTo_request.mpr ⟨r, ⟨s, h, rfl⟩, rfl⟩

/-- Entries with new ids and hashes are inserted one after the other. -/
lemma insertLeaves_inTurn (es : List LogEntry) (hids : (es.map LogEntry.id).Nodup)
    (hhashes : (es.map cfg.sha.leafHash).Nodup)
    (hfree : ∀ e ∈ es, ∀ r ∈ (w.state.dbs db).logs (.batched sd),
      ¬ (HybridStorage.leafRow cfg db e).Clashes (.batched sd) r) :
    ∃ as w', RunInTurn ((calls cfg objectHash).serves call) ((es.map (LogEntry.withHash cfg.sha)).map
        fun e => insertBatched db e e.dataHash (.batched sd)) w as w' ∧
      w'.state.exonum = w.state.exonum ∧ (w'.state.dbs db).batches = (w.state.dbs db).batches := by
  induction es generalizing w with
  | nil => exact ⟨[], w, ⟨rfl, rfl⟩, rfl, rfl⟩
  | cons e es ih =>
    obtain ⟨hid, hids⟩ := List.nodup_cons.mp hids
    obtain ⟨hhash, hhashes⟩ := List.nodup_cons.mp hhashes
    have hins : (w.state.dbs db).insert (.batched sd) (HybridStorage.leafRow cfg db e) =
        some ((w.state.dbs db).setLogs (.batched sd)
          ((w.state.dbs db).logs (.batched sd) ++ [HybridStorage.leafRow cfg db e])) := by
      rw [Database.insert, if_neg]
      rintro ⟨r, hr, hclash⟩
      exact hfree e (List.mem_cons_self ..) r hr hclash
    let w₁ : CallWorld := w.push (.call call (.insert db (.batched sd)
      (HybridStorage.leafRow cfg db e)) (Except.ok ())) (w.state.setDb db
        ((w.state.dbs db).setLogs (.batched sd)
          ((w.state.dbs db).logs (.batched sd) ++ [HybridStorage.leafRow cfg db e])))
    have hfirst : (insertBatched db (e.withHash cfg.sha) (e.withHash cfg.sha).dataHash
        (.batched sd)).RunsTo ((calls cfg objectHash).serves call) w (.ok ()) w₁ := by
      apply runsTo_answer
      exact congrArg (Option.map (w.state.setDb db)) hins
    have hrows : (w₁.state.dbs db).logs (.batched sd) =
        (w.state.dbs db).logs (.batched sd) ++ [HybridStorage.leafRow cfg db e] := by
      rw [World.push_state, State.setDb_dbs_self, Database.setLogs_logs_self]
    have hfree₁ : ∀ e' ∈ es, ∀ r ∈ (w₁.state.dbs db).logs (.batched sd),
        ¬ (HybridStorage.leafRow cfg db e').Clashes (.batched sd) r := by
      intro e' he' r hr hclash
      rw [hrows] at hr
      rcases List.mem_append.mp hr with hr | hr
      · exact hfree e' (List.mem_cons_of_mem _ he') r hr hclash
      · rw [List.mem_singleton.mp hr] at hclash
        rcases hclash with heq | ⟨-, heq⟩
        · exact hid (List.mem_map.mpr ⟨e', he', heq.symm⟩)
        · exact hhash (List.mem_map.mpr ⟨e', he', heq.symm⟩)
    obtain ⟨as, w', hrest, hexonum, hbatches⟩ := ih hids hhashes hfree₁
    refine ⟨() :: as, w', ⟨(), w₁, as, hfirst, hrest, rfl⟩, hexonum, hbatches.trans ?_⟩
    rw [World.push_state, State.setDb_dbs_self]
    rfl

lemma linkEach_runsTo (table : Side) (root : JsString) (i : ℕ) (ids : List JsString)
    (w : CallWorld) : ∃ w', (linkEach table root i ids).RunsTo ((calls cfg objectHash).serves call) w
      (.ok ()) w' ∧ w'.state.exonum = w.state.exonum := by
  induction ids generalizing i w with
  | nil => exact ⟨w, Task.runsTo_pure.mpr ⟨rfl, rfl⟩, rfl⟩
  | cons id ids ih =>
    let s : State := w.state.setDb .mongo
      ((w.state.dbs .mongo).updateLog (.batched table) id (LogRow.link root i))
    obtain ⟨w', hrest, hexonum⟩ := ih (i + 1)
      (w.push (.call call (.linkLeaf table id root i) (Except.ok ())) s)
    exact ⟨w', Task.runsTo_bind_ok.mpr ⟨(), _, runsTo_answer rfl, hrest⟩, hexonum⟩

lemma linkBatchLeaves_runsTo (db : Db) (ids : List JsString) (root : JsString) (table : Side)
    (w : CallWorld) : ∃ w', (linkBatchLeaves db ids root table).RunsTo
      ((calls cfg objectHash).serves call) w (.ok ()) w' ∧ w'.state.exonum = w.state.exonum := by
  cases db with
  | postgres =>
    let s : State := w.state.setDb .postgres
      ((w.state.dbs .postgres).linkFrom (.batched table) root 0 ids)
    refine ⟨w.push (.call call (.linkLeaves table ids root) (Except.ok ())) s, ?_, rfl⟩
    apply runsTo_answer
    rfl
  | mongo => exact linkEach_runsTo cfg objectHash call table root 0 ids w

lemma insertBatchRecord_runsTo (row : BatchRow) {table : Side}
    (hempty : (w.state.dbs db).batches table = []) :
    ∃ w', (insertBatchRecord db row table).RunsTo ((calls cfg objectHash).serves call) w (.ok ())
      w' ∧ w'.state.exonum = w.state.exonum := by
  have hins : (w.state.dbs db).insertBatchRecord db table row =
      some ((w.state.dbs db).setBatches table ((w.state.dbs db).batches table ++ [row])) := by
    simp only [Database.insertBatchRecord]
    rw [if_neg]
    rintro ⟨r, hr, -⟩
    rw [hempty] at hr
    cases hr
  refine ⟨w.push (.call call (.insertBatchRecord db table row) (Except.ok ())) (w.state.setDb db
    ((w.state.dbs db).setBatches table ((w.state.dbs db).batches table ++ [row]))), ?_, rfl⟩
  apply runsTo_answer
  exact congrArg (Option.map (w.state.setDb db)) hins

/-- A node without transactions takes the one of a batch. -/
lemma anchor_runsTo (mode : AnchorMode) {opts : Option WriteOpts} {entries : List LogEntry}
    (hne : entries ≠ []) (hopts : submitOnly opts = true) (hempty : w.state.exonum = .empty) :
    ∃ (r : BatchWriteResult) (w' : CallWorld), ((Anchor.exonum mode).writeBatch cfg entries
      opts).RunsTo ((calls cfg objectHash).serves call) w (.ok r) w' ∧
      r.success = true ∧ r.confirmed = some false := by
  let args : Bytes := ExonumAnchor.batchArgs cfg.sha mode
    (entries.map (LogEntry.withHash cfg.sha)) (ExonumAnchor.seedAt 0)
  let tx : ExonumTx := ⟨mode.service, args, cfg.exonumAuthor⟩
  let s : State := { w.state with exonum := { w.state.exonum with
    txs := w.state.exonum.txs ++ [("t", tx)] } }
  let w₁ : CallWorld := w.push (.call call .now (0 : ℕ)) w.state
  let w₂ : CallWorld := w₁.push (.call call (.submit (.exonum tx)) (Except.ok "t")) s
  have hnow : now.RunsTo ((calls cfg objectHash).serves call) w (.ok 0) w₁ := by
    apply runsTo_answer
    rfl
  have hsubmit : w₁.state.answer (.submit (.exonum tx)) (Except.ok "t") = some s := by
    show w.state.submit "t" (.exonum tx) = some s
    rw [State.submit, Exonum.submit, hempty]
    simp [s, hempty, Exonum.empty]
  have hsubmitted : (ExonumAnchor.submitTxBytes cfg mode args).RunsTo
      ((calls cfg objectHash).serves call) w₁ (.ok "t") w₂ := runsTo_answer hsubmit
  refine ⟨⟨cfg.sha.computeBatchHash (entries.map (LogEntry.withHash cfg.sha)), startId entries,
    endId entries, entries.length, true, some "t", some false, none⟩, w₂, ?_, rfl, rfl⟩
  rw [Anchor.writeBatch, ExonumAnchor.writeBatch, if_neg hne, hopts]
  apply Task.runsTo_tryCatch_ok
  refine Task.runsTo_bind_ok.mpr ⟨0, w₁, hnow, Task.runsTo_bind_ok.mpr ⟨"t", w₂, hsubmitted, ?_⟩⟩
  exact Task.runsTo_pure.mpr ⟨rfl, rfl⟩

end Requests

/-! ### The call -/

variable (mode : AnchorMode) {entries : List LogEntry} {opts : Option WriteOpts}

lemma writeBatch_runsTo (db : Db) (sd : Side) (hne : entries ≠ [])
    (hids : (entries.map LogEntry.id).Nodup)
    (hhashes : (entries.map cfg.sha.leafHash).Nodup) (hopts : submitOnly opts = true)
    {w : CallWorld} (hlogs : (w.state.dbs db).logs (.batched sd) = [])
    (hrecords : (w.state.dbs db).batches sd = []) (hexonum : w.state.exonum = .empty) :
    ∃ (r : BatchWriteResult) (w' : CallWorld), (HybridStorage.writeBatch cfg db (.exonum mode)
      (.batched sd) entries opts).RunsTo ((calls cfg objectHash).serves call) w (.ok r) w' ∧
      r.success = true := by
  let hashed : List LogEntry := entries.map (LogEntry.withHash cfg.sha)
  let root : JsString := cfg.sha.computeBatchHash hashed
  have hfree : ∀ e ∈ entries, ∀ r ∈ (w.state.dbs db).logs (.batched sd),
      ¬ (HybridStorage.leafRow cfg db e).Clashes (.batched sd) r := by
    intro e _ r hr
    rw [hlogs] at hr
    cases hr
  obtain ⟨as, w₁, hleaves, hexonum₁, hbatches₁⟩ :=
    insertLeaves_inTurn cfg objectHash call entries hids hhashes hfree
  obtain ⟨w₂, hrecord, hexonum₂⟩ := insertBatchRecord_runsTo cfg objectHash call
    (HybridStorage.batchRow cfg hashed) (hbatches₁ ▸ hrecords)
  obtain ⟨w₃, hlink, hexonum₃⟩ := linkBatchLeaves_runsTo cfg objectHash call db
    (hashed.map LogEntry.id) root sd w₂
  have hhashed : hashed ≠ [] := mt List.map_eq_nil_iff.mp hne
  obtain ⟨r, w₄, hanchor, hsuccess, hconfirmed⟩ := anchor_runsTo cfg objectHash call mode
    hhashed hopts (hexonum₃.trans (hexonum₂.trans (hexonum₁.trans hexonum)))
  let s : State := w₄.state.setDb db ((w₄.state.dbs db).updateBatch sd root
    (AnchorUpdate.onBatch ⟨statusOf r.confirmed r.success, r.txId, none⟩))
  let w₅ : CallWorld := w₄.push (.call call (.updateBatchAnchorStatus db sd root
    (statusOf r.confirmed r.success) r.txId none) (Except.ok ())) s
  have hupdate : (updateBatchAnchorStatus db root (statusOf r.confirmed r.success) r.txId none
      sd).RunsTo ((calls cfg objectHash).serves call) w₄ (.ok ()) w₅ := by
    apply runsTo_answer
    rfl
  have hnow : (anchoredNow r.confirmed).RunsTo ((calls cfg objectHash).serves call) w₄ (.ok none)
      w₄ := by
    rw [hconfirmed]
    exact Task.runsTo_pure.mpr ⟨rfl, rfl⟩
  refine ⟨⟨root, startId entries, endId entries, entries.length, r.success, r.txId, r.confirmed,
    none⟩, w₅, ?_, hsuccess⟩
  unfold HybridStorage.writeBatch
  rw [if_neg hne]
  apply Task.runsTo_tryCatch_ok
  refine Task.runsTo_bind_ok.mpr ⟨as, w₁, hleaves.promiseAll, ?_⟩
  refine Task.runsTo_bind_ok.mpr ⟨(), w₂, hrecord, ?_⟩
  refine Task.runsTo_bind_ok.mpr ⟨(), w₃, hlink, ?_⟩
  refine Task.runsTo_bind_ok.mpr ⟨r, w₄, hanchor, ?_⟩
  refine Task.runsTo_bind_ok.mpr ⟨none, w₄, hnow, ?_⟩
  refine Task.runsTo_bind_ok.mpr ⟨(), w₅, hupdate, ?_⟩
  exact Task.runsTo_pure.mpr ⟨rfl, rfl⟩

/-- The call of such a batch, with nothing else running. -/
theorem batch_alone (db : Db) (sd : Side) (hne : entries ≠ []) (hids : (entries.map LogEntry.id).Nodup)
    (hhashes : (entries.map cfg.sha.leafHash).Nodup) (hopts : submitOnly opts = true) :
    ∃ (c : Config Req Req.Answer Call Elsewhere State) (r : BatchWriteResult),
      Reach (calls cfg objectHash) State.start c ∧
      HybridStorage.BatchResult cfg db (.exonum mode) sd entries opts
        (.batch db (.exonum mode) sd entries opts) c.world.trace r ∧ r.success = true ∧
      ∀ call', .ext (.start call') ∈ c.world.trace →
        call' = .batch db (.exonum mode) sd entries opts := by
  let call : Call := .batch db (.exonum mode) sd entries opts
  let w : CallWorld := (Config.start State.start).world.push (.ext (.start call)) State.start
  have hstart : Step (calls cfg objectHash) (Config.start State.start)
      ⟨w, [] ++ [(call, call.program cfg)]⟩ := .ext rfl
  obtain ⟨r, w', hruns, hsuccess⟩ := writeBatch_runsTo cfg objectHash call mode db sd
    hne hids hhashes hopts (w := w) rfl rfl rfl
  obtain ⟨l, hrun⟩ := Prog.RunsTo.run hruns (fun _ => .pure ()) [] []
  have hresult := Follows.runsTo (HybridStorage.writeBatch_follows cfg db (.exonum mode) sd entries
    opts call w.trace) hruns
  refine ⟨⟨w', _⟩, r, .head hstart hrun, hresult, hsuccess, fun call' hmem => ?_⟩
  have hmem' := hruns.ext_mem hmem
  simpa [w, World.push, Config.start] using hmem'

end HybridLog
