import HybridLog.Storage.WriteAhead
import HybridLog.System.Columns

/-!
# Where rows come from

Every row of a log table was inserted by a call, and every row that stands in a batch was put there
by one. MongoDB takes one record under a root only, so there a root belongs to one call.
-/

namespace HybridLog

open Js Async

/-! ### Invariants of calls -/

section Calls

variable {cfg : ServerConfig} {objectHash : ObjectHash} {s₀ : State}
  {c : Async.Config Req Req.Answer Call Elsewhere State}

abbrev CallTrace := Trace Req Req.Answer Call Elsewhere

/-- What holds of the databases at the start, and after each request that a call may make, holds
of every run. -/
lemma calls_invariant {P : (Db → Database) → CallTrace → Prop} (hstart : P s₀.dbs [])
    (hcall : ∀ {c₀ : Async.Config Req Req.Answer Call Elsewhere State} {t : Call} {e : Req}
      {r : e.Answer} {s' : State}, Reach (calls cfg objectHash) s₀ c₀ →
      P c₀.world.state.dbs c₀.world.trace → Effect c₀.world.state e r s' →
      Guarded (CallStep cfg) (c₀.world.trace ++ [.call t e r]) →
      P s'.dbs (c₀.world.trace ++ [.call t e r]))
    (hext : ∀ {dbs : Db → Database} {tr : CallTrace} {x : Elsewhere}, P dbs tr →
      P dbs (tr ++ [.ext x]))
    (h : Reach (calls cfg objectHash) s₀ c) : P c.world.state.dbs c.world.trace := by
  induction h with
  | refl => exact hstart
  | @tail c₀ c₁ hreach hstep ih =>
    have hguard := (calls_guarded (Relation.ReflTransGen.tail hreach hstep)).1
    cases hstep with
    | call hs => exact hcall hreach ih (State.answer_effect hs) hguard
    | @ext w l x s' ps hs =>
      have hsame : s'.dbs = w.state.dbs := by
        cases x with
        | start call => cases hs; rfl
        | chain x =>
          obtain ⟨s₁, hchain, heq⟩ := Option.map_eq_some_iff.mp hs
          cases heq
          exact State.onChain_dbs hchain
      rw [World.push_state, hsame]
      exact hext ih
    | fork | left | right | done => exact ih

/-- From empty databases on, the ids of a table are distinct and each row is one that a call has
inserted. -/
lemma contents (h : Reach (calls cfg objectHash) State.start c) (db : Db) (table : LogTable) :
    (((c.world.state.dbs db).logs table).map LogRow.id).Nodup ∧
      ∀ row ∈ (c.world.state.dbs db).logs table, ∃ t row₀,
        Did t (.insert db table row₀) (Except.ok ()) c.world.trace ∧ row.core = row₀.core := by
  refine calls_invariant (P := fun dbs tr => (((dbs db).logs table).map LogRow.id).Nodup ∧
      ∀ row ∈ (dbs db).logs table, ∃ t row₀,
        Did t (.insert db table row₀) (Except.ok ()) tr ∧ row.core = row₀.core) ?_ ?_ ?_ h
  · exact ⟨List.nodup_nil, fun _ hrow => absurd hrow List.not_mem_nil⟩
  · rintro c₀ t e r s' - ⟨hnodup, hrows⟩ heffect -
    have hkept {row : LogRow} (hrow : row.core ∈ ((c₀.world.state.dbs db).logs table).map
        LogRow.core) : ∃ t' row₀, Did t' (.insert db table row₀) (Except.ok ())
          (c₀.world.trace ++ [.call t e r]) ∧ row.core = row₀.core := by
      obtain ⟨old, hold, hcore⟩ := List.mem_map.mp hrow
      obtain ⟨t', row₀, hdid, heq⟩ := hrows old hold
      exact ⟨t', row₀, hdid.later (List.prefix_append _ _), hcore ▸ heq⟩
    refine ⟨heffect.nodup_ids hnodup, fun row hrow => ?_⟩
    have hmem := List.mem_map_of_mem (f := LogRow.core) hrow
    rcases heffect.core db table with hsame | ⟨row₀, heq, -, hnew⟩
    · exact hkept (hsame ▸ hmem)
    · cases heq
      rcases List.mem_append.mp (hnew ▸ hmem) with hmem | hmem
      · exact hkept hmem
      · exact ⟨t, row₀, List.mem_append_right _ (List.mem_singleton_self _),
          List.mem_singleton.mp hmem⟩
  · rintro dbs tr x ⟨hnodup, hrows⟩
    refine ⟨hnodup, fun row hrow => ?_⟩
    obtain ⟨t, row₀, hdid, heq⟩ := hrows row hrow
    exact ⟨t, row₀, hdid.later (List.prefix_append _ _), heq⟩

/-- A call inserts rows under its own ids only, none of them in a batch yet, and none into the
off-chain table. -/
def Call.ids : Call → List JsString
  | .log _ _ _ entry _ => [entry.id]
  | .batch _ _ _ entries _ => entries.map LogEntry.id

lemma insert_of_step {call : Call} {db : Db} {table : LogTable} {row : LogRow} {tr : CallTrace}
    (h : CallStep cfg call (.insert db table row) tr) :
    row.id ∈ call.ids ∧ row.batchRoot = none ∧ table ≠ .offchain := by
  cases call with
  | log db' anchor mode entry opts =>
    cases h with
    | insert =>
      refine ⟨List.mem_singleton_self _, rfl, ?_⟩
      cases mode <;> exact nofun
    | anchor _ h => cases h with
      | looks h => exact h.elim
  | batch db' anchor sd entries opts =>
    cases h with
    | insert he => exact ⟨List.mem_map.mpr ⟨_, he, rfl⟩, rfl, nofun⟩
    | link _ h =>
      cases db' with
      | postgres => cases h
      | mongo =>
        obtain ⟨_, _, _, h⟩ := h
        cases h
    | anchor _ h => cases h with
      | looks h => exact h.elim

lemma inserted_of_did (h : Reach (calls cfg objectHash) s₀ c) {call : Call} {db : Db}
    {table : LogTable} {row : LogRow}
    (hd : Did call (.insert db table row) (Except.ok ()) c.world.trace) :
    row.id ∈ call.ids ∧ row.batchRoot = none ∧ table ≠ .offchain := by
  obtain ⟨_, _, hstep⟩ := (calls_guarded h).1.did hd
  exact insert_of_step hstep

/-- Every call that makes requests has been started. -/
lemma started_of_did (h : Reach (calls cfg objectHash) s₀ c) {call : Call} {e : Req} {r : e.Answer}
    (hd : Did call e r c.world.trace) : .ext (.start call) ∈ c.world.trace := by
  have hguard : Guarded (fun t _ tr => (.ext (.start t) : Event Req Req.Answer Call Elsewhere) ∈ tr)
      c.world.trace := by
    refine (Run.guarded (M := calls cfg objectHash) ?_ h Guarded.nil (by simp [Config.start])).1
    intro tr x s s' ps hx p hp
    cases x with
    | start call' =>
      cases hx
      cases List.mem_singleton.mp hp
      apply Follows.allow (call'.program_follows cfg _)
      intro e tr' htr _
      exact htr.subset (List.mem_append_right _ (List.mem_singleton_self _))
    | chain x =>
      obtain ⟨s₁, _, heq⟩ := Option.map_eq_some_iff.mp hx
      cases heq
      cases hp
  obtain ⟨pre, hpre, hmem⟩ := hguard.did hd
  exact hpre.subset hmem

/-- A batch is written with success only after its rows are. -/
lemma stored_of_success {db : Db} {anchor : Anchor} {sd : Side} {entries : List LogEntry}
    {opts : Option WriteOpts} {t : Call} {tr : CallTrace} {r : BatchWriteResult}
    (h : HybridStorage.BatchResult cfg db anchor sd entries opts t tr r)
    (hsuccess : r.success = true) :
    entries ≠ [] ∧ HybridStorage.Stored cfg db sd entries t tr := by
  cases h with
  | written hne hs _ _ => exact ⟨hne, hs⟩
  | empty | notInserted | notRecorded | notLinked | notUpdated => cases hsuccess

/-! ### Rows in a batch -/

/-- A row of a table for batches that stands in a batch after a request was in it before, or has
been put there, or was inserted so. -/
lemma Effect.batchRoot {s s' : State} {e : Req} {r : e.Answer} (h : Effect s e r s') {db : Db}
    {sd : Side} {row : LogRow} (hrow : row ∈ (s'.dbs db).logs (.batched sd)) :
    (∃ old ∈ (s.dbs db).logs (.batched sd), old.id = row.id ∧ old.batchRoot = row.batchRoot) ∨
      (∃ root i, e.Links r db sd row.id root i ∧ row.batchRoot = some root) ∨
      (⟨e, r⟩ : Σ e : Req, e.Answer) =
        ⟨.insert db (.batched sd) row, (Except.ok () : Except JsError Unit)⟩ := by
  cases h.placed hrow with
  | kept hold hplace _ => exact .inl ⟨_, hold, hplace.1, hplace.2.1⟩
  | linked hlinks hroot _ => exact .inr (.inl ⟨_, _, hlinks, hroot⟩)
  | new hins _ =>
    right
    right
    have hfree := (Database.insert_eq_some hins).1
    rcases h.core db (.batched sd) with hsame | ⟨row₀, heq, -, -⟩
    · have hmem := hsame ▸ List.mem_map_of_mem (f := LogRow.core) hrow
      obtain ⟨old, hold, hcore⟩ := List.mem_map.mp hmem
      exact absurd (.inl (LogRow.core_eq hcore).1) (hfree old hold)
    · cases heq
      cases h with
      | insert hins₀ =>
        rw [State.setDb_dbs_self] at hrow
        rcases Database.mem_of_insert hins₀ hrow with hold | ⟨-, rfl⟩
        · exact absurd (.inl rfl) (hfree row hold)
        · rfl
      | idle hidle => exact hidle.elim

/-- Every row that stands in a batch has been put there. -/
lemma links_of_batchRoot (h : Reach (calls cfg objectHash) State.start c) {db : Db} {sd : Side}
    {row : LogRow} (hrow : row ∈ (c.world.state.dbs db).logs (.batched sd)) {root : JsString}
    (hroot : row.batchRoot = some root) :
    ∃ (t : Call) (e : Req) (r : e.Answer) (i : ℕ), Did t e r c.world.trace ∧
      e.Links r db sd row.id root i := by
  refine calls_invariant (P := fun dbs tr => ∀ row ∈ (dbs db).logs (.batched sd), ∀ root,
    row.batchRoot = some root → ∃ (t : Call) (e : Req) (r : e.Answer) (i : ℕ), Did t e r tr ∧
      e.Links r db sd row.id root i) ?_ ?_ ?_ h row hrow root hroot
  · exact fun _ hrow => absurd hrow List.not_mem_nil
  · intro c₀ t e r s' _ ih heffect hguard row hrow root hroot
    have hlast : Did t e r (c₀.world.trace ++ [.call t e r]) :=
      List.mem_append_right _ (List.mem_singleton_self _)
    rcases heffect.batchRoot hrow with ⟨old, hold, hid, hsame⟩ | ⟨root', i, hlinks, hroot'⟩ | heq
    · obtain ⟨t', e', r', i, hdid, hlinks⟩ := ih old hold root (hsame.trans hroot)
      exact ⟨t', e', r', i, hdid.later (List.prefix_append _ _), hid ▸ hlinks⟩
    · cases hroot.symm.trans hroot'
      exact ⟨t, e, r, i, hlast, hlinks⟩
    · cases heq
      obtain ⟨_, _, hstep⟩ := hguard.did hlast
      rw [(insert_of_step hstep).2.1] at hroot
      cases hroot
  · intro dbs tr x ih row hrow root hroot
    obtain ⟨t, e, r, i, hdid, hlinks⟩ := ih row hrow root hroot
    exact ⟨t, e, r, i, hdid.later (List.prefix_append _ _), hlinks⟩

/-- A call that puts a row in its place is a batch whose record is there; on PostgreSQL all its
leaves are linked. -/
lemma batch_of_links (h : Reach (calls cfg objectHash) s₀ c) {t : Call} {e : Req} {r : e.Answer}
    (hd : Did t e r c.world.trace) {db : Db} {sd : Side} {id root : JsString} {i : ℕ}
    (hlinks : e.Links r db sd id root i) :
    ∃ anchor entries opts, t = .batch db anchor sd entries opts ∧
      root = cfg.sha.computeBatchHash entries ∧ (entries.map LogEntry.id)[i]? = some id ∧
      HybridStorage.Recorded cfg db sd entries t c.world.trace ∧
      (db = .postgres → t.Prepared cfg c.world.trace) := by
  have hguard := (calls_guarded h).1
  obtain ⟨entries, howner⟩ := owner_of_links hguard hd hlinks
  obtain ⟨anchor, opts, rfl⟩ := howner.isBatch
  obtain ⟨pre, hpre, hstep⟩ := hguard.did hd
  have hrecorded : HybridStorage.Recorded cfg db sd entries (.batch db anchor sd entries opts)
      c.world.trace := by
    cases hstep with
    | link hrec _ => exact hrec.later cfg db sd entries hpre
    | anchor hs _ => exact hs.recorded.later cfg db sd entries hpre
    | insert => cases hlinks
    | record => cases hlinks
    | update => cases hlinks
  refine ⟨anchor, entries, opts, rfl, howner.root_eq, howner.place, hrecorded, ?_⟩
  rintro rfl
  refine ⟨hrecorded, ?_⟩
  cases hlinks with
  | all hi =>
    cases hstep with
    | link _ h =>
      cases h
      exact hd
    | anchor _ h => cases h with
      | looks h => exact h.elim

/-! ### Records of MongoDB -/

/-- MongoDB takes one record under a root. -/
lemma record_once (h : Reach (calls cfg objectHash) s₀ c) {sd : Side} {t t' : Call}
    {b b' : BatchRow} (hd : Did t (.insertBatchRecord .mongo sd b) (Except.ok ()) c.world.trace)
    (hd' : Did t' (.insertBatchRecord .mongo sd b') (Except.ok ()) c.world.trace)
    (hroot : b.merkleRoot = b'.merkleRoot) : t = t' := by
  -- a record that is there refuses another one under its root
  have hrefuses {c₀ : Async.Config Req Req.Answer Call Elsewhere State} {t : Call}
      {b b' : BatchRow} {s' : State} (hreach : Reach (calls cfg objectHash) s₀ c₀)
      (hd : Did t (.insertBatchRecord .mongo sd b) (Except.ok ()) c₀.world.trace)
      (heffect : Effect c₀.world.state (.insertBatchRecord .mongo sd b') (Except.ok ()) s') :
      b.merkleRoot ≠ b'.merkleRoot := by
    intro heq
    obtain ⟨old, hold, holdroot⟩ := (calls_faithful cfg objectHash).marked hreach hd
    cases heffect with
    | record hins =>
      rw [Database.insertBatchRecord, if_pos ⟨old, hold, holdroot.trans heq⟩] at hins
      cases hins
    | idle hidle => exact hidle.elim
  refine calls_invariant (P := fun _ tr => ∀ {t t' : Call} {b b' : BatchRow},
    Did t (.insertBatchRecord .mongo sd b) (Except.ok ()) tr →
    Did t' (.insertBatchRecord .mongo sd b') (Except.ok ()) tr → b.merkleRoot = b'.merkleRoot →
    t = t') ?_ ?_ ?_ h hd hd' hroot
  · intro _ _ _ _ hd
    cases hd
  · intro c₀ t₀ e r s' hreach ih heffect _ t t' b b' hd hd' hroot
    rcases List.mem_append.mp hd with hold | hlast <;>
      rcases List.mem_append.mp hd' with hold' | hlast'
    · exact ih hold hold' hroot
    · cases List.mem_singleton.mp hlast'
      exact absurd hroot (hrefuses hreach hold heffect)
    · cases List.mem_singleton.mp hlast
      exact absurd hroot.symm (hrefuses hreach hold' heffect)
    · cases List.mem_singleton.mp hlast
      cases List.mem_singleton.mp hlast'
      rfl
  · intro _ tr x ih t t' b b' hd hd' hroot
    have hold {t : Call} {e : Req} {r : e.Answer} (hd : Did t e r (tr ++ [.ext x])) :
        Did t e r tr := by
      rcases List.mem_append.mp hd with hd | hd
      · exact hd
      · cases List.mem_singleton.mp hd
    exact ih (hold hd) (hold hd') hroot

end Calls

end HybridLog
