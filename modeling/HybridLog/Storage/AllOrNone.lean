import HybridLog.Storage.Contents
import HybridLog.Storage.Succeeds

/-!
# Batches in part

`writeBatch` stores a batch by many steps, and what an earlier step has stored is not taken back
when a later one fails. `batch_all_or_none_iff` says when the batch is in the database as a whole
or not at all.
-/

namespace HybridLog

open Js Async

section Calls

variable {cfg : ServerConfig} {objectHash : ObjectHash} {db : Db} {sd : Side}
  {c : Async.Config Req Req.Answer Call Elsewhere State}

/-! ### Where records come from -/

/-- A record of a batch after a request was there before, or has been inserted. -/
lemma Effect.mem_batches {s s' : State} {e : Req} {r : e.Answer} (h : Effect s e r s')
    {b : BatchRow} (hb : b ∈ (s'.dbs db).batches sd) :
    (∃ old ∈ (s.dbs db).batches sd, old.merkleRoot = b.merkleRoot) ∨
      (⟨e, r⟩ : Σ e : Req, e.Answer) =
        ⟨.insertBatchRecord db sd b, (Except.ok () : Except JsError Unit)⟩ := by
  rcases h.batches db sd with hsame | ⟨row, heq, hnew⟩ | ⟨root, status, txHash, anchoredAt, -, hnew⟩
  · exact .inl ⟨b, hsame ▸ hb, rfl⟩
  · rw [hnew] at hb
    rcases List.mem_append.mp hb with hb | hb
    · exact .inl ⟨b, hb, rfl⟩
    · exact .inr (List.mem_singleton.mp hb ▸ heq)
  · rw [hnew] at hb
    obtain ⟨old, hold, rfl⟩ := List.mem_map.mp hb
    refine .inl ⟨old, hold, ?_⟩
    split <;> rfl

/-- Every record of a batch was inserted by a call. -/
lemma records_inserted (h : Reach (calls cfg objectHash) State.start c) {b : BatchRow}
    (hb : b ∈ (c.world.state.dbs db).batches sd) :
    ∃ t b₀, Did t (.insertBatchRecord db sd b₀) (Except.ok ()) c.world.trace ∧
      b₀.merkleRoot = b.merkleRoot := by
  refine calls_invariant (P := fun dbs tr => ∀ b ∈ (dbs db).batches sd, ∃ t b₀,
    Did t (.insertBatchRecord db sd b₀) (Except.ok ()) tr ∧ b₀.merkleRoot = b.merkleRoot)
    ?_ ?_ ?_ h b hb
  · exact fun _ hb => absurd hb List.not_mem_nil
  · intro c₀ t e r s' _ ih heffect _ b hb
    rcases heffect.mem_batches hb with ⟨old, hold, hroot⟩ | heq
    · obtain ⟨t', b₀, hdid, hroot₀⟩ := ih old hold
      exact ⟨t', b₀, hdid.later (List.prefix_append _ _), hroot₀.trans hroot⟩
    · cases heq
      exact ⟨t, b, List.mem_append_right _ (List.mem_singleton_self _), rfl⟩
  · intro dbs tr x ih b hb
    obtain ⟨t, b₀, hdid, hroot⟩ := ih b hb
    exact ⟨t, b₀, hdid.later (List.prefix_append _ _), hroot⟩

/-- The call that inserts the record of a batch has inserted its leaves. -/
lemma batch_of_record (h : Reach (calls cfg objectHash) State.start c) {t : Call} {b : BatchRow}
    (hd : Did t (.insertBatchRecord db sd b) (Except.ok ()) c.world.trace) :
    ∃ anchor entries opts, t = .batch db anchor sd entries opts ∧
      b.merkleRoot = cfg.sha.computeBatchHash entries ∧
      HybridStorage.Leaves cfg db sd entries t c.world.trace := by
  obtain ⟨pre, hpre, hstep⟩ := (calls_guarded h).1.did hd
  cases t with
  | log db' anchor mode entry opts =>
    cases hstep with
    | anchor _ h => cases h with
      | looks h => exact h.elim
  | batch db' anchor sd' entries opts =>
    cases hstep with
    | record hleaves =>
      refine ⟨anchor, entries, opts, rfl, computeBatchHash_withHash cfg.sha entries, ?_⟩
      exact hleaves.later cfg db sd entries hpre
    | link _ h =>
      cases db' with
      | postgres => cases h
      | mongo =>
        obtain ⟨_, _, _, h⟩ := h
        cases h
    | anchor _ h => cases h with
      | looks h => exact h.elim

/-! ### The rows of a call -/

/-- None of the rows of a batch are in its database. -/
structure NoRows (cfg : ServerConfig) (db : Db) (sd : Side) (entries : List LogEntry)
    (s : State) : Prop where
  leaves : ∀ e ∈ entries, ∀ row ∈ (s.dbs db).logs (.batched sd), row.id ≠ e.id
  record : ∀ b ∈ (s.dbs db).batches sd, b.merkleRoot ≠ cfg.sha.computeBatchHash entries

/-- The root of the batch that a call writes. -/
def Call.root? (cfg : ServerConfig) : Call → Option JsString
  | log .. => none
  | batch _ _ _ entries _ => some (cfg.sha.computeBatchHash entries)

/-- The other calls write other rows. -/
def RowsApart (cfg : ServerConfig) (call : Call) (tr : CallTrace) : Prop :=
  ∀ call', .ext (.start call') ∈ tr → call' = call ∨
    (∀ id ∈ call'.ids, id ∉ call.ids) ∧ call'.root? cfg ≠ call.root? cfg

variable {anchor : Anchor} {entries : List LogEntry} {opts : Option WriteOpts}

/-- The insertion of the leaf of an entry has succeeded. -/
def LeafInserted (cfg : ServerConfig) (db : Db) (anchor : Anchor) (sd : Side)
    (entries : List LogEntry) (opts : Option WriteOpts) (e : LogEntry) (tr : CallTrace) : Prop :=
  Did (.batch db anchor sd entries opts) (.insert db (.batched sd) (HybridStorage.leafRow cfg db e))
    (Except.ok ()) tr

/-- A call whose leaves stand in their places has taken every step. -/
lemma prepared_of_rowsStored (h : Reach (calls cfg objectHash) State.start c) (hne : entries ≠ [])
    (hapart : RowsApart cfg (.batch db anchor sd entries opts) c.world.trace)
    (hrows : (Call.batch db anchor sd entries opts).RowsStored cfg c.world.state) :
    (Call.batch db anchor sd entries opts).Prepared cfg c.world.trace := by
  -- the leaf at each place was put there by the call itself
  have hlinked {i : ℕ} {e : LogEntry} (he : entries[i]? = some e) :
      ∃ (e' : Req) (r : e'.Answer), Did (.batch db anchor sd entries opts) e' r c.world.trace ∧
        e'.Links r db sd e.id (cfg.sha.computeBatchHash entries) i := by
    obtain ⟨row, hrow, hid, -, hroot, hindex⟩ := hrows.2 i e he
    obtain ⟨t, e', r, j, hd, hlinks⟩ := links_of_batchRoot h hrow hroot
    obtain ⟨-, hindex'⟩ := links_stay h hd hlinks hrow
    obtain rfl : i = j := by
      rw [hindex, Option.some_inj] at hindex'
      exact Int.ofNat_inj.mp hindex'
    obtain ⟨anchor', entries', opts', rfl, hsame, -⟩ := batch_of_links h hd hlinks
    rcases hapart _ (started_of_did h hd) with heq | ⟨-, hother⟩
    · rw [heq] at hd
      exact ⟨e', r, hd, hid ▸ hlinks⟩
    · exact absurd (congrArg some hsame.symm) hother
  obtain ⟨e₀, he₀⟩ := List.exists_mem_of_ne_nil entries hne
  obtain ⟨i₀, hi₀⟩ := List.getElem?_of_mem he₀
  obtain ⟨e', r, hd, hlinks⟩ := hlinked hi₀
  obtain ⟨anchor', entries', opts', heq, -, -, hrecorded, hprepared⟩ := batch_of_links h hd hlinks
  cases heq
  cases db with
  | postgres => exact hprepared rfl
  | mongo =>
    refine ⟨hrecorded, fun i id hid => ?_⟩
    rw [List.getElem?_map, Option.map_eq_some_iff] at hid
    obtain ⟨e, he, rfl⟩ := hid
    obtain ⟨e', r, hd, hlinks⟩ := hlinked he
    cases hlinks with
    | one => exact hd

/-- Before the first leaf is inserted nothing of the batch is in the database. -/
lemma noRows_of_none (h : Reach (calls cfg objectHash) State.start c) (hne : entries ≠ [])
    (hapart : RowsApart cfg (.batch db anchor sd entries opts) c.world.trace)
    (hnone : ∀ e ∈ entries, ¬LeafInserted cfg db anchor sd entries opts e c.world.trace) :
    NoRows cfg db sd entries c.world.state := by
  constructor
  · intro e he row hrow hid
    obtain ⟨t, row₀, hd, hcore⟩ := (contents h db (.batched sd)).2 row hrow
    obtain ⟨hmem, -, -⟩ := inserted_of_did h hd
    have hid₀ : row₀.id = e.id := (LogRow.core_eq hcore).1.symm.trans hid
    rcases hapart t (started_of_did h hd) with rfl | ⟨hother, -⟩
    · obtain ⟨_, _, hstep⟩ := (calls_guarded h).1.did hd
      cases hstep with
      | insert he' => exact hnone _ he' hd
      | link _ h =>
        cases db with
        | postgres => cases h
        | mongo =>
          obtain ⟨_, _, _, h⟩ := h
          cases h
      | anchor _ h => cases h with
        | looks h => exact h.elim
    · exact hother _ hmem (hid₀ ▸ List.mem_map_of_mem he)
  · intro b hb hroot
    obtain ⟨t, b₀, hd, hroot₀⟩ := records_inserted h hb
    obtain ⟨anchor', entries', opts', rfl, hsame, hleaves⟩ := batch_of_record h hd
    rcases hapart _ (started_of_did h hd) with heq | ⟨-, hother⟩
    · cases heq
      obtain ⟨e, he⟩ := List.exists_mem_of_ne_nil entries hne
      exact hnone e he (hleaves.did cfg db sd entries he)
    · exact hother (congrArg some (hsame.symm.trans (hroot₀.trans hroot)))

/-- Whatever other calls run at once, and whichever steps fail: a batch is in the database as a
whole or not at all exactly if every step of its call that stores it has succeeded, or none of its
leaves could be inserted. -/
theorem batch_all_or_none_iff (h : Reach (calls cfg objectHash) State.start c)
    (hne : entries ≠ [])
    (hapart : RowsApart cfg (.batch db anchor sd entries opts) c.world.trace) :
    (Call.batch db anchor sd entries opts).RowsStored cfg c.world.state ∨
        NoRows cfg db sd entries c.world.state ↔
      (Call.batch db anchor sd entries opts).Prepared cfg c.world.trace ∨
        ∀ e ∈ entries, ¬LeafInserted cfg db anchor sd entries opts e c.world.trace := by
  constructor
  · rintro (hrows | hnone)
    · exact .inl (prepared_of_rowsStored h hne hapart hrows)
    · refine .inr fun e he hd => ?_
      obtain ⟨row, hrow, hcore⟩ := (calls_faithful cfg objectHash).marked h hd
      exact hnone.leaves e he row hrow (LogRow.core_eq hcore).1
  · rintro (hprepared | hnone)
    · exact .inl (rows_stored h hprepared)
    · exact .inr (noRows_of_none h hne hapart hnone)

end Calls

/-- A batch of two leaves that is written with success. -/
theorem pair_all_or_none :
    ∃ c, Reach (calls connectedConfig fun _ => []) State.start c ∧
      ((Call.batch .mongo (.exonum .batch) .priv [plainEntry, otherEntry]
          (some ⟨some false⟩)).RowsStored connectedConfig c.world.state ∨
        NoRows connectedConfig .mongo .priv [plainEntry, otherEntry] c.world.state) := by
  obtain ⟨c, r, hreach, hresult, hsuccess, hsole⟩ := batch_alone connectedConfig (fun _ => [])
    .batch .mongo .priv (List.cons_ne_nil plainEntry [otherEntry]) (by decide) (by decide +kernel)
    (show submitOnly (some ⟨some false⟩) = true from rfl)
  obtain ⟨hne, hstored⟩ := stored_of_success hresult hsuccess
  refine ⟨c, hreach, (batch_all_or_none_iff hreach hne ?_).mpr (.inl hstored)⟩
  exact fun call' h => .inl (hsole call' h)

/-- A database that refuses a row. -/
def refusing : (e : Req) → State → e.Answer
  | .insert .., _ => (Except.error "connection terminated" : Except JsError Unit)
  | e, s => State.prompt e s

/-- A batch of two logs, until it returns. The second leaf cannot be inserted. -/
def halfBatch : Option (Async.Config Req Req.Answer Call Elsewhere State) :=
  (Config.start State.start).play (calls connectedConfig fun _ => [])
    [.ext (.start (.batch .postgres (.exonum .batch) .priv [plainEntry, otherEntry] none)),
      .act 0 State.prompt, .act 0 State.prompt, .act 0 refusing, .act 0 State.prompt]

/-- After the batch has returned, its first leaf is there and its record is not. -/
theorem half_batch_stays : ∃ c, Reach (calls connectedConfig fun _ => []) State.start c ∧
    c.procs = [] ∧ ([plainEntry, otherEntry].map LogEntry.id).Nodup ∧
    ([plainEntry, otherEntry].map connectedConfig.sha.leafHash).Nodup ∧
    ¬(Call.batch .postgres (.exonum .batch) .priv [plainEntry, otherEntry] none).RowsStored
      connectedConfig c.world.state ∧
    ¬NoRows connectedConfig .postgres .priv [plainEntry, otherEntry] c.world.state := by
  have hsome : halfBatch.isSome := rfl
  have hids : (((halfBatch.get hsome).world.state.dbs .postgres).logs (.batched .priv)).map
      LogRow.id = [plainEntry.id] := rfl
  have hbatches : ((halfBatch.get hsome).world.state.dbs .postgres).batches .priv = [] := rfl
  refine ⟨halfBatch.get hsome, Run.of_play (Option.some_get hsome).symm, rfl, by decide,
    by decide +kernel, ?_, ?_⟩
  · rintro ⟨⟨b, hb, -⟩, -⟩
    rw [hbatches] at hb
    cases hb
  · intro hnone
    have hmem := hids ▸ List.mem_singleton_self plainEntry.id
    obtain ⟨row, hrow, hid⟩ := List.mem_map.mp hmem
    exact hnone.leaves plainEntry (List.mem_cons_self ..) row hrow hid

end HybridLog
