import HybridLog.Storage.AllOrNone
import HybridLog.System.Provenance

/-!
# Leaves and their batches

No constraint of a database ties the leaves to the batches. Still the record of a batch stands there
with all its leaves, and a leaf with a root has the place that it says it has in a batch under that
root.
-/

namespace HybridLog

open Js Async

variable {cfg : ServerConfig} {objectHash : ObjectHash} {db : Db} {sd : Side}

/-! ### Requests -/

section Steps

variable {T X : Type} {t : T} {tr : Trace Req Req.Answer T X} {e : Req} {r : e.Answer}
  {id root : JsString} {i : ℕ} {b : BatchRow} {opts : Option WriteOpts} {st : Storage}

/-- The row `id` gets place `i` of the batch of some entries, whose leaves and record are there. -/
structure PlacedIn (cfg : ServerConfig) (db : Db) (sd : Side) (t : T)
    (tr : Trace Req Req.Answer T X) (id root : JsString) (i : ℕ) (entries : List LogEntry) :
    Prop where
  root_eq : root = cfg.sha.computeBatchHash entries
  place : (entries.map LogEntry.id)[i]? = some id
  recorded : HybridStorage.Recorded cfg db sd entries t tr

/-- The record is that of some entries, whose leaves are there. -/
structure RecordOf (cfg : ServerConfig) (db : Db) (sd : Side) (t : T)
    (tr : Trace Req Req.Answer T X) (b : BatchRow) (entries : List LogEntry) : Prop where
  record_eq : b = HybridStorage.recordRow cfg entries
  leaves : HybridStorage.Leaves cfg db sd entries t tr

lemma AnchorStep.not_links {payload : Payload} (h : AnchorStep payload t e tr) :
    ¬e.Links r db sd id root i := by
  intro hlinks
  cases h with
  | looks h => cases hlinks <;> exact h.elim
  | submit => cases hlinks

lemma AnchorStep.not_record {payload : Payload}
    (h : AnchorStep payload t (.insertBatchRecord db sd b) tr) : False := by
  cases h with
  | looks h => exact h

lemma Storage.LogStep.not_links {entry : LogEntry}
    (h : Storage.LogStep cfg opts entry t st e tr) : ¬e.Links r db sd id root i := by
  intro hlinks
  cases h with
  | offchain => cases hlinks
  | chain h => exact h.not_links hlinks
  | hybrid h => cases h with
    | insert => cases hlinks
    | anchor _ h => exact h.not_links hlinks
    | update => cases hlinks

lemma Storage.BatchStep.placedIn {entries : List LogEntry}
    (h : Storage.BatchStep cfg opts entries t st e tr) (hlinks : e.Links r db sd id root i) :
    PlacedIn cfg db sd t tr id root i entries := by
  cases h with
  | chain h => exact absurd hlinks h.not_links
  | @hybrid db' anchor side _ _ h => cases h with
    | insert => cases hlinks
    | record => cases hlinks
    | link hr h => cases db' with
      | postgres =>
        cases h
        cases hlinks with
        | all hid => exact ⟨rfl, hid, hr⟩
      | mongo =>
        obtain ⟨j, id', hid, rfl⟩ := h
        cases hlinks with
        | one => exact ⟨rfl, hid, hr⟩
    | anchor _ h => exact absurd hlinks h.not_links
    | update => cases hlinks

lemma Storage.BatchStep.recordOf {entries : List LogEntry}
    (h : Storage.BatchStep cfg opts entries t st (.insertBatchRecord db sd b) tr) :
    RecordOf cfg db sd t tr b entries := by
  cases h with
  | chain h => exact h.not_record.elim
  | @hybrid db' anchor side _ _ h => cases h with
    | record hl => exact ⟨rfl, hl⟩
    | link _ h => cases db' with
      | postgres => cases h
      | mongo =>
        obtain ⟨_, _, _, heq⟩ := h
        cases heq
    | anchor _ h => exact h.not_record.elim

lemma Req.Links.ofStorage (h : e.Links r db sd id root i) : e.OfStorage := by
  cases h with
  | all | one => trivial

/-- Leaves are put in their places by the writes of batches only. -/
lemma StorageStep.placedIn {t : Tag} {tr : Trace Req Req.Answer Tag X}
    (h : StorageStep cfg t e tr) (hlinks : e.Links r db sd id root i) :
    ∃ entries, PlacedIn cfg db sd t tr id root i entries := by
  cases h with
  | looks h => cases hlinks <;> exact h.elim
  | log h => exact absurd hlinks h.not_links
  | batch h => exact ⟨_, h.placedIn hlinks⟩
  | update h => cases h with
    | looks h => cases hlinks <;> exact h.elim
    | batch | log => cases hlinks

/-- Records are inserted by the writes of batches only. -/
lemma StorageStep.recordOf {t : Tag} {tr : RedeliveryTrace}
    (h : StorageStep cfg t (.insertBatchRecord db sd b) tr) :
    ∃ entries, RecordOf cfg db sd t tr b entries := by
  cases h with
  | looks h => exact h.elim
  | log h => exact h.no_record.elim
  | batch h => exact ⟨_, h.recordOf⟩
  | update h => cases h with
    | looks h => exact h.elim

end Steps

/-! ### Runs -/

section Runs

variable {c : RedeliveryConfig} {row : LogRow} {root : JsString} {b : BatchRow}

/-- The event puts the row in its place, if it has one. -/
def Linking (db : Db) (sd : Side) (row : LogRow) (ev : ServerEvent) : Prop :=
  ∀ root, row.batchRoot = some root → ∃ (t : Tag) (e : Req) (r : e.Answer) (i : ℕ),
    ev = .call t e r ∧ e.Links r db sd row.id root i ∧ row.leafIndex = some (i : ℤ)

/-- Every leaf with a root has been put in its place by a request. -/
lemma linked_of_mem (h : Reach (atLeastOnce cfg objectHash) .start c)
    (hrow : row ∈ (c.world.state.dbs db).logs (.batched sd)) (hroot : row.batchRoot = some root) :
    ∃ (t : Tag) (e : Req) (r : e.Answer) (i : ℕ), Did t e r c.world.trace ∧
      e.Links r db sd row.id root i ∧ row.leafIndex = some (i : ℤ) := by
  have htraced : ∃ ev ∈ c.world.trace, Linking db sd row ev := by
    refine traced_of_mem (fun dbs => (dbs db).logs (.batched sd)) (Linking db sd) rfl ?_ h hrow
    intro c₁ c₂ t e r s row hreach heffect htrace hrow
    cases heffect.placed hrow with
    | kept hold hplace _ =>
      obtain ⟨hid, hsame, hindex⟩ := hplace
      exact .inl ⟨_, hold, fun ev hev => by rwa [Linking, hid, hsame, hindex] at hev⟩
    | linked hlinks hroot hindex =>
      right
      intro root' hroot'
      cases hroot.symm.trans hroot'
      exact ⟨t, e, r, _, rfl, hlinks, hindex⟩
    | new hins hnot =>
      -- a new row is in no batch
      right
      intro root' hroot'
      rcases heffect.batchRoot hrow with ⟨old, hold, hid, -⟩ | ⟨root, i, hlinks, -⟩ | heq
      · exact absurd (.inl hid) ((Database.insert_eq_some hins).1 old hold)
      · exact absurd hlinks (hnot root i)
      · cases heq
        have hd : Did t (.insert db (.batched sd) row) (Except.ok ()) c₂.world.trace := by
          rw [htrace]
          exact List.mem_append_right _ (List.mem_singleton_self _)
        obtain ⟨_, _, hnew⟩ := destined_of_insert hreach hd
        rw [hnew.unlinked] at hroot'
        cases hroot'
  obtain ⟨ev, hev, hlinking⟩ := htraced
  obtain ⟨t, e, r, i, rfl, hlinks, hindex⟩ := hlinking root hroot
  exact ⟨t, e, r, i, hev, hlinks, hindex⟩

/-- The event inserts the record of a batch, up to the columns that updates change. -/
def RecordInserting (db : Db) (sd : Side) (b : BatchRow) (ev : ServerEvent) : Prop :=
  ∃ t b₀, ev = .call t (.insertBatchRecord db sd b₀) (Except.ok ()) ∧ b.core = b₀.core

/-- Every record of a batch has been inserted. -/
lemma record_of_mem (h : Reach (atLeastOnce cfg objectHash) .start c)
    (hb : b ∈ (c.world.state.dbs db).batches sd) :
    ∃ ev ∈ c.world.trace, RecordInserting db sd b ev := by
  refine traced_of_mem (fun dbs => (dbs db).batches sd) (RecordInserting db sd) rfl ?_ h hb
  intro c₁ c₂ t e r s b _ heffect _ hb
  rcases heffect.batches db sd with hsame | ⟨new, heq, hnew⟩ | ⟨root, status, txHash, at', -, hnew⟩
  · exact .inl ⟨b, hsame ▸ hb, fun _ hev => hev⟩
  · rw [hnew] at hb
    rcases List.mem_append.mp hb with hb | hb
    · exact .inl ⟨b, hb, fun _ hev => hev⟩
    · cases heq
      exact .inr ⟨t, new, rfl, congrArg _ (List.mem_singleton.mp hb)⟩
  · rw [hnew] at hb
    obtain ⟨old, hold, rfl⟩ := List.mem_map.mp hb
    refine .inl ⟨old, hold, fun ev hev => ?_⟩
    split
    · exact hev
    · exact hev

/-- The leaves of some entries are in their table, each with the content of its entry. -/
def State.HoldsLeaves (cfg : ServerConfig) (s : State) (db : Db) (sd : Side)
    (entries : List LogEntry) : Prop :=
  ∀ e ∈ entries, ∃ row ∈ (s.dbs db).logs (.batched sd),
    row.core = (storedRow cfg db (.batched sd) e).core

lemma holdsLeaves (h : Reach (atLeastOnce cfg objectHash) .start c) {t : Tag}
    {entries : List LogEntry}
    (hleaves : HybridStorage.Leaves cfg db sd entries t c.world.trace) :
    c.world.state.HoldsLeaves cfg db sd entries := fun _ he =>
  (atLeastOnce_faithful cfg objectHash).marked h (hleaves.did cfg db sd entries he)

/-- In every run, whatever its requests, queues and timers do at the same time: the record of a
batch is that of some entries whose leaves are all in the table, and a leaf with a root is the leaf
of the entry that its index names in a batch with that root, of which the record and all the leaves
are there. -/
theorem references_hold (h : Reach (atLeastOnce cfg objectHash) .start c) (db : Db) (sd : Side) :
    (∀ b ∈ (c.world.state.dbs db).batches sd, ∃ entries,
      b.core = (HybridStorage.recordRow cfg entries).core ∧
        c.world.state.HoldsLeaves cfg db sd entries) ∧
    ∀ row ∈ (c.world.state.dbs db).logs (.batched sd), ∀ root, row.batchRoot = some root →
      ∃ (entries : List LogEntry) (i : ℕ) (e : LogEntry), root = cfg.sha.computeBatchHash entries ∧
        entries[i]? = some e ∧ row.leafIndex = some (i : ℤ) ∧
        row.core = (storedRow cfg db (.batched sd) e).core ∧
        c.world.state.HoldsLeaves cfg db sd entries ∧
        ∃ b ∈ (c.world.state.dbs db).batches sd, b.merkleRoot = root := by
  constructor
  · intro b hb
    obtain ⟨_, hd, t, b₀, rfl, hcore⟩ := record_of_mem h hb
    obtain ⟨pre, hpre, -, hstep⟩ := (atLeastOnce_guarded h).did hd
    obtain ⟨entries, rfl, hleaves⟩ := (TagStep.storage hstep trivial).recordOf
    exact ⟨entries, hcore, holdsLeaves h (hleaves.later cfg db sd entries hpre)⟩
  · intro row hrow root hroot
    obtain ⟨t, e, r, i, hd, hlinks, hindex⟩ := linked_of_mem h hrow hroot
    obtain ⟨pre, hpre, -, hstep⟩ := (atLeastOnce_guarded h).did hd
    obtain ⟨entries, rfl, hplace, hrecorded⟩ := (TagStep.storage hstep hlinks.ofStorage).placedIn hlinks
    have hrecorded := hrecorded.later cfg db sd entries hpre
    have hleaves := holdsLeaves h hrecorded.leaves
    rw [List.getElem?_map, Option.map_eq_some_iff] at hplace
    obtain ⟨entry, hentry, hid⟩ := hplace
    refine ⟨entries, i, entry, rfl, hentry, hindex, ?_, hleaves, ?_⟩
    · -- the row under the id of the entry is its leaf: ids are given once
      obtain ⟨leaf, hleaf, hcore⟩ := hleaves entry (List.mem_of_getElem? hentry)
      have hsame : leaf.id = row.id := (LogRow.core_eq hcore).1.trans hid
      rwa [List.inj_on_of_nodup_map (table_tells h db (.batched sd)).2 hleaf hrow hsame] at hcore
    · obtain ⟨b, hb, hmerkle⟩ := (atLeastOnce_faithful cfg objectHash).marked h hrecorded.record
      exact ⟨b, hb, hmerkle.trans (computeBatchHash_withHash cfg.sha entries)⟩

end Runs

/-- A request that is buffered for a batch. -/
def batchedRequest (message : JsString) : PostRequest :=
  { awaitingRequest .hybridPrivateBatch .postgres with message := message, writeMode := .batch }

/-- Two logs are buffered and flushed by the timer, until their leaves are linked. -/
def linkedRun : Option RedeliveryConfig :=
  let hello := batchedRequest (ofString "hello")
  let bye := batchedRequest (ofString "goodbye")
  (Config.start State.start).play (atLeastOnce connectedConfig fun _ => [])
    ([.ext (.server (.post hello (List.replicate 36 0x61) .epoch)),
        .ext (.server (.post bye (List.replicate 36 0x62) .epoch)),
        .act 0 State.prompt, .act 1 State.prompt,
        .ext (.server (.expire hello.writerKey [⟨hello.entry (List.replicate 36 0x61) .epoch, 0⟩,
          ⟨bye.entry (List.replicate 36 0x62) .epoch, 1⟩]))] ++
      List.replicate 5 (.act 2 State.prompt))

lemma isSome_linkedRun : linkedRun.isSome := by decide +kernel

theorem linkedRun_refers : ∃ h : linkedRun.isSome,
    ∃ row ∈ ((linkedRun.get h).world.state.dbs .postgres).logs (.batched .priv),
      ∃ root, row.leafIndex = some 1 ∧ row.batchRoot = some root ∧
        ∃ (entries : List LogEntry) (i : ℕ) (e : LogEntry),
          root = connectedConfig.sha.computeBatchHash entries ∧ entries[i]? = some e ∧
          row.leafIndex = some (i : ℤ) ∧
          row.core = (storedRow connectedConfig .postgres (.batched .priv) e).core ∧
          (linkedRun.get h).world.state.HoldsLeaves connectedConfig .postgres .priv entries ∧
          ∃ b ∈ ((linkedRun.get h).world.state.dbs .postgres).batches .priv,
            b.merkleRoot = root := by
  refine ⟨isSome_linkedRun, ?_⟩
  have hreach := Run.of_play (Option.some_get isSome_linkedRun).symm
  obtain ⟨row, hrow, hindex, hsome⟩ : ∃ row ∈ ((linkedRun.get isSome_linkedRun).world.state.dbs
      .postgres).logs (.batched .priv), row.leafIndex = some 1 ∧ row.batchRoot.isSome := by
    decide +kernel
  obtain ⟨root, hroot⟩ := Option.isSome_iff_exists.mp hsome
  exact ⟨row, hrow, root, hindex, hroot,
    (references_hold hreach .postgres .priv).2 row hrow root hroot⟩

end HybridLog
