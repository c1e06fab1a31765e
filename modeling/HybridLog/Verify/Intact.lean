import HybridLog.Storage.Contents
import HybridLog.Storage.Succeeds
import HybridLog.Verify.Siblings

/-!
# Verifying the leaves of an intact batch

A batch that `writeBatch` has written with success is listed under its root, and the root is
recomputed from what is listed. `batch_intact_iff` says when the list is the batch, whatever other
calls do.
-/

namespace HybridLog

open Js Async

/-! ### Lists in the order of an index -/

/-- A list in the order of an index that takes its elements to the places of another list. -/
lemma map_eq_of_indexed {α β γ : Type*} {l : List α} {m : List β} (index : α → ℕ) {f : α → γ}
    {g : β → γ} (hsorted : l.Pairwise fun a a' => index a ≤ index a')
    (hnodup : (l.map index).Nodup) (hinto : ∀ a ∈ l, ∃ b, m[index a]? = some b ∧ f a = g b)
    (honto : ∀ i < m.length, ∃ a ∈ l, index a = i) : l.map f = m.map g := by
  have hperm : (l.map index).Perm (List.range m.length) := by
    refine (List.perm_ext_iff_of_nodup hnodup List.nodup_range).mpr fun i => ?_
    rw [List.mem_map, List.mem_range]
    constructor
    · rintro ⟨a, ha, rfl⟩
      obtain ⟨b, hb, -⟩ := hinto a ha
      exact (List.getElem?_eq_some_iff.mp hb).1
    · exact honto i
  have hindex : l.map index = List.range m.length := by
    refine hperm.eq_of_pairwise (fun _ _ _ _ h h' => le_antisymm h h')
      (List.pairwise_map.mpr hsorted) ?_
    exact List.pairwise_lt_range.imp fun h => h.le
  have hlen : l.length = m.length := by
    rw [← List.length_map index, hindex, List.length_range]
  refine List.ext_getElem (by rw [List.length_map, List.length_map, hlen]) fun k hk hk' => ?_
  rw [List.length_map] at hk hk'
  rw [List.getElem_map, List.getElem_map]
  obtain ⟨b, hb, heq⟩ := hinto l[k] (List.getElem_mem hk)
  have hplace : index l[k] = k := by
    have hget := List.getElem_of_eq hindex (i := k) (by rwa [List.length_map])
    rwa [List.getElem_map, List.getElem_range] at hget
  rw [hplace, List.getElem?_eq_getElem hk', Option.some_inj] at hb
  rw [heq, hb]

/-! ### The rows of a batch -/

section Batch

variable {cfg : ServerConfig} {objectHash : ObjectHash} {db : Db} {anchor : Anchor} {sd : Side}
  {entries : List LogEntry} {opts : Option WriteOpts}
  {c : Async.Config Req Req.Answer Call Elsewhere State}

/-- Each leaf has its row, in its place. -/
lemma leaf_placed {s₀ : State} (h : Reach (calls cfg objectHash) s₀ c) {call : Call}
    (hstored : HybridStorage.Stored cfg db sd entries call c.world.trace) {i : ℕ} {e : LogEntry}
    (he : entries[i]? = some e) : ∃ row ∈ (c.world.state.dbs db).logs (.batched sd),
      row.core = HybridStorage.leafRow cfg db e ∧
      row.batchRoot = some (cfg.sha.computeBatchHash entries) ∧ row.leafIndex = some (i : ℤ) := by
  have hins := hstored.recorded.leaves.did cfg db sd entries (List.mem_of_getElem? he)
  obtain ⟨row, hrow, hcore⟩ := (calls_faithful cfg objectHash).marked h hins
  have hid : (entries.map LogEntry.id)[i]? = some row.id := by
    rw [List.getElem?_map, he, (LogRow.core_eq hcore).1]
    rfl
  obtain ⟨e', r', hd, hlinks⟩ := links_of_linked hstored.linked hid
  exact ⟨row, hrow, hcore, links_stay h hd hlinks hrow⟩

/-- No other batch of the table whose leaves are linked has the root. -/
def SoleRoot (cfg : ServerConfig) (db : Db) (sd : Side) (entries : List LogEntry)
    (tr : CallTrace) : Prop :=
  ∀ anchor entries' opts, entries' ≠ [] →
    (Call.batch db anchor sd entries' opts).Prepared cfg tr →
    cfg.sha.computeBatchHash entries' = cfg.sha.computeBatchHash entries → entries' = entries

/-- The rows under the root of a batch are its leaves, if no other batch on PostgreSQL has the
root; MongoDB takes one batch with a root only. -/
lemma leaf_of_root (h : Reach (calls cfg objectHash) State.start c)
    (hstored : HybridStorage.Stored cfg db sd entries (.batch db anchor sd entries opts)
      c.world.trace) (hsole : db = .postgres → SoleRoot cfg db sd entries c.world.trace)
    {row : LogRow} (hrow : row ∈ (c.world.state.dbs db).logs (.batched sd))
    (hroot : row.batchRoot = some (cfg.sha.computeBatchHash entries)) :
    ∃ (i : ℕ) (e : LogEntry), entries[i]? = some e ∧ row.core = HybridStorage.leafRow cfg db e ∧
      row.leafIndex = some (i : ℤ) := by
  obtain ⟨t, e, r, i, hd, hlinks⟩ := links_of_batchRoot h hrow hroot
  obtain ⟨anchor', entries', opts', rfl, hsame, hplace, hrecorded, hprepared⟩ :=
    batch_of_links h hd hlinks
  have hentries : entries' = entries := by
    cases db with
    | postgres =>
      refine hsole rfl anchor' entries' opts' ?_ (hprepared rfl) hsame.symm
      rintro rfl
      cases hplace
    | mongo =>
      have hroots : (HybridStorage.recordRow cfg entries').merkleRoot =
          (HybridStorage.recordRow cfg entries).merkleRoot := by
        refine (computeBatchHash_withHash cfg.sha entries').trans ?_
        exact hsame.symm.trans (computeBatchHash_withHash cfg.sha entries).symm
      cases record_once h hrecorded.record hstored.recorded.record hroots
      rfl
  subst hentries
  rw [List.getElem?_map, Option.map_eq_some_iff] at hplace
  obtain ⟨entry, hentry, hid⟩ := hplace
  obtain ⟨row', hrow', hcore', -, hindex'⟩ := leaf_placed h hstored hentry
  have hsameRow : row' = row := by
    refine List.inj_on_of_nodup_map (contents h db (.batched sd)).1 hrow' hrow ?_
    rw [← hid]
    exact congrArg LogRow.id hcore'
  exact ⟨i, entry, hentry, hsameRow ▸ hcore', hsameRow ▸ hindex'⟩

/-- All rows under the root, in the order of their index, are the leaves in the order of the
batch. -/
lemma all_eq (h : Reach (calls cfg objectHash) State.start c)
    (hstored : HybridStorage.Stored cfg db sd entries (.batch db anchor sd entries opts)
      c.world.trace) (hsole : db = .postgres → SoleRoot cfg db sd entries c.world.trace)
    {all : List LogRow} (hperm : all.Perm (((c.world.state.dbs db).logs (.batched sd)).filter
      fun r => r.batchRoot = some (cfg.sha.computeBatchHash entries)))
    (hsorted : all.Pairwise fun r r' => db.leafLe r.leafIndex r'.leafIndex) :
    all.map LogRow.core = entries.map (HybridStorage.leafRow cfg db) := by
  have hnodup := (contents h db (.batched sd)).1
  have hmem {r : LogRow} : r ∈ all ↔ r ∈ (c.world.state.dbs db).logs (.batched sd) ∧
      r.batchRoot = some (cfg.sha.computeBatchHash entries) := by
    rw [hperm.mem_iff, List.mem_filter, decide_eq_true_iff]
  have hleaf {r : LogRow} (hr : r ∈ all) : ∃ (i : ℕ) (e : LogEntry), entries[i]? = some e ∧
      r.core = HybridStorage.leafRow cfg db e ∧ r.leafIndex = some (i : ℤ) :=
    leaf_of_root h hstored hsole (hmem.mp hr).1 (hmem.mp hr).2
  let index (r : LogRow) : ℕ := (r.leafIndex.getD 0).toNat
  have hindex {r : LogRow} {i : ℕ} (hr : r.leafIndex = some (i : ℤ)) : index r = i := by
    simp [index, hr]
  refine map_eq_of_indexed index ?_ ?_ ?_ ?_
  · refine hsorted.imp_of_mem fun {r r'} hr hr' hle => ?_
    obtain ⟨i, _, -, -, hi⟩ := hleaf hr
    obtain ⟨j, _, -, -, hj⟩ := hleaf hr'
    rw [hindex hi, hindex hj]
    rw [hi, hj] at hle
    cases db <;> exact Int.ofNat_le.mp hle
  · have hall : all.Nodup := by
      refine hperm.nodup_iff.mpr (List.Nodup.filter _ ?_)
      exact List.Nodup.of_map LogRow.id hnodup
    refine List.Nodup.map_on (fun r hr r' hr' heq => ?_) hall
    obtain ⟨i, e, he, hcore, hi⟩ := hleaf hr
    obtain ⟨j, e', he', hcore', hj⟩ := hleaf hr'
    rw [hindex hi, hindex hj] at heq
    cases heq
    cases he.symm.trans he'
    exact List.inj_on_of_nodup_map hnodup (hmem.mp hr).1 (hmem.mp hr').1
      (LogRow.core_eq (hcore.trans hcore'.symm)).1
  · intro r hr
    obtain ⟨i, e, he, hcore, hi⟩ := hleaf hr
    exact ⟨e, (hindex hi).symm ▸ he, hcore⟩
  · intro i hi
    obtain ⟨row, hrow, -, hroot, hplace⟩ := leaf_placed h hstored (List.getElem?_eq_getElem hi)
    exact ⟨row, hmem.mpr ⟨hrow, hroot⟩, hindex hplace⟩

/-! ### Verification -/

/-- The field `merkleMatch` of a reply. -/
def VerifyReply.merkleMatch : VerifyReply → Option Bool
  | .batched _ _ _ _ merkleMatch _ => merkleMatch
  | _ => none

/-- `listBatchedByRoot` returns the leaves of the batch in their order, and `GET /verify/:id`
reports that the root is met by each of them. -/
structure Intact (cfg : ServerConfig) (db : Db) (sd : Side) (entries : List LogEntry)
    (d : Database) : Prop where
  listed : ∀ list : Listing, list.Of db d →
    (list sd (cfg.sha.computeBatchHash entries)).map LogRow.core =
      entries.map (HybridStorage.leafRow cfg db)
  verified : ∀ list : Listing, list.Of db d → ∀ e ∈ entries,
    (getVerify cfg.sha list d e.id).merkleMatch = some true

/-- The other calls write other entries. -/
def OthersApart (call : Call) (tr : CallTrace) : Prop :=
  ∀ call', .ext (.start call') ∈ tr → call' = call ∨ ∀ id ∈ call'.ids, id ∉ call.ids

/-- The id of a leaf stands in the table of the batch only. -/
lemma not_found_elsewhere (h : Reach (calls cfg objectHash) State.start c)
    (hapart : OthersApart (.batch db anchor sd entries opts) c.world.trace) {e : LogEntry}
    (he : e ∈ entries) {table : LogTable} (htable : table ≠ .batched sd) :
    (c.world.state.dbs db).findById table e.id = none := by
  rw [Database.findById, List.find?_eq_none]
  intro row hrow hid
  obtain ⟨t, row₀, hd, hcore⟩ := (contents h db table).2 row hrow
  obtain ⟨hmem, -, -⟩ := inserted_of_did h hd
  have hid₀ : row₀.id = e.id := (LogRow.core_eq hcore).1.symm.trans (of_decide_eq_true hid)
  rcases hapart t (started_of_did h hd) with rfl | hother
  · obtain ⟨_, _, hstep⟩ := (calls_guarded h).1.did hd
    cases hstep with
    | insert _ => exact htable rfl
    | link _ h =>
      cases db with
      | postgres => cases h
      | mongo =>
        obtain ⟨_, _, _, h⟩ := h
        cases h
    | anchor _ h => cases h with
      | looks h => exact h.elim
  · refine hother row₀.id hmem ?_
    rw [hid₀]
    exact List.mem_map_of_mem he

/-- The reply about a leaf. -/
lemma merkleMatch_leaf (h : Reach (calls cfg objectHash) State.start c)
    (hstored : HybridStorage.Stored cfg db sd entries (.batch db anchor sd entries opts)
      c.world.trace)
    (hapart : OthersApart (.batch db anchor sd entries opts) c.world.trace) {e : LogEntry}
    (he : e ∈ entries) (list : Listing) :
    (getVerify cfg.sha list (c.world.state.dbs db) e.id).merkleMatch =
      if cfg.sha.computeBatchHash entries = [] then none
      else some (siblingsRoot cfg.sha (list sd (cfg.sha.computeBatchHash entries)) =
        cfg.sha.computeBatchHash entries : Bool) := by
  have helse {table : LogTable} (htable : table ≠ .batched sd) :=
    not_found_elsewhere h hapart he htable
  obtain ⟨i, hi⟩ := List.getElem?_of_mem he
  obtain ⟨row, hrow, hcore, hroot, -⟩ := leaf_placed h hstored hi
  have hid : row.id = e.id := congrArg LogRow.id hcore
  have hfound : (c.world.state.dbs db).findById (.batched sd) e.id = some row :=
    hid ▸ Database.findById_eq (contents h db (.batched sd)).1 hrow
  have htime : row.timestamp = e.timestamp.ms := congrArg LogRow.timestamp hcore
  have hbatched : (verifyBatched cfg.sha list sd row).merkleMatch =
      if cfg.sha.computeBatchHash entries = [] then none
      else some (siblingsRoot cfg.sha (list sd (cfg.sha.computeBatchHash entries)) =
        cfg.sha.computeBatchHash entries : Bool) := by
    rw [verifyBatched, LogRow.recomputed?, LogRow.rebuilt?, htime, dateOf_ms, Option.map_some,
      Option.map_some]
    by_cases hnil : cfg.sha.computeBatchHash entries = []
    · have hnone : row.root? = none := by
        rw [LogRow.root?, hroot, hnil]
        rfl
      rw [hnone, if_pos hnil]
      rfl
    · rw [root?_eq_some.mpr ⟨hroot, hnil⟩, if_neg hnil]
      rfl
  have hoff : (c.world.state.dbs db).findById .offchain e.id = none := helse (by simp)
  have hpriv : (c.world.state.dbs db).findById (.anchored .priv) e.id = none := helse (by simp)
  have hpub : (c.world.state.dbs db).findById (.anchored .pub) e.id = none := helse (by simp)
  rw [getVerify, hoff, hpriv, hpub]
  cases sd with
  | priv =>
    rw [hfound]
    exact hbatched
  | pub =>
    have hbatch : (c.world.state.dbs db).findById (.batched .priv) e.id = none := helse (by simp)
    rw [hbatch, hfound]
    exact hbatched

/-- The root over rows with the content of the leaves is the root of the batch. -/
lemma siblingsRoot_leaves {l : List LogRow}
    (h : l.map LogRow.core = entries.map (HybridStorage.leafRow cfg db)) :
    siblingsRoot cfg.sha l = cfg.sha.computeBatchHash entries := by
  have hhashes : l.map (fun r => bufferFromHex r.contentHash) =
      entries.map fun e => bufferFromHex (cfg.sha.leafHash e) := by
    have hmap := congrArg (List.map fun r => bufferFromHex r.contentHash) h
    rw [List.map_map, List.map_map] at hmap
    exact hmap
  rw [siblingsRoot, hhashes]
  rfl

/-! ### When a batch stays intact -/

/-- The root is a text, and the leaves can be told by it: on PostgreSQL by no other batch having
it, on MongoDB by there being no more of them than are listed. -/
def Reproducible (cfg : ServerConfig) (db : Db) (sd : Side) (entries : List LogEntry)
    (tr : CallTrace) : Prop :=
  cfg.sha.computeBatchHash entries ≠ [] ∧
  match db with
  | .postgres => SoleRoot cfg .postgres sd entries tr
  | .mongo => entries.length ≤ 10000

lemma intact_of_reproducible (h : Reach (calls cfg objectHash) State.start c)
    (hstored : HybridStorage.Stored cfg db sd entries (.batch db anchor sd entries opts)
      c.world.trace)
    (hapart : OthersApart (.batch db anchor sd entries opts) c.world.trace)
    (hrepro : Reproducible cfg db sd entries c.world.trace) :
    Intact cfg db sd entries (c.world.state.dbs db) := by
  have hlisted (list : Listing) (hlist : list.Of db (c.world.state.dbs db)) :
      (list sd (cfg.sha.computeBatchHash entries)).map LogRow.core =
        entries.map (HybridStorage.leafRow cfg db) := by
    obtain ⟨all, hperm, hsorted, hl⟩ := hlist sd (cfg.sha.computeBatchHash entries)
    cases db with
    | postgres =>
      rw [hl]
      exact all_eq h hstored (fun _ => hrepro.2) hperm hsorted
    | mongo =>
      have hall := all_eq h hstored (fun hdb => Db.noConfusion hdb) hperm hsorted
      have hlen : all.length ≤ 10000 := by
        rw [← List.length_map LogRow.core, hall, List.length_map]
        exact hrepro.2
      rw [hl, List.take_of_length_le hlen]
      exact hall
  refine ⟨hlisted, fun list hlist e he => ?_⟩
  rw [merkleMatch_leaf h hstored hapart he, if_neg hrepro.1,
    siblingsRoot_leaves (hlisted list hlist), decide_eq_true rfl]

/-- Two linked batches of PostgreSQL with one root are listed together. -/
lemma soleRoot_of_listed (h : Reach (calls cfg objectHash) State.start c)
    (hstored : HybridStorage.Stored cfg .postgres sd entries
      (.batch .postgres anchor sd entries opts) c.world.trace)
    (hintact : Intact cfg .postgres sd entries (c.world.state.dbs .postgres)) :
    SoleRoot cfg .postgres sd entries c.world.trace := by
  intro anchor' entries' opts' hne hprepared hroot
  obtain ⟨list, hlist⟩ := exists_listing .postgres (c.world.state.dbs .postgres)
  obtain ⟨all, hperm, -, hl⟩ := hlist sd (cfg.sha.computeBatchHash entries)
  obtain ⟨e', he'⟩ := List.exists_mem_of_ne_nil entries' hne
  obtain ⟨i, hi⟩ := List.getElem?_of_mem he'
  obtain ⟨row, hrow, hcore, hrowroot, -⟩ := leaf_placed h hprepared hi
  have hmem : row ∈ list sd (cfg.sha.computeBatchHash entries) := by
    rw [hl, hperm.mem_iff, List.mem_filter]
    exact ⟨hrow, decide_eq_true (hrowroot.trans (congrArg some hroot))⟩
  have hleaf := hintact.listed list hlist ▸ List.mem_map_of_mem (f := LogRow.core) hmem
  obtain ⟨e, he, heq⟩ := List.mem_map.mp hleaf
  -- the row of the leaf was inserted by one call
  have hins := hstored.recorded.leaves.did cfg .postgres sd entries he
  have hins' := hprepared.recorded.leaves.did cfg .postgres sd entries' he'
  obtain ⟨hcall, -⟩ := (calls_faithful cfg objectHash).insert_unique h hins' hins
    (congrArg LogRow.id (hcore.symm.trans heq.symm))
  cases hcall
  rfl

/-- MongoDB lists 10000 leaves at most. -/
lemma length_le_of_intact {d : Database} (hintact : Intact cfg .mongo sd entries d) :
    entries.length ≤ 10000 := by
  obtain ⟨list, hlist⟩ := exists_listing .mongo d
  obtain ⟨all, -, -, hl⟩ := hlist sd (cfg.sha.computeBatchHash entries)
  have hlen := congrArg List.length (hintact.listed list hlist)
  rw [List.length_map, List.length_map, hl, List.length_take] at hlen
  exact hlen ▸ Nat.min_le_left _ _

/-- Whatever calls run at once, a batch that has been written with success stays intact exactly if
its root is a text and, on PostgreSQL, no other batch has it, or, on MongoDB, it has 10000 leaves
at most. -/
theorem batch_intact_iff (h : Reach (calls cfg objectHash) State.start c) {r : BatchWriteResult}
    (hresult : HybridStorage.BatchResult cfg db anchor sd entries opts
      (.batch db anchor sd entries opts) c.world.trace r) (hsuccess : r.success = true)
    (hapart : OthersApart (.batch db anchor sd entries opts) c.world.trace) :
    Intact cfg db sd entries (c.world.state.dbs db) ↔
      Reproducible cfg db sd entries c.world.trace := by
  obtain ⟨hne, hstored⟩ := stored_of_success hresult hsuccess
  constructor
  · intro hintact
    obtain ⟨list, hlist⟩ := exists_listing db (c.world.state.dbs db)
    have hroot : cfg.sha.computeBatchHash entries ≠ [] := by
      intro hnil
      obtain ⟨e, he⟩ := List.exists_mem_of_ne_nil entries hne
      have hmatch := hintact.verified list hlist e he
      rw [merkleMatch_leaf h hstored hapart he, if_pos hnil] at hmatch
      cases hmatch
    refine ⟨hroot, ?_⟩
    cases db with
    | postgres => exact soleRoot_of_listed h hstored hintact
    | mongo => exact length_le_of_intact hintact
  · exact intact_of_reproducible h hstored hapart

end Batch

/-- A batch of two leaves stays intact. -/
theorem pair_intact :
    ∃ c, Reach (calls connectedConfig fun _ => []) State.start c ∧
      Intact connectedConfig .mongo .priv [plainEntry, otherEntry] (c.world.state.dbs .mongo) := by
  obtain ⟨c, r, hreach, hresult, hsuccess, hsole⟩ := batch_alone connectedConfig (fun _ => [])
    .batch .mongo .priv (List.cons_ne_nil plainEntry [otherEntry]) (by decide) (by decide +kernel)
    (show submitOnly (some ⟨some false⟩) = true from rfl)
  have hroot : connectedConfig.sha.computeBatchHash [plainEntry, otherEntry] ≠ [] := by
    refine IsDigest.ne_nil (isDigest_computeBatchHash fun e he => .inl ?_)
    obtain rfl | he := List.mem_cons.mp he
    · rfl
    · rw [List.mem_singleton.mp he]
      rfl
  refine ⟨c, hreach, (batch_intact_iff hreach hresult hsuccess ?_).mpr ⟨hroot, ?_⟩⟩
  · exact fun call' h => .inl (hsole call' h)
  · show [plainEntry, otherEntry].length ≤ 10000
    decide

/-- Entries with a number as their id and its bytes as their hash. -/
def numbered (n : ℕ) : List LogEntry :=
  (List.range n).map fun i =>
    { plainEntry with id := [UInt16.ofNat i], dataHash := toHex (leBytes 32 i) }

lemma nodup_numbered_ids {n : ℕ} (hn : n ≤ 65536) : ((numbered n).map LogEntry.id).Nodup := by
  rw [numbered, List.map_map]
  refine List.Nodup.map_on (fun i hi j hj h => ?_) List.nodup_range
  have hnat := congrArg UInt16.toNat (List.cons.inj h).1
  rw [List.mem_range] at hi hj
  rwa [UInt16.toNat_ofNat_of_lt' (hi.trans_le hn), UInt16.toNat_ofNat_of_lt' (hj.trans_le hn)]
    at hnat

lemma nodup_numbered_hashes (sha : Sha256) {n : ℕ} (hn : n ≤ 65536) :
    ((numbered n).map sha.leafHash).Nodup := by
  rw [numbered, List.map_map]
  refine List.Nodup.map_on (fun i hi j hj h => ?_) List.nodup_range
  have hleaf (k : ℕ) : sha.leafHash { plainEntry with
      id := [UInt16.ofNat k], dataHash := toHex (leBytes 32 k) } = toHex (leBytes 32 k) := by
    rw [Sha256.leafHash, if_neg]
    exact IsDigest.ne_nil ⟨_, leBytes_length 32 k, rfl⟩
  have hlt {k : ℕ} (hk : k ∈ List.range n) : k < 256 ^ 32 :=
    (List.mem_range.mp hk).trans_le (hn.trans (by norm_num))
  rw [Function.comp_apply, Function.comp_apply, hleaf, hleaf] at h
  exact leBytes_injective 32 (hlt hi) (hlt hj) (toHex_injective h)

/-- A batch of 10001 leaves, written to MongoDB with success and with nothing else running, is not
listed in full. -/
theorem large_batch_cut :
    ∃ (c : Async.Config Req Req.Answer Call Elsewhere State) (r : BatchWriteResult),
      ((numbered 10001).map LogEntry.id).Nodup ∧
      ((numbered 10001).map connectedConfig.sha.leafHash).Nodup ∧
      Reach (calls connectedConfig fun _ => []) State.start c ∧
      HybridStorage.BatchResult connectedConfig .mongo (.exonum .batch) .priv (numbered 10001)
        (some ⟨some false⟩) (.batch .mongo (.exonum .batch) .priv (numbered 10001)
          (some ⟨some false⟩)) c.world.trace r ∧ r.success = true ∧
      (∀ call', .ext (.start call') ∈ c.world.trace → call' = .batch .mongo (.exonum .batch) .priv
        (numbered 10001) (some ⟨some false⟩)) ∧
      ¬ Intact connectedConfig .mongo .priv (numbered 10001) (c.world.state.dbs .mongo) := by
  have hids := nodup_numbered_ids (n := 10001) (by norm_num)
  have hhashes := nodup_numbered_hashes connectedConfig.sha (n := 10001) (by norm_num)
  have hlen : (numbered 10001).length = 10001 := by
    rw [numbered, List.length_map, List.length_range]
  have hne : numbered 10001 ≠ [] := by
    rw [← List.length_pos_iff, hlen]
    norm_num
  obtain ⟨c, r, hreach, hresult, hsuccess, hsole⟩ := batch_alone connectedConfig (fun _ => [])
    .batch .mongo .priv hne hids hhashes (show submitOnly (some ⟨some false⟩) = true from rfl)
  refine ⟨c, r, hids, hhashes, hreach, hresult, hsuccess, hsole, fun hintact => ?_⟩
  have hle := length_le_of_intact hintact
  rw [hlen] at hle
  norm_num at hle

end HybridLog
