import HybridLog.Verify.Content

/-!
# Changes to the set of siblings

The root of a batch says nothing about the depth of its tree: a level above the leaves, taken as a
list of leaves, has the same root. What keeps such a level from being passed off as the batch is
that the row being verified is listed among its siblings and its hash is one of a canonical text,
which is never as short as two digests. MongoDB lists 10000 rows at most, so there a row can be
verified without being listed.
-/

namespace HybridLog

open Js Merkle

/-! ### The strings that are hashed -/

/-- The leaves of the batch `es`. -/
def batchLeaves (sha : Sha256) (es : List LogEntry) : List Bytes :=
  es.map fun e => bufferFromHex (sha.leafHash e)

/-- The byte strings hashed to compute a root. -/
def nodesHashed (sha : Sha256) (leaves : List Bytes) : Set Bytes :=
  {b | ∃ p, Hashed sha.node leaves p ∧ b = p.1 ++ p.2}

/-- The byte strings hashed to write the batch `es`. -/
def batchHashed (sha : Sha256) (es : List LogEntry) : Set Bytes :=
  {b | ∃ e ∈ es, b = utf8 e.toHashableString} ∪ nodesHashed sha (batchLeaves sha es)

def rowLeaves (rows : List LogRow) : List Bytes := rows.map fun r => bufferFromHex r.contentHash

/-- The entries carry no hash or the hash of their own text. -/
def OwnHashes (sha : Sha256) (es : List LogEntry) : Prop :=
  ∀ e ∈ es, e.dataHash = [] ∨ e.dataHash = sha.computeLogHash e

/-- What the schema and the writers see to: ids are a primary key, content hashes are unique, and
each of them is a digest. -/
structure LeafTableOk (rows : List LogRow) : Prop where
  ids : (rows.map LogRow.id).Nodup
  hashes : (rows.map LogRow.contentHash).Nodup
  digests : ∀ r ∈ rows, IsDigest r.contentHash

variable {sha : Sha256}

lemma OwnHashes.leafHash {es : List LogEntry} (h : OwnHashes sha es) {e : LogEntry}
    (he : e ∈ es) : sha.leafHash e = sha.computeLogHash e := by
  rw [Sha256.leafHash]
  split
  · rfl
  · next hne => exact (h e he).resolve_left hne

lemma OwnHashes.isDigest {es : List LogEntry} (h : OwnHashes sha es) :
    ∀ s ∈ es.map sha.leafHash, IsDigest s := by
  intro s hs
  obtain ⟨e, he, rfl⟩ := List.mem_map.mp hs
  rw [h.leafHash he]
  exact Sha256.isDigest_computeLogHash e

lemma hashed_length {leaves : List Bytes} (h : ∀ b ∈ leaves, b.length = 32) {p : Bytes × Bytes}
    (hp : Hashed sha.node leaves p) : (p.1 ++ p.2).length = 64 := by
  obtain ⟨hm, _, hp⟩ := hp
  have hall := hm.forall_mem (P := fun b => b.length = 32) h fun _ _ => sha.length_digest _
  rw [List.length_append, hall _ (fst_mem_of_mem_pairs hp), hall _ (snd_mem_of_mem_pairs hp)]

/-- On lists of digests the decoding of hexadecimal loses nothing. -/
lemma map_bufferFromHex_injective : ∀ {l l' : List JsString}, (∀ s ∈ l, IsDigest s) →
    (∀ s ∈ l', IsDigest s) → l.map bufferFromHex = l'.map bufferFromHex → l = l'
  | [], [], _, _, _ => rfl
  | s :: l, s' :: l', hl, hl', h => by
    simp only [List.map_cons, List.cons.injEq] at h
    rw [IsDigest.injective (hl s (by simp)) (hl' s' (by simp)) h.1,
      map_bufferFromHex_injective (fun x hx => hl x (by simp [hx]))
        (fun x hx => hl' x (by simp [hx])) h.2]

lemma map_bufferFromHex_nodup {l : List JsString} (hd : ∀ s ∈ l, IsDigest s) (h : l.Nodup) :
    (l.map bufferFromHex).Nodup :=
  (List.nodup_map_iff_inj_on h).mpr fun _ hs _ hs' => IsDigest.injective (hd _ hs) (hd _ hs')

lemma length_bufferFromHex {l : List JsString} (hd : ∀ s ∈ l, IsDigest s) :
    ∀ b ∈ l.map bufferFromHex, b.length = 32 := by
  intro b hb
  obtain ⟨s, hs, rfl⟩ := List.mem_map.mp hb
  exact (hd s hs).length_buffer

lemma nodesHashed_injOn {leaves leaves' : List Bytes} {B : Set Bytes}
    (hinj : Set.InjOn sha.digest B) (h32 : ∀ b ∈ leaves, b.length = 32)
    (h32' : ∀ b ∈ leaves', b.length = 32) (hB : nodesHashed sha leaves ⊆ B)
    (hB' : nodesHashed sha leaves' ⊆ B) :
    Set.InjOn (fun p : Bytes × Bytes => sha.node p.1 p.2)
      {p | Hashed sha.node leaves p ∨ Hashed sha.node leaves' p} := by
  -- both halves are 32 bytes long, so the concatenation determines the pair
  have hmem {p : Bytes × Bytes} (hp : Hashed sha.node leaves p ∨ Hashed sha.node leaves' p) :
      p.1 ++ p.2 ∈ B := by
    rcases hp with hp | hp
    · exact hB ⟨p, hp, rfl⟩
    · exact hB' ⟨p, hp, rfl⟩
  have hfst {p : Bytes × Bytes} (hp : Hashed sha.node leaves p ∨ Hashed sha.node leaves' p) :
      p.1.length = 32 := by
    rcases hp with ⟨hm, _, hp⟩ | ⟨hm, _, hp⟩
    · exact hm.forall_mem (P := fun b => b.length = 32) h32 (fun _ _ => sha.length_digest _) _
        (fst_mem_of_mem_pairs hp)
    · exact hm.forall_mem (P := fun b => b.length = 32) h32' (fun _ _ => sha.length_digest _) _
        (fst_mem_of_mem_pairs hp)
  intro p hp q hq h
  obtain ⟨h1, h2⟩ := List.append_inj (hinj (hmem hp) (hmem hq) h) (by rw [hfst hp, hfst hq])
  exact Prod.ext h1 h2

/-- A canonical text and a pair of nodes do not have the same digest. -/
lemma text_ne_node {B : Set Bytes} (hinj : Set.InjOn sha.digest B) {e : LogEntry}
    (he : utf8 e.toHashableString ∈ B) {leaves : List Bytes} (h32 : ∀ b ∈ leaves, b.length = 32)
    (hB : nodesHashed sha leaves ⊆ B) {p : Bytes × Bytes} (hp : Hashed sha.node leaves p) :
    bufferFromHex (sha.computeLogHash e) ≠ sha.node p.1 p.2 := by
  intro h
  rw [Sha256.computeLogHash, Sha256.sha256, bufferFromHex_toHex] at h
  have hlen := congrArg List.length (hinj he (hB ⟨p, hp, rfl⟩) h)
  rw [hashed_length h32 hp] at hlen
  exact absurd hlen (toHashableString_length e).ne'

/-! ### The rows that are listed -/

section Listing

variable {db : Db} {rows l : List LogRow} {root : JsString} {t : LogRow}

lemma IsListing.mem (h : IsListing db rows root l) {r : LogRow} (hr : r ∈ l) : r ∈ rows := by
  obtain ⟨all, hperm, _, rfl⟩ := h
  have hall : r ∈ all := by
    cases db with
    | postgres => exact hr
    | mongo => exact List.mem_of_mem_take hr
  exact (List.mem_filter.mp (hperm.mem_iff.mp hall)).1

lemma IsListing.hashes_nodup (h : IsListing db rows root l)
    (hrows : (rows.map LogRow.contentHash).Nodup) : (l.map LogRow.contentHash).Nodup := by
  obtain ⟨all, hperm, _, rfl⟩ := h
  have hall : (all.map LogRow.contentHash).Nodup :=
    (hperm.map _).nodup_iff.mpr (hrows.sublist (List.filter_sublist.map _))
  cases db with
  | postgres => exact hall
  | mongo => exact hall.sublist ((List.take_sublist _ _).map _)

/-- A row under the root is listed, unless MongoDB has listed 10000 others. -/
lemma IsListing.mem_or (h : IsListing db rows root l) (ht : t ∈ rows)
    (hroot : t.batchRoot = some root) : t ∈ l ∨ db = .mongo ∧ l.length = 10000 := by
  obtain ⟨all, hperm, _, rfl⟩ := h
  have hall : t ∈ all := hperm.mem_iff.mpr (List.mem_filter.mpr ⟨ht, by simpa using hroot⟩)
  cases db with
  | postgres => exact .inl hall
  | mongo =>
    rcases Nat.lt_or_ge all.length 10000 with hlt | hge
    · exact .inl (by simpa [List.take_of_length_le hlt.le] using hall)
    · exact .inr ⟨rfl, by simpa using hge⟩

end Listing

/-! ### When a change is detected -/

/-- The byte strings hashed to verify row `t` among the rows `siblings`. -/
def verifyHashed (sha : Sha256) (t : LogRow) (siblings : List LogRow) : Set Bytes :=
  t.hashed ∪ nodesHashed sha (rowLeaves siblings)

/-- Whatever becomes of the leaf table, a row that still carries the root of the batch `es` is only
accepted if the hashes listed under the root are those of the batch, in their order. -/
def SiblingChangesDetected (sha : Sha256) (db : Db) (es : List LogEntry) : Prop :=
  ∀ (d : Database) (side : Side) (list : Listing) (t : LogRow),
    LeafTableOk (d.logs (.batched side)) → list.Of db d → t ∈ d.logs (.batched side) →
    t.batchRoot = some (sha.computeBatchHash es) →
    Set.InjOn sha.digest
      (batchHashed sha es ∪ verifyHashed sha t (list side (sha.computeBatchHash es))) →
    (getVerify sha list d t.id).batchedSide = some side →
    (getVerify sha list d t.id).valid = true →
    (list side (sha.computeBatchHash es)).map LogRow.contentHash = es.map sha.leafHash

lemma batchLeaves_eq (es : List LogEntry) :
    batchLeaves sha es = (es.map sha.leafHash).map bufferFromHex := by
  rw [batchLeaves, List.map_map]
  rfl

lemma rowLeaves_eq (rows : List LogRow) :
    rowLeaves rows = (rows.map LogRow.contentHash).map bufferFromHex := by
  rw [rowLeaves, List.map_map]
  rfl

lemma isDigest_computeBatchHash {es : List LogEntry} (h : OwnHashes sha es) :
    IsDigest (sha.computeBatchHash es) :=
  Sha256.isDigest_rootOf (by
    have := length_bufferFromHex h.isDigest
    rwa [← batchLeaves_eq] at this)

theorem siblings_detected_of {db : Db} {es : List LogEntry} (hne : es ≠ [])
    (hown : OwnHashes sha es) (hnodup : (es.map sha.leafHash).Nodup)
    (hcond : db = .postgres ∨ ∀ j, levelSize es.length (j + 1) ≠ 10000) :
    SiblingChangesDetected sha db es := by
  intro d side list t hok hlist ht hroot hinj hside hvalid
  have hlisting := hlist side (sha.computeBatchHash es)
  generalize hl : list side (sha.computeBatchHash es) = l at *
  -- the row is accepted because of its own hash and because of the root over `l`
  obtain ⟨row, hrow, hreply⟩ := getVerify_batched hside
  obtain rfl : row = t := Option.some.inj (hrow.symm.trans (Database.findById_eq hok.ids ht))
  rw [hreply, valid_verifyBatched] at hvalid
  obtain ⟨hcons, hmerkle⟩ := hvalid
  have hsame := hmerkle (sha.computeBatchHash es)
    (root?_eq_some.mpr ⟨hroot, (isDigest_computeBatchHash hown).ne_nil⟩)
  rw [hl] at hsame
  -- two lists of digests without repetitions and with the same root
  have hdl : ∀ s ∈ l.map LogRow.contentHash, IsDigest s := by
    intro s hs
    obtain ⟨r, hr, rfl⟩ := List.mem_map.mp hs
    exact hok.digests r (hlisting.mem hr)
  have h32 := length_bufferFromHex hown.isDigest
  have h32' := length_bufferFromHex hdl
  have hnd := map_bufferFromHex_nodup hown.isDigest hnodup
  have hnd' := map_bufferFromHex_nodup hdl (hlisting.hashes_nodup hok.hashes)
  rw [← batchLeaves_eq] at h32 hnd
  rw [← rowLeaves_eq] at h32' hnd'
  have hBb : nodesHashed sha (batchLeaves sha es) ⊆ batchHashed sha es ∪ verifyHashed sha row l :=
    fun b hb => .inl (.inr hb)
  have hBv : nodesHashed sha (rowLeaves l) ⊆ batchHashed sha es ∪ verifyHashed sha row l :=
    fun b hb => .inr (.inr hb)
  have hlne : rowLeaves l ≠ [] := by
    rcases hlisting.mem_or ht hroot with hmem | ⟨_, hlen⟩
    · exact List.ne_nil_of_mem (List.mem_map_of_mem hmem)
    · intro hnil
      rw [rowLeaves, List.map_eq_nil_iff] at hnil
      simp [hnil] at hlen
  have hbne : batchLeaves sha es ≠ [] := by simpa [batchLeaves] using hne
  have hroots := Sha256.root_eq_of_rootOf_eq hbne hlne (show sha.rootOf (batchLeaves sha es) =
    sha.rootOf (rowLeaves l) from hsame.symm)
  suffices hleaves : rowLeaves l = batchLeaves sha es by
    rw [rowLeaves_eq, batchLeaves_eq] at hleaves
    exact map_bufferFromHex_injective hdl hown.isDigest hleaves
  rcases root_eq_root (nodesHashed_injOn hinj h32 h32' hBb hBv) hnd hnd' hbne hroots with
    habove | habove
  · -- the listed rows are a level of the tree of the batch: the row itself rules out a higher one
    by_contra hdiff
    rcases hlisting.mem_or ht hroot with hmem | ⟨rfl, hlen⟩
    · obtain ⟨e, he, hhash⟩ := consistent_iff.mp hcons
      have hleaf : bufferFromHex row.contentHash ∈ rowLeaves l :=
        List.mem_map.mpr ⟨row, hmem, rfl⟩
      obtain ⟨p, hp, hnode⟩ := habove.mem_of_ne hdiff hleaf
      rw [← hhash] at hnode
      exact text_ne_node hinj (.inr (.inl ⟨e, he, rfl⟩)) h32 hBb hp hnode
    · obtain ⟨j, hj, _⟩ := habove.iterate
      have hsize := congrArg List.length hj
      rw [iterate_level_length, rowLeaves, List.length_map, hlen, batchLeaves,
        List.length_map] at hsize
      cases j with
      | zero => exact hdiff hj
      | succ j => exact (hcond.resolve_left (by decide)) j hsize.symm
  · -- the batch is a level of the tree of the listed rows: its hashes are those of texts
    by_contra hdiff
    obtain ⟨e, he⟩ := List.exists_mem_of_ne_nil es hne
    have hleaf : bufferFromHex (sha.leafHash e) ∈ batchLeaves sha es :=
      List.mem_map.mpr ⟨e, he, rfl⟩
    obtain ⟨p, hp, hnode⟩ := habove.mem_of_ne (Ne.symm hdiff) hleaf
    rw [hown.leafHash he] at hnode
    exact text_ne_node hinj (.inl (.inl ⟨e, he, rfl⟩)) h32' hBv hp hnode

/-! ### A level passed off as the batch -/

/-- The entry of the row that is left outside the 10000 listed ones. -/
def unlistedEntry : LogEntry :=
  LogEntry.create (padDigits 36 10000) .epoch infoLevel (ofString "api")
    (ofString "started") none

/-- A row with the hash `b` at place `i` under `root`. -/
def forgedRow (root : JsString) (b : Bytes) (i : ℕ) : LogRow :=
  { entryRow .mongo { unlistedEntry with id := padDigits 36 i } (toHex b) with
    batchRoot := some root
    leafIndex := some i }

def forgedRows (root : JsString) (bs : List Bytes) : List LogRow :=
  bs.zipIdx.map fun p => forgedRow root p.1 p.2

/-- The digest of the unlisted row. -/
def unlistedHash (sha : Sha256) : Bytes := sha.digest (utf8 unlistedEntry.toHashableString)

lemma forgedRows_hashes (root : JsString) (bs : List Bytes) :
    (forgedRows root bs).map LogRow.contentHash = bs.map toHex := by
  conv_rhs => rw [← List.zipIdx_map_fst 0 bs]
  simp only [forgedRows, List.map_map]
  rfl

lemma forgedRows_ids (root : JsString) (bs : List Bytes) :
    (forgedRows root bs).map LogRow.id = (List.range bs.length).map (padDigits 36) := by
  rw [List.range_eq_range', ← List.zipIdx_map_snd 0 bs]
  simp only [forgedRows, List.map_map]
  rfl

lemma forgedRows_root {root : JsString} {bs : List Bytes} {r : LogRow}
    (h : r ∈ forgedRows root bs) : r.batchRoot = some root := by
  obtain ⟨p, _, rfl⟩ := List.mem_map.mp h
  rfl

lemma forgedRows_sorted (root : JsString) (bs : List Bytes) :
    (forgedRows root bs).Pairwise fun r r' => Db.mongo.leafLe r.leafIndex r'.leafIndex := by
  rw [forgedRows, List.pairwise_map]
  have hlt : (bs.zipIdx.map Prod.snd).Pairwise (· < ·) := by
    rw [List.zipIdx_map_snd]
    exact List.pairwise_lt_range'
  refine (List.pairwise_map.mp hlt).imp fun {p q} h => ?_
  exact Int.ofNat_le.mpr h.le

lemma forgedRows_ok {root : JsString} {bs : List Bytes} (hbs : bs.Nodup)
    (h32 : ∀ b ∈ bs, b.length = 32) (hlen : bs.length ≤ 10001) :
    LeafTableOk (forgedRows root bs) where
  ids := by
    rw [forgedRows_ids]
    refine (List.nodup_map_iff_inj_on List.nodup_range).mpr fun i hi j hj h => ?_
    rw [List.mem_range] at hi hj
    exact padDigits_injective 36 (by omega) (by omega) h
  hashes := by
    rw [forgedRows_hashes]
    exact hbs.map fun _ _ => toHex_injective
  digests r hr := by
    obtain ⟨p, hp, rfl⟩ := List.mem_map.mp hr
    exact ⟨p.1, h32 _ (List.fst_mem_of_mem_zipIdx hp), rfl⟩

/-- The database whose private leaf table holds `rows`. -/
def Database.leaves (rows : List LogRow) : Database :=
  ⟨fun t => if t = .batched .priv then rows else [], fun _ => []⟩

/-- MongoDB's answer for the forged rows. -/
def forgedListing (root : JsString) (rows : List LogRow) : Listing :=
  fun side r => if side = .priv ∧ r = root then rows.take 10000 else []

lemma forgedListing_of (root : JsString) (bs : List Bytes) :
    (forgedListing root (forgedRows root bs)).Of .mongo
      (Database.leaves (forgedRows root bs)) := by
  intro side r
  rw [forgedListing]
  split
  · next h =>
    obtain ⟨rfl, rfl⟩ := h
    refine ⟨forgedRows r bs, ?_, forgedRows_sorted r bs, rfl⟩
    have hall : (forgedRows r bs).filter (fun x => x.batchRoot = some r) = forgedRows r bs :=
      List.filter_eq_self.mpr fun x hx => by simpa using forgedRows_root hx
    simp [Database.leaves, hall]
  · next h =>
    refine ⟨[], ?_, .nil, rfl⟩
    have hnone : ((Database.leaves (forgedRows root bs)).logs (.batched side)).filter
        (fun x => x.batchRoot = some r) = [] := by
      refine List.filter_eq_nil_iff.mpr fun x hx => ?_
      rw [Database.leaves] at hx
      simp only [LogTable.batched.injEq] at hx
      split at hx
      · next hside =>
        rw [forgedRows_root hx]
        simpa using fun hr => h ⟨hside, hr.symm⟩
      · cases hx
    rw [hnone]

lemma forged_find {bs : List Bytes} {root : JsString} {b : Bytes} {i : ℕ}
    (hok : LeafTableOk (forgedRows root bs)) (hmem : forgedRow root b i ∈ forgedRows root bs) :
    (Database.leaves (forgedRows root bs)).findById (.batched .priv) (forgedRow root b i).id =
      some (forgedRow root b i) :=
  Database.findById_eq (by simpa [Database.leaves] using hok.ids)
    (by simpa [Database.leaves] using hmem)

/-- In a database with nothing but private leaves the request is answered from that table. -/
lemma getVerify_leaves {list : Listing} {rows : List LogRow} {id : JsString} {t : LogRow}
    (h : (Database.leaves rows).findById (.batched .priv) id = some t) :
    getVerify sha list (Database.leaves rows) id = verifyBatched sha list .priv t := by
  have hnone (table : LogTable) (ht : table ≠ .batched .priv) :
      (Database.leaves rows).findById table id = none := by
    simp [Database.findById, Database.leaves, ht]
  simp [getVerify, hnone .offchain (by decide), hnone (.anchored .priv) (by decide),
    hnone (.anchored .pub) (by decide), h]

lemma unlisted_hashed (root : JsString) (b : Bytes) :
    (forgedRow root b 10000).hashed = {utf8 unlistedEntry.toHashableString} := by
  have hentry : (forgedRow root b 10000).rebuilt? = some unlistedEntry := by
    have hlevel : intToLevel (levelToInt infoLevel) = infoLevel := by decide
    have htime : dateOf (forgedRow root b 10000).timestamp = some unlistedEntry.timestamp :=
      dateOf_ms unlistedEntry.timestamp
    rw [LogRow.rebuilt?, htime, Option.map_some]
    simp only [LogRow.entryAt, forgedRow, entryRow, unlistedEntry, LogEntry.create, hlevel]
    rfl
  ext x
  simp [LogRow.hashed, hentry]

lemma unlisted_consistent (sha : Sha256) (root : JsString) :
    (forgedRow root (unlistedHash sha) 10000).Consistent sha := by
  have hmem : utf8 unlistedEntry.toHashableString ∈
      (forgedRow root (unlistedHash sha) 10000).hashed := by
    rw [unlisted_hashed]
    rfl
  obtain ⟨e, he, htext⟩ := hmem
  refine consistent_iff.mpr ⟨e, he, ?_⟩
  rw [Sha256.computeLogHash, Sha256.sha256, ← htext]
  rfl

section Forged

variable {root : JsString} {nodes : List Bytes}

/-- The rows listed are those with the nodes. -/
lemma forged_taken (hlen : nodes.length = 10000) :
    ((forgedRows root (nodes ++ [unlistedHash sha])).take 10000).map LogRow.contentHash =
      nodes.map toHex := by
  rw [List.map_take, forgedRows_hashes, List.map_append, List.take_left' (by simp [hlen])]

lemma rowLeaves_taken (hlen : nodes.length = 10000) :
    rowLeaves ((forgedRows root (nodes ++ [unlistedHash sha])).take 10000) = nodes := by
  rw [rowLeaves_eq, forged_taken hlen, List.map_map]
  exact (List.map_congr_left fun b _ => bufferFromHex_toHex b).trans (List.map_id _)

lemma unlisted_mem (hlen : nodes.length = 10000) :
    forgedRow root (unlistedHash sha) 10000 ∈ forgedRows root (nodes ++ [unlistedHash sha]) := by
  refine List.mem_map.mpr ⟨(unlistedHash sha, 10000), ?_, rfl⟩
  rw [List.zipIdx_append]
  simp [hlen]

/-- The row behind the nodes is accepted if these have the root of the batch. -/
lemma forged_accepted (hlen : nodes.length = 10000) (hroot : sha.rootOf nodes = root)
    (hok : LeafTableOk (forgedRows root (nodes ++ [unlistedHash sha]))) :
    (getVerify sha (forgedListing root (forgedRows root (nodes ++ [unlistedHash sha])))
        (Database.leaves (forgedRows root (nodes ++ [unlistedHash sha])))
        (forgedRow root (unlistedHash sha) 10000).id).batchedSide = some .priv ∧
      (getVerify sha (forgedListing root (forgedRows root (nodes ++ [unlistedHash sha])))
        (Database.leaves (forgedRows root (nodes ++ [unlistedHash sha])))
        (forgedRow root (unlistedHash sha) 10000).id).valid = true := by
  have hcons := unlisted_consistent sha root
  rw [getVerify_leaves (forged_find hok (unlisted_mem hlen))]
  refine ⟨?_, valid_verifyBatched.mpr ⟨hcons, fun r hr => ?_⟩⟩
  · rw [LogRow.Consistent] at hcons
    rw [verifyBatched, hcons]
    simp only
    split <;> rfl
  · obtain rfl : root = r := Option.some.inj (root?_eq_some.mp hr).1
    rw [forgedListing, if_pos ⟨rfl, rfl⟩, siblingsRoot]
    exact (congrArg sha.rootOf (rowLeaves_taken hlen)).trans hroot

end Forged

/-- If a level above the leaves has just as many nodes as MongoDB lists, its nodes can be passed off
as the batch. -/
theorem siblings_undetected_of {es : List LogEntry} (hown : OwnHashes sha es)
    (hnodup : (es.map sha.leafHash).Nodup)
    (hinj : Set.InjOn sha.digest (batchHashed sha es ∪ {utf8 unlistedEntry.toHashableString}))
    {j : ℕ} (hj : levelSize es.length (j + 1) = 10000) :
    ¬SiblingChangesDetected sha .mongo es := by
  intro hdet
  have hlen : (batchLeaves sha es).length = es.length := by rw [batchLeaves, List.length_map]
  have habove : Above sha.node (batchLeaves sha es)
      ((level sha.node)^[j + 1] (batchLeaves sha es)) :=
    above_iterate (by rw [hlen, hj]; decide)
  have hsize : ((level sha.node)^[j + 1] (batchLeaves sha es)).length = 10000 := by
    rw [iterate_level_length, hlen, hj]
  generalize (level sha.node)^[j + 1] (batchLeaves sha es) = nodes at habove hsize
  have hlt := levelSize_succ_lt (n := es.length) j (by rw [hj]; decide)
  have hne : nodes ≠ batchLeaves sha es := by
    rintro rfl
    omega
  have h32 := length_bufferFromHex hown.isDigest
  have hnd := map_bufferFromHex_nodup hown.isDigest hnodup
  rw [← batchLeaves_eq] at h32 hnd
  have hBb : nodesHashed sha (batchLeaves sha es) ⊆
      batchHashed sha es ∪ {utf8 unlistedEntry.toHashableString} := fun b hb => .inl (.inr hb)
  have hpairs := nodesHashed_injOn hinj h32 h32 hBb hBb
  simp only [or_self] at hpairs
  have hfresh : unlistedHash sha ∉ nodes := by
    intro hmem
    obtain ⟨p, hp, hnode⟩ := habove.mem_of_ne hne hmem
    refine text_ne_node hinj (.inr rfl) h32 hBb hp ?_
    rw [Sha256.computeLogHash, Sha256.sha256, bufferFromHex_toHex]
    exact hnode
  -- the forged table: the nodes first, the row that is verified behind them
  have hok : LeafTableOk (forgedRows (sha.computeBatchHash es) (nodes ++ [unlistedHash sha])) := by
    refine forgedRows_ok ?_ ?_ (by simp [hsize])
    · refine List.nodup_append.mpr ⟨habove.nodup hpairs hnd, List.nodup_singleton _, ?_⟩
      rintro a ha b hb rfl
      exact hfresh (List.mem_singleton.mp hb ▸ ha)
    · intro b hb
      rcases List.mem_append.mp hb with hb | hb
      · exact habove.forall_mem (P := fun b => b.length = 32) h32
          (fun _ _ => sha.length_digest _) b hb
      · rw [List.mem_singleton.mp hb]
        exact sha.length_digest _
  have hroot : sha.rootOf nodes = sha.computeBatchHash es := by
    have hbne : batchLeaves sha es ≠ [] := by
      rintro hnil
      rw [hnil, List.length_nil] at hlen
      omega
    obtain ⟨r, hr⟩ := Sha256.exists_root sha hbne
    rw [Sha256.rootOf_eq (habove.root_eq.trans hr)]
    exact (Sha256.rootOf_eq hr).symm
  obtain ⟨hside, hvalid⟩ := forged_accepted hsize hroot hok
  have hsame := hdet _ .priv _ _ (by simpa [Database.leaves] using hok) (forgedListing_of _ _)
    (by simpa [Database.leaves] using unlisted_mem hsize) rfl ?_ hside hvalid
  · rw [forgedListing, if_pos ⟨rfl, rfl⟩, forged_taken hsize] at hsame
    have hlengths := congrArg List.length hsame
    simp only [List.length_map, hsize] at hlengths
    omega
  · rw [verifyHashed, unlisted_hashed, forgedListing, if_pos ⟨rfl, rfl⟩, rowLeaves_taken hsize]
    refine hinj.mono ?_
    rintro b (hb | rfl | ⟨p, hp, rfl⟩)
    · exact .inl hb
    · exact .inr rfl
    · exact .inl (.inr ⟨p, habove.hashed hp, rfl⟩)

/-- Changes to the set of siblings of a batch are detected exactly if the database is PostgreSQL or
no level of the tree above the leaves has the 10000 nodes that MongoDB lists. -/
theorem siblings_detected_iff (sha : Sha256) (db : Db) (es : List LogEntry) (hne : es ≠ [])
    (hown : OwnHashes sha es) (hnodup : (es.map sha.leafHash).Nodup)
    (hinj : Set.InjOn sha.digest (batchHashed sha es ∪ {utf8 unlistedEntry.toHashableString})) :
    SiblingChangesDetected sha db es ↔
      db = .postgres ∨ ∀ j, levelSize es.length (j + 1) ≠ 10000 := by
  refine ⟨fun h => ?_, siblings_detected_of hne hown hnodup⟩
  cases db with
  | postgres => exact .inl rfl
  | mongo => exact .inr fun j hj => siblings_undetected_of hown hnodup hinj hj h

/-! ### A batch of 20000 logs -/

/-- The tag of a node is one more than that of its left child. -/
def raise : Bytes → Bytes
  | [] => []
  | b :: bs => (b + 1) :: bs

/-- A digest without collisions in the tree over `texts`: a text is hashed to its place in the list
with the tag 0, a node to the place of its leftmost leaf with the height as the tag. -/
def treeSha (texts : List Bytes) : Sha256 where
  digest d := if d.length = 64 then raise (d.take 32) else 0 :: leBytes 31 (texts.idxOf d)
  length_digest d := by
    split
    · next h =>
      have htake : (d.take 32).length = 32 := by simp [h]
      cases hd : d.take 32 with
      | nil => simp [hd] at htake
      | cons b bs => simpa [raise, hd] using htake
    · simp

lemma raise_iterate (b : UInt8) (bs : Bytes) (k : ℕ) :
    raise^[k] (b :: bs) = (b + UInt8.ofNat k) :: bs := by
  induction k with
  | zero => simp
  | succ k ih =>
    rw [Function.iterate_succ_apply', ih, raise]
    congr 1
    rw [← UInt8.toNat_inj]
    simp only [UInt8.toNat_add, UInt8.toNat_ofNat', UInt8.toNat_one]
    omega

lemma raise_injective : Function.Injective raise := by
  intro l l' h
  cases l with
  | nil => cases l' with
    | nil => rfl
    | cons b bs => cases h
  | cons b bs => cases l' with
    | nil => cases h
    | cons b' bs' =>
      obtain ⟨h1, h2⟩ := List.cons.inj h
      rw [h2, (UInt8.add_left_inj 1).mp h1]

section treeSha

variable {texts : List Bytes}

lemma treeSha_node (texts : List Bytes) {a b : Bytes} (ha : a.length = 32) (hb : b.length = 32) :
    (treeSha texts).node a b = raise a := by
  simp only [Sha256.node, treeSha]
  rw [if_pos (by simp [ha, hb]), List.take_left' ha]

/-- Each level consists of raised leaves, each of them at most once. -/
lemma level_treeSha (texts : List Bytes) {l : List Bytes} (h32 : ∀ b ∈ l, b.length = 32) (k : ℕ) :
    ∃ l' : List Bytes, l'.Sublist l ∧ (level (treeSha texts).node)^[k] l = l'.map raise^[k] := by
  have hlen (j : ℕ) : ∀ b ∈ (level (treeSha texts).node)^[j] l, b.length = 32 := by
    induction j with
    | zero => exact h32
    | succ j ih =>
      rw [Function.iterate_succ_apply']
      intro b hb
      obtain ⟨p, _, rfl⟩ := List.mem_map.mp hb
      exact (treeSha texts).length_digest _
  induction k with
  | zero => exact ⟨l, .refl _, by simp⟩
  | succ k ih =>
    obtain ⟨l', hsub, hl'⟩ := ih
    obtain ⟨l'', hsub', hl''⟩ := List.sublist_map_iff.mp (fst_pairs_sublist (l'.map raise^[k]))
    refine ⟨l'', hsub'.trans hsub, ?_⟩
    have hnode : ∀ p ∈ pairs (l'.map raise^[k]), (treeSha texts).node p.1 p.2 = raise p.1 := by
      rw [← hl']
      exact fun p hp => treeSha_node texts (hlen k _ (fst_mem_of_mem_pairs hp))
        (hlen k _ (snd_mem_of_mem_pairs hp))
    have hmap : (pairs (l'.map raise^[k])).map (fun p => raise p.1) =
        ((pairs (l'.map raise^[k])).map Prod.fst).map raise := by
      rw [List.map_map]
      rfl
    rw [Function.iterate_succ_apply', hl', level, List.map_congr_left hnode, hmap, hl'',
      List.map_map, ← Function.iterate_succ']

variable (hlen : ∀ t ∈ texts, t.length ≠ 64)

include hlen in
lemma treeSha_text {t : Bytes} (ht : t ∈ texts) :
    (treeSha texts).digest t = 0 :: leBytes 31 (texts.idxOf t) := by
  simp only [treeSha]
  rw [if_neg (hlen t ht)]

include hlen in
/-- What is hashed to a node: the tag tells the height and the rest the leftmost leaf. -/
lemma treeSha_hashed {p : Bytes × Bytes}
    (hp : Hashed (treeSha texts).node (texts.map (treeSha texts).digest) p) :
    ∃ (k : ℕ) (t : Bytes), t ∈ texts ∧ 1 < levelSize texts.length k ∧
      p ∈ pairs ((level (treeSha texts).node)^[k] (texts.map (treeSha texts).digest)) ∧
      p.1 = UInt8.ofNat k :: leBytes 31 (texts.idxOf t) ∧
      (treeSha texts).digest (p.1 ++ p.2) =
        UInt8.ofNat (k + 1) :: leBytes 31 (texts.idxOf t) := by
  have h32 : ∀ b ∈ texts.map (treeSha texts).digest, b.length = 32 := by
    intro b hb
    obtain ⟨t, _, rfl⟩ := List.mem_map.mp hb
    exact (treeSha texts).length_digest t
  have h64 := hashed_length h32 hp
  obtain ⟨hm, hone, hp⟩ := hp
  obtain ⟨k, rfl, _⟩ := hm.iterate
  rw [iterate_level_length, List.length_map] at hone
  obtain ⟨l', hsub, hl'⟩ := level_treeSha texts h32 k
  have hfst := fst_mem_of_mem_pairs hp
  rw [hl'] at hfst
  obtain ⟨b, hb, hbp⟩ := List.mem_map.mp hfst
  obtain ⟨t, ht, rfl⟩ := List.mem_map.mp (hsub.subset hb)
  rw [treeSha_text hlen ht, raise_iterate, UInt8.zero_add] at hbp
  refine ⟨k, t, ht, hone, hp, hbp.symm, ?_⟩
  have h1 : p.1.length = 32 := by rw [← hbp]; simp
  have h2 : p.2.length = 32 := by
    rw [List.length_append] at h64
    omega
  have hnode := treeSha_node texts h1 h2
  rw [Sha256.node] at hnode
  rw [hnode, ← hbp, raise, UInt8.ofNat_add]
  rfl

include hlen in
theorem treeSha_injOn (hnd : texts.Nodup) (hcount : texts.length < 256 ^ 31)
    (hheight : ∀ k, 1 < levelSize texts.length k → k < 255) :
    Set.InjOn (treeSha texts).digest
      ({b | b ∈ texts} ∪ nodesHashed (treeSha texts) (texts.map (treeSha texts).digest)) := by
  have hidx {t t' : Bytes} (ht : t ∈ texts) (ht' : t' ∈ texts)
      (h : leBytes 31 (texts.idxOf t) = leBytes 31 (texts.idxOf t')) : t = t' := by
    have hlt := List.idxOf_lt_length_iff.mpr ht
    have hlt' := List.idxOf_lt_length_iff.mpr ht'
    exact (List.idxOf_inj ht).mp (leBytes_injective 31 (by omega) (by omega) h)
  have htag (k k' : ℕ) (hk : k < 256) (hk' : k' < 256)
      (h : UInt8.ofNat k = UInt8.ofNat k') : k = k' := by
    have := congrArg UInt8.toNat h
    simp only [UInt8.toNat_ofNat'] at this
    omega
  have hdigests : (texts.map (treeSha texts).digest).Nodup := by
    refine (List.nodup_map_iff_inj_on hnd).mpr fun t ht t' ht' h => hidx ht ht' ?_
    rw [treeSha_text hlen ht, treeSha_text hlen ht'] at h
    exact (List.cons.inj h).2
  rintro b (hb | ⟨p, hp, rfl⟩) b' (hb' | ⟨q, hq, rfl⟩) h
  · rw [treeSha_text hlen hb, treeSha_text hlen hb'] at h
    exact hidx hb hb' (List.cons.inj h).2
  · obtain ⟨k, t, _, hk, _, _, hq'⟩ := treeSha_hashed hlen hq
    rw [treeSha_text hlen hb, hq'] at h
    have hlt := hheight k hk
    exact absurd (htag 0 _ (by omega) (by omega) (List.cons.inj h).1) (by omega)
  · obtain ⟨k, t, _, hk, _, _, hp'⟩ := treeSha_hashed hlen hp
    rw [treeSha_text hlen hb', hp'] at h
    have hlt := hheight k hk
    exact absurd (htag _ 0 (by omega) (by omega) (List.cons.inj h).1) (by omega)
  · obtain ⟨k, t, ht, hk, hpm, hp1, hp'⟩ := treeSha_hashed hlen hp
    obtain ⟨k', t', ht', hk', hqm, hq1, hq'⟩ := treeSha_hashed hlen hq
    rw [hp', hq'] at h
    have hlt := hheight k hk
    have hlt' := hheight k' hk'
    have hkk := htag (k + 1) (k' + 1) (by omega) (by omega) (List.cons.inj h).1
    obtain rfl : k = k' := by omega
    obtain rfl := hidx ht ht' (List.cons.inj h).2
    -- the same left half in the same level
    have h32 : ∀ b ∈ texts.map (treeSha texts).digest, b.length = 32 := by
      intro b hb
      obtain ⟨t, _, rfl⟩ := List.mem_map.mp hb
      exact (treeSha texts).length_digest t
    obtain ⟨l', hsub, hl'⟩ := level_treeSha texts h32 k
    have hlevel : ((level (treeSha texts).node)^[k] (texts.map (treeSha texts).digest)).Nodup := by
      rw [hl']
      exact (hdigests.sublist hsub).map (raise_injective.iterate k)
    have hpq := List.inj_on_of_nodup_map (hlevel.sublist (fst_pairs_sublist _)) hpm hqm
      (hp1.trans hq1.symm)
    rw [hpq]

end treeSha

/-- Entries that differ in their ids, which are numbers from `a` on. -/
def paddedBatch (a n : ℕ) : List LogEntry :=
  (List.range' a n).map fun i => { unlistedEntry with id := padDigits 36 i }

def paddedTexts (a n : ℕ) : List Bytes := (paddedBatch a n).map fun e => utf8 e.toHashableString

section PaddedBatch

variable {a n : ℕ}

lemma dataHash_paddedBatch {e : LogEntry} (h : e ∈ paddedBatch a n) : e.dataHash = [] := by
  obtain ⟨i, _, rfl⟩ := List.mem_map.mp h
  rfl

lemma ownHashes_paddedBatch (sha : Sha256) (a n : ℕ) : OwnHashes sha (paddedBatch a n) :=
  fun _ he => .inl (dataHash_paddedBatch he)

lemma unlistedEntry_mem (h : a ≤ 10000) (h' : 10000 < a + n) : unlistedEntry ∈ paddedBatch a n :=
  List.mem_map.mpr ⟨10000, List.mem_range'_1.mpr ⟨h, h'⟩, rfl⟩

lemma paddedBatch_length : (paddedBatch a n).length = n := by
  rw [paddedBatch, List.length_map, List.length_range']

lemma paddedTexts_length : (paddedTexts a n).length = n := by
  rw [paddedTexts, List.length_map, paddedBatch_length]

lemma paddedTexts_nodup (h : a + n ≤ 10 ^ 36) : (paddedTexts a n).Nodup := by
  rw [paddedTexts, paddedBatch, List.map_map]
  refine (List.nodup_map_iff_inj_on List.nodup_range').mpr fun i hi j hj heq => ?_
  rw [List.mem_range'_1] at hi hj
  exact padDigits_injective 36 (by omega) (by omega) (toHashableString_eq_iff.mp heq).1

lemma paddedTexts_ne (t : Bytes) (h : t ∈ paddedTexts a n) : t.length ≠ 64 := by
  obtain ⟨e, _, rfl⟩ := List.mem_map.mp h
  exact (toHashableString_length e).ne'

lemma leafHash_paddedBatch {sha : Sha256} {e : LogEntry} (h : e ∈ paddedBatch a n) :
    sha.leafHash e = toHex (sha.digest (utf8 e.toHashableString)) := by
  rw [Sha256.leafHash, if_pos (dataHash_paddedBatch h)]
  rfl

lemma paddedBatch_leaves (sha : Sha256) :
    batchLeaves sha (paddedBatch a n) = (paddedTexts a n).map sha.digest := by
  rw [batchLeaves, paddedTexts, List.map_map]
  refine List.map_congr_left fun e he => ?_
  rw [leafHash_paddedBatch he, bufferFromHex_toHex]
  rfl

/-- A tree over these texts has no collisions in it if it is low enough. -/
lemma paddedBatch_injOn (hn : 0 < n) (hcount : a + n ≤ 10 ^ 36) (hheight : levelSize n 15 = 1) :
    Set.InjOn (treeSha (paddedTexts a n)).digest
      (batchHashed (treeSha (paddedTexts a n)) (paddedBatch a n)) := by
  have hlow (k : ℕ) (h : 1 < levelSize (paddedTexts a n).length k) : k < 255 := by
    by_contra hge
    rw [paddedTexts_length] at h
    have hle := (levelSize_le n (show 15 ≤ k by omega) hn).2
    omega
  refine (treeSha_injOn paddedTexts_ne (paddedTexts_nodup hcount) ?_ hlow).mono ?_
  · rw [paddedTexts_length]
    omega
  · rw [batchHashed, paddedBatch_leaves]
    rintro b (⟨e, he, rfl⟩ | hb)
    · exact .inl (List.mem_map.mpr ⟨e, he, rfl⟩)
    · exact .inr hb

lemma paddedBatch_hashes_nodup (hcount : a + n ≤ 10 ^ 36)
    (hinj : Set.InjOn (treeSha (paddedTexts a n)).digest
      (batchHashed (treeSha (paddedTexts a n)) (paddedBatch a n))) :
    ((paddedBatch a n).map (treeSha (paddedTexts a n)).leafHash).Nodup := by
  have hmap : (paddedBatch a n).map (treeSha (paddedTexts a n)).leafHash =
      ((paddedTexts a n).map (treeSha (paddedTexts a n)).digest).map toHex := by
    rw [paddedTexts, List.map_map, List.map_map]
    exact List.map_congr_left fun e he => leafHash_paddedBatch he
  rw [hmap]
  refine List.Nodup.map (fun _ _ => toHex_injective) ?_
  refine (List.nodup_map_iff_inj_on (paddedTexts_nodup hcount)).mpr fun t ht t' ht' heq => ?_
  obtain ⟨e, he, rfl⟩ := List.mem_map.mp ht
  obtain ⟨e', he', rfl⟩ := List.mem_map.mp ht'
  exact hinj (.inl ⟨e, he, rfl⟩) (.inl ⟨e', he', rfl⟩) heq

/-- The text of a log of the batch is hashed to write it. -/
lemma batchHashed_union {sha : Sha256} (h : a ≤ 10000) (h' : 10000 < a + n) :
    batchHashed sha (paddedBatch a n) ∪ {utf8 unlistedEntry.toHashableString} ⊆
      batchHashed sha (paddedBatch a n) := by
  rintro b (hb | rfl)
  · exact hb
  · exact .inl ⟨_, unlistedEntry_mem h h', rfl⟩

end PaddedBatch

/-- On MongoDB the second level of the tree over 20000 logs can be passed off as the batch. -/
theorem large_batch_undetected :
    ¬∀ (sha : Sha256) (db : Db) (es : List LogEntry), es ≠ [] → OwnHashes sha es →
      (es.map sha.leafHash).Nodup → Set.InjOn sha.digest (batchHashed sha es) →
      SiblingChangesDetected sha db es := by
  intro h
  have hinj := paddedBatch_injOn (a := 0) (n := 20000) (by decide) (by decide) (by decide)
  have hown := ownHashes_paddedBatch (treeSha (paddedTexts 0 20000)) 0 20000
  have hnodup := paddedBatch_hashes_nodup (by decide) hinj
  have hunlisted : unlistedEntry ∈ paddedBatch 0 20000 := unlistedEntry_mem (by decide) (by decide)
  refine siblings_undetected_of hown hnodup ?_ (j := 0) ?_
    (h _ .mongo _ (List.ne_nil_of_mem hunlisted) hown hnodup hinj)
  · exact hinj.mono (batchHashed_union (by decide) (by decide))
  · rw [paddedBatch_length]
    decide

/-- A batch of three logs. -/
theorem three_leaves_detected :
    SiblingChangesDetected (treeSha (paddedTexts 9999 3)) .mongo (paddedBatch 9999 3) ↔
      Db.mongo = .postgres ∨ ∀ j, levelSize (paddedBatch 9999 3).length (j + 1) ≠ 10000 := by
  have hinj := paddedBatch_injOn (a := 9999) (n := 3) (by decide) (by decide) (by decide)
  refine siblings_detected_iff _ .mongo _ (List.cons_ne_nil _ _) (ownHashes_paddedBatch _ _ _) ?_ ?_
  · exact paddedBatch_hashes_nodup (by decide) hinj
  · exact hinj.mono (batchHashed_union (by decide) (by decide))

end HybridLog
