import HybridLog.Merkle.Completion
import HybridLog.Verify.Siblings

/-!
# What the root of a batch determines

`computeBatchHash` repeats the last node of every odd level, so lists that differ in repeated hashes
at their end share a root. The specification in `BatchStore.sol` builds the same tree, but over the
digests of the content hashes.
-/

namespace HybridLog

open Js Merkle

/-! ### The specification -/

namespace BatchStore

/-- A leaf node is `SHA256(contentHash)`. -/
def leafNode (sha : Sha256) (contentHash : Bytes) : Bytes := sha.digest contentHash

/-- The root of the tree over the leaf nodes. -/
def merkleRoot (sha : Sha256) (contentHashes : List Bytes) : Option Bytes :=
  treeRoot sha.node (height contentHashes.length) (contentHashes.map (leafNode sha))

end BatchStore

/-! ### Content hashes of a batch -/

/-- Every entry carries no hash or a digest. -/
def DigestHashes (es : List LogEntry) : Prop := ∀ e ∈ es, e.dataHash = [] ∨ IsDigest e.dataHash

instance (s : JsString) : Decidable (IsDigest s) :=
  decidable_of_iff ((bufferFromHex s).length = 32 ∧ s = toHex (bufferFromHex s))
    ⟨fun h => ⟨_, h⟩, fun h => ⟨h.length_buffer, h.toHex_bufferFromHex.symm⟩⟩

instance (es : List LogEntry) : Decidable (DigestHashes es) :=
  inferInstanceAs (Decidable (∀ e ∈ es, e.dataHash = [] ∨ IsDigest e.dataHash))

variable {sha : Sha256} {es es' : List LogEntry}

lemma DigestHashes.isDigest (h : DigestHashes es) : ∀ s ∈ es.map sha.leafHash, IsDigest s := by
  intro s hs
  obtain ⟨e, he, rfl⟩ := List.mem_map.mp hs
  rw [Sha256.leafHash]
  split
  · exact Sha256.isDigest_computeLogHash e
  · next hne => exact (h e he).resolve_left hne

lemma batchLeaves_eq_map (sha : Sha256) (es : List LogEntry) :
    batchLeaves sha es = (es.map sha.leafHash).map bufferFromHex := by
  rw [List.map_map]
  rfl

lemma DigestHashes.length_leaves (h : DigestHashes es) : ∀ b ∈ batchLeaves sha es, b.length = 32 := by
  rw [batchLeaves_eq_map]
  exact length_bufferFromHex h.isDigest

lemma batchLeaves_ne_nil (h : es ≠ []) : batchLeaves sha es ≠ [] := by
  rw [batchLeaves]
  exact fun hnil => h (List.map_eq_nil_iff.mp hnil)

lemma computeBatchHash_eq_iff (h : es ≠ []) (h' : es' ≠ []) :
    sha.computeBatchHash es = sha.computeBatchHash es' ↔
      root sha.node (batchLeaves sha es) = root sha.node (batchLeaves sha es') := by
  refine ⟨Sha256.root_eq_of_rootOf_eq (batchLeaves_ne_nil h) (batchLeaves_ne_nil h'), fun heq => ?_⟩
  obtain ⟨r, hr⟩ := @Sha256.exists_root sha _ (batchLeaves_ne_nil h)
  have hr' := heq ▸ hr
  exact (Sha256.rootOf_eq hr).trans (Sha256.rootOf_eq hr').symm

/-! ### Batches with one root -/

/-- The strings hashed to nodes over either batch. -/
def pairsHashed (sha : Sha256) (es es' : List LogEntry) : Set Bytes :=
  nodesHashed sha (batchLeaves sha es) ∪ nodesHashed sha (batchLeaves sha es')

/-- No content hash of the two batches is a node over either of them. -/
def LeavesApart (sha : Sha256) (es es' : List LogEntry) : Prop :=
  ∀ b ∈ batchLeaves sha es ++ batchLeaves sha es', ∀ d ∈ pairsHashed sha es es', b ≠ sha.digest d

/-- The content hashes with the repetitions the tree makes. -/
def completedHashes (sha : Sha256) (es : List LogEntry) : List JsString :=
  complete (es.map sha.leafHash)

lemma completedHashes_eq_iff (h : DigestHashes es) (h' : DigestHashes es') :
    complete (batchLeaves sha es) = complete (batchLeaves sha es') ↔
      completedHashes sha es = completedHashes sha es' := by
  have hmem {l : List JsString} (hl : ∀ s ∈ l, IsDigest s) : ∀ s ∈ complete l, IsDigest s :=
    fun s hs => hl s (mem_of_mem_complete l s hs)
  rw [batchLeaves_eq_map, batchLeaves_eq_map, complete_map bufferFromHex (es.map sha.leafHash),
    complete_map bufferFromHex (es'.map sha.leafHash), completedHashes, completedHashes]
  exact ⟨map_bufferFromHex_injective (hmem h.isDigest) (hmem h'.isDigest), fun heq => by rw [heq]⟩

/-- Batches of one size with the same root have the same content hashes. -/
lemma hashes_eq_of_root_eq (hne : es ≠ []) (hne' : es' ≠ []) (h : DigestHashes es)
    (h' : DigestHashes es') (hinj : Set.InjOn sha.digest (pairsHashed sha es es'))
    (hlen : es.length = es'.length) (hroot : sha.computeBatchHash es = sha.computeBatchHash es') :
    es.map sha.leafHash = es'.map sha.leafHash := by
  have hpairs := nodesHashed_injOn hinj h.length_leaves h'.length_leaves
    Set.subset_union_left Set.subset_union_right
  rw [computeBatchHash_eq_iff hne hne'] at hroot
  have hleaves : batchLeaves sha es = batchLeaves sha es' := by
    refine eq_of_root_eq (batchLeaves sha es) ?_ hpairs hroot
    rw [batchLeaves, batchLeaves, List.length_map, List.length_map, hlen]
  rw [batchLeaves_eq_map, batchLeaves_eq_map] at hleaves
  exact map_bufferFromHex_injective h.isDigest h'.isDigest hleaves

/-- Where no leaf is an inner node, batches with the same root have the same content hashes up to
the repetitions of the tree. -/
lemma root_eq_iff_completedHashes_eq (hne : es ≠ []) (hne' : es' ≠ []) (h : DigestHashes es)
    (h' : DigestHashes es') (hinj : Set.InjOn sha.digest (pairsHashed sha es es'))
    (hapart : LeavesApart sha es es') :
    sha.computeBatchHash es = sha.computeBatchHash es' ↔
      completedHashes sha es = completedHashes sha es' := by
  have hpairs := nodesHashed_injOn hinj h.length_leaves h'.length_leaves
    Set.subset_union_left Set.subset_union_right
  rw [computeBatchHash_eq_iff hne hne', ← completedHashes_eq_iff h h']
  refine root_eq_iff_complete_eq hpairs (batchLeaves_ne_nil hne) (batchLeaves_ne_nil hne') ?_ ?_
  · exact fun p hp hmem => hapart _ (List.mem_append_right _ hmem) _ (.inl ⟨p, hp, rfl⟩) rfl
  · exact fun p hp hmem => hapart _ (List.mem_append_left _ hmem) _ (.inr ⟨p, hp, rfl⟩) rfl

/-- The root of a batch of a given size determines its content hashes. Batches of any sizes share
their root if their content hashes agree up to the repetitions of the tree, and only then, if no
leaf is an inner node; so there the root determines a batch without repetitions. -/
theorem batch_root_binds (hne : es ≠ []) (hne' : es' ≠ []) (h : DigestHashes es)
    (h' : DigestHashes es') (hinj : Set.InjOn sha.digest (pairsHashed sha es es')) :
    (sha.computeBatchHash es = sha.computeBatchHash es' → es.length = es'.length →
        es.map sha.leafHash = es'.map sha.leafHash) ∧
      (completedHashes sha es = completedHashes sha es' →
        sha.computeBatchHash es = sha.computeBatchHash es') ∧
      (LeavesApart sha es es' → sha.computeBatchHash es = sha.computeBatchHash es' →
        completedHashes sha es = completedHashes sha es' ∧
          ((es.map sha.leafHash).Nodup → (es'.map sha.leafHash).Nodup →
            es.map sha.leafHash = es'.map sha.leafHash)) := by
  refine ⟨fun hroot hlen => hashes_eq_of_root_eq hne hne' h h' hinj hlen hroot, fun heq => ?_,
    fun hapart hroot => ?_⟩
  · rw [computeBatchHash_eq_iff hne hne']
    exact root_eq_of_complete_eq _ ((completedHashes_eq_iff h h').mpr heq)
  · have hcomplete := (root_eq_iff_completedHashes_eq hne hne' h h' hinj hapart).mp hroot
    exact ⟨hcomplete, fun hnd hnd' => eq_of_complete_eq_of_nodup _ hnd hnd' hcomplete⟩

/-! ### Batches of one and two logs -/

lemma nodesHashed_one (sha : Sha256) (a : Bytes) {B : Set Bytes} : nodesHashed sha [a] ⊆ B := by
  rintro b ⟨p, ⟨hm, hone, _⟩, rfl⟩
  exact absurd (hm.length_le.trans (le_refl 1)) (by omega)

/-- Two leaves are hashed together. -/
lemma nodesHashed_two (sha : Sha256) (a b : Bytes) : nodesHashed sha [a, b] ⊆ {a ++ b} := by
  rintro c ⟨p, ⟨hm, hone, hp⟩, rfl⟩
  cases hm with
  | refl =>
    cases List.mem_singleton.mp hp
    rfl
  | up _ hm =>
    have hle := hm.length_le
    simp only [level_length, List.length_cons, List.length_nil] at hle
    omega

/-! ### A repeated hash -/

/-- An entry with the content hash `b`. -/
def markedEntry (b : Bytes) : LogEntry := { unlistedEntry with dataHash := toHex b }

def markTexts : List Bytes := [[], [1], [2]]

def markSha : Sha256 := treeSha markTexts

/-- Three hashes. -/
def markedBatch : List LogEntry := (markTexts.map markSha.digest).map markedEntry

/-- The same hashes with the last one repeated. -/
def repeatedBatch : List LogEntry := markedBatch ++ [markedEntry (markSha.digest [2])]

lemma markedBatch_leaves : batchLeaves markSha markedBatch = markTexts.map markSha.digest := by
  decide

lemma repeatedBatch_level :
    pairs (batchLeaves markSha repeatedBatch) = pairs (batchLeaves markSha markedBatch) := by
  decide

/-- The same strings are hashed over both batches. -/
lemma repeatedBatch_hashed : nodesHashed markSha (batchLeaves markSha repeatedBatch) ⊆
    nodesHashed markSha (batchLeaves markSha markedBatch) := by
  rintro b ⟨p, ⟨hm, hone, hp⟩, rfl⟩
  refine ⟨p, ?_, rfl⟩
  have hlen : 1 < (batchLeaves markSha markedBatch).length := by decide
  cases hm with
  | refl => exact ⟨.refl _, hlen, repeatedBatch_level ▸ hp⟩
  | up _ hm =>
    rw [level, repeatedBatch_level, ← level] at hm
    exact ⟨.up hlen hm, hone, hp⟩

lemma pairsHashed_marked :
    pairsHashed markSha markedBatch repeatedBatch ⊆
      nodesHashed markSha (markTexts.map markSha.digest) := by
  rw [← markedBatch_leaves]
  exact Set.union_subset Set.Subset.rfl repeatedBatch_hashed

lemma markTexts_levels {k : ℕ} (h : 1 < levelSize markTexts.length k) : k < 2 := by
  by_contra hge
  have hle := (levelSize_le 3 (show 2 ≤ k by omega) (by decide)).2
  have htwo : levelSize 3 2 = 1 := by decide
  have hthree : levelSize 3 k = levelSize markTexts.length k := rfl
  omega

lemma pairsHashed_injOn :
    Set.InjOn markSha.digest (pairsHashed markSha markedBatch repeatedBatch) :=
  (@treeSha_injOn markTexts (by decide) (by decide) (by decide)
    fun k h => (markTexts_levels h).trans (by decide)).mono
      (pairsHashed_marked.trans Set.subset_union_right)

/-- The hashes of the texts carry the tag 0, those of the pairs another one. -/
lemma leavesApart_marked : LeavesApart markSha markedBatch repeatedBatch := by
  intro b hb d hd heq
  obtain ⟨p, hp, rfl⟩ := pairsHashed_marked hd
  obtain ⟨k, t, _, hk, _, _, hdigest⟩ := @treeSha_hashed markTexts (by decide) _ hp
  have hk2 := markTexts_levels hk
  have hhead : b.head? = some 0 := by
    have hall : ∀ b ∈ batchLeaves markSha markedBatch ++ batchLeaves markSha repeatedBatch,
        b.head? = some 0 := by decide
    exact hall b hb
  rw [heq, markSha, hdigest, List.head?_cons, Option.some.injEq] at hhead
  match k, hk2 with
  | 0, _ => exact absurd hhead (by decide)
  | 1, _ => exact absurd hhead (by decide)

/-- Two batches with one root. -/
theorem marked_batches_bind :
    markSha.computeBatchHash markedBatch = markSha.computeBatchHash repeatedBatch ∧
      completedHashes markSha markedBatch = completedHashes markSha repeatedBatch := by
  have hroot : markSha.computeBatchHash markedBatch = markSha.computeBatchHash repeatedBatch := by
    decide
  have hbind := batch_root_binds (by decide) (by decide) (by decide) (by decide) pairsHashed_injOn
  exact ⟨hroot, (hbind.2.2 leavesApart_marked hroot).1⟩

/-- The root does not show whether the last hash of an odd batch is repeated. -/
theorem repeated_hash_same_root :
    ¬∀ (sha : Sha256) (es es' : List LogEntry), es ≠ [] → es' ≠ [] → DigestHashes es →
      DigestHashes es' → Set.InjOn sha.digest (pairsHashed sha es es') →
      sha.computeBatchHash es = sha.computeBatchHash es' →
      es.map sha.leafHash = es'.map sha.leafHash := by
  intro h
  have hsame := h markSha markedBatch repeatedBatch (by decide) (by decide) (by decide) (by decide)
    pairsHashed_injOn (by decide)
  exact absurd (congrArg List.length hsame) (by decide)

/-! ### A leaf that is a node -/

/-- Two hashes. -/
def pairBatch : List LogEntry := ([[], [1]].map markSha.digest).map markedEntry

/-- A batch of one log, whose hash is the node over the two. -/
def nodeBatch : List LogEntry :=
  [markedEntry (markSha.node (markSha.digest []) (markSha.digest [1]))]

lemma pairBatch_leaves : batchLeaves markSha pairBatch = [markSha.digest [], markSha.digest [1]] := by
  decide

lemma pairsHashed_nodeBatch : pairsHashed markSha pairBatch nodeBatch ⊆
    {markSha.digest [] ++ markSha.digest [1]} := by
  rw [pairsHashed, pairBatch_leaves]
  exact Set.union_subset (nodesHashed_two _ _ _) (nodesHashed_one _ _)

/-- Nor does the root show, between batches without repetitions, whether a leaf is a node over
others: their sizes have to agree, or leaves and nodes have to be told apart. -/
theorem inner_node_same_root :
    ¬∀ (sha : Sha256) (es es' : List LogEntry), es ≠ [] → es' ≠ [] → DigestHashes es →
      DigestHashes es' → Set.InjOn sha.digest (pairsHashed sha es es') →
      (es.map sha.leafHash).Nodup → (es'.map sha.leafHash).Nodup →
      sha.computeBatchHash es = sha.computeBatchHash es' →
      es.map sha.leafHash = es'.map sha.leafHash := by
  intro h
  have hinj : Set.InjOn markSha.digest (pairsHashed markSha pairBatch nodeBatch) :=
    (Set.injOn_singleton _ _).mono pairsHashed_nodeBatch
  have hsame := h markSha pairBatch nodeBatch (by decide) (by decide) (by decide) (by decide) hinj
    (by decide) (by decide) (by decide)
  exact absurd (congrArg List.length hsame) (by decide)

/-! ### The root of the specification -/

/-- The root the specification gives for the content hashes of a batch. -/
def specifiedRoot (sha : Sha256) (es : List LogEntry) : Option JsString :=
  (BatchStore.merkleRoot sha (batchLeaves sha es)).map toHex

lemma specifiedRoot_eq (sha : Sha256) (es : List LogEntry) :
    specifiedRoot sha es = (root sha.node ((batchLeaves sha es).map sha.digest)).map toHex := by
  rw [specifiedRoot, BatchStore.merkleRoot, root_eq_treeRoot, List.length_map]
  rfl

/-- The loop computes the root of the tree over the content hashes. -/
lemma computeBatchHash_eq_treeRoot (hne : es ≠ []) :
    (treeRoot sha.node (height es.length) (batchLeaves sha es)).map toHex =
      some (sha.computeBatchHash es) := by
  obtain ⟨r, hr⟩ := @Sha256.exists_root sha _ (batchLeaves_ne_nil hne)
  have htree : root sha.node (batchLeaves sha es) =
      treeRoot sha.node (height (batchLeaves sha es).length) (batchLeaves sha es) :=
    root_eq_treeRoot _
  rw [batchLeaves, List.length_map, ← batchLeaves, hr] at htree
  rw [← htree, Sha256.computeBatchHash, ← batchLeaves, Sha256.rootOf_eq hr]
  rfl

/-- The writers anchor the root of the tree over the content hashes themselves. It is the root of
the specification exactly if every content hash is its own digest. -/
theorem batch_root_specified_iff (hne : es ≠ []) (h : DigestHashes es) :
    (treeRoot sha.node (height es.length) (batchLeaves sha es)).map toHex =
        some (sha.computeBatchHash es) ∧
      (Set.InjOn sha.digest (nodesHashed sha (batchLeaves sha es) ∪
          nodesHashed sha ((batchLeaves sha es).map sha.digest)) →
        (specifiedRoot sha es = some (sha.computeBatchHash es) ↔
          ∀ e ∈ es, sha.digest (bufferFromHex (sha.leafHash e)) =
            bufferFromHex (sha.leafHash e))) := by
  refine ⟨computeBatchHash_eq_treeRoot hne, fun hinj => ?_⟩
  have h32 : ∀ b ∈ (batchLeaves sha es).map sha.digest, b.length = 32 := by
    intro b hb
    obtain ⟨c, _, rfl⟩ := List.mem_map.mp hb
    exact sha.length_digest c
  obtain ⟨r, hr⟩ := @Sha256.exists_root sha _ (batchLeaves_ne_nil hne)
  have hfixed : (batchLeaves sha es).map sha.digest = batchLeaves sha es ↔
      ∀ e ∈ es, sha.digest (bufferFromHex (sha.leafHash e)) = bufferFromHex (sha.leafHash e) := by
    rw [batchLeaves, List.map_map, List.map_inj_left]
    rfl
  rw [← hfixed, specifiedRoot_eq, Sha256.computeBatchHash, ← batchLeaves, Sha256.rootOf_eq hr]
  refine ⟨fun heq => ?_, fun heq => by rw [heq, hr, Option.map_some]⟩
  obtain ⟨r', hr', hhex⟩ := Option.map_eq_some_iff.mp heq
  refine (@eq_of_root_eq _ sha.node _ _ (by rw [List.length_map]) ?_ ?_).symm
  · exact nodesHashed_injOn hinj h.length_leaves h32 Set.subset_union_left Set.subset_union_right
  · rw [hr, hr', toHex_injective hhex]

/-- The digest that `lengthSha` gives every digest. -/
def fixedHash : Bytes := leBytes 32 32

/-- Two logs with a hash that is its own digest. -/
def fixedBatch : List LogEntry := [markedEntry fixedHash, markedEntry fixedHash]

lemma fixedBatch_leaves : batchLeaves lengthSha fixedBatch = [fixedHash, fixedHash] := by
  decide

theorem fixed_batch_specified :
    specifiedRoot lengthSha fixedBatch = some (lengthSha.computeBatchHash fixedBatch) := by
  have hdigest : [fixedHash, fixedHash].map lengthSha.digest = [fixedHash, fixedHash] := by decide
  have hinj : Set.InjOn lengthSha.digest (nodesHashed lengthSha (batchLeaves lengthSha fixedBatch) ∪
      nodesHashed lengthSha ((batchLeaves lengthSha fixedBatch).map lengthSha.digest)) := by
    rw [fixedBatch_leaves, hdigest, Set.union_self]
    exact (Set.injOn_singleton _ _).mono (nodesHashed_two _ _ _)
  exact ((batch_root_specified_iff (by decide) (by decide)).2 hinj).mpr (by decide)

/-- The anchored root of a batch of one log is not the specified one. -/
theorem single_log_root_differs :
    specifiedRoot lengthSha [unlistedEntry] ≠
      some (lengthSha.computeBatchHash [unlistedEntry]) := by
  decide +kernel

end HybridLog
