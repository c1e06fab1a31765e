import HybridLog.Database.Rows

/-!
# Verification of stored logs

`HybridStorage.verifyLog`, `GET /verify/:id` and `GET /verify-batch/:id` recompute the hash of a
row, and for a batched row the root over the rows with the same `batch_root`. Each of them reads
nothing but the database.
-/

namespace HybridLog

open Js

/-! ### Listing the leaves of a batch -/

/-- The order `leaf_index ASC`: PostgreSQL puts rows without an index last, MongoDB first. -/
def Db.leafLe : Db → Option ℤ → Option ℤ → Prop
  | _, some i, some j => i ≤ j
  | .postgres, none, some _ => False
  | .postgres, _, none => True
  | .mongo, some _, none => False
  | .mongo, none, _ => True

/-- `l` is a possible answer to `listBatchedByRoot`: the rows under `root` in the order of their
leaf index, rows with the same index in any order. MongoDB is asked for 10000 of them. -/
def IsListing (db : Db) (rows : List LogRow) (root : JsString) (l : List LogRow) : Prop :=
  ∃ all : List LogRow, all.Perm (rows.filter fun r => r.batchRoot = some root) ∧
    all.Pairwise (fun r r' => db.leafLe r.leafIndex r'.leafIndex) ∧
    l = match db with
      | .postgres => all
      | .mongo => all.take 10000

/-- What `listBatchedByRoot` answers for each batched table and root. -/
abbrev Listing := Side → JsString → List LogRow

def Listing.Of (list : Listing) (db : Db) (d : Database) : Prop :=
  ∀ side root, IsListing db (d.logs (.batched side)) root (list side root)

lemma leafLe_total (db : Db) (i j : Option ℤ) : db.leafLe i j ∨ db.leafLe j i := by
  cases db <;> cases i <;> cases j <;> simp [Db.leafLe, le_total]

lemma leafLe_trans (db : Db) {i j k : Option ℤ} (h : db.leafLe i j) (h' : db.leafLe j k) :
    db.leafLe i k := by
  cases db <;> cases i <;> cases j <;> cases k <;> simp only [Db.leafLe] at h h' ⊢ <;> omega

open Classical in
/-- The databases always have an answer to `listBatchedByRoot`. -/
lemma exists_listing (db : Db) (d : Database) : ∃ list : Listing, list.Of db d := by
  let le (r r' : LogRow) : Prop := db.leafLe r.leafIndex r'.leafIndex
  have htotal : Std.Total le := ⟨fun r r' => leafLe_total db r.leafIndex r'.leafIndex⟩
  have htrans : IsTrans LogRow le := ⟨fun _ _ _ h h' => leafLe_trans db h h'⟩
  let all (side : Side) (root : JsString) : List LogRow :=
    ((d.logs (.batched side)).filter fun r => r.batchRoot = some root).insertionSort le
  have hperm (side : Side) (root : JsString) := List.perm_insertionSort le
    ((d.logs (.batched side)).filter fun r => r.batchRoot = some root)
  have hsorted (side : Side) (root : JsString) := List.pairwise_insertionSort le
    ((d.logs (.batched side)).filter fun r => r.batchRoot = some root)
  cases db with
  | postgres =>
    exact ⟨all, fun side root => ⟨all side root, hperm side root, hsorted side root, rfl⟩⟩
  | mongo =>
    refine ⟨fun side root => (all side root).take 10000, fun side root => ?_⟩
    exact ⟨all side root, hperm side root, hsorted side root, rfl⟩

/-! ### `HybridStorage.verifyLog` -/

structure VerifyResult where
  logId : JsString
  valid : Bool
  details : String

def invalidTime : String := "RangeError: Invalid time value"

/-- `row.anchorStatus`, whose default is `pending`. -/
def LogRow.statusText (r : LogRow) : String :=
  match r.anchorStatus.getD .pending with
  | .pending => "pending"
  | .confirmed => "confirmed"
  | .failed => "failed"

def mismatch : String := "Hash mismatch — record may be tampered"

def verifyLog (sha : Sha256) (d : Database) (logTable : LogTable) (id : JsString) :
    Except String VerifyResult :=
  match d.findById logTable id with
  | none => .ok ⟨id, false, "Not found in anchored table"⟩
  | some row => match row.recomputed? sha with
    | none => .error invalidTime
    | some recomputed =>
      if recomputed = row.contentHash then
        .ok ⟨id, true, "Hash verified (anchor: " ++ row.statusText ++ ")"⟩
      else .ok ⟨id, false, mismatch⟩

/-- The call returns `valid: true`. -/
def verifies : Except String VerifyResult → Bool
  | .ok r => r.valid
  | .error _ => false

/-! ### `GET /verify/:id` -/

inductive VerifyReply
  | offchain (valid : Bool) (details : String)
  | anchored (row : LogRow) (recomputed : JsString) (valid : Bool) (details : String)
  | batched (side : Side) (row : LogRow) (recomputed : JsString) (hashMatch : Bool)
      (merkleMatch : Option Bool) (details : String)
  | notFound (details : String)
  | error (err : String)

/-- The field `valid` of a reply. -/
def VerifyReply.valid : VerifyReply → Bool
  | .offchain valid _ | .anchored _ _ valid _ => valid
  | .batched _ _ _ hashMatch merkleMatch _ => hashMatch && merkleMatch.getD true
  | .notFound _ | .error _ => false

/-- The batched table a reply is about, if it comes from the batched branch. -/
def VerifyReply.batchedSide : VerifyReply → Option Side
  | .batched side _ _ _ _ _ => some side
  | _ => none

/-- The root over the rows `siblings`. -/
def siblingsRoot (sha : Sha256) (siblings : List LogRow) : JsString :=
  sha.rootOf (siblings.map fun r => bufferFromHex r.contentHash)

/-- The root of a row, unless it is null or empty. -/
def LogRow.root? (r : LogRow) : Option JsString :=
  r.batchRoot.filter fun root => root ≠ []

lemma root?_eq_some {r : LogRow} {root : JsString} :
    r.root? = some root ↔ r.batchRoot = some root ∧ root ≠ [] := by
  simp [LogRow.root?, Option.filter_eq_some_iff]

/-- The text of a value of a nullable column. -/
def indexText : Option ℤ → String
  | some i => toString i
  | none => "undefined"

def merkleDetails (row : LogRow) (siblings : List LogRow) (root recomputedRoot : JsString) :
    String :=
  if recomputedRoot = root then
    "Leaf #" ++ indexText row.leafIndex ++ " of " ++ toString siblings.length ++
      " verified in Merkle tree"
  else
    "Merkle root mismatch (expected " ++ String.ofList (chars (root.take 12)) ++ "…, got " ++
      String.ofList (chars (recomputedRoot.take 12)) ++ "…)"

/-- The reply for a row of a batched table. -/
def verifyBatched (sha : Sha256) (list : Listing) (side : Side) (row : LogRow) : VerifyReply :=
  match row.recomputed? sha with
  | none => .error invalidTime
  | some recomputed =>
    let hashMatch := decide (recomputed = row.contentHash)
    match row.root? with
    | none => .batched side row recomputed hashMatch none
        (if hashMatch then "Hash verified. Batch not yet assigned (Merkle root pending)."
          else "Content hash mismatch — record may be tampered")
    | some root =>
      let siblings := list side root
      let recomputedRoot := siblingsRoot sha siblings
      .batched side row recomputed hashMatch (some (recomputedRoot = root))
        (if hashMatch then merkleDetails row siblings root recomputedRoot
          else "Content hash mismatch — record may be tampered")

def verifyAnchored (sha : Sha256) (row : LogRow) : VerifyReply :=
  match row.recomputed? sha with
  | none => .error invalidTime
  | some recomputed =>
    if recomputed = row.contentHash then
      .anchored row recomputed true ("Hash verified (anchor: " ++ row.statusText ++ ")")
    else .anchored row recomputed false mismatch

/-- A row of the off-chain table carries no hash to compare with. -/
def verifyOffchain (sha : Sha256) (row : LogRow) : VerifyReply :=
  match row.recomputed? sha with
  | none => .error invalidTime
  | some _ => .offchain true "Hash verified"

def getVerify (sha : Sha256) (list : Listing) (d : Database) (id : JsString) : VerifyReply :=
  match d.findById .offchain id with
  | some row => verifyOffchain sha row
  | none => match (d.findById (.anchored .priv) id).or (d.findById (.anchored .pub) id) with
    | some row => verifyAnchored sha row
    | none => match d.findById (.batched .priv) id with
      | some row => verifyBatched sha list .priv row
      | none => match d.findById (.batched .pub) id with
        | some row => verifyBatched sha list .pub row
        | none => .notFound "Not found in any table"

/-- `GET /verify-batch/:id`, where `side` is public if `chain=public` is asked for. -/
def getVerifyBatch (sha : Sha256) (list : Listing) (d : Database) (side : Side) (id : JsString) :
    VerifyReply :=
  match d.findById (.batched side) id with
  | some row => verifyBatched sha list side row
  | none => .notFound "Log not found in batched table"

/-! ### What a positive answer means -/

/-- The recomputed hash of the row is the stored one. -/
def LogRow.Consistent (sha : Sha256) (r : LogRow) : Prop :=
  r.recomputed? sha = some r.contentHash

lemma verifies_verifyLog {sha : Sha256} {d : Database} {table : LogTable} {id : JsString} :
    verifies (verifyLog sha d table id) = true ↔
      ∃ r, d.findById table id = some r ∧ r.Consistent sha := by
  rw [verifyLog]
  cases hf : d.findById table id with
  | none => simp [verifies]
  | some r =>
    simp only [Option.some.injEq, exists_eq_left', LogRow.Consistent]
    cases hr : r.recomputed? sha with
    | none => simp [verifies]
    | some h =>
      by_cases heq : h = r.contentHash
      · simp [verifies, heq]
      · simp [verifies, heq]

lemma valid_verifyBatched {sha : Sha256} {list : Listing} {side : Side} {r : LogRow} :
    (verifyBatched sha list side r).valid = true ↔
      r.Consistent sha ∧ ∀ root ∈ r.root?, siblingsRoot sha (list side root) = root := by
  rw [verifyBatched, LogRow.Consistent]
  cases hr : r.recomputed? sha with
  | none => simp [VerifyReply.valid]
  | some h =>
    cases hroot : r.root? with
    | none => simp [VerifyReply.valid]
    | some root => simp [VerifyReply.valid]

lemma batchedSide_verifyBatched {sha : Sha256} {list : Listing} {s side : Side} {r : LogRow}
    (h : (verifyBatched sha list s r).batchedSide = some side) : s = side := by
  rw [verifyBatched] at h
  cases hc : r.recomputed? sha with
  | none => simp [hc, VerifyReply.batchedSide] at h
  | some c => cases hroot : r.root? with
    | none => simpa [hc, hroot, VerifyReply.batchedSide] using h
    | some root => simpa [hc, hroot, VerifyReply.batchedSide] using h

/-- A reply from the batched branch is about the row of that table. -/
lemma getVerify_batched {sha : Sha256} {list : Listing} {d : Database} {id : JsString}
    {side : Side} (h : (getVerify sha list d id).batchedSide = some side) :
    ∃ row, d.findById (.batched side) id = some row ∧
      getVerify sha list d id = verifyBatched sha list side row := by
  rw [getVerify] at h ⊢
  split at h
  · next r _ =>
    rw [verifyOffchain] at h
    split at h <;> cases h
  · split at h
    · next r _ =>
      rw [verifyAnchored] at h
      split at h
      · cases h
      · split at h <;> cases h
    · split at h
      · next row hr =>
        obtain rfl := batchedSide_verifyBatched h
        exact ⟨row, hr, rfl⟩
      · split at h
        · next row hr =>
          obtain rfl := batchedSide_verifyBatched h
          exact ⟨row, hr, rfl⟩
        · cases h

end HybridLog
