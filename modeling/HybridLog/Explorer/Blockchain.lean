import HybridLog.Chain.Exonum

/-!
# Proof checks of the explorer

The explorer asks a node for a record and for proofs: that a block is signed by the validators,
that the table of the service belongs to the state of the block, and that entries belong to the
table. What the checks do not compare is the record of the response, and the hash that was asked
for, with the entries of the last proof.
-/

namespace HybridLog

open Js

/-! ### Responses of a node -/

abbrev JsonObject := List (JsString × Json)

structure Block where
  stateHash : JsString
  header : Json

structure BlockProof where
  block : Block
  precommits : Json

/-- A key with its value, or a key that is missing. -/
structure ProofEntry where
  key : Json
  value : Option JsonObject

/-- `proof.to_record` -/
structure RecordProof where
  entries : Option (List ProofEntry)
  path : Json

structure InfoResponse where
  blockProof : BlockProof
  toTable : Json
  toRecord : RecordProof
  record : Option JsonObject

/-- What the explorer can ask for. -/
structure Network where
  validators : Except JsError (List JsString)
  info : ExonumService → JsString → Except JsError InfoResponse
  /-- The block height of a transaction, if the node knows it. -/
  transaction : JsString → Option ℕ

/-! ### Records as the proofs have them -/

/-- A field of a record: as it came, or `{ data: … }`. -/
inductive Field
  | json (j : Json)
  | data (bytes : Bytes)
deriving DecidableEq

abbrev Record := List (JsString × Field)

def fixField (k : JsString) (v : Json) : Field :=
  match v with
  | .str s => if k = ofString "history_hash" then .data (bufferFromHex s) else .json v
  | _ => .json v

/-- The field `history_hash` is turned from hexadecimal into bytes. -/
def fixHashFields (record : JsonObject) : Record := record.map fun f => (f.1, fixField f.1 f.2)

def fixProofEntries (toMap : RecordProof) : List (Json × Option Record) :=
  (toMap.entries.getD []).map fun e => (e.key, e.value.map fixHashFields)

/-! ### exonum-client -/

structure MapProof where
  merkleRoot : JsString
  entries : List (Bytes × Record)
  missingKeys : List Bytes

/-- The functions of the package; each of them throws on an invalid proof. -/
structure ExonumClient where
  verifyBlock : BlockProof → List JsString → Except JsError Unit
  /-- The root of a table of the state. -/
  verifyTable : Json → JsString → String → Except JsError JsString
  /-- `new MapProof`, with the type of the records given by the service. -/
  mapProof : List (Json × Option Record) → Json → ExonumService → Except JsError MapProof

/-- A proof speaks about each key once. -/
structure MapProof.WellFormed (p : MapProof) : Prop where
  keys : (p.entries.map Prod.fst).Nodup
  missing : ∀ k ∈ p.missingKeys, k ∉ p.entries.map Prod.fst

/-- What the proof says of the table `T` is so. -/
structure MapProof.Of (p : MapProof) (T : Bytes → Option Record) : Prop where
  entries : ∀ k r, (k, r) ∈ p.entries → T k = some r
  missing : ∀ k ∈ p.missingKeys, T k = none

/-! ### The plugin -/

structure ExplorerResult where
  verified : Bool
  block : Option Block
  commitBlockHeight : Option ℕ
  record : Option JsonObject
  recordType : Option String
  merkleRoot : Option JsString

variable (client : ExonumClient) (net : Network)

def noValidators : JsError := "Error: Cannot fetch validator keys — is the Exonum node running?"

def rootMismatch : JsError := "Error: Merkle root mismatch — data may be tampered"

def getValidators : Except JsError (List JsString) :=
  match net.validators with
  | .ok keys => .ok keys
  | .error _ => .error noValidators

def lookupCommitBlock (record : JsonObject) : Option ℕ :=
  match record.lookup (ofString "tx_hash") with
  | some (.str txHash) => if txHash = [] then none else net.transaction txHash
  | _ => none

/-- The checks of the three functions below: `table` is the full name of the table, `kind` the
`recordType` of a record that is found and `noRecord` the one of a record that is not. -/
def verifyRecord (service : ExonumService) (table kind : String) (noRecord : Option String)
    (contentHash : JsString) : Except JsError ExplorerResult := do
  let validators ← getValidators net
  let response ← net.info service contentHash
  match response.record with
  | none => return ⟨false, none, none, none, noRecord, none⟩
  | some record =>
    client.verifyBlock response.blockProof validators
    let tableRootHash ← client.verifyTable response.toTable
      response.blockProof.block.stateHash table
    let mapProof ← client.mapProof (fixProofEntries response.toRecord) response.toRecord.path service
    if mapProof.merkleRoot = tableRootHash then
      return ⟨true, some response.blockProof.block, lookupCommitBlock net record, some record,
        some kind, some mapProof.merkleRoot⟩
    else throw rootMismatch

namespace Explorer

def verifyLog : JsString → Except JsError ExplorerResult :=
  verifyRecord client net .log "log-service.logs" "log" none

def verifyHash : JsString → Except JsError ExplorerResult :=
  verifyRecord client net .hash "hash-service.hashes" "hash" (some "hash")

def verifyBatch : JsString → Except JsError ExplorerResult :=
  verifyRecord client net .batch "batch-service.batches" "batch" (some "batch")

end Explorer

/-! ### When the check is sound -/

/-- The name of the table a service keeps its records in. -/
def ExonumService.tableName : ExonumService → String
  | .log => "log-service.logs"
  | .hash => "hash-service.hashes"
  | .batch => "batch-service.batches"

/-- The function that looks for a record of the service. -/
def ExonumService.verify : ExonumService → JsString → Except JsError ExplorerResult
  | .log => Explorer.verifyLog client net
  | .hash => Explorer.verifyHash client net
  | .batch => Explorer.verifyBatch client net

/-- Proofs that the package accepts: of a block the validators have signed, of the table of the
service in its state, and the proof `p` of entries of that table. -/
structure ProofsPass (validators : List JsString) (service : ExonumService)
    (blockProof : BlockProof) (toTable : Json) (toRecord : RecordProof) (p : MapProof) : Prop where
  block : client.verifyBlock blockProof validators = .ok ()
  table : client.verifyTable toTable blockProof.block.stateHash service.tableName =
    .ok p.merkleRoot
  entries : client.mapProof (fixProofEntries toRecord) toRecord.path service = .ok p

/-- The response for `contentHash` has a record and proofs that pass, with the record proof `p`. -/
structure Passes (service : ExonumService) (contentHash : JsString) (record : JsonObject)
    (p : MapProof) : Prop where
  checked : ∃ validators response, net.validators = .ok validators ∧
    net.info service contentHash = .ok response ∧ response.record = some record ∧
    ProofsPass client validators service response.blockProof response.toTable response.toRecord p

/-- A record that is reported as verified is what the proven table has under the requested hash,
whatever table the proof may be of. -/
def RecordSound (service : ExonumService) (hash : Bytes) : Prop :=
  ∀ result, service.verify client net (toHex hash) = .ok result → result.verified = true →
    ∃ record p, result.record = some record ∧ Passes client net service (toHex hash) record p ∧
      ∀ T, p.Of T → T hash = some (fixHashFields record)

/-- The check for a hash is sound whatever a node answers, under the validators' keys. -/
def ExplorerSound (validators : List JsString) (service : ExonumService) (hash : Bytes) : Prop :=
  ∀ net : Network, net.validators = .ok validators → RecordSound client net service hash

variable {client net}

/-- Of a computation with two steps both succeed if it does. -/
lemma bind_eq_ok {α β : Type} {x : Except JsError α} {f : α → Except JsError β} {b : β} :
    (x >>= f) = .ok b ↔ ∃ a, x = .ok a ∧ f a = .ok b := by
  cases x with
  | ok a =>
    constructor
    · exact fun h => ⟨a, rfl, h⟩
    · rintro ⟨_, ⟨⟩, h⟩
      exact h
  | error err =>
    constructor
    · exact fun h => by cases h
    · rintro ⟨_, ⟨⟩, _⟩

lemma getValidators_eq_ok {validators : List JsString} :
    getValidators net = .ok validators ↔ net.validators = .ok validators := by
  rw [getValidators]
  split
  · next h => rw [h]
  · next h => simp [h]

section Verify

variable {service : ExonumService} {contentHash : JsString} {record : JsonObject} {p : MapProof}

/-- A verified result has the record of a response that passes the checks. -/
lemma verifyRecord_sound (service : ExonumService) {kind : String} {noRecord : Option String}
    {result : ExplorerResult}
    (h : verifyRecord client net service service.tableName kind noRecord contentHash = .ok result)
    (hverified : result.verified = true) :
    ∃ record p, result.record = some record ∧ Passes client net service contentHash record p := by
  rw [verifyRecord, bind_eq_ok] at h
  obtain ⟨validators, hvalidators, h⟩ := h
  rw [bind_eq_ok] at h
  obtain ⟨response, hresponse, h⟩ := h
  cases hr : response.record with
  | none =>
    simp only [hr] at h
    cases h
    cases hverified
  | some record =>
    simp only [hr] at h
    rw [bind_eq_ok] at h
    obtain ⟨⟨⟩, hblock, h⟩ := h
    rw [bind_eq_ok] at h
    obtain ⟨root, htable, h⟩ := h
    rw [bind_eq_ok] at h
    obtain ⟨p, hproof, h⟩ := h
    split at h
    · next hroot =>
      cases h
      exact ⟨record, p, rfl, validators, response, getValidators_eq_ok.mp hvalidators, hresponse,
        hr, hblock, hroot ▸ htable, hproof⟩
    · cases h

lemma verifyRecord_of_passes (kind : String) (noRecord : Option String)
    (h : Passes client net service contentHash record p) :
    ∃ result, verifyRecord client net service service.tableName kind noRecord contentHash =
      .ok result ∧ result.verified = true ∧ result.record = some record := by
  obtain ⟨validators, response, hvalidators, hresponse, hr, hblock, htable, hproof⟩ := h
  refine ⟨⟨true, some response.blockProof.block, lookupCommitBlock net record, some record,
    some kind, some p.merkleRoot⟩, ?_, rfl, rfl⟩
  rw [verifyRecord, bind_eq_ok]
  refine ⟨validators, getValidators_eq_ok.mpr hvalidators, bind_eq_ok.mpr ⟨response, hresponse, ?_⟩⟩
  simp only [hr]
  refine bind_eq_ok.mpr ⟨(), hblock, bind_eq_ok.mpr ⟨_, htable, bind_eq_ok.mpr ⟨p, hproof, ?_⟩⟩⟩
  rw [if_pos rfl]
  rfl

lemma verify_sound {result : ExplorerResult}
    (h : service.verify client net contentHash = .ok result) (hverified : result.verified = true) :
    ∃ record p, result.record = some record ∧ Passes client net service contentHash record p := by
  cases service with
  | log => exact verifyRecord_sound .log h hverified
  | hash => exact verifyRecord_sound .hash h hverified
  | batch => exact verifyRecord_sound .batch h hverified

lemma verify_of_passes (h : Passes client net service contentHash record p) :
    ∃ result, service.verify client net contentHash = .ok result ∧ result.verified = true ∧
      result.record = some record := by
  cases service with
  | log => exact verifyRecord_of_passes _ _ h
  | hash => exact verifyRecord_of_passes _ _ h
  | batch => exact verifyRecord_of_passes _ _ h

/-- Whatever passes, the response and its record are those of the node. -/
lemma Passes.record_eq {response : InfoResponse} {record' : JsonObject}
    (h : Passes client net service contentHash record p)
    (hinfo : net.info service contentHash = .ok response) (hr : response.record = some record') :
    record = record' ∧ client.mapProof (fixProofEntries response.toRecord) response.toRecord.path
      service = .ok p := by
  obtain ⟨_, response', _, hinfo', hr', hpass⟩ := h
  obtain rfl := Except.ok.inj (hinfo.symm.trans hinfo')
  exact ⟨Option.some.inj (hr'.symm.trans hr), hpass.entries⟩

end Verify

/-- The table that has just what a proof says. -/
lemma MapProof.WellFormed.of_lookup {p : MapProof} (h : p.WellFormed) :
    p.Of fun k => p.entries.lookup k where
  entries := by
    intro k r hkr
    obtain ⟨l, l', heq⟩ := List.append_of_mem hkr
    have hkeys := h.keys
    rw [heq, List.map_append, List.map_cons, List.nodup_append'] at hkeys
    refine List.lookup_eq_some_iff.mpr ⟨l, l', heq, fun q hq => ?_⟩
    have hne : q.1 ≠ k := fun hqk =>
      hkeys.2.2 (List.mem_map_of_mem hq) (hqk ▸ List.mem_cons_self ..)
    simpa using hne.symm
  missing := by
    intro k hk
    refine List.lookup_eq_none_iff.mpr fun q hq => ?_
    have hne : q.1 ≠ k := fun hqk => h.missing k hk (hqk ▸ List.mem_map_of_mem hq)
    simpa using hne.symm

section Sound

variable {validators : List JsString} {service : ExonumService} {hash : Bytes}
  {blockProof : BlockProof} {toTable : Json} {toRecord : RecordProof} {p : MapProof}

/-- A node that puts a record of its own beside proofs. -/
def Network.beside (validators : List JsString) (blockProof : BlockProof) (toTable : Json)
    (toRecord : RecordProof) (record : JsonObject) : Network where
  validators := .ok validators
  info _ _ := .ok ⟨blockProof, toTable, toRecord, some record⟩
  transaction _ := none

/-- The checks do not look at the record, so any record passes beside proofs that pass; if the
explorer is sound, it is the value of the hash that was asked for. -/
lemma ExplorerSound.lookup_eq (h : ExplorerSound client validators service hash)
    (hpass : ProofsPass client validators service blockProof toTable toRecord p)
    (hp : p.WellFormed) (record : JsonObject) :
    p.entries.lookup hash = some (fixHashFields record) := by
  have hany : Passes client (.beside validators blockProof toTable toRecord record) service
      (toHex hash) record p := ⟨validators, _, rfl, rfl, rfl, hpass⟩
  obtain ⟨result, hok, hverified, -⟩ := verify_of_passes hany
  obtain ⟨record', p', -, hpass', hT⟩ := h _ rfl result hok hverified
  obtain ⟨rfl, hproof⟩ := hpass'.record_eq rfl rfl
  obtain rfl := Except.ok.inj (hproof.symm.trans hpass.entries)
  exact hT _ hp.of_lookup

/-- Two records that differ in the eyes of the proofs. -/
lemma fixHashFields_ne : fixHashFields [] ≠ fixHashFields [(ofString "level", .null)] := by
  decide

/-- The check of the explorer is sound only where nothing can be proven: beside proofs that pass, a
node may put any record. -/
theorem explorer_sound_iff (hclient : ∀ entries path service p,
      client.mapProof entries path service = .ok p → p.WellFormed)
    (validators : List JsString) (service : ExonumService) (hash : Bytes) :
    ExplorerSound client validators service hash ↔ ¬∃ blockProof toTable toRecord p,
      ProofsPass client validators service blockProof toTable toRecord p := by
  constructor
  · rintro h ⟨blockProof, toTable, toRecord, p, hpass⟩
    have hp := hclient _ _ _ _ hpass.entries
    have hempty := h.lookup_eq hpass hp []
    have hlevel := h.lookup_eq hpass hp [(ofString "level", .null)]
    exact fixHashFields_ne (Option.some.inj (hempty.symm.trans hlevel))
  · intro hnone net hnet result hok hverified
    obtain ⟨_, p, -, _, _, hvalidators, _, _, hpass⟩ := verify_sound hok hverified
    obtain rfl := Except.ok.inj (hnet.symm.trans hvalidators)
    exact absurd ⟨_, _, _, p, hpass⟩ hnone

end Sound

/-! ### A response with another record -/

/-- A client for proofs that list their entries and hide nothing: the path of a proof is its
root. A block is signed if there are validators. -/
def listingClient : ExonumClient where
  verifyBlock _ validators := if validators = [] then .error "Error: no precommits" else .ok ()
  verifyTable _ stateHash _ := .ok stateHash
  mapProof entries path _ := match entries, path with
    | [(.str key, some r)], .str root => .ok ⟨root, [(bufferFromHex key, r)], []⟩
    | [], .str root => .ok ⟨root, [], []⟩
    | _, _ => .error "Error: malformed proof"

lemma listingClient_wellFormed (entries : List (Json × Option Record)) (path : Json)
    (service : ExonumService) (p : MapProof)
    (h : listingClient.mapProof entries path service = .ok p) : p.WellFormed := by
  simp only [listingClient] at h
  split at h
  · cases h
    exact ⟨by simp, by simp⟩
  · cases h
    exact ⟨by simp, by simp⟩
  · cases h

/-- `{"level":…}` -/
def levelRecord (level : String) : JsonObject := [(ofString "level", .str (ofString level))]

def provenBlock : BlockProof := ⟨⟨[], .null⟩, .null⟩

/-- The proof of the record `INFO` under the key `7`. -/
def provenRecord : RecordProof := ⟨some [⟨.str (toHex [7]), some (levelRecord "INFO")⟩], .str []⟩

def provenEntries : MapProof := ⟨[], [([7], fixHashFields (levelRecord "INFO"))], []⟩

lemma provenRecord_passes : ProofsPass listingClient [ofString "key"] .log provenBlock .null
    provenRecord provenEntries where
  block := rfl
  table := rfl
  entries := rfl

/-- Without a validator no block is signed; with one, the proof of one record passes for any. -/
theorem unsigned_sound_signed_unsound : ExplorerSound listingClient [] .log [7] ∧
    ¬ExplorerSound listingClient [ofString "key"] .log [7] := by
  constructor
  · rw [explorer_sound_iff listingClient_wellFormed]
    rintro ⟨_, _, _, _, hblock, -, -⟩
    cases hblock
  · rw [explorer_sound_iff listingClient_wellFormed, not_not]
    exact ⟨_, _, _, _, provenRecord_passes⟩

/-- The explorer reports a record that no proof speaks of as verified. -/
theorem forged_record_verified :
    ¬∀ (client : ExonumClient) (net : Network) (service : ExonumService) (hash : Bytes),
      (∀ entries path service p, client.mapProof entries path service = .ok p → p.WellFormed) →
        RecordSound client net service hash := by
  intro h
  have hsound : ExplorerSound listingClient [ofString "key"] .log [7] := fun net _ =>
    h listingClient net .log [7] listingClient_wellFormed
  have hlookup := hsound.lookup_eq provenRecord_passes
    (listingClient_wellFormed _ _ _ _ provenRecord_passes.entries) (levelRecord "DEBUG")
  exact absurd hlookup (by decide)

end HybridLog
