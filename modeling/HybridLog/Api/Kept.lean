import HybridLog.Anchor.Texts
import HybridLog.Queue.Confirmed
import HybridLog.Queue.Wire
import HybridLog.System.Promises

/-!
# What an acknowledgement keeps

Where the caller of `POST /log` is told of a success, the message and the metadata of the entry
should be held in full, by a row or by a record. Storages with a database hold them in a row. The
storage of a chain only does in a record of its own for the entry, which neither a batch leaves nor
a transaction that has no effect.
-/

namespace HybridLog

open Js Async Protobuf

/-! ### Contents -/

/-- Two texts on a chain tell the message and the metadata of an entry. -/
structure LogEntry.ToldBy (e : LogEntry) (message metadataJson : List Char) : Prop where
  message : jsText message = e.message
  metadata : jsonParse (jsText metadataJson) = some e.metadata

/-- A row of a database has the message and the metadata of an entry, or a record of a chain, under
the hash of the entry, does. -/
inductive State.HoldsContent (sha : Sha256) (s : State) (e : LogEntry) : Prop
  | row {db : Db} {table : LogTable} {row : LogRow} (hrow : row ∈ (s.dbs db).logs table)
    (hid : row.id = e.id) (hmessage : row.message = e.message)
    (hmetadata : row.metadata.val = e.metadata.val)
  | service {record : LogRecord}
    (hrecord : (bufferFromHex (sha.leafHash e), record) ∈ s.exonum.logs.records)
    (htold : e.ToldBy record.message record.metadataJson)
  | contract {record : StoreRecord} {message metadataJson : List Char}
    (hexists : s.ethereum.store.recordExists (bufferFromHex (sha.leafHash e)))
    (hrecord : s.ethereum.store.logs (bufferFromHex (sha.leafHash e)) = record)
    (hmessage : readUtf8 record.message = some message)
    (hmetadata : readUtf8 record.metadataJson = some metadataJson)
    (htold : e.ToldBy message metadataJson)

/-! ### Conditions -/

/-- The strategy of the request has no database. -/
def PostRequest.ChainOnly (req : PostRequest) : Prop :=
  req.storageMode = some (.strategy .privateChain) ∨
    req.storageMode = some (.strategy .publicChain)

/-- The metadata of the request are what `JSON.parse` returns. -/
def PostRequest.Parsed (req : PostRequest) : Prop := ∀ m, req.metadata = some m → m.val.Ordered

/-- What a database is handed is the value itself: a text has no infinite numbers in it, and MongoDB
keeps well-formed strings only. -/
def Db.Keeps : Db → Json → Prop
  | .postgres, j => j.finite = j
  | .mongo, j => j.WellFormed

/-- What keeps the content of a request. Strings are encoded to UTF-8, which the public chain
refuses to do where they are not well formed. A database is to keep the metadata. Where there is
none, the metadata are to have no infinite numbers, the entry is not to go into a batch and no poll
for its transaction is to end without a confirmation; the private chain takes the first transaction
that writes the hash of the entry. -/
structure KeepsContent (cfg : ServerConfig) (req : PostRequest) (entry : LogEntry)
    (tr : RedeliveryTrace) : Prop where
  message : req.storageMode ≠ some (.strategy .publicChain) → wellFormed entry.message = true
  stored : ¬req.ChainOnly → req.db.Keeps entry.metadata.val
  sent : req.ChainOnly → entry.metadata.val.finite = entry.metadata.val
  unbatched : req.ChainOnly → req.writeMode ≠ .batch
  polls : req.ChainOnly → ∀ txHash n r, Did (.post req entry) (.getTransaction txHash n) r tr →
    ¬GivesUp n r
  first : req.storageMode = some (.strategy .privateChain) → ∀ t tx txHash arg,
    t ≠ .post req entry → Did t (.submit (.exonum tx)) (Except.ok txHash) tr →
    tx.service = .log → tx.key? = some (bufferFromHex (cfg.sha.leafHash entry)) →
    WriteLog.decode tx.args = some arg → entry.ToldBy arg.message arg.metadataJson

variable {cfg : ServerConfig} {objectHash : ObjectHash}

/-! ### Rows -/

/-- The database of a storage. -/
def Storage.db? : Storage → Option Db
  | .offchain db | .hybrid db _ _ => some db
  | .chain _ => none

/-- The storage of a strategy is on the database of the request, or it is on a chain only. -/
lemma pickStorage_db? {m : Option StorageMode} {db : Db} {st : Storage}
    (h : pickStorage cfg m db = some st) : st.db? = some db ∨
      m = some (.strategy .privateChain) ∧ st = .chain (.exonum .full) ∨
      m = some (.strategy .publicChain) ∧ st = .chain .ethereum := by
  unfold pickStorage at h
  split at h
  · cases h
    exact .inr (.inl ⟨rfl, rfl⟩)
  · cases h
    exact .inr (.inr ⟨rfl, rfl⟩)
  all_goals
    obtain ⟨rfl, -⟩ := pickStorage_ofDb cfg h
    exact .inl rfl

/-- A row of the entry has been inserted. -/
def RowInserted (cfg : ServerConfig) (entry : LogEntry) (db : Db) (tr : RedeliveryTrace) : Prop :=
  ∃ t table row contentHash, Did t (.insert db table row) (Except.ok ()) tr ∧
    row.core = (entryRow db (entry.withHash cfg.sha) contentHash).core

section Rows

variable {t : Tag} {tr : RedeliveryTrace} {opts : Option WriteOpts} {db : Db} {st : Storage}

lemma Storage.LogResult.row {entry : LogEntry} {r : WriteResult}
    (h : Storage.LogResult cfg opts entry t tr st r) (hsuccess : r.success = true)
    (hdb : st.db? = some db) : RowInserted cfg entry db tr := by
  cases h with
  | inserted hd =>
    cases hdb
    exact ⟨_, _, _, _, hd, rfl⟩
  | notInserted hd => cases hsuccess
  | chain hid h => cases hdb
  | hybrid h =>
    cases hdb
    cases h with
    | written hi _ _ => exact ⟨_, _, _, _, hi, rfl⟩
    | notInserted _ | notUpdated _ _ _ => cases hsuccess

lemma Storage.BatchResult.row {entries : List LogEntry} {entry : LogEntry} {r : BatchWriteResult}
    (h : Storage.BatchResult cfg opts entries t tr st r) (hsuccess : r.success = true)
    (hdb : st.db? = some db) (hentry : entry ∈ entries) : RowInserted cfg entry db tr := by
  cases h with
  | empty _ | chain _ _ _ => cases hdb
  | hybrid h =>
    cases hdb
    cases h with
    | written _ hs _ _ => exact ⟨_, _, _, _, hs.recorded.leaves.did cfg db _ _ hentry, rfl⟩
    | empty _ | notInserted _ _ | notRecorded _ _ | notLinked _ _ | notUpdated _ _ _ =>
      cases hsuccess

lemma encodeMetadata_eq_self {m : JsonValue} (h : db.Keeps m.val) :
    (db.encodeMetadata m).val = m.val := by
  rw [encodeMetadata_val]
  cases db with
  | mongo => exact toWellFormed_value_eq_self m.distinct h
  | postgres => exact h

lemma RowInserted.holds {c : RedeliveryConfig} (h : Reach (atLeastOnce cfg objectHash) .start c)
    {entry : LogEntry} (hrow : RowInserted cfg entry db c.world.trace)
    (hwell : wellFormed entry.message = true) (hkeeps : db.Keeps entry.metadata.val) :
    c.world.state.HoldsContent cfg.sha entry := by
  obtain ⟨t, table, row, contentHash, hd, hcore⟩ := hrow
  obtain ⟨row', hrow', hcore'⟩ := (atLeastOnce_faithful cfg objectHash).marked h hd
  have hsame := hcore'.trans hcore
  have hid : row'.id = entry.id := congrArg LogRow.id hsame
  have hmessage : row'.message = toWellFormed entry.message := congrArg LogRow.message hsame
  have hencoded : row'.metadata = db.encodeMetadata entry.metadata :=
    congrArg LogRow.metadata hsame
  apply State.HoldsContent.row hrow' hid
  · rw [hmessage, toWellFormed_eq_self hwell]
  · rw [hencoded, encodeMetadata_eq_self hkeeps]

end Rows

/-! ### Texts that are sent -/

/-- A text on a chain can say all of the entry. -/
structure LogEntry.Tellable (e : LogEntry) : Prop where
  message : wellFormed e.message = true
  finite : e.metadata.val.finite = e.metadata.val
  ordered : e.metadata.val.Ordered

/-- The characters that are sent tell the entry. -/
lemma LogEntry.Tellable.toldBy {e : LogEntry} (h : e.Tellable) :
    e.ToldBy (chars e.message) (chars e.metadata.val.text) := by
  have hdistinct : e.metadata.val.finite.Distinct := distinct_finite e.metadata.distinct
  have hdoubles : e.metadata.val.finite.Doubles := doubles_finite e.metadata.doubles
  have hordered : e.metadata.val.finite.Ordered := ordered_finite h.ordered
  constructor
  · exact utf16Encode_chars _ h.message
  · rw [jsText, utf16Encode_chars _ e.metadata.val.text_wellFormed,
      jsonParse_text hdistinct hdoubles hordered]
    exact congrArg some (Subtype.ext h.finite)

/-- An encoded call has the texts of its entry, which is well formed then. -/
lemma EthereumAnchor.logCall_texts {entry : LogEntry} {w : StoreWrite}
    (h : logCall entry = .ok w) : wellFormed entry.message = true ∧
      w.message = utf8 entry.message ∧
      w.metadataJson = utf8 (metadataOrEmpty (some entry.metadata)).val.text := by
  rw [logCall] at h
  cases hsource : sourceBytes32 entry.source with
  | error err => simp [hsource, bind, Except.bind] at h
  | ok source =>
    cases hhash : toBytes32 entry.dataHash with
    | error err => simp [hsource, hhash, bind, Except.bind] at h
    | ok hash =>
      cases hpreview : strictUtf8 (entry.message.take 256) with
      | error err => simp [hsource, hhash, hpreview, bind, Except.bind] at h
      | ok preview =>
        cases hmessage : strictUtf8 entry.message with
        | error err => simp [hsource, hhash, hpreview, hmessage, bind, Except.bind] at h
        | ok message =>
          cases hmeta : strictUtf8 (metadataOrEmpty (some entry.metadata)).val.text with
          | error err => simp [hsource, hhash, hpreview, hmessage, hmeta, bind, Except.bind] at h
          | ok metadataJson =>
            obtain ⟨hwell, rfl⟩ := wellFormed_of_strictUtf8 hmessage
            obtain ⟨-, rfl⟩ := wellFormed_of_strictUtf8 hmeta
            simp only [hsource, hhash, hpreview, hmessage, hmeta, bind, Except.bind] at h
            rw [← Except.ok.inj h]
            exact ⟨hwell, rfl, rfl⟩

/-! ### Requests that are let in -/

/-- What the server has let in. -/
lemma accepted_post {c : RedeliveryConfig} (h : Reach (atLeastOnce cfg objectHash) .start c)
    {req : PostRequest} {id : JsString} {timestamp : JsDate}
    (hx : .ext (.server (.post req id timestamp)) ∈ c.world.trace) : id.length = 36 ∧ req.Fits := by
  obtain ⟨s, s', ps, hs⟩ := h.accepted hx
  simp only [atLeastOnce, State.accept] at hs
  split at hs
  · next hreq => exact hreq.2
  · cases hs

/-- The arguments for the log service are encoded in order. -/
lemma encodable_log {hash level source message metadataJson : JsString} {seed : ℕ}
    (hhash : IsDigest hash) (hlevel : Small level) (hsource : Small source)
    (hmessage : Small message) (hmetadata : Small metadataJson) (hseed : seed < 2 ^ 31) :
    EncodableSlots (WriteLogData.mk hash level source (message.take 256) seed message
      metadataJson).slots := by
  have hlen := hhash.length
  have hpreview := List.length_take_le 256 message
  intro x hx
  simp only [WriteLogData.slots, List.mem_cons, List.not_mem_nil, or_false] at hx
  rcases hx with rfl | rfl | rfl | rfl | rfl | rfl | rfl
  · exact ⟨by norm_num, by norm_num, size_text (by omega)⟩
  · exact ⟨by norm_num, by norm_num, hlevel.trans (by norm_num)⟩
  · exact ⟨by norm_num, by norm_num, hsource.trans (by norm_num)⟩
  · exact ⟨by norm_num, by norm_num, size_text (by omega)⟩
  · exact ⟨by norm_num, by norm_num, hseed.trans (by norm_num)⟩
  · exact ⟨by norm_num, by norm_num, hmessage.trans (by norm_num)⟩
  · exact ⟨by norm_num, by norm_num, hmetadata.trans (by norm_num)⟩

/-- The metadata of a posted entry are not null, so they are sent as they are. -/
lemma metadataOrEmpty_entry (req : PostRequest) (id : JsString) (timestamp : JsDate) :
    metadataOrEmpty (some (req.entry id timestamp).metadata) = (req.entry id timestamp).metadata :=
  metadataOrEmpty_of_ne (metadataOrEmpty_ne_null req.metadata)

/-- The transaction of the log service for an entry. -/
structure ExonumTx.Logs (tx : ExonumTx) (sha : Sha256) (entry : LogEntry) : Prop where
  service : tx.service = .log
  key : tx.key? = some (bufferFromHex (sha.leafHash entry))
  texts : ∃ arg, WriteLog.decode tx.args = some arg ∧ arg.message = chars entry.message ∧
    arg.metadataJson = chars entry.metadata.val.text

/-- What the anchor of the log service sends for a posted entry. -/
lemma logs_of_logPayload {req : PostRequest} {id : JsString} {timestamp : JsDate}
    (hid : id.length = 36) (hfits : req.Fits) {tx : ChainTx}
    (h : (Anchor.exonum .full).logPayload cfg (req.entry id timestamp) tx) :
    ∃ etx, tx = .exonum etx ∧ etx.Logs cfg.sha (req.entry id timestamp) := by
  obtain ⟨ms, htx⟩ := h
  cases htx
  have hdigest := (PostRequest.fresh_entry timestamp hid hfits).isDigest cfg.sha
  have hseed : ExonumAnchor.seedAt ms < 2 ^ 31 := Nat.mod_lt _ (by norm_num)
  have hencodable := encodable_log hdigest hfits.level hfits.source hfits.message hfits.metadata
    hseed
  have hmetadata : (metadataOrEmpty (some ((req.entry id timestamp).withHash cfg.sha).metadata)) =
      metadataOrEmpty req.metadata := metadataOrEmpty_entry req id timestamp
  refine ⟨_, rfl, rfl, ?_, ?_⟩
  · show (ChainTx.exonum ⟨.log, _, cfg.exonumAuthor⟩).key? = _
    apply key_of_understands _ hdigest
    simp only [ExonumAnchor.logArgs, hmetadata]
    exact understands_encodeWriteLog hencodable
  · simp only [ExonumAnchor.logArgs, hmetadata]
    exact ⟨_, decode_encodeWriteLog hencodable, rfl, rfl⟩

/-! ### Where the transactions of the node come from -/

namespace Exonum

variable {n n' : Exonum} {tx tx' : ExonumTx} {txHash txHash' : TxHash}

lemma lookup_of_submit (hn : n.submit tx txHash = some n') (h : n'.txs.lookup txHash' = some tx') :
    n.txs.lookup txHash' = some tx' ∨ txHash' = txHash ∧ tx' = tx := by
  rw [submit] at hn
  split at hn
  · cases hn
    rw [List.lookup_append] at h
    cases hold : n.txs.lookup txHash' with
    | some tx₁ =>
      rw [hold, Option.some_or] at h
      exact .inl h
    | none =>
      rw [hold, Option.none_or, List.lookup_cons] at h
      split at h
      · next heq => exact .inr ⟨eq_of_beq heq, (Option.some.inj h).symm⟩
      · cases h
  · split at hn
    · cases hn
      exact .inl h
    · cases hn

lemma commit_txs (hn : n.commit objectHash txHash = some n') : n'.txs = n.txs := by
  rw [commit] at hn
  split at hn
  · cases hn
  next tx _ =>
  split at hn
  · cases hn
  cases hn
  show (execute objectHash n txHash tx).txs = n.txs
  rw [execute]
  cases tx.service with
  | log | hash | batch =>
    dsimp only
    split
    · rfl
    · split <;> rfl

end Exonum

lemma State.accept_txs {x : External} {s s' : State}
    {ps : List (Tag × Prog Req Req.Answer Unit)} (h : s.accept cfg objectHash x = some (s', ps)) :
    s'.exonum.txs = s.exonum.txs := by
  cases x with
  | chain x =>
    obtain ⟨s₁, hs, heq⟩ := Option.map_eq_some_iff.mp h
    cases heq
    cases x with
    | commit txHash =>
      obtain ⟨n, hn, rfl⟩ := Option.map_eq_some_iff.mp hs
      exact Exonum.commit_txs hn
    | nextBlock _ | mine _ _ =>
      obtain ⟨n, _, rfl⟩ := Option.map_eq_some_iff.mp hs
      rfl
  | _ =>
    simp only [State.accept] at h
    split at h
    · cases h
      rfl
    · cases h

/-- Every transaction of the node was submitted by the server. -/
lemma submitted_of_lookup {c : RedeliveryConfig} (h : Reach (atLeastOnce cfg objectHash) .start c)
    {txHash : TxHash} {tx : ExonumTx}
    (htx : c.world.state.exonum.txs.lookup txHash = some tx) :
    ∃ t, Did t (.submit (.exonum tx)) (Except.ok txHash) c.world.trace := by
  induction h with
  | refl => cases htx
  | @tail c₁ c₂ hreach hstep ih =>
    have hlater (hold : c₁.world.state.exonum.txs.lookup txHash = some tx) :
        ∃ t, Did t (.submit (.exonum tx)) (Except.ok txHash) c₂.world.trace := by
      obtain ⟨t, hd⟩ := ih hold
      exact ⟨t, hd.later hstep.trace_le⟩
    cases hstep with
    | @call w l l' t e k r s hs =>
      rcases State.apply_eq_some hs with ⟨-, rfl⟩ | ⟨-, -, hs⟩
      · apply hlater
        cases t <;> exact htx
      · cases State.answer_effect hs with
        | @submitExonum tx' txHash' n hn =>
          rcases Exonum.lookup_of_submit hn htx with hold | ⟨rfl, rfl⟩
          · exact hlater hold
          · exact ⟨t, List.mem_append_right _ (List.mem_singleton_self _)⟩
        | _ => exact hlater htx
    | fork | left | right | done => exact hlater htx
    | ext hs =>
      apply hlater
      rcases atLeastOnce_accept cfg objectHash hs with ⟨y, rfl, hy⟩ | ⟨seq, msg, rfl, hr, rfl⟩
      · rw [← State.accept_txs hy]
        exact htx
      · obtain ⟨-, rfl⟩ := requeue_eq_some hr
        exact htx

/-! ### Records -/

section Records

variable {c : RedeliveryConfig} {req : PostRequest} {entry : LogEntry}

/-- A request for a chain only sends what the anchor does for its entry. -/
lemma PostStep.logPayload {t : Tag} {tx : ChainTx} {tr : RedeliveryTrace} {anchor : Anchor}
    (h : PostStep cfg req entry t (.submit tx) tr) (hm : req.writeMode ≠ .batch)
    (hst : pickStorage cfg req.storageMode req.db = some (.chain anchor)) :
    anchor.logPayload cfg entry tx := by
  cases h with
  | flush hbatch _ _ _ => exact absurd hbatch hm
  | write _ _ hst' h =>
    rw [hst] at hst'
    cases hst'
    cases h with
    | chain h => cases h with
      | looks h => exact h.elim
      | submit h => exact h

/-- A program for an entry has been started by its request. -/
lemma begun_of_did (h : Reach (atLeastOnce cfg objectHash) .start c) {e : Req} {r : e.Answer}
    (hd : Did (.post req entry) e r c.world.trace) : ∃ id timestamp,
      entry = req.entry id timestamp ∧ id.length = 36 ∧ req.Fits := by
  obtain ⟨pre, hpre, hstep⟩ := (atLeastOnce_guarded h).did hd
  cases hstep.begun with
  | post hx => exact ⟨_, _, rfl, accepted_post h (hpre.subset hx)⟩

/-- A confirmed transaction of the log service has left a record that tells its entry, unless
another one did not. -/
lemma service_holds (h : Reach (atLeastOnce cfg objectHash) .start c)
    (htellable : entry.Tellable) (hkeeps : KeepsContent cfg req entry c.world.trace)
    (hm : req.storageMode = some (.strategy .privateChain)) {tx : ChainTx} {txHash : TxHash}
    (hp : (Anchor.exonum .full).logPayload cfg entry tx)
    (hs : Did (.post req entry) (.submit tx) (Except.ok txHash) c.world.trace)
    (hseen : SeenConfirmed (.post req entry) c.world.trace txHash .exonum) :
    c.world.state.HoldsContent cfg.sha entry := by
  obtain ⟨id, timestamp, rfl, hid, hfits⟩ := begun_of_did h hs
  obtain ⟨etx, rfl, hlogs⟩ := logs_of_logPayload hid hfits hp
  have hkey := holds_of_seen h hs hseen hlogs.key
  rw [ChainTx.store, hlogs.service] at hkey
  obtain ⟨⟨_, record⟩, hrecord, rfl⟩ := List.mem_map.mp hkey
  apply State.HoldsContent.service hrecord
  obtain ⟨txHash', etx', arg, hlookup, hservice, hkey', harg, hbody⟩ :=
    (chains_ok h).1.recorded _ record hrecord
  obtain ⟨hmessage, hmetadata⟩ := Prod.mk.inj hbody
  rw [hmessage, hmetadata]
  obtain ⟨t', hs'⟩ := submitted_of_lookup h hlookup
  by_cases ht : t' = .post req (req.entry id timestamp)
  · -- the request has sent the transaction itself
    subst ht
    obtain ⟨pre, -, hstep⟩ := (atLeastOnce_guarded h).did hs'
    have hst : pickStorage cfg req.storageMode req.db = some (.chain (.exonum .full)) := by
      rw [hm]
      rfl
    obtain ⟨etx₁, heq, hlogs'⟩ := logs_of_logPayload hid hfits
      (hstep.step.logPayload (hkeeps.unbatched (.inl hm)) hst)
    cases heq
    obtain ⟨arg', harg', htext, htext'⟩ := hlogs'.texts
    rw [harg] at harg'
    cases harg'
    rw [htext, htext']
    exact htellable.toldBy
  · exact hkeeps.first hm t' etx' txHash' arg ht hs' hservice hkey' harg

/-- A confirmed call of the contract has left a record that tells its entry. -/
lemma contract_holds (h : Reach (atLeastOnce cfg objectHash) .start c)
    (hfinite : entry.metadata.val.finite = entry.metadata.val)
    (hordered : entry.metadata.val.Ordered) {tx : ChainTx} {txHash : TxHash}
    (hp : Anchor.ethereum.logPayload cfg entry tx)
    (hs : Did (.post req entry) (.submit tx) (Except.ok txHash) c.world.trace)
    (hseen : SeenConfirmed (.post req entry) c.world.trace txHash .ethereum) :
    c.world.state.HoldsContent cfg.sha entry := by
  obtain ⟨id, timestamp, rfl, hid, hfits⟩ := begun_of_did h hs
  obtain ⟨call, hcall, rfl⟩ := map_call_eq_ok.mp hp
  have hdigest := (PostRequest.fresh_entry timestamp hid hfits).isDigest cfg.sha
  have hkey : call.contentHash = bufferFromHex (cfg.sha.leafHash (req.entry id timestamp)) :=
    EthereumAnchor.contentHash_logCall hdigest hcall
  obtain ⟨hwell, hmessage, hmetadata⟩ := EthereumAnchor.logCall_texts hcall
  have hmeta : metadataOrEmpty (some ((req.entry id timestamp).withHash cfg.sha).metadata) =
      (req.entry id timestamp).metadata := metadataOrEmpty_entry req id timestamp
  obtain ⟨hexists, hmessage', hmetadata'⟩ := record_of_seen h hs hseen
  rw [hkey] at hexists hmessage' hmetadata'
  have htellable : (req.entry id timestamp).Tellable := ⟨hwell, hfinite, hordered⟩
  apply State.HoldsContent.contract hexists rfl _ _ htellable.toldBy
  · rw [hmessage', hmessage, readUtf8_utf8]
    rfl
  · rw [hmetadata', hmetadata, hmeta, readUtf8_utf8]

/-- An anchor that waits reports a success without a confirmation only where a poll gives up. -/
lemma AnchorOutcome.confirmed_of_success {T X : Type} {t : T} {tr : Trace Req Req.Answer T X}
    {chain : Chain} {payload : Payload} {success : Bool} {txId : Option TxHash}
    {confirmed : Option Bool} (h : AnchorOutcome chain payload none t tr success txId confirmed)
    (hsuccess : success = true)
    (hpolls : ∀ txHash n r, Did t (.getTransaction txHash n) r tr → ¬GivesUp n r) :
    ∃ tx txHash, payload tx ∧ Did t (.submit tx) (Except.ok txHash) tr ∧
      SeenConfirmed t tr txHash chain := by
  cases h with
  | unsent _ | refused _ _ | lost _ _ _ => cases hsuccess
  | submitted _ _ ho => cases ho
  | confirmed hp hs _ hc => exact ⟨_, _, hp, hs, hc⟩
  | givenUp _ _ _ hn hr => exact absurd hr (hpolls _ _ _ hn)

/-! ### Replies -/

lemma PostRequest.Parsed.ordered (h : req.Parsed) : (metadataOrEmpty req.metadata).val.Ordered := by
  have hempty : emptyObject.val.Ordered := ⟨List.Pairwise.nil, trivial⟩
  cases hm : req.metadata with
  | none => exact hempty
  | some m =>
    rw [metadataOrEmpty]
    split
    · exact hempty
    · exact h m hm

/-- The batch writer of a request writes to the storage of the request. -/
lemma PostRequest.writerKey_storage (req : PostRequest) :
    req.writerKey.storage cfg = pickStorage cfg req.storageMode req.db := by
  obtain ⟨_, _, _, _, m, _, _⟩ := req
  cases m <;> rfl

/-- A storage with a database is not that of a chain only. -/
lemma not_chainOnly {st : Storage} {db : Db}
    (hst : pickStorage cfg req.storageMode req.db = some st) (hdb : st.db? = some db) :
    ¬req.ChainOnly := by
  rintro (hm | hm)
  all_goals
    rw [hm] at hst
    cases hst
    cases hdb

lemma KeepsContent.row_holds (h : Reach (atLeastOnce cfg objectHash) .start c)
    (hkeeps : KeepsContent cfg req entry c.world.trace) (hdb : ¬req.ChainOnly)
    (hrow : RowInserted cfg entry req.db c.world.trace) :
    c.world.state.HoldsContent cfg.sha entry :=
  hrow.holds h (hkeeps.message fun hm => hdb (.inr hm)) (hkeeps.stored hdb)

/-- A storage that is written to at once. -/
lemma sync_holds (h : Reach (atLeastOnce cfg objectHash) .start c)
    (hkeeps : KeepsContent cfg req entry c.world.trace) (hordered : entry.metadata.val.Ordered)
    {st : Storage} {r : WriteResult} (hst : pickStorage cfg req.storageMode req.db = some st)
    (hresult : Storage.LogResult cfg none entry (.post req entry) c.world.trace st r)
    (hsuccess : r.success = true) : c.world.state.HoldsContent cfg.sha entry := by
  rcases pickStorage_db? hst with hdb | ⟨hm, rfl⟩ | ⟨hm, rfl⟩
  · exact hkeeps.row_holds h (not_chainOnly hst hdb) (hresult.row hsuccess hdb)
  · have hwell := hkeeps.message fun hpub => by cases hm.symm.trans hpub
    cases hresult with
    | chain hid ho =>
      obtain ⟨tx, txHash, hp, hs, hseen⟩ := ho.confirmed_of_success hsuccess
        (hkeeps.polls (.inl hm))
      exact service_holds h ⟨hwell, hkeeps.sent (.inl hm), hordered⟩ hkeeps hm hp hs hseen
  · cases hresult with
    | chain hid ho =>
      obtain ⟨tx, txHash, hp, hs, hseen⟩ := ho.confirmed_of_success hsuccess
        (hkeeps.polls (.inr hm))
      exact contract_holds h (hkeeps.sent (.inr hm)) hordered hp hs hseen

/-- A batch writer, whose storage has a database. -/
lemma batch_holds (h : Reach (atLeastOnce cfg objectHash) .start c)
    (hkeeps : KeepsContent cfg req entry c.world.trace) (hm : req.writeMode = .batch) {t : Tag}
    {r : WriteResult} (hresolved : Resolved cfg req.writerKey entry t c.world.trace r)
    (hsuccess : r.success = true) : c.world.state.HoldsContent cfg.sha entry := by
  have hchain : ¬req.ChainOnly := fun honly => hkeeps.unbatched honly hm
  have hdb {st : Storage} (hst : req.writerKey.storage cfg = some st) : st.db? = some req.db := by
    rw [req.writerKey_storage] at hst
    rcases pickStorage_db? hst with hdb | ⟨hpriv, -⟩ | ⟨hpub, -⟩
    · exact hdb
    · exact absurd (.inl hpriv) hchain
    · exact absurd (.inr hpub) hchain
  cases hresolved with
  | batch hst hentry hresult =>
    exact hkeeps.row_holds h hchain (hresult.row hsuccess (hdb hst) hentry)
  | log hst _ hresult => exact hkeeps.row_holds h hchain (hresult.row hsuccess (hdb hst))

/-- In a run of the server, an entry is held in full from the time at which its caller is told of a
success, if the request is one that keeps its content. -/
theorem success_keeps_content (h : Reach (atLeastOnce cfg objectHash) .start c)
    (hparsed : req.Parsed) (hkeeps : KeepsContent cfg req entry c.world.trace) {pendingChain : Bool}
    {r : WriteResult}
    (hreply : Did (.post req entry) (.respond (.result pendingChain r)) () c.world.trace)
    (hsuccess : r.success = true) : c.world.state.HoldsContent cfg.sha entry := by
  have hordered : entry.metadata.val.Ordered := by
    obtain ⟨id, timestamp, rfl, -⟩ := begun_of_did h hreply
    exact hparsed.ordered
  obtain ⟨pre, hpre, hstep⟩ := (atLeastOnce_guarded h).did hreply
  cases hstep.own (by simp [Req.OfStorage]) with
  | respond hreplied => cases hreplied with
    | batch hm hb ha =>
      obtain ⟨t, hresolved⟩ := resolved_of_await h (hb.later hpre) (ha.later hpre)
      exact batch_holds h hkeeps hm hresolved hsuccess
    | sync _ _ hst hresult => exact sync_holds h hkeeps hordered hst (hresult.later hpre) hsuccess

end Records

/-- A request for a chain only, to try statements on. -/
def chainRequest (writeMode : WriteMode) : PostRequest :=
  { awaitingRequest .privateChain .postgres with writeMode := writeMode }

def chainEntry (writeMode : WriteMode) : LogEntry :=
  (chainRequest writeMode).entry (List.replicate 36 0x61) .epoch

def chainPost (writeMode : WriteMode) : Move Req Req.Answer Delivery State :=
  .ext (.server (.post (chainRequest writeMode) (List.replicate 36 0x61) .epoch))

/-- The transaction of the request is included before its anchor looks. -/
def recordedRun : Option RedeliveryConfig :=
  (Config.start State.start).play (atLeastOnce connectedConfig fun _ => [])
    ([chainPost .sync] ++ List.replicate 2 (.act 0 State.prompt) ++
      [.ext (.server (.chain (.commit "t")))] ++ List.replicate 2 (.act 0 State.prompt))

lemma recordedRun_trace : ∃ h : recordedRun.isSome, ∃ tx, (recordedRun.get h).world.trace =
    [.ext (.server (.post (chainRequest .sync) (List.replicate 36 0x61) .epoch)),
      .call (.post (chainRequest .sync) (chainEntry .sync)) .now (0 : ℕ),
      .call (.post (chainRequest .sync) (chainEntry .sync)) (.submit tx) (Except.ok "t"),
      .ext (.server (.chain (.commit "t"))),
      .call (.post (chainRequest .sync) (chainEntry .sync)) (.getTransaction "t" 0)
        (Except.ok ExplorerType.committed),
      .call (.post (chainRequest .sync) (chainEntry .sync))
        (.respond (.result false ⟨List.replicate 36 0x61, true, some "t", some true, none⟩)) ()] :=
  ⟨rfl, _, rfl⟩

/-- Nobody but the request does anything, and its poll finds the transaction. -/
lemma keeps_recordedRun : KeepsContent connectedConfig (chainRequest .sync) (chainEntry .sync)
    (recordedRun.get rfl).world.trace := by
  obtain ⟨_, tx, htrace⟩ := recordedRun_trace
  rw [htrace]
  constructor
  · intro _
    decide
  · intro hdb
    exact absurd (.inl rfl) hdb
  · intro _
    rfl
  · intro _ hm
    cases hm
  · intro _ txHash n r hd hr
    simp only [Did, List.mem_cons, List.not_mem_nil, or_false, reduceCtorEq, false_or] at hd
    rcases hd with hd | hd | hd | hd
    all_goals cases hd
    rcases hr with hr | ⟨hn, -⟩
    · cases hr
    · cases hn
  · intro _ t etx txHash arg ht hd
    simp only [Did, List.mem_cons, List.not_mem_nil, or_false, reduceCtorEq, false_or] at hd
    rcases hd with hd | hd | hd | hd
    all_goals cases hd
    exact absurd rfl ht

theorem recorded_content_kept : ∃ h : recordedRun.isSome,
    (recordedRun.get h).world.state.HoldsContent connectedConfig.sha (chainEntry .sync) := by
  refine ⟨rfl, ?_⟩
  have hreach := Run.of_play (Option.some_get (x := recordedRun) rfl).symm
  have hparsed : (chainRequest .sync).Parsed := by
    intro m hm
    cases hm
  apply success_keeps_content hreach hparsed keeps_recordedRun
  · exact List.mem_of_getLast? rfl
  · rfl

/-- The timer of the batch writer expires, and the transaction of the batch is included. -/
def labelRun : Option RedeliveryConfig :=
  (Config.start State.start).play (atLeastOnce connectedConfig fun _ => [])
    ([chainPost .batch, .act 0 State.prompt,
      .ext (.server (.expire (chainRequest .batch).writerKey [⟨chainEntry .batch, 0⟩]))] ++
      List.replicate 2 (.act 1 State.prompt) ++ [.ext (.server (.chain (.commit "t"))),
        .act 1 State.prompt, .act 0 State.prompt, .act 0 State.prompt])

/-- The record of a batch that is written to the log service has the label of the batch for a
message. -/
theorem batch_label_kept : ¬∀ (cfg : ServerConfig) (objectHash : ObjectHash) (c : RedeliveryConfig),
    Reach (atLeastOnce cfg objectHash) .start c → ∀ req entry pendingChain r, req.Parsed →
      Did (.post req entry) (.respond (.result pendingChain r)) () c.world.trace →
      r.success = true → c.world.state.HoldsContent cfg.sha entry := by
  intro hall
  have hreach := Run.of_play (Option.some_get (x := labelRun) rfl).symm
  have hparsed : (chainRequest .batch).Parsed := by
    intro m hm
    cases hm
  have hreply : Did (.post (chainRequest .batch) (chainEntry .batch))
      (.respond (.result true ⟨List.replicate 36 0x61, true, some "t", some false, none⟩)) ()
      (labelRun.get rfl).world.trace := List.mem_of_getLast? rfl
  have hdbs : (labelRun.get rfl).world.state.dbs = State.start.dbs := rfl
  have hethereum : (labelRun.get rfl).world.state.ethereum = .genesis := rfl
  have hlabels : (labelRun.get rfl).world.state.exonum.logs.records.map (fun r => r.2.message) =
      ["batch:1:aaaaaaaa..aaaaaaaa".toList] := by decide +kernel
  cases hall _ _ _ hreach _ _ _ _ hparsed hreply rfl with
  | row hrow _ _ _ =>
    rw [hdbs] at hrow
    cases hrow
  | service hrecord htold =>
    have hlabel := List.mem_map_of_mem (f := fun r => r.2.message) hrecord
    rw [hlabels] at hlabel
    have hmessage := htold.message
    rw [List.mem_singleton.mp hlabel] at hmessage
    revert hmessage
    decide
  | contract hexists _ _ _ _ =>
    rw [hethereum] at hexists
    exact hexists rfl

end HybridLog
