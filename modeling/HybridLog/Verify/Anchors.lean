import HybridLog.Anchor.ReadBack
import HybridLog.Verify.Endpoints

/-!
# Asking the chain

An anchor that is asked to verify a log asks its chain for the hash that is registered under the id.
It so finds what it has written itself, for as long as nothing else is written under the id.
-/

namespace HybridLog

open Js Relation

/-! ### `verifyLog` of the anchors -/

/-- `unknown` is what the anchor says of an id without a hash, and `check` is what its node answers
about a hash, if it can be asked for it. -/
def AnchorClient.verifyLog (A : AnchorClient) (unknown : String)
    (check : A.Node → JsString → Option Bool) (n : A.Node) (answers : Bool) (r : Registry)
    (id : JsString) : VerifyResult :=
  match r.hashRegistry id with
  | none => ⟨id, false, unknown⟩
  | some hash =>
    if hash = [] then ⟨id, false, unknown⟩
    else if answers = false then ⟨id, false, "Verification request failed"⟩
    else match check n hash with
      | none => ⟨id, false, "Verification request failed"⟩
      | some true => ⟨id, true, "Hash found on chain"⟩
      | some false => ⟨id, false, "Hash not on chain"⟩

namespace ExonumAnchor

/-- `content_hash` of the record under a key. -/
def contentHash? (n : Exonum) (key : Bytes) : ExonumService → Option (List Char)
  | .log => (n.logs.records.lookup key).map LogRecord.contentHash
  | .hash => (n.hashes.records.lookup key).map HashRecord.contentHash
  | .batch => (n.batches.records.lookup key).map BatchRecord.contentHash

/-- `GET …/info?hash=`, which is a bad request for a text that is no hash. -/
def check (mode : AnchorMode) (n : Exonum) (hash : JsString) : Option Bool :=
  (parseHash (chars hash)).map fun key =>
    decide ((contentHash? n key mode.service).map jsText = some hash)

def verifyLog (cfg : ServerConfig) (objectHash : ObjectHash) (mode : AnchorMode) (n : Exonum)
    (answers : Bool) (r : Registry) (id : JsString) : VerifyResult :=
  (client cfg objectHash mode).verifyLog "Hash not in registry" (check mode) n answers r id

end ExonumAnchor

namespace EthereumAnchor

/-- `exists`, which is not called for a text that is no hash. -/
def checkOf {S A R : Type} (m : OnChainStore S A R) (c : ContractChain S A) (hash : JsString) :
    Option Bool :=
  match toBytes32 hash with
  | .error _ => none
  | .ok key => some (decide ((m.view c.store).recordExists m.contract key))

def check (cfg : ServerConfig) :
    (mode : AnchorMode) → (client cfg mode).Node → JsString → Option Bool
  | .full => checkOf logStore
  | .hashOnly => checkOf hashStore
  | .batch => checkOf batchStore

def verifyLog (cfg : ServerConfig) (mode : AnchorMode) (n : (client cfg mode).Node)
    (answers : Bool) (r : Registry) (id : JsString) : VerifyResult :=
  (client cfg mode).verifyLog "Hash not in registry — write first" (check cfg mode) n answers r id

end EthereumAnchor

/-! ### What the nodes answer -/

/-- The node is truthful about digests. -/
def AnchorClient.Tells (A : AnchorClient) (check : A.Node → JsString → Option Bool) : Prop :=
  ∀ n, ReflTransGen A.Happens A.genesis n → ∀ hash, IsDigest hash →
    ∃ b, check n hash = some b ∧ (b = true ↔ A.OnChain n hash)

lemma jsText_hexEncode (bs : Bytes) : jsText (hexEncode bs) = toHex bs := by
  induction bs with
  | nil => rfl
  | cons b bs ih =>
    have hunit : ∀ n < 16, isHigh (hexUnit n) = false ∧
        utf16Encode (unitChar (hexUnit n)) = [hexUnit n] := by decide
    have hb := b.toNat_lt
    obtain ⟨hi, hhi⟩ := hunit (b.toNat / 16) (by omega)
    obtain ⟨lo, hlo⟩ := hunit (b.toNat % 16) (by omega)
    rw [jsText, hexEncode, toHex] at ih
    rw [jsText, hexEncode, toHex, List.flatMap_cons, hexByte, List.cons_append, List.cons_append,
      List.nil_append, chars_cons hi, chars_cons lo, List.flatMap_cons, List.flatMap_cons, hhi, hlo,
      ih]
    rfl

namespace ServiceSchema

variable {R : Type}

/-- The records are spelled as their keys. -/
def Spelled (contentHash : R → List Char) (s : ServiceSchema R) : Prop :=
  ∀ key r, (key, r) ∈ s.records → contentHash r = hexEncode key

lemma Spelled.write {contentHash : R → List Char} {s s' : ServiceSchema R} {text : List Char}
    {objectHash : ObjectHash} {record : Bytes → ℕ → Bytes → R} {submitter : Address} {tx : TxHash}
    (h : s.Spelled contentHash)
    (hrecord : ∀ key len hash, contentHash (record key len hash) = hexEncode key)
    (hw : s.write objectHash text record submitter tx = .ok s') : s'.Spelled contentHash := by
  obtain ⟨key, -, -, len, hash, hrecords⟩ := write_ok hw
  intro key' r hr
  rw [hrecords] at hr
  rcases List.mem_append.mp hr with hr | hr
  · exact h key' r hr
  · obtain ⟨rfl, rfl⟩ := Prod.mk.inj (List.mem_singleton.mp hr)
    exact hrecord _ _ _

lemma Spelled.lookup {contentHash : R → List Char} {s : ServiceSchema R}
    (h : s.Spelled contentHash) (key : Bytes) :
    (s.records.lookup key).map contentHash = if key ∈ s.keys then some (hexEncode key) else none := by
  cases hl : s.records.lookup key with
  | none =>
    rw [if_neg]
    · rfl
    · intro hmem
      obtain ⟨p, hp, rfl⟩ := List.mem_map.mp hmem
      simpa using List.lookup_eq_none_iff.mp hl p hp
  | some r =>
    obtain ⟨l, l', heq, -⟩ := List.lookup_eq_some_iff.mp hl
    have hmem : (key, r) ∈ s.records := by simp [heq]
    have hkey : key ∈ s.keys := List.mem_map.mpr ⟨_, hmem, rfl⟩
    rw [if_pos hkey, Option.map_some, h key r hmem]

end ServiceSchema

namespace ExonumAnchor

variable {objectHash : ObjectHash} {n n' : Exonum}

/-- The records of all services are spelled as their keys. -/
structure Spelled (n : Exonum) : Prop where
  logs : n.logs.Spelled LogRecord.contentHash
  hashes : n.hashes.Spelled HashRecord.contentHash
  batches : n.batches.Spelled BatchRecord.contentHash

lemma Spelled.execute (h : Spelled n) (txHash : TxHash) (tx : ExonumTx) :
    Spelled (n.execute objectHash txHash tx) := by
  rw [Exonum.execute]
  split
  · split
    · exact h
    · split
      · next hw => exact { h with logs := h.logs.write (fun _ _ _ => rfl) hw }
      · exact h
  · split
    · exact h
    · split
      · next hw => exact { h with hashes := h.hashes.write (fun _ _ _ => rfl) hw }
      · exact h
  · split
    · exact h
    · split
      · next hw => exact { h with batches := h.batches.write (fun _ _ _ => rfl) hw }
      · exact h

lemma Spelled.happens (h : Spelled n) (hn : Happens objectHash n n') : Spelled n' := by
  cases hn with
  | submit hn =>
    rw [Exonum.submit] at hn
    split at hn
    · cases hn
      exact ⟨h.logs, h.hashes, h.batches⟩
    · split at hn
      · cases hn
        exact h
      · cases hn
  | commit hn =>
    rw [Exonum.commit] at hn
    split at hn
    · cases hn
    · split at hn
      · cases hn
      · cases hn
        next tx _ _ =>
        exact ⟨(h.execute _ tx).logs, (h.execute _ tx).hashes, (h.execute _ tx).batches⟩

lemma spelled_of_run (h : ReflTransGen (Happens objectHash) .empty n) : Spelled n := by
  induction h with
  | refl =>
    have hempty {R : Type} {f : R → List Char} : ServiceSchema.empty.Spelled f := nofun
    exact ⟨hempty, hempty, hempty⟩
  | tail _ hstep ih => exact ih.happens hstep

lemma Spelled.contentHash? (h : Spelled n) (key : Bytes) (service : ExonumService) :
    contentHash? n key service = if key ∈ n.keys service then some (hexEncode key) else none := by
  cases service with
  | log => exact h.logs.lookup key
  | hash => exact h.hashes.lookup key
  | batch => exact h.batches.lookup key

lemma Spelled.check_digest (h : Spelled n) (mode : AnchorMode) {hash : JsString}
    (hdigest : IsDigest hash) :
    ∃ b, check mode n hash = some b ∧ (b = true ↔ bufferFromHex hash ∈ n.keys mode.service) := by
  rw [check, parseHash_digest hdigest, Option.map_some]
  refine ⟨_, rfl, ?_⟩
  rw [decide_eq_true_iff, h.contentHash?]
  by_cases hkey : bufferFromHex hash ∈ n.keys mode.service
  · simp [hkey, jsText_hexEncode, hdigest.toHex_bufferFromHex]
  · simp [hkey]

lemma tells (cfg : ServerConfig) (objectHash : ObjectHash) (mode : AnchorMode) :
    (client cfg objectHash mode).Tells (check mode) := fun _ hn _ hdigest =>
  (spelled_of_run hn).check_digest mode hdigest

end ExonumAnchor

namespace EthereumAnchor

lemma checkOf_digest {S A R : Type} (m : OnChainStore S A R) (c : ContractChain S A)
    {hash : JsString} (h : IsDigest hash) :
    ∃ b, checkOf m c hash = some b ∧ (b = true ↔ c.Exists m (bufferFromHex hash)) := by
  rw [checkOf, toBytes32_digest h]
  exact ⟨_, rfl, decide_eq_true_iff⟩

lemma tells (cfg : ServerConfig) (mode : AnchorMode) : (client cfg mode).Tells (check cfg mode) := by
  intro n _ hash hdigest
  cases mode with
  | full => exact checkOf_digest logStore n hdigest
  | hashOnly => exact checkOf_digest hashStore n hdigest
  | batch => exact checkOf_digest batchStore n hdigest

end EthereumAnchor

/-! ### What is registered -/

section Registered

variable {A : AnchorClient} {sha : Sha256} {r : Registry} {a : Answers} {id : JsString}

/-- The hash that a call is about. -/
def AnchorCall.hash (sha : Sha256) (r : Registry) : AnchorCall → JsString
  | writeLog ref _ => sha.leafHash (r.objects ref).entry
  | writeBatch refs _ => sha.computeBatchHash ((r.hashAll sha refs).entries refs)

/-- The call hands over an entry with the id. -/
def AnchorCall.HandsOver (r : Registry) (id : JsString) (call : AnchorCall) : Prop :=
  ∃ ref ∈ call.refs, (r.objects ref).entry.id = id

lemma Registry.setHashes_hashRegistry (hash id : JsString) : ∀ (refs : List ℕ) (r : Registry),
    (r.setHashes hash refs).hashRegistry id =
      if id ∈ refs.map (fun ref => (r.objects ref).entry.id) then some hash else r.hashRegistry id
  | [], r => rfl
  | ref :: refs, r => by
    have hrest := setHashes_hashRegistry hash id refs (r.setHash (r.objects ref).entry.id hash)
    rw [setHashes, List.foldl_cons]
    rw [setHashes] at hrest
    rw [hrest]
    simp only [setHash, List.map_cons, List.mem_cons, Function.update_apply]
    by_cases hid : id = (r.objects ref).entry.id
    · simp [hid]
    · simp [hid]

lemma AnchorCall.handsOver_hashAll (refs : List ℕ) :
    id ∈ refs.map (fun ref => ((r.hashAll sha refs).objects ref).entry.id) ↔
      ∃ ref ∈ refs, (r.objects ref).entry.id = id := by
  have hkeeps : Registry.Keeps r (r.hashAll sha refs) refs True :=
    Registry.keeps_foldl fun r ref _ => Registry.keeps_hash ref
  have hids : refs.map (fun ref => ((r.hashAll sha refs).objects ref).entry.id) =
      refs.map fun ref => (r.objects ref).entry.id :=
    List.map_congr_left fun ref _ => LogEntry.id_of_unhashed (hkeeps.text ref)
  rw [hids, List.mem_map]

variable (A sha a r) in
/-- A call registers its hash under the ids it hands over, or it registers nothing and does not find
a transaction. -/
lemma AnchorCall.registers (call : AnchorCall) :
    (¬call.Found A sha r a ∧ (call.perform A sha a r).hashRegistry = r.hashRegistry) ∨
      ∀ id, (call.HandsOver r id →
          (call.perform A sha a r).hashRegistry id = some (call.hash sha r)) ∧
        (¬call.HandsOver r id →
          (call.perform A sha a r).hashRegistry id = r.hashRegistry id) := by
  cases call with
  | writeLog ref opts =>
    obtain ⟨-, -, hhashes⟩ := writeLog_effect A sha ref opts a r
    right
    intro id
    rw [hhashes]
    constructor
    · rintro ⟨ref', href', rfl⟩
      rw [List.mem_singleton.mp href', Function.update_self]
      rfl
    · intro hnot
      have hid : id ≠ (r.objects ref).entry.id := fun heq => hnot ⟨ref, .head _, heq.symm⟩
      exact Function.update_of_ne hid ..
  | writeBatch refs opts =>
    have hset : ∀ id, ((AnchorCall.writeBatch refs opts).HandsOver r id →
        ((r.hashAll sha refs).setHashes (sha.computeBatchHash ((r.hashAll sha refs).entries refs))
          refs).hashRegistry id = some ((AnchorCall.writeBatch refs opts).hash sha r)) ∧
        (¬(AnchorCall.writeBatch refs opts).HandsOver r id →
          ((r.hashAll sha refs).setHashes (sha.computeBatchHash ((r.hashAll sha refs).entries refs))
            refs).hashRegistry id = r.hashRegistry id) := by
      intro id
      rw [Registry.setHashes_hashRegistry, Registry.hashAll_hashRegistry]
      exact ⟨fun h => if_pos (handsOver_hashAll refs |>.mpr h),
        fun h => if_neg fun hmem => h (handsOver_hashAll refs |>.mp hmem)⟩
    show (_ ∧ (A.writeBatch sha refs opts a r).2.hashRegistry = _) ∨
      ∀ id, (_ → (A.writeBatch sha refs opts a r).2.hashRegistry id = _) ∧
        (_ → (A.writeBatch sha refs opts a r).2.hashRegistry id = _)
    rw [AnchorClient.writeBatch]
    split
    · next hempty =>
      refine .inl ⟨?_, rfl⟩
      rintro ⟨-, ⟨tx, htx⟩, -⟩
      rw [AnchorCall.tx, if_pos hempty] at htx
      cases htx
    next hne =>
    dsimp only
    split
    · next err herr =>
      refine .inl ⟨?_, Registry.hashAll_hashRegistry ..⟩
      rintro ⟨-, ⟨tx, htx⟩, -⟩
      rw [AnchorCall.tx, if_neg hne, herr] at htx
      cases htx
    split
    · next err herr =>
      refine .inl ⟨?_, Registry.hashAll_hashRegistry ..⟩
      rintro ⟨-, -, ⟨txHash, hsent⟩, -⟩
      rw [herr] at hsent
      cases hsent
    right
    split
    · simpa using hset
    split
    · exact hset
    · simpa using hset

/-- A call leaves the texts of the objects. -/
lemma AnchorCall.perform_keeps (call : AnchorCall) :
    Registry.Keeps r (call.perform A sha a r) call.refs (call.Found A sha r a) := by
  cases call with
  | writeLog ref opts => exact (writeLog_effect A sha ref opts a r).1
  | writeBatch refs opts => exact (writeBatch_effect A sha refs opts a r).1

/-- Under every id with a hash an entry has been handed over. -/
lemma AnchorRun.handedOver {P : CallCondition A} {calls : List AnchorCall} {n : A.Node}
    (h : AnchorRun A sha P calls n r) {hash : JsString} (hid : r.hashRegistry id = some hash) :
    ∃ call ∈ calls, call.HandsOver r id := by
  induction h generalizing hash with
  | start objects => cases hid
  | chain h hn ih => exact ih hid
  | @call calls n n' r call a h hP hs ih =>
    have hlater {call' : AnchorCall} (hover : call'.HandsOver r id) :
        call'.HandsOver (call.perform A sha a r) id := by
      obtain ⟨ref, href, heq⟩ := hover
      exact ⟨ref, href, (LogEntry.id_of_unhashed (call.perform_keeps.text ref)).trans heq⟩
    have hold (hold : r.hashRegistry id = some hash) :
        ∃ call' ∈ calls ++ [call], call'.HandsOver (call.perform A sha a r) id := by
      obtain ⟨call', hcall', hover⟩ := ih hold
      exact ⟨call', List.mem_append_left _ hcall', hlater hover⟩
    rcases call.registers A sha r a with ⟨-, hsame⟩ | hregisters
    · exact hold (hsame ▸ hid)
    · by_cases hover : call.HandsOver r id
      · exact ⟨call, List.mem_append_right _ (List.mem_singleton_self _), hlater hover⟩
      · exact hold ((hregisters id).2 hover ▸ hid)

variable (A sha id) in
/-- The chain goes on, and calls are made none of which hands over an entry with the id. -/
inductive RunWithout (n : A.Node) (r : Registry) : A.Node → Registry → Prop
  | refl : RunWithout n r n r
  | chain {n' n'' : A.Node} {r' : Registry} (h : RunWithout n r n' r') (hn : A.Happens n' n'') :
    RunWithout n r n'' r'
  | call {n' n'' : A.Node} {r' : Registry} {call : AnchorCall} {a : Answers}
    (h : RunWithout n r n' r') (hid : ¬call.HandsOver r' id) (hs : call.Served A sha r' a n' n'') :
    RunWithout n r n'' (call.perform A sha a r')

lemma RunWithout.keeps {n n' : A.Node} {r' : Registry} (h : RunWithout A sha id n r n' r') :
    ReflTransGen A.Happens n n' ∧ r'.hashRegistry id = r.hashRegistry id := by
  induction h with
  | refl => exact ⟨.refl, rfl⟩
  | chain h hn ih => exact ⟨ih.1.tail hn, ih.2⟩
  | @call n' n'' r' call a h hid hs ih =>
    refine ⟨ih.1.trans hs.happens, Eq.trans ?_ ih.2⟩
    rcases call.registers A sha r' a with ⟨-, hsame⟩ | hregisters
    · rw [hsame]
    · exact (hregisters id).2 hid

end Registered

/-! ### Main result -/

section Verifies

variable {A : AnchorClient} {sha : Sha256} {unknown : String}
  {check : A.Node → JsString → Option Bool}

lemma AnchorClient.verifyLog_digest {n : A.Node} {answers : Bool} {r : Registry}
    {id hash : JsString} {b : Bool} (hid : r.hashRegistry id = some hash) (hdigest : IsDigest hash)
    (hcheck : check n hash = some b) : A.verifyLog unknown check n answers r id =
      if answers = false then ⟨id, false, "Verification request failed"⟩
      else if b = true then ⟨id, true, "Hash found on chain"⟩
      else ⟨id, false, "Hash not on chain"⟩ := by
  simp only [verifyLog, hid, if_neg hdigest.ne_nil, hcheck]
  cases b <;> rfl

variable (A sha) in
/-- What a client can rely on: a log is valid if and only if the hash that is registered for it is on
the chain, only logs that were handed over are, and a log whose transaction was found stays so until
its id is handed over again. -/
structure Verifies (verify : A.Node → Bool → Registry → JsString → VerifyResult) : Prop where
  onChain : ∀ calls n r id answers hash, AnchorRun A sha (fun _ _ _ _ => True) calls n r →
    r.hashRegistry id = some hash → IsDigest hash →
      ((verify n answers r id).valid = true ↔ answers = true ∧ A.OnChain n hash)
  handedOver : ∀ calls n r id answers, AnchorRun A sha (fun _ _ _ _ => True) calls n r →
    (verify n answers r id).valid = true → ∃ call ∈ calls, call.HandsOver r id
  found : ∀ calls n r (call : AnchorCall) a n', AnchorRun A sha (fun _ _ _ _ => True) calls n r →
    call.Served A sha r a n n' → call.Found A sha r a → IsDigest (call.hash sha r) →
    (∀ tx, call.tx A sha r a.ms = .ok tx → A.writes tx = some (bufferFromHex (call.hash sha r))) →
    ∀ id n'' r'', call.HandsOver r id →
      RunWithout A sha id n' (call.perform A sha a r) n'' r'' →
      verify n'' true r'' id = ⟨id, true, "Hash found on chain"⟩

lemma AnchorClient.Tells.verifies (h : A.Tells check) (sha : Sha256) (unknown : String) :
    Verifies A sha (A.verifyLog unknown check) := by
  constructor
  · intro calls n r id answers hash hrun hid hdigest
    obtain ⟨b, hcheck, hb⟩ := h n hrun.reach hash hdigest
    rw [verifyLog_digest hid hdigest hcheck, ← hb]
    cases answers <;> cases b <;> simp
  · intro calls n r id answers hrun hvalid
    cases hid : r.hashRegistry id with
    | none =>
      rw [verifyLog, hid] at hvalid
      cases hvalid
    | some hash => exact hrun.handedOver hid
  · intro calls n r call a n' hrun hs hfound hdigest hwrites id n'' r'' hover hlater
    obtain ⟨hreach, hsame⟩ := hlater.keeps
    have hid : r''.hashRegistry id = some (call.hash sha r) := by
      rw [hsame]
      rcases call.registers A sha r a with ⟨hnot, -⟩ | hregisters
      · exact absurd hfound hnot
      · exact (hregisters id).1 hover
    have honChain : A.OnChain n'' (call.hash sha r) :=
      (onChain_of_found hrun.reach hs hfound (.inr (.inr hwrites))).later hreach
    have hreached := (hrun.reach.trans hs.happens).trans hreach
    obtain ⟨b, hcheck, hb⟩ := h n'' hreached _ hdigest
    rw [verifyLog_digest hid hdigest hcheck, if_pos (hb.mpr honChain)]
    rfl

end Verifies

/-- Over any run of calls on an anchor object, and whatever else happens on its chain: `verifyLog`
finds a log valid if and only if the hash registered for it is on the chain, never finds a log valid
that it was not handed, and finds a log or a batch whose transaction was found valid for as long as
no entry with the id is handed over again. -/
theorem anchors_verify (cfg : ServerConfig) (objectHash : ObjectHash) (mode : AnchorMode) :
    Verifies (ExonumAnchor.client cfg objectHash mode) cfg.sha
        (ExonumAnchor.verifyLog cfg objectHash mode) ∧
      Verifies (EthereumAnchor.client cfg mode) cfg.sha (EthereumAnchor.verifyLog cfg mode) :=
  ⟨(ExonumAnchor.tells cfg objectHash mode).verifies cfg.sha _,
    (EthereumAnchor.tells cfg mode).verifies cfg.sha _⟩

theorem written_log_verifies : ∃ n, EthereumAnchor.verifyLog connectedConfig .full n true
    firstRegistry startedEntry.id = ⟨startedEntry.id, true, "Hash found on chain"⟩ := by
  obtain ⟨n, hn⟩ : ∃ n, includedChain (.genesis logStore) "t" (.writeLog 0 none)
      (.fresh startedObjects) = some n := Option.isSome_iff_exists.mp (by decide +kernel)
  have hhash : (AnchorCall.writeLog 0 none).hash connectedConfig.sha (.fresh startedObjects) =
      connectedConfig.sha.computeLogHash startedEntry := by
    have hfresh : startedEntry.dataHash = [] := rfl
    show connectedConfig.sha.leafHash startedEntry = _
    rw [Sha256.leafHash, if_pos hfresh]
  refine ⟨n, (anchors_verify connectedConfig (fun _ => []) .full).2.found _ _ _ _ _ _
    (.start startedObjects) (served_of_included hn) (found_of_included hn rfl) ?_ ?_ _ _ _
    ⟨0, .head _, rfl⟩ .refl⟩
  · rw [hhash]
    exact Sha256.isDigest_computeLogHash startedEntry
  · rw [hhash]
    exact writes_writeLog rfl

end HybridLog
