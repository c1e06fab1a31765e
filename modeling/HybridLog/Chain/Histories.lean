import HybridLog.Chain.Stores

/-!
# What the contracts keep

Each contract keeps a ledger of its accepted calls. From it come the coherence of its variables and
the chain of hashes over what an account has written, whatever the other accounts do in between.
-/

namespace HybridLog

open Ledger

/-- A call of `write` in its block. -/
abbrev StoreCall (A : Type) := BlockContext × A

/-- `sha256(abi.encode(prevHistory, contentHash))` -/
def Sha256.link (sha : Sha256) (prevHistory contentHash : Bytes) : Bytes :=
  sha.digest (prevHistory ++ contentHash)

/-- The hash of a history. -/
def Sha256.historyHash (sha : Sha256) (ks : List Bytes) : Bytes :=
  chain sha.link LogStore.zeroBytes32 ks

/-! ### The ledger of a contract -/

section Contract

variable {A R : Type} (c : StoreContract A R) (sha : Sha256)

/-- The entry of an accepted call. -/
def StoreContract.entry (call : StoreCall A) : Entry Bytes Bytes (StoreCall A) :=
  ⟨c.key call.2, call.1.sender, call⟩

/-- The record of an entry that follows others. -/
def StoreContract.recordOf (before : List (Entry Bytes Bytes (StoreCall A)))
    (e : Entry Bytes Bytes (StoreCall A)) : R :=
  c.record e.value.1 e.value.2 ((history before e.account).length + 1)
    (sha.historyHash (keys (history before e.account) ++ [e.key]))

/-- The variables of a contract are those of a ledger. -/
structure ContractStore.Holds (s : ContractStore R) (l : List (Entry Bytes Bytes (StoreCall A))) :
    Prop where
  ordered : s.ordered = keys l
  count : s.count = l.length
  absent : ∀ k ∉ keys l, s.records k = c.blank
  record : ∀ pre e post, l = pre ++ e :: post → s.records e.key = c.recordOf sha pre e
  stamped : ∀ e ∈ l, 0 < e.value.1.timestamp
  historyLen : ∀ a, s.submitterHistoryLen a = (history l a).length
  historyHash : ∀ a, s.submitterHistoryHash a = sha.historyHash (keys (history l a))

variable {c sha} {s : ContractStore R} {l : List (Entry Bytes Bytes (StoreCall A))}

lemma ContractStore.Holds.exists_iff (h : s.Holds c sha l) (k : Bytes) :
    s.recordExists c k ↔ k ∈ keys l := by
  rw [recordExists]
  constructor
  · intro hk
    by_contra hnew
    rw [h.absent k hnew, c.timestamp_blank] at hk
    exact hk rfl
  · intro hk
    obtain ⟨e, he, rfl⟩ := List.mem_map.mp hk
    obtain ⟨pre, post, hsplit⟩ := List.append_of_mem he
    rw [h.record pre e post hsplit, StoreContract.recordOf, c.timestamp_record]
    exact (h.stamped e he).ne'

lemma ContractStore.Holds.deployed : (ContractStore.deployed c).Holds c sha [] := by
  constructor
  · rfl
  · rfl
  · exact fun _ _ => rfl
  · intro pre e post h
    simp at h
  · intro e he
    cases he
  · exact fun _ => rfl
  · exact fun _ => rfl

/-- A write adds its entry. -/
lemma ContractStore.Holds.write (h : s.Holds c sha l) {call : StoreCall A}
    (htime : 0 < call.1.timestamp) {s' : ContractStore R}
    (hw : s.write c sha call.1 call.2 = some s') : s'.Holds c sha (l ++ [c.entry call]) := by
  rw [ContractStore.write] at hw
  split at hw
  · cases hw
  next hnew =>
  rw [h.exists_iff] at hnew
  cases hw
  have hhistory (a : Bytes) : history (l ++ [c.entry call]) a =
      if a = call.1.sender then history l a ++ [c.entry call] else history l a :=
    history_concat l (c.entry call) a
  constructor
  · rw [keys_append, ← h.ordered]
    rfl
  · rw [List.length_append, ← h.count]
    rfl
  · intro k hk
    rw [keys_append, List.mem_append, not_or] at hk
    have hne : k ≠ c.key call.2 := List.ne_of_not_mem_cons hk.2
    dsimp only
    rw [Function.update_of_ne hne]
    exact h.absent k hk.1
  · intro pre e post hsplit
    dsimp only
    rcases List.eq_nil_or_concat post with rfl | ⟨post, last, rfl⟩
    · obtain ⟨rfl, he⟩ := List.append_inj' hsplit rfl
      obtain rfl := List.singleton_inj.mp he
      refine (Function.update_self ..).trans ?_
      rw [StoreContract.recordOf, h.historyLen, h.historyHash, Sha256.historyHash,
        Sha256.historyHash, chain_concat]
      rfl
    · rw [List.concat_eq_append, ← List.cons_append, ← List.append_assoc] at hsplit
      obtain ⟨rfl, -⟩ := List.append_inj' hsplit rfl
      have hne : e.key ≠ c.key call.2 := by
        intro heq
        apply hnew
        rw [← heq]
        exact key_mem_keys (by simp)
      rw [Function.update_of_ne hne]
      exact h.record pre e post rfl
  · intro e he
    rcases List.mem_append.mp he with he | he
    · exact h.stamped e he
    · obtain rfl := List.mem_singleton.mp he
      exact htime
  · intro a
    rw [hhistory]
    dsimp only
    split
    · next ha =>
      subst ha
      rw [Function.update_self, h.historyLen, List.length_append, List.length_singleton]
    · next ha => rw [Function.update_of_ne ha, h.historyLen]
  · intro a
    rw [hhistory]
    dsimp only
    split
    · next ha =>
      subst ha
      rw [Function.update_self, h.historyHash, keys_append, keys_singleton, Sha256.historyHash,
        Sha256.historyHash, chain_concat]
      rfl
    · next ha => rw [Function.update_of_ne ha, h.historyHash]

end Contract

namespace OnChainStore

variable {S A R : Type} (m : OnChainStore S A R) (sha : Sha256)

/-- One call of `write`. -/
def call (s : S) (x : StoreCall A) : Option S := m.write sha s x.1 x.2

/-- The storage after some calls from the deployment on. -/
def after (calls : List (StoreCall A)) : S := run (m.call sha) m.deployed calls

/-- The calls that do not revert. -/
def accepted (calls : List (StoreCall A)) : List (StoreCall A) :=
  Ledger.accepted (m.call sha) m.deployed calls

/-- Every call happens after the start of the Unix epoch. -/
def Stamped (calls : List (StoreCall A)) : Prop := ∀ x ∈ calls, 0 < x.1.timestamp

lemma isSome_call (s : S) (x : StoreCall A) :
    (m.call sha s x).isSome ↔ ¬(m.view s).recordExists m.contract (m.contract.key x.2) := by
  have hview := m.view_write sha s x.1 x.2
  rw [ContractStore.write] at hview
  rw [call, ← Option.isSome_map (f := m.view), hview]
  split
  · next h => simp [h]
  · next h => simp [h]

lemma keepsLedger : Keeps (fun x => 0 < x.1.timestamp) (fun x => some (m.contract.entry x))
    (m.call sha) (fun s l => (m.view s).Holds m.contract sha l) where
  accepts {s l x} h _ := by
    rw [isSome_call, h.exists_iff]
    constructor
    · exact fun hnew => ⟨_, rfl, hnew⟩
    · rintro ⟨e, he, hnew⟩
      cases he
      exact hnew
  appends {s l x s' e} h htime hcall he := by
    have hview := m.view_write sha s x.1 x.2
    rw [call] at hcall
    rw [hcall] at hview
    cases he
    exact h.write htime hview.symm

lemma holds_deployed : (m.view m.deployed).Holds m.contract sha [] := by
  rw [m.view_deployed]
  exact .deployed

variable {m sha} {calls : List (StoreCall A)}

/-- The variables of a contract are those of the ledger of its accepted calls. -/
theorem holds_after (m : OnChainStore S A R) (sha : Sha256) (h : Stamped calls) :
    (m.view (m.after sha calls)).Holds m.contract sha
      ((m.accepted sha calls).map m.contract.entry) := by
  have hledger := ((m.keepsLedger sha).ledger (m.holds_deployed sha) h).1
  rwa [List.filterMap_eq_map'] at hledger

lemma keys_entries (calls : List (StoreCall A)) :
    keys (calls.map m.contract.entry) = calls.map fun x => m.contract.key x.2 := List.map_map

lemma nodup_accepted (h : Stamped calls) :
    ((m.accepted sha calls).map fun x => m.contract.key x.2).Nodup := by
  have hledger := ((m.keepsLedger sha).ledger (m.holds_deployed sha) h).2
  rw [List.filterMap_eq_map'] at hledger
  rwa [← keys_entries]

/-- What an accepted call adds, before other calls follow. -/
lemma accepted_split {pre : List (StoreCall A)} (post : List (StoreCall A)) {x : StoreCall A}
    (hx : (m.call sha (m.after sha pre) x).isSome) :
    ∃ rest, m.accepted sha (pre ++ x :: post) = m.accepted sha pre ++ x :: rest := by
  obtain ⟨s', hs'⟩ := Option.isSome_iff_exists.mp hx
  exact ⟨Ledger.accepted (m.call sha) s' post, Ledger.accepted_split hs'⟩

/-- The calls of an account that do not revert. -/
def acceptedBy (m : OnChainStore S A R) (sha : Sha256) (calls : List (StoreCall A)) (a : Bytes) :
    List (StoreCall A) := (m.accepted sha calls).filter fun x => x.1.sender = a

lemma history_entries (calls : List (StoreCall A)) (a : Bytes) :
    history (calls.map m.contract.entry) a =
      (calls.filter fun x => x.1.sender = a).map m.contract.entry := by
  rw [history, List.filter_map]
  rfl

/-- The record of an accepted call, at the end of a run. -/
lemma record_after {pre post : List (StoreCall A)} {x : StoreCall A}
    (h : Stamped (pre ++ x :: post)) (hx : (m.call sha (m.after sha pre) x).isSome) :
    (m.view (m.after sha (pre ++ x :: post))).getRecord m.contract (m.contract.key x.2) =
      some (m.contract.record x.1 x.2 ((m.acceptedBy sha pre x.1.sender).length + 1)
        (sha.historyHash (((m.acceptedBy sha pre x.1.sender).map fun y => m.contract.key y.2) ++
          [m.contract.key x.2]))) := by
  have hholds := holds_after m sha h
  obtain ⟨rest, hrest⟩ := accepted_split post hx
  rw [hrest, List.map_append, List.map_cons] at hholds
  have hexists : (m.view (m.after sha (pre ++ x :: post))).recordExists m.contract
      (m.contract.key x.2) := by
    rw [hholds.exists_iff]
    exact key_mem_keys (e := m.contract.entry x) (by simp)
  rw [ContractStore.getRecord, if_pos hexists]
  refine congrArg some ((hholds.record _ _ _ rfl).trans ?_)
  rw [StoreContract.recordOf, history_entries, List.length_map, keys_entries]
  rfl

/-! ### Coherence -/

/-- The variables of a contract tell the same after some calls: which keys have a record, in which
order they came, how many there are, and what was first written under each. -/
structure Coherent (m : OnChainStore S A R) (sha : Sha256) (calls : List (StoreCall A)) : Prop where
  /-- The array lists the keys of the accepted calls in their order. -/
  ordered : (m.view (m.after sha calls)).ordered =
    (m.accepted sha calls).map fun x => m.contract.key x.2
  nodup : (m.view (m.after sha calls)).ordered.Nodup
  stamped : ∀ k, k ∈ (m.view (m.after sha calls)).ordered ↔
    m.contract.timestamp ((m.view (m.after sha calls)).records k) ≠ 0
  count : (m.view (m.after sha calls)).count = (m.view (m.after sha calls)).ordered.length
  exists_iff : ∀ k, (m.view (m.after sha calls)).recordExists m.contract k ↔
    k ∈ (m.view (m.after sha calls)).ordered
  getRecord_iff : ∀ k, ((m.view (m.after sha calls)).getRecord m.contract k).isSome ↔
    k ∈ (m.view (m.after sha calls)).ordered
  /-- A record has the values of its call, and stays as it was written. -/
  kept : ∀ pre x post, calls = pre ++ x :: post → (m.call sha (m.after sha pre) x).isSome →
    ∃ len hash, (m.view (m.after sha (pre ++ [x]))).getRecord m.contract (m.contract.key x.2) =
        some (m.contract.record x.1 x.2 len hash) ∧
      (m.view (m.after sha calls)).getRecord m.contract (m.contract.key x.2) =
        some (m.contract.record x.1 x.2 len hash)
  reverted : ∀ pre x post, calls = pre ++ x :: post → m.call sha (m.after sha pre) x = none →
    m.after sha (pre ++ [x]) = m.after sha pre

/-- A contract is coherent after any calls. -/
def AppendOnly (m : OnChainStore S A R) (sha : Sha256) : Prop :=
  ∀ calls : List (StoreCall A), Stamped calls → m.Coherent sha calls

lemma appendOnly (m : OnChainStore S A R) (sha : Sha256) : m.AppendOnly sha := by
  intro calls h
  have hholds := holds_after m sha h
  have hordered := hholds.ordered
  rw [keys_entries] at hordered
  have hexists (k : Bytes) : (m.view (m.after sha calls)).recordExists m.contract k ↔
      k ∈ (m.view (m.after sha calls)).ordered := by
    rw [hholds.exists_iff, hholds.ordered]
  constructor
  · exact hordered
  · rw [hordered]
    exact nodup_accepted h
  · exact fun k => (hexists k).symm
  · rw [hholds.count, hholds.ordered, length_keys]
  · exact hexists
  · intro k
    rw [← hexists, ContractStore.getRecord]
    split
    · next hk => simp [hk]
    · next hk => simp [hk]
  · rintro pre x post rfl hx
    have hbefore : Stamped (pre ++ [x]) := by
      intro y hy
      rcases List.mem_append.mp hy with hy | hy
      · exact h y (List.mem_append_left _ hy)
      · exact h y (List.mem_append_right _ (List.mem_singleton.mp hy ▸ List.mem_cons_self ..))
    exact ⟨_, _, record_after hbefore hx, record_after h hx⟩
  · intro pre x post _ hx
    rw [after, run_append, run_cons, run_nil, ← after, hx, Option.getD_none]

end OnChainStore

/-- The three contracts are append-only, free of duplicates and coherent. -/
theorem stores_append_only (sha : Sha256) :
    logStore.AppendOnly sha ∧ hashStore.AppendOnly sha ∧ batchStore.AppendOnly sha :=
  ⟨logStore.appendOnly sha, hashStore.appendOnly sha, batchStore.appendOnly sha⟩

/-! ### Histories -/

namespace OnChainStore

variable {S A R : Type}

/-- What is hashed for the histories of the accounts. -/
def hashedFor (m : OnChainStore S A R) (sha : Sha256) (calls : List (StoreCall A)) : Set Bytes :=
  {x | ∃ a pre post key, ((m.acceptedBy sha calls a).map fun y => m.contract.key y.2) =
    pre ++ key :: post ∧ x = sha.historyHash pre ++ key}

/-- The keys an account has written before a call, and that of the call. -/
def keysBehind (m : OnChainStore S A R) (sha : Sha256) (pre : List (StoreCall A))
    (x : StoreCall A) : List Bytes :=
  ((m.acceptedBy sha pre x.1.sender).map fun y => m.contract.key y.2) ++ [m.contract.key x.2]

/-- The histories of a contract commit to what each account has written: the record of an account's
`k`th accepted write has the length `k` and the hash over its first `k` keys, and if no two of the
texts hashed in two runs collide, records with the same length and hash have the same keys behind
them. -/
structure Commits (m : OnChainStore S A R) (sha : Sha256) : Prop where
  recorded : ∀ pre x post, Stamped (pre ++ x :: post) → (m.call sha (m.after sha pre) x).isSome →
    ∃ r, (m.view (m.after sha (pre ++ x :: post))).getRecord m.contract (m.contract.key x.2) =
        some r ∧ m.contract.historyLen r = (m.keysBehind sha pre x).length ∧
      m.contract.historyHash r = sha.historyHash (m.keysBehind sha pre x)
  binding : ∀ pre x post pre' x' post' r r',
    Stamped (pre ++ x :: post) → Stamped (pre' ++ x' :: post') →
    (m.call sha (m.after sha pre) x).isSome → (m.call sha (m.after sha pre') x').isSome →
    Set.InjOn sha.digest
      (m.hashedFor sha (pre ++ x :: post) ∪ m.hashedFor sha (pre' ++ x' :: post')) →
    (m.view (m.after sha (pre ++ x :: post))).getRecord m.contract (m.contract.key x.2) =
      some r →
    (m.view (m.after sha (pre' ++ x' :: post'))).getRecord m.contract (m.contract.key x'.2) =
      some r' →
    m.contract.historyLen r = m.contract.historyLen r' →
    m.contract.historyHash r = m.contract.historyHash r' →
      m.keysBehind sha pre x = m.keysBehind sha pre' x'

variable {m : OnChainStore S A R} {sha : Sha256}

lemma recorded_after {pre post : List (StoreCall A)} {x : StoreCall A}
    (h : Stamped (pre ++ x :: post)) (hx : (m.call sha (m.after sha pre) x).isSome) :
    ∃ r, (m.view (m.after sha (pre ++ x :: post))).getRecord m.contract (m.contract.key x.2) =
        some r ∧ m.contract.historyLen r = (m.keysBehind sha pre x).length ∧
      m.contract.historyHash r = sha.historyHash (m.keysBehind sha pre x) := by
  refine ⟨_, record_after h hx, ?_, ?_⟩
  · rw [m.contract.historyLen_record, keysBehind, List.length_append, List.length_map,
      List.length_singleton]
  · rw [m.contract.historyHash_record, keysBehind]

/-- The keys behind a call are the first of those its account has written in the end. -/
lemma keysBehind_initial {pre : List (StoreCall A)} (post : List (StoreCall A)) {x : StoreCall A}
    (hx : (m.call sha (m.after sha pre) x).isSome) :
    m.keysBehind sha pre x <+: (m.acceptedBy sha (pre ++ x :: post) x.1.sender).map
      fun y => m.contract.key y.2 := by
  obtain ⟨rest, hrest⟩ := accepted_split post hx
  rw [acceptedBy, hrest, List.filter_append, List.filter_cons, if_pos (by simp), List.map_append,
    List.map_cons, keysBehind]
  exact ⟨(rest.filter fun y => y.1.sender = x.1.sender).map fun y => m.contract.key y.2,
    by simp [acceptedBy]⟩

/-- What is hashed on the way to a record is hashed for its account. -/
lemma mem_hashedFor {pre post : List (StoreCall A)} {x : StoreCall A}
    (hx : (m.call sha (m.after sha pre) x).isSome) {p : Bytes × Bytes}
    (hp : Chained sha.link LogStore.zeroBytes32 (m.keysBehind sha pre x) p) :
    p.1 ++ p.2 ∈ m.hashedFor sha (pre ++ x :: post) := by
  obtain ⟨more, hmore⟩ := keysBehind_initial post hx
  obtain ⟨before, behind, hsplit, hp⟩ := hp
  refine ⟨x.1.sender, before, behind ++ more, p.2, ?_, ?_⟩
  · rw [← hmore, hsplit]
    simp
  · rw [hp, Sha256.historyHash]

lemma historyHash_length (sha : Sha256) (ks : List Bytes) : (sha.historyHash ks).length = 32 := by
  rcases List.eq_nil_or_concat ks with rfl | ⟨ks, k, rfl⟩
  · rfl
  · rw [List.concat_eq_append, Sha256.historyHash, chain_concat]
    exact sha.length_digest _

lemma length_of_chained {ks : List Bytes} {p : Bytes × Bytes}
    (hp : Chained sha.link LogStore.zeroBytes32 ks p) : p.1.length = 32 := by
  obtain ⟨before, _, _, hp⟩ := hp
  rw [hp]
  exact historyHash_length sha before

lemma commits (m : OnChainStore S A R) (sha : Sha256) : m.Commits sha := by
  constructor
  · intro pre x post h hx
    exact recorded_after h hx
  intro pre x post pre' x' post' r r' h h' hx hx' hinj hr hr' hlen hhash
  obtain ⟨r₁, hr₁, hlen₁, hhash₁⟩ := recorded_after h hx
  obtain ⟨r₂, hr₂, hlen₂, hhash₂⟩ := recorded_after h' hx'
  obtain rfl : r₁ = r := Option.some.inj (hr₁.symm.trans hr)
  obtain rfl : r₂ = r' := Option.some.inj (hr₂.symm.trans hr')
  apply chain_injective
  · rw [← hlen₁, ← hlen₂, hlen]
  · exact hhash₁.symm.trans (hhash.trans hhash₂)
  · -- equal digests come from equal texts, and the hash before a key has a fixed length
    intro p hp q hq heq
    have htext := hinj (hp.imp (mem_hashedFor hx) (mem_hashedFor hx'))
      (hq.imp (mem_hashedFor hx) (mem_hashedFor hx')) heq
    have hsize : p.1.length = q.1.length :=
      (hp.elim length_of_chained length_of_chained).trans
        (hq.elim length_of_chained length_of_chained).symm
    obtain ⟨hfst, hsnd⟩ := List.append_inj htext hsize
    exact Prod.ext hfst hsnd

end OnChainStore

/-- The history chains of the three contracts commit to the whole history of each account. -/
theorem histories_commit (sha : Sha256) :
    logStore.Commits sha ∧ hashStore.Commits sha ∧ batchStore.Commits sha :=
  ⟨logStore.commits sha, hashStore.commits sha, batchStore.commits sha⟩

end HybridLog
