import HybridLog.Anchor.Language
import HybridLog.Async.Path
import HybridLog.Storage.Hybrid

/-!
# The summary of a batch

A batch is summarised three times: in its row of the database, in the transaction of the Exonum
anchor and in the call of the Ethereum anchor. The row takes a level that is none of the level names
for `INFO`; the anchors and the counters leave it out.
-/

namespace HybridLog

open Js Async

/-! ### Levels -/

section Levels

variable {entries : List LogEntry}

lemma levelCount_pos_iff {name : String} :
    0 < levelCount entries name ↔ ∃ e ∈ entries, toUpperCase e.level = ofString name := by
  rw [levelCount, List.length_pos_iff_exists_mem]
  simp

/-- Counting by a name more counts the elements of this name besides. -/
lemma countP_mem_cons {α β : Type} (f : α → β) (b : β) {bs : List β} (hb : b ∉ bs)
    [DecidablePred fun a => f a ∈ b :: bs] [DecidablePred fun a => f a = b]
    [DecidablePred fun a => f a ∈ bs] (l : List α) :
    l.countP (f · ∈ b :: bs) = l.countP (f · = b) + l.countP (f · ∈ bs) := by
  induction l with
  | nil => rfl
  | cons a l ih =>
    rw [List.countP_cons, List.countP_cons, List.countP_cons, ih]
    by_cases ha : f a = b
    · have hout : f a ∉ bs := fun h => hb (ha ▸ h)
      simp only [List.mem_cons, ha, true_or, hb, decide_true, decide_false, if_true,
        Bool.false_eq_true, if_false]
      omega
    · simp only [List.mem_cons, ha, false_or, decide_false, Bool.false_eq_true, if_false]
      omega

/-- The counters of a batch in the order of the levels. -/
def levelCounts (entries : List LogEntry) : List ℕ :=
  [levelCount entries "DEBUG", levelCount entries "INFO", levelCount entries "WARN",
    levelCount entries "ERROR", levelCount entries "CRITICAL"]

lemma sum_levelCounts (entries : List LogEntry) : (levelCounts entries).sum =
    entries.countP fun e => toUpperCase e.level ∈ levelNames := by
  have hnone : entries.countP (fun e => toUpperCase e.level ∈ ([] : List JsString)) = 0 := by simp
  rw [levelNames, countP_mem_cons _ _ (by decide), countP_mem_cons _ _ (by decide),
    countP_mem_cons _ _ (by decide), countP_mem_cons _ _ (by decide),
    countP_mem_cons _ _ (by decide), hnone]
  simp only [levelCounts, levelCount, List.countP_eq_length_filter, List.sum_cons, List.sum_nil]
  rfl

/-- The counters count all entries if they have levels. -/
lemma sum_levelCounts_eq_iff : (levelCounts entries).sum = entries.length ↔
    ∀ e ∈ entries, toUpperCase e.level ∈ levelNames := by
  rw [sum_levelCounts, List.countP_eq_length]
  simp

/-- The level is that of an entry, and no entry has a higher one. -/
structure Highest (entries : List LogEntry) (level : JsString) : Prop where
  present : ∃ e ∈ entries, toUpperCase e.level = level
  bound : ∀ e ∈ entries, levelToInt e.level ≤ levelToInt level

/-- The level is taken for the one of the names that it is. -/
lemma intToLevel_of_known {level : JsString} (h : toUpperCase level ∈ levelNames) :
    intToLevel (levelToInt level) = toUpperCase level ∧
      levelToInt (toUpperCase level) = levelToInt level := by
  have hupper : ∀ name ∈ levelNames, toUpperCase name = name := by decide
  have hsame : levelToInt (toUpperCase level) = levelToInt level := by
    rw [levelToInt, levelToInt, hupper _ h]
  refine ⟨?_, hsame⟩
  rw [← hsame]
  exact (intToLevel_levelToInt _).mpr h

lemma Highest.unique {level level' : JsString} (h : Highest entries level)
    (h' : Highest entries level') (hknown : ∀ e ∈ entries, toUpperCase e.level ∈ levelNames) :
    level = level' := by
  obtain ⟨e, he, rfl⟩ := h.present
  obtain ⟨e', he', rfl⟩ := h'.present
  obtain ⟨hback, hsame⟩ := intToLevel_of_known (hknown e he)
  obtain ⟨hback', hsame'⟩ := intToLevel_of_known (hknown e' he')
  have hle := h'.bound e he
  have hge := h.bound e' he'
  rw [hsame'] at hle
  rw [hsame] at hge
  rw [← hback, ← hback', le_antisymm hle hge]

/-! ### The severity of the row -/

lemma foldl_max_le_iff {l : List ℤ} {a b : ℤ} :
    l.foldl max a ≤ b ↔ a ≤ b ∧ ∀ x ∈ l, x ≤ b := by
  induction l generalizing a with
  | nil => simp
  | cons x l ih => simp [ih, and_assoc]

lemma foldl_max_mem (l : List ℤ) (a : ℤ) : l.foldl max a ∈ a :: l := by
  induction l generalizing a with
  | nil => exact List.mem_singleton_self a
  | cons x l ih =>
    rcases List.mem_cons.mp (ih (max a x)) with h | h
    · rw [List.foldl_cons, h]
      rcases max_choice a x with hmax | hmax
      · rw [hmax]
        exact List.mem_cons_self ..
      · rw [hmax]
        exact List.mem_cons_of_mem _ (List.mem_cons_self ..)
    · exact List.mem_cons_of_mem _ (List.mem_cons_of_mem _ h)

lemma levelToInt_nonneg (level : JsString) : 0 ≤ levelToInt level := by
  rw [levelToInt]
  split
  · exact Int.natCast_nonneg _
  · exact zero_le_one

/-- The severity of the row is the level of an entry, and no entry has a higher one. -/
lemma maxSeverity_batchRow (cfg : ServerConfig) (hne : entries ≠ []) :
    (∃ e ∈ entries, levelToInt e.level = (HybridStorage.batchRow cfg entries).maxSeverity) ∧
      ∀ e ∈ entries, levelToInt e.level ≤ (HybridStorage.batchRow cfg entries).maxSeverity := by
  have hbound := (@foldl_max_le_iff (entries.map fun e => levelToInt e.level) 0 _).mp le_rfl
  have hall : ∀ e ∈ entries, levelToInt e.level ≤ (HybridStorage.batchRow cfg entries).maxSeverity :=
    fun e he => hbound.2 _ (List.mem_map_of_mem he)
  refine ⟨?_, hall⟩
  rcases List.mem_cons.mp (foldl_max_mem (entries.map fun e => levelToInt e.level) 0) with h | h
  · obtain ⟨e, he⟩ := List.exists_mem_of_ne_nil entries hne
    exact ⟨e, he, le_antisymm (hall e he) (h.le.trans (levelToInt_nonneg e.level))⟩
  · obtain ⟨e, he, heq⟩ := List.mem_map.mp h
    exact ⟨e, he, heq⟩

lemma highest_batchRow (cfg : ServerConfig) (hne : entries ≠ [])
    (hknown : ∀ e ∈ entries, toUpperCase e.level ∈ levelNames) :
    Highest entries (intToLevel (HybridStorage.batchRow cfg entries).maxSeverity) := by
  obtain ⟨⟨e, he, heq⟩, hall⟩ := maxSeverity_batchRow cfg hne
  obtain ⟨hback, hsame⟩ := intToLevel_of_known (hknown e he)
  rw [← heq] at hall ⊢
  rw [hback]
  constructor
  · exact ⟨e, he, rfl⟩
  · rw [hsame]
    exact hall

/-! ### The severity on the chains -/

/-- The last element with a property is the greatest of those with the property. -/
lemma foldl_last_spec {β : Type} (p : β → Prop) [DecidablePred p] (rank : β → ℤ) (d : β)
    {l : List β} (hl : l.Pairwise fun a b => rank a ≤ rank b) (hex : ∃ b ∈ l, p b) :
    p (l.foldl (fun last b => if p b then b else last) d) ∧
      ∀ b ∈ l, p b → rank b ≤ rank (l.foldl (fun last b => if p b then b else last) d) := by
  induction l using List.reverseRecOn with
  | nil => simp at hex
  | append_singleton l a ih =>
    obtain ⟨hl, -, hlast⟩ := List.pairwise_append.mp hl
    rw [List.foldl_append, List.foldl_cons, List.foldl_nil]
    by_cases ha : p a
    · rw [if_pos ha]
      refine ⟨ha, fun b hb _ => ?_⟩
      rcases List.mem_append.mp hb with hb | hb
      · exact hlast b hb a (List.mem_singleton_self a)
      · rw [List.mem_singleton.mp hb]
    · rw [if_neg ha]
      have hin : ∀ b ∈ l ++ [a], p b → b ∈ l := by
        intro b hb hp
        rcases List.mem_append.mp hb with hb | hb
        · exact hb
        · exact absurd (List.mem_singleton.mp hb ▸ hp) ha
      obtain ⟨b, hb, hp⟩ := hex
      obtain ⟨hlastp, hbound⟩ := ih hl ⟨b, hin b hb hp, hp⟩
      exact ⟨hlastp, fun b hb hp => hbound b (hin b hb hp) hp⟩

lemma highest_maxSeverity (hne : entries ≠ [])
    (hknown : ∀ e ∈ entries, toUpperCase e.level ∈ levelNames) :
    Highest entries (maxSeverity entries) := by
  have hcounted : ∀ e ∈ entries, ∃ name ∈ ["DEBUG", "INFO", "WARN", "ERROR", "CRITICAL"],
      toUpperCase e.level = ofString name := by
    intro e he
    have hmem : toUpperCase e.level ∈ ["DEBUG", "INFO", "WARN", "ERROR", "CRITICAL"].map ofString :=
      hknown e he
    obtain ⟨name, hname, heq⟩ := List.mem_map.mp hmem
    exact ⟨name, hname, heq.symm⟩
  obtain ⟨e, he⟩ := List.exists_mem_of_ne_nil entries hne
  obtain ⟨name, hname, heq⟩ := hcounted e he
  obtain ⟨hpresent, hbound⟩ := foldl_last_spec (fun name => 0 < levelCount entries name)
    (fun name => levelToInt (ofString name)) "DEBUG"
    (l := ["DEBUG", "INFO", "WARN", "ERROR", "CRITICAL"]) (by decide)
    ⟨name, hname, levelCount_pos_iff.mpr ⟨e, he, heq⟩⟩
  constructor
  · exact levelCount_pos_iff.mp hpresent
  · intro e he
    obtain ⟨name, hname, heq⟩ := hcounted e he
    rw [← (intToLevel_of_known (hknown e he)).2, heq]
    exact hbound name hname (levelCount_pos_iff.mpr ⟨e, he, heq⟩)

end Levels

/-! ### Summaries -/

/-- What is told about a batch. -/
structure BatchSummary where
  root : JsString
  startId : JsString
  endId : JsString
  total : ℕ
  /-- The counters in the order of the levels. -/
  counts : List ℕ
  severity : JsString
deriving DecidableEq

def BatchRow.summary (row : BatchRow) : BatchSummary where
  root := row.merkleRoot
  startId := row.startId
  endId := row.endId
  total := row.logCount
  counts := [row.debugCount, row.infoCount, row.warnCount, row.errorCount, row.criticalCount]
  severity := intToLevel row.maxSeverity

def WriteBatchData.summary (d : WriteBatchData) : BatchSummary where
  root := d.contentHash
  startId := d.startId
  endId := d.endId
  total := d.count
  counts := [d.debugCount, d.infoCount, d.warnCount, d.errorCount, d.criticalCount]
  severity := d.maxSeverity

/-- The arguments of a call of the contract for batches. -/
def BatchSummary.callArgs (s : BatchSummary) : List AbiArg :=
  [.text (EthereumAnchor.hashText s.root), .text s.startId, .text s.endId, .number s.total] ++
    s.counts.map .number ++ [.number (EthereumAnchor.levelUint8 s.severity)]

/-- The message of the Exonum anchor for a batch. -/
def ExonumAnchor.batchData (sha : Sha256) (entries : List LogEntry) (seed : ℕ) : WriteBatchData where
  contentHash := sha.computeBatchHash entries
  seed := seed
  startId := startId entries
  endId := endId entries
  count := entries.length
  debugCount := levelCount entries "DEBUG"
  infoCount := levelCount entries "INFO"
  warnCount := levelCount entries "WARN"
  errorCount := levelCount entries "ERROR"
  criticalCount := levelCount entries "CRITICAL"
  maxSeverity := maxSeverity entries

/-- What the anchors tell about a batch. -/
def anchoredSummary (sha : Sha256) (entries : List LogEntry) : BatchSummary :=
  ⟨sha.computeBatchHash entries, startId entries, endId entries, entries.length,
    levelCounts entries, maxSeverity entries⟩

section Summaries

variable {cfg : ServerConfig} {db : Db} {anchor : Anchor} {side : Side} {entries : List LogEntry}
  {opts : Option WriteOpts} {l : List (Turn Req Req.Answer)} {x : Except JsError BatchWriteResult}

/-- The row that is inserted for a batch. -/
lemma HybridStorage.row_inserted
    (h : TaskPath (writeBatch cfg db anchor (.batched side) entries opts) l x) {db' : Db}
    {table : Side} {row : BatchRow} {r : Except JsError Unit}
    (hmem : Turn.call (.insertBatchRecord db' table row) r ∈ l) :
    row = batchRow cfg (entries.map (LogEntry.withHash cfg.sha)) := by
  have hfollows := @writeBatch_follows Unit Unit cfg db anchor side entries opts () []
  obtain ⟨_, hstep⟩ := Follows.path_guard hfollows h hmem
  cases hstep with
  | record => rfl
  | link _ hlink =>
    cases db with
    | postgres => cases hlink
    | mongo =>
      obtain ⟨_, _, _, heq⟩ := hlink
      cases heq
  | anchor _ hanchor =>
    cases hanchor with
    | looks hlooks => exact hlooks.elim

/-- The transaction that is submitted to Exonum for a batch. -/
lemma HybridStorage.batch_submitted
    (h : TaskPath (writeBatch cfg db (.exonum .batch) (.batched side) entries opts) l x)
    {tx : ChainTx} {r : Except JsError TxHash} (hmem : Turn.call (.submit tx) r ∈ l) :
    ∃ d : WriteBatchData, tx = .exonum ⟨.batch, encodeWriteBatch d, cfg.exonumAuthor⟩ ∧
      d.summary = anchoredSummary cfg.sha (entries.map (LogEntry.withHash cfg.sha)) := by
  have hfollows := @writeBatch_follows Unit Unit cfg db (.exonum .batch) side entries opts () []
  obtain ⟨_, hstep⟩ := Follows.path_guard hfollows h hmem
  cases hstep with
  | link _ hlink =>
    cases db with
    | postgres => cases hlink
    | mongo =>
      obtain ⟨_, _, _, heq⟩ := hlink
      cases heq
  | anchor _ hanchor =>
    cases hanchor with
    | looks hlooks => exact hlooks.elim
    | submit hpayload =>
      obtain ⟨ms, htx⟩ := hpayload
      refine ⟨ExonumAnchor.batchData cfg.sha (entries.map (LogEntry.withHash cfg.sha))
        (ExonumAnchor.seedAt ms), ?_, rfl⟩
      exact (Except.ok.inj htx).symm

lemma EthereumAnchor.batch_called (sha : Sha256) (entries : List LogEntry) :
    batchCallArgs sha .batch entries = .ok (anchoredSummary sha entries).callArgs := rfl

/-- The row that `HybridStorage` inserts, the transaction of the Exonum anchor and the call of the
Ethereum anchor tell the same about a batch, which is true of its entries. -/
structure Described (cfg : ServerConfig) (entries : List LogEntry) (s : BatchSummary) : Prop where
  row : ∀ db anchor side opts l x, TaskPath
    (HybridStorage.writeBatch cfg db anchor (.batched side) entries opts) l x →
    ∀ db' table row (r : Except JsError Unit),
      Turn.call (.insertBatchRecord db' table row) r ∈ l → row.summary = s
  exonum : ∀ db side opts l x, TaskPath
    (HybridStorage.writeBatch cfg db (.exonum .batch) (.batched side) entries opts) l x →
    ∀ tx (r : Except JsError TxHash), Turn.call (.submit tx) r ∈ l →
      ∃ d, tx = .exonum ⟨.batch, encodeWriteBatch d, cfg.exonumAuthor⟩ ∧ d.summary = s
  ethereum : EthereumAnchor.batchCallArgs cfg.sha .batch
    (entries.map (LogEntry.withHash cfg.sha)) = .ok s.callArgs
  counted : s.counts.sum = s.total
  highest : Highest entries s.severity

lemma BatchSummary.counts_of_callArgs {s s' : BatchSummary} (h : s.callArgs = s'.callArgs) :
    s.total = s'.total ∧ s.counts = s'.counts := by
  obtain ⟨hhead, -⟩ := List.append_inj' h rfl
  simp only [List.cons_append, List.cons.injEq, AbiArg.number.injEq, List.nil_append] at hhead
  obtain ⟨-, -, -, htotal, hcounts⟩ := hhead
  have hinj : Function.Injective AbiArg.number := fun _ _ h => AbiArg.number.inj h
  exact ⟨htotal, List.map_injective_iff.mpr hinj hcounts⟩

lemma levelCounts_withHash (sha : Sha256) (entries : List LogEntry) :
    levelCounts (entries.map (LogEntry.withHash sha)) = levelCounts entries := by
  have hcount (name : String) :
      levelCount (entries.map (LogEntry.withHash sha)) name = levelCount entries name := by
    rw [levelCount, List.filter_map, List.length_map]
    rfl
  simp only [levelCounts, hcount]

lemma Highest.withHash {sha : Sha256} {level : JsString}
    (h : Highest (entries.map (LogEntry.withHash sha)) level) : Highest entries level := by
  constructor
  · obtain ⟨_, hmem, heq⟩ := h.present
    obtain ⟨e, he, rfl⟩ := List.mem_map.mp hmem
    exact ⟨e, he, heq⟩
  · intro e he
    exact h.bound (e.withHash sha) (List.mem_map_of_mem he)

/-- The summaries of the row and of the anchors are the same if all levels have names. -/
lemma summary_batchRow (cfg : ServerConfig) (hne : entries ≠ [])
    (hknown : ∀ e ∈ entries, toUpperCase e.level ∈ levelNames) :
    (HybridStorage.batchRow cfg entries).summary = anchoredSummary cfg.sha entries := by
  have hseverity : intToLevel (HybridStorage.batchRow cfg entries).maxSeverity =
      maxSeverity entries :=
    (highest_batchRow cfg hne hknown).unique (highest_maxSeverity hne hknown) hknown
  rw [BatchRow.summary, hseverity]
  rfl

/-- A batch is described alike, and as it is, in the database and on the chains exactly if all its
levels are level names, in whatever case. -/
theorem described_iff (cfg : ServerConfig) (entries : List LogEntry) (hne : entries ≠ []) :
    (∃ s, Described cfg entries s) ↔ ∀ e ∈ entries, toUpperCase e.level ∈ levelNames := by
  constructor
  · rintro ⟨s, h⟩
    have hargs := Except.ok.inj (h.ethereum.symm.trans (EthereumAnchor.batch_called _ _))
    obtain ⟨htotal, hcounts⟩ := BatchSummary.counts_of_callArgs hargs
    have hsum := h.counted
    rw [htotal, hcounts, anchoredSummary, levelCounts_withHash, List.length_map] at hsum
    exact sum_levelCounts_eq_iff.mp hsum
  · intro hknown
    have hne' : entries.map (LogEntry.withHash cfg.sha) ≠ [] := by simpa using hne
    have hknown' : ∀ e ∈ entries.map (LogEntry.withHash cfg.sha),
        toUpperCase e.level ∈ levelNames := by
      intro _ hmem
      obtain ⟨e, he, rfl⟩ := List.mem_map.mp hmem
      exact hknown e he
    refine ⟨anchoredSummary cfg.sha (entries.map (LogEntry.withHash cfg.sha)), ?_⟩
    constructor
    · intro db anchor side opts l x h db' table row r hmem
      rw [HybridStorage.row_inserted h hmem]
      exact summary_batchRow cfg hne' hknown'
    · intro db side opts l x h tx r hmem
      exact HybridStorage.batch_submitted h hmem
    · exact EthereumAnchor.batch_called _ _
    · exact sum_levelCounts_eq_iff.mpr hknown'
    · exact (highest_maxSeverity hne' hknown').withHash

/-- Two entries, the level of one of which is in lower case. -/
def warnBatch : List LogEntry :=
  [.create [] .epoch (ofString "warn") [] [] none, .create [] .epoch (ofString "ERROR") [] [] none]

/-- This batch is described as it is. -/
theorem warn_described : (∃ s, Described connectedConfig warnBatch s) :=
  (described_iff connectedConfig warnBatch (List.cons_ne_nil _ _)).mpr (by decide)

/-- An entry at the lowest level and one at a level without name. -/
def noticeBatch : List LogEntry :=
  [.create [] .epoch (ofString "DEBUG") [] [] none, .create [] .epoch (ofString "NOTICE") [] [] none]

/-- The counters of this batch leave an entry out, and its severity is `INFO` in the row and `DEBUG`
on the chains. -/
theorem notice_not_described : (¬∃ s, Described connectedConfig noticeBatch s) ∧
    (HybridStorage.batchRow connectedConfig noticeBatch).summary.severity = ofString "INFO" ∧
    (anchoredSummary connectedConfig.sha noticeBatch).severity = ofString "DEBUG" := by
  refine ⟨?_, by decide, by decide⟩
  rintro ⟨s, h⟩
  have hargs := Except.ok.inj (h.ethereum.symm.trans (EthereumAnchor.batch_called _ _))
  obtain ⟨htotal, hcounts⟩ := BatchSummary.counts_of_callArgs hargs
  have hsum := h.counted
  rw [htotal, hcounts] at hsum
  exact absurd hsum (by decide)

end Summaries

end HybridLog
