import HybridLog.Core.HashService

/-!
# Rows of the log and batch tables

Both adapters store a level as an integer and give back one of the five level names. Columns that
no modelled function reads (`created_at`, `anchor_block`) are left out.
-/

namespace HybridLog

open Js

/-! ### Levels -/

/-- `LogLevel.INFO` -/
def infoLevel : JsString := ofString "INFO"

/-- The level names in the order of their integers. -/
def levelNames : List JsString :=
  [ofString "DEBUG", infoLevel, ofString "WARN", ofString "ERROR", ofString "CRITICAL"]

/-- Upper case of a code unit. Of the units whose upper case is a single ASCII letter none is left
out; the ligatures, whose upper case is several letters, occur in no level name. -/
def upperUnit (c : UInt16) : UInt16 :=
  if 0x61 ≤ c.toNat ∧ c.toNat ≤ 0x7a then c - 0x20
  else if c = 0x131 then 0x49
  else if c = 0x17f then 0x53
  else c

/-- `toUpperCase`, as far as a comparison with the level names can tell. -/
def toUpperCase (s : JsString) : JsString := s.map upperUnit

/-- `LEVEL_TO_INT[level.toUpperCase()] ?? 1` -/
def levelToInt (level : JsString) : ℤ :=
  match levelNames.idxOf? (toUpperCase level) with
  | some i => i
  | none => 1

/-- `INT_TO_LEVEL[n] ?? LogLevel.INFO` -/
def intToLevel (n : ℤ) : JsString :=
  if n < 0 then infoLevel else levelNames.getD n.toNat infoLevel

lemma intToLevel_mem (n : ℤ) : intToLevel n ∈ levelNames := by
  rw [intToLevel]
  split
  · exact List.mem_cons_of_mem _ (List.mem_cons_self ..)
  · rw [List.getD_eq_getElem?_getD]
    cases h : levelNames[n.toNat]? with
    | none => exact List.mem_cons_of_mem _ (List.mem_cons_self ..)
    | some s => exact List.mem_of_getElem? h

/-- A level survives its encoding exactly if it is one of the level names. -/
theorem intToLevel_levelToInt (level : JsString) :
    intToLevel (levelToInt level) = level ↔ level ∈ levelNames := by
  constructor
  · intro h
    rw [← h]
    exact intToLevel_mem _
  · intro h
    have hall : ∀ l ∈ levelNames, intToLevel (levelToInt l) = l := by decide
    exact hall level h

/-! ### Tables -/

inductive Db
  | postgres
  | mongo
deriving DecidableEq

/-- The suffix of a pair of tables: `_private` or `_public`. -/
inductive Side
  | priv
  | pub
deriving DecidableEq

inductive LogTable
  | offchain
  | anchored (s : Side)
  | batched (s : Side)
deriving DecidableEq

inductive AnchorStatus
  | pending
  | confirmed
  | failed
deriving DecidableEq

abbrev TxHash := String

/-- The value of a JSON column. PostgreSQL keeps all digits of a number. -/
abbrev JsonColumn : Type := {j : Json // j.Distinct}

/-- `{}` -/
def emptyColumn : JsonColumn := ⟨.obj [], List.nodup_nil, trivial⟩

/-- The value that the driver makes of a column. -/
def JsonColumn.parsed (c : JsonColumn) : JsonValue :=
  ⟨c.val.rounded, distinct_rounded c.property, doubles_rounded c.val⟩

/-- A row of a log table; a column that the table lacks is empty. -/
structure LogRow where
  id : JsString
  timestamp : ℤ
  level : ℤ
  source : JsString
  message : JsString
  metadata : JsonColumn
  contentHash : JsString
  anchorStatus : Option AnchorStatus
  anchorTxHash : Option TxHash
  anchoredAt : Option ℤ
  batchRoot : Option JsString
  leafIndex : Option ℤ

/-- A row of a table `batches_*`. -/
structure BatchRow where
  merkleRoot : JsString
  startId : JsString
  endId : JsString
  logCount : ℕ
  debugCount : ℕ
  infoCount : ℕ
  warnCount : ℕ
  errorCount : ℕ
  criticalCount : ℕ
  maxSeverity : ℤ
  anchorStatus : AnchorStatus
  anchorTxHash : Option TxHash
  anchoredAt : Option ℤ

/-- The tables of one database. -/
structure Database where
  logs : LogTable → List LogRow
  batches : Side → List BatchRow

def Database.empty : Database := ⟨fun _ => [], fun _ => []⟩

/-! ### Writing a row -/

/-- What a database may keep of a JSON value: PostgreSQL is handed its text, and MongoDB the value
itself, the strings of which are encoded to UTF-8. -/
def Db.encodeJson : Db → Json → Json
  | .postgres, j => j.finite
  | .mongo, j => j.toWellFormed

mutual

lemma distinct_finite : ∀ {j : Json}, j.Distinct → j.finite.Distinct
  | .null, _ | .bool _, _ | .str _, _ | .num .zero, _ | .num (.fin _), _ | .num (.inf _), _ =>
    trivial
  | .arr _, h => distinct_finiteElems h
  | .obj ms, h => by
    have hkeys : (finiteMembers ms).map Prod.fst = ms.map Prod.fst := keys_finiteMembers ms
    exact ⟨hkeys ▸ h.1, distinct_finiteMembers h.2⟩

lemma distinct_finiteElems : ∀ {xs : List Json}, DistinctElems xs → DistinctElems (finiteElems xs)
  | [], _ => trivial
  | _ :: _, h => ⟨distinct_finite h.1, distinct_finiteElems h.2⟩

lemma distinct_finiteMembers : ∀ {ms : List (JsString × Json)}, DistinctMembers ms →
    DistinctMembers (finiteMembers ms)
  | [], _ => trivial
  | (_, _) :: _, h => ⟨distinct_finite h.1, distinct_finiteMembers h.2⟩

lemma keys_finiteMembers : ∀ ms : List (JsString × Json),
    (finiteMembers ms).map Prod.fst = ms.map Prod.fst
  | [] => rfl
  | (_, _) :: ms => by rw [finiteMembers, List.map_cons, List.map_cons, keys_finiteMembers ms]

end

def Db.encodeMetadata (db : Db) (m : JsonValue) : JsonColumn :=
  ⟨db.encodeJson m.val, match db with
    | .postgres => distinct_finite m.distinct
    | .mongo => distinct_toWellFormed m.val⟩

@[simp] lemma encodeMetadata_val (db : Db) (m : JsonValue) :
    (db.encodeMetadata m).val = db.encodeJson m.val := rfl

/-- What is handed to a database are doubles. -/
lemma parsed_encodeMetadata (db : Db) (m : JsonValue) :
    (db.encodeMetadata m).parsed.val = db.encodeJson m.val := by
  refine rounded_eq_self (j := db.encodeJson m.val) ?_
  cases db with
  | postgres => exact doubles_finite m.doubles
  | mongo => exact doubles_toWellFormed m.doubles

/-- The columns of an entry that every log table has. The texts are encoded to UTF-8, for which ids
and hashes are taken to be well formed. -/
def entryRow (db : Db) (log : LogEntry) (contentHash : JsString) : LogRow where
  id := log.id
  timestamp := log.timestamp.ms
  level := levelToInt log.level
  source := toWellFormed log.source
  message := toWellFormed log.message
  metadata := db.encodeMetadata log.metadata
  contentHash := contentHash
  anchorStatus := none
  anchorTxHash := none
  anchoredAt := none
  batchRoot := none
  leafIndex := none

/-- The row of `insertOffchain`. -/
def offchainRow (db : Db) (log : LogEntry) : LogRow := entryRow db log []

/-- The row of `insertAnchored`. PostgreSQL fills in the status by the default of the column; a
table without the column leaves it empty. -/
def anchoredRow (db : Db) (log : LogEntry) (contentHash : JsString) (table : LogTable) : LogRow :=
  { entryRow db log contentHash with
    anchorStatus := match db, table with
      | .postgres, .anchored _ => some .pending
      | .postgres, _ => none
      | .mongo, _ => some .pending }

/-- The row of `insertBatched`. -/
def batchedRow (db : Db) (log : LogEntry) (contentHash : JsString) : LogRow :=
  entryRow db log contentHash

/-! ### Reading a row -/

/-- `new Date(n)`, if the date is valid. -/
def dateOf (n : ℤ) : Option JsDate :=
  if h : -8640000000000000 ≤ n ∧ n ≤ 8640000000000000 then some ⟨n, h⟩ else none

/-- The entry rebuilt from a row to recompute its hash. -/
def LogRow.entryAt (r : LogRow) (timestamp : JsDate) : LogEntry where
  id := r.id
  timestamp := timestamp
  level := intToLevel r.level
  source := r.source
  message := r.message
  metadata := metadataOrEmpty (some r.metadata.parsed)
  dataHash := []

/-- There is no such entry if the date is invalid, in which case hashing throws. -/
def LogRow.rebuilt? (r : LogRow) : Option LogEntry := (dateOf r.timestamp).map r.entryAt

/-- The hash recomputed from the columns of a row. -/
def LogRow.recomputed? (sha : Sha256) (r : LogRow) : Option JsString :=
  r.rebuilt?.map sha.computeLogHash

@[simp] lemma dateOf_ms (t : JsDate) : dateOf t.ms = some t := by
  obtain ⟨ms, h⟩ := t
  rw [dateOf, dif_pos h]

/-- The row with id `id`, if there is one. -/
def Database.findById (d : Database) (table : LogTable) (id : JsString) : Option LogRow :=
  (d.logs table).find? fun r => r.id = id

/-- Where ids are unique, each row is the one found under its id. -/
lemma Database.findById_eq {d : Database} {table : LogTable} {r : LogRow}
    (hid : ((d.logs table).map LogRow.id).Nodup) (hr : r ∈ d.logs table) :
    d.findById table r.id = some r := by
  rw [Database.findById]
  cases hf : (d.logs table).find? (fun r' => r'.id = r.id) with
  | none => simpa using List.find?_eq_none.mp hf r hr
  | some r' =>
    have hr' := List.mem_of_find?_eq_some hf
    have hid' : r'.id = r.id := by simpa using List.find?_some hf
    rw [List.inj_on_of_nodup_map hid hr' hr hid']

end HybridLog
