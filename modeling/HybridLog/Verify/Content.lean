import HybridLog.Verify.Endpoints

/-!
# What verification of a single row can and cannot see

A stored row is accepted exactly if its columns, as they are read back, give the hash it carries.
What stands between the columns and the hash: the integer of the level, which is read as `INFO`
unless it is one of five; the numbers of the metadata, which are read as doubles; `metadata ?? {}`;
and the canonical text of the metadata. A log is not even stored with its own texts if these are not
well formed.
-/

namespace HybridLog

open Js

/-- The byte strings that are hashed to verify a row. -/
def LogRow.hashed (r : LogRow) : Set Bytes :=
  {b | ∃ e, r.rebuilt? = some e ∧ b = utf8 e.toHashableString}

lemma consistent_iff {sha : Sha256} {r : LogRow} :
    r.Consistent sha ↔ ∃ e, r.rebuilt? = some e ∧ sha.computeLogHash e = r.contentHash := by
  rw [LogRow.Consistent, LogRow.recomputed?, Option.map_eq_some_iff]

lemma computeLogHash_eq_iff {sha : Sha256} {e e' : LogEntry} {B : Set Bytes}
    (hinj : Set.InjOn sha.digest B) (he : utf8 e.toHashableString ∈ B)
    (he' : utf8 e'.toHashableString ∈ B) :
    sha.computeLogHash e = sha.computeLogHash e' ↔
      utf8 e.toHashableString = utf8 e'.toHashableString :=
  ⟨fun h => hinj he he' (toHex_injective h), fun h => by
    rw [Sha256.computeLogHash, Sha256.computeLogHash, Sha256.sha256, Sha256.sha256, h]⟩

lemma dateOf_eq_some {n : ℤ} {t : JsDate} : dateOf n = some t ↔ n = t.ms := by
  constructor
  · intro h
    rw [dateOf] at h
    split at h
    · exact (congrArg JsDate.ms (Option.some.inj h))
    · cases h
  · rintro rfl
    exact dateOf_ms t

/-- The part of the metadata column that verification sees. -/
def LogRow.visibleMetadata (r : LogRow) : Json :=
  visible (metadataOrEmpty (some r.metadata.parsed)).val

/-- Two rows are read as entries of the same hash. -/
def ReadAlike (r r' : LogRow) : Prop :=
  r.id = r'.id ∧ r.timestamp = r'.timestamp ∧ intToLevel r.level = intToLevel r'.level ∧
    r.source = r'.source ∧ r.message = r'.message ∧ r.visibleMetadata.Same r'.visibleMetadata

/-- A row with the hash of an accepted row is accepted exactly if the two are read alike. -/
lemma consistent_iff_readAlike {sha : Sha256} {r r' : LogRow}
    (hinj : Set.InjOn sha.digest (r.hashed ∪ r'.hashed)) (hr : r.Consistent sha)
    (hhash : r'.contentHash = r.contentHash) : r'.Consistent sha ↔ ReadAlike r r' := by
  obtain ⟨e, he, hhe⟩ := consistent_iff.mp hr
  have hmem : utf8 e.toHashableString ∈ r.hashed ∪ r'.hashed := .inl ⟨e, he, rfl⟩
  obtain ⟨t, ht, rfl⟩ := Option.map_eq_some_iff.mp he
  rw [consistent_iff, hhash, ← hhe]
  constructor
  · rintro ⟨e', he', hhe'⟩
    have hmem' : utf8 e'.toHashableString ∈ r.hashed ∪ r'.hashed := .inr ⟨e', he', rfl⟩
    obtain ⟨t', ht', rfl⟩ := Option.map_eq_some_iff.mp he'
    obtain ⟨hid, htime, hlevel, hsource, hmessage, hmeta⟩ :=
      toHashableString_eq_iff.mp ((computeLogHash_eq_iff hinj hmem hmem').mp hhe'.symm)
    have hts : r.timestamp = r'.timestamp := by
      rw [dateOf_eq_some.mp ht, dateOf_eq_some.mp ht']
      exact congrArg JsDate.ms htime
    exact ⟨hid, hts, hlevel, hsource, hmessage, hmeta⟩
  · rintro ⟨hid, htime, hlevel, hsource, hmessage, hmeta⟩
    rw [htime] at ht
    have he' : r'.rebuilt? = some (r'.entryAt t) := by rw [LogRow.rebuilt?, ht, Option.map_some]
    have hmem' : utf8 (r'.entryAt t).toHashableString ∈ r.hashed ∪ r'.hashed :=
      .inr ⟨_, he', rfl⟩
    refine ⟨_, he', ((computeLogHash_eq_iff hinj hmem hmem').mpr ?_).symm⟩
    exact toHashableString_eq_iff.mpr ⟨hid, rfl, hlevel, hsource, hmessage, hmeta⟩

/-! ### Changed rows -/

/-- The rows differ in a content column. -/
def ContentDiffers (r r' : LogRow) : Prop :=
  ¬(r.id = r'.id ∧ r.timestamp = r'.timestamp ∧ r.level = r'.level ∧ r.source = r'.source ∧
    r.message = r'.message ∧ r.metadata.val.Same r'.metadata.val)

/-- A change of a content column of an accepted row is detected exactly if it is one that
verification reads. -/
theorem change_detected_iff {sha : Sha256} {d d' : Database} {table table' : LogTable}
    {id id' : JsString} {r r' : LogRow} (hr : d.findById table id = some r)
    (hr' : d'.findById table' id' = some r') (hok : verifies (verifyLog sha d table id) = true)
    (hhash : r'.contentHash = r.contentHash)
    (hinj : Set.InjOn sha.digest (r.hashed ∪ r'.hashed)) :
    (ContentDiffers r r' → verifies (verifyLog sha d' table' id') = false) ↔
      (ContentDiffers r r' → ¬ReadAlike r r') := by
  obtain ⟨r₀, hr₀, hcons⟩ := verifies_verifyLog.mp hok
  obtain rfl : r = r₀ := Option.some.inj (hr.symm.trans hr₀)
  refine forall_congr' fun _ => ?_
  rw [← consistent_iff_readAlike hinj hcons hhash, ← Bool.not_eq_true, verifies_verifyLog, hr']
  simp only [Option.some.injEq, exists_eq_left']

/-- A row of an anchored table with the level integer `level`. -/
def sampleRow (level : ℤ) : LogRow where
  id := ofString "01890a5d-ac96-774b-bcce-b302099a8057"
  timestamp := 0
  level := level
  source := ofString "api"
  message := ofString "started"
  metadata := emptyColumn
  contentHash := lengthSha.computeLogHash ⟨ofString "01890a5d-ac96-774b-bcce-b302099a8057",
    .epoch, infoLevel, ofString "api", ofString "started", emptyObject, []⟩
  anchorStatus := some .confirmed
  anchorTxHash := none
  anchoredAt := none
  batchRoot := none
  leafIndex := none

/-- The database whose only row is `r`. -/
def Database.only (table : LogTable) (r : LogRow) : Database :=
  ⟨fun t => if t = table then [r] else [], fun _ => []⟩

lemma Database.findById_only (table : LogTable) (r : LogRow) :
    (Database.only table r).findById table r.id = some r := by
  simp [Database.findById, Database.only]

lemma sampleRow_consistent {level : ℤ} (h : intToLevel level = infoLevel) :
    (sampleRow level).Consistent lengthSha := by
  refine consistent_iff.mpr ⟨(sampleRow level).entryAt .epoch, rfl, ?_⟩
  rw [LogRow.entryAt, sampleRow, h]
  rfl

lemma sampleRow_hashed {level : ℤ} (h : intToLevel level = infoLevel) :
    (sampleRow level).hashed = (sampleRow 1).hashed := by
  have hentry : (sampleRow level).entryAt = (sampleRow 1).entryAt := by
    funext t
    have h1 : intToLevel 1 = infoLevel := by decide
    simp only [LogRow.entryAt, sampleRow, h, h1]
  rw [LogRow.hashed, LogRow.hashed, LogRow.rebuilt?, LogRow.rebuilt?, hentry]
  rfl

lemma sampleRow_injOn : Set.InjOn lengthSha.digest (sampleRow 1).hashed := by
  rintro b ⟨e, he, rfl⟩ b' ⟨e', he', rfl⟩ _
  rw [Option.some.inj (he.symm.trans he')]

lemma sampleRow_injOn_union :
    Set.InjOn lengthSha.digest ((sampleRow 1).hashed ∪ (sampleRow 7).hashed) := by
  rw [sampleRow_hashed (by decide : intToLevel 7 = infoLevel), Set.union_self]
  exact sampleRow_injOn

lemma sampleRow_verifies {level : ℤ} (h : intToLevel level = infoLevel) :
    verifies (verifyLog lengthSha (Database.only (.anchored .priv) (sampleRow level))
      (.anchored .priv) (sampleRow level).id) = true :=
  verifies_verifyLog.mpr ⟨_, Database.findById_only _ _, sampleRow_consistent h⟩

/-- The level integers 1 and 7 are both read as `INFO`. -/
theorem level_change_undetected :
    ¬∀ (sha : Sha256) (d d' : Database) (table table' : LogTable) (id id' : JsString)
      (r r' : LogRow), d.findById table id = some r → d'.findById table' id' = some r' →
      verifies (verifyLog sha d table id) = true → r'.contentHash = r.contentHash →
      Set.InjOn sha.digest (r.hashed ∪ r'.hashed) → ContentDiffers r r' →
      verifies (verifyLog sha d' table' id') = false := by
  intro h
  have hundetected := h lengthSha _ _ _ _ _ _ _ _
    (Database.findById_only (.anchored .priv) (sampleRow 1))
    (Database.findById_only (.anchored .priv) (sampleRow 7)) (sampleRow_verifies (by decide)) rfl
    sampleRow_injOn_union (fun hsame => absurd hsame.2.2.1 (by decide))
  rw [sampleRow_verifies (by decide)] at hundetected
  cases hundetected

theorem change_detected_sample :
    (ContentDiffers (sampleRow 1) (sampleRow 7) →
        verifies (verifyLog lengthSha (Database.only (.anchored .priv) (sampleRow 7))
          (.anchored .priv) (sampleRow 7).id) = false) ↔
      (ContentDiffers (sampleRow 1) (sampleRow 7) → ¬ReadAlike (sampleRow 1) (sampleRow 7)) :=
  change_detected_iff (Database.findById_only (.anchored .priv) (sampleRow 1))
    (Database.findById_only (.anchored .priv) (sampleRow 7)) (sampleRow_verifies (by decide)) rfl
    sampleRow_injOn_union

/-! ### Untouched rows -/

/-- `r` is the row `stored` as the database gives it back later, if nobody has changed it: the keys
of a JSON column may come in another order, and the columns about anchoring may have been
updated. -/
structure Untouched (stored r : LogRow) : Prop where
  id : r.id = stored.id
  timestamp : r.timestamp = stored.timestamp
  level : r.level = stored.level
  source : r.source = stored.source
  message : r.message = stored.message
  metadata : r.metadata.val.Same stored.metadata.val
  contentHash : r.contentHash = stored.contentHash

/-- The metadata does not come back from the database: PostgreSQL stores the text of a number that
is not finite, which is `null`, and MongoDB no lone surrogates. -/
def lostMetadata : Db → Json → Prop
  | .postgres, m => ∃ neg, m = .num (.inf neg)
  | .mongo, m => ¬(visible m).WellFormed

/-- The entry comes back from the database with the text that it was written with. -/
structure Restored (db : Db) (log : LogEntry) : Prop where
  level : log.level ∈ levelNames
  source : wellFormed log.source = true
  message : wellFormed log.message = true
  metadata : ¬lostMetadata db log.metadata.val

lemma same_null {j : Json} : j.Same .null ↔ j = .null := by
  cases j <;> simp [Json.Same]

lemma null_same {j : Json} : Json.null.Same j ↔ j = .null := by
  cases j <;> simp [Json.Same]

mutual

lemma Json.WellFormed.visible : ∀ {j : Json}, j.WellFormed → (HybridLog.visible j).WellFormed
  | .null, _ | .bool _, _ | .num .zero, _ | .num (.fin _), _ | .num (.inf _), _ => trivial
  | .str _, h => h
  | .arr _, h => WellFormedElems.visible h
  | .obj _, h => WellFormedMembers.visible h

lemma WellFormedElems.visible : ∀ {xs : List Json}, WellFormedElems xs →
    WellFormedElems (visibleElems xs)
  | [], _ => trivial
  | _ :: _, h => ⟨Json.WellFormed.visible h.1, WellFormedElems.visible h.2⟩

lemma WellFormedMembers.visible : ∀ {ms : List (JsString × Json)}, WellFormedMembers ms →
    WellFormedMembers (visibleMembers ms)
  | [], _ => trivial
  | (_, _) :: _, h => by
    rw [visibleMembers]
    split
    · exact WellFormedMembers.visible h.2
    · exact ⟨⟨h.1.1, Json.WellFormed.visible h.1.2⟩, WellFormedMembers.visible h.2⟩

end

lemma toWellFormed_protoKey : Js.toWellFormed protoKey = protoKey := by decide

/-- The keys that can be seen are well formed. -/
lemma wellFormed_of_mem_keys {ms : List (JsString × Json)}
    (h : WellFormedMembers (visibleMembers ms)) {k : JsString} (hk : k ∈ ms.map Prod.fst)
    (hproto : k ≠ protoKey) : wellFormed k = true := by
  have hmem : k ∈ (visibleMembers ms).map Prod.fst := by
    rw [keys_visibleMembers]
    exact List.mem_filter.mpr ⟨hk, decide_eq_true hproto⟩
  obtain ⟨v, hv⟩ := Option.isSome_iff_exists.mp (lookup_isSome_iff.mpr hmem)
  exact (wellFormedMembers_lookup h hv).1

mutual

/-- Lone surrogates that cannot be seen do not matter. -/
lemma visible_toWellFormed : ∀ {j : Json}, j.Distinct → (visible j).WellFormed →
    visible j.toWellFormed = visible j
  | .null, _, _ | .bool _, _, _ | .num _, _, _ => rfl
  | .str _, _, h => congrArg Json.str (toWellFormed_eq_self h)
  | .arr _, hd, h => congrArg Json.arr (visibleElems_toWellFormed hd h)
  | .obj _, hd, h => congrArg Json.obj (visibleMembers_toWellFormed hd.1 hd.2 h)

lemma visibleElems_toWellFormed : ∀ {xs : List Json}, DistinctElems xs →
    WellFormedElems (visibleElems xs) → visibleElems (toWellFormedElems xs) = visibleElems xs
  | [], _, _ => rfl
  | _ :: _, hd, h => by
    rw [toWellFormedElems, visibleElems, visibleElems, visible_toWellFormed hd.1 h.1,
      visibleElems_toWellFormed hd.2 h.2]

lemma visibleMembers_toWellFormed : ∀ {ms : List (JsString × Json)}, (ms.map Prod.fst).Nodup →
    DistinctMembers ms → WellFormedMembers (visibleMembers ms) →
    visibleMembers (toWellFormedMembers ms) = visibleMembers ms
  | [], _, _, _ => rfl
  | (k, v) :: ms, hnodup, hd, h => by
    obtain ⟨hnew, hnodup⟩ := List.nodup_cons.mp hnodup
    rw [toWellFormedMembers]
    by_cases hk : k = protoKey
    · have hrest : WellFormedMembers (visibleMembers ms) := by
        rwa [visibleMembers, if_pos hk] at h
      have ih := visibleMembers_toWellFormed hnodup hd.2 hrest
      rw [visibleMembers, if_pos hk]
      split
      · exact ih
      · rw [visibleMembers, hk, toWellFormed_protoKey, if_pos rfl, ih]
    · rw [visibleMembers, if_neg hk] at h
      have ih := visibleMembers_toWellFormed hnodup hd.2 h.2
      have hself : Js.toWellFormed k = k := toWellFormed_eq_self h.1.1
      have hnone : ¬((toWellFormedMembers ms).lookup k).isSome := by
        intro hsome
        obtain ⟨k', hk', heq⟩ := mem_keys_toWellFormedMembers (lookup_isSome_iff.mp hsome)
        by_cases hproto : k' = protoKey
        · rw [hproto, toWellFormed_protoKey] at heq
          exact hk heq.symm
        · rw [toWellFormed_eq_self (wellFormed_of_mem_keys h.2 hk' hproto)] at heq
          exact hnew (heq ▸ hk')
      rw [hself, if_neg hnone, visibleMembers, if_neg hk, visibleMembers, if_neg hk, ih,
        visible_toWellFormed hd.1 h.1.2]

end

section Untouched

variable {db : Db} {m : JsonValue} {r : LogRow}

lemma visible_encodeJson (hlost : ¬lostMetadata db m.val) :
    visible (db.encodeJson m.val) = visible m.val := by
  cases db with
  | mongo => exact visible_toWellFormed m.distinct (not_not.mp hlost)
  | postgres => exact visible_finite m.val

lemma encodeJson_ne_null (hm : m.val ≠ .null) (hlost : ¬lostMetadata db m.val) :
    db.encodeJson m.val ≠ .null := by
  intro hnull
  cases db with
  | mongo => cases hj : m.val <;> simp_all [Db.encodeJson, Json.toWellFormed]
  | postgres =>
    cases hj : m.val with
    | num n => cases n <;> simp_all [Db.encodeJson, lostMetadata, Json.finite]
    | _ => simp_all [Db.encodeJson, Json.finite]

/-- What is parsed of the metadata of an untouched row. -/
lemma parsed_untouched (h : r.metadata.val.Same (db.encodeMetadata m).val) :
    r.metadata.parsed.val.Same (db.encodeJson m.val) := by
  rw [← parsed_encodeMetadata]
  exact h.rounded

/-- What verification sees of the metadata of an untouched row. -/
lemma visibleMetadata_untouched (hm : m.val ≠ .null)
    (h : r.metadata.val.Same (db.encodeMetadata m).val) (hlost : ¬lostMetadata db m.val) :
    r.visibleMetadata.Same (visible m.val) := by
  have hparsed := parsed_untouched h
  have hne : r.metadata.parsed.val ≠ .null := by
    intro hnull
    rw [hnull, null_same] at hparsed
    exact encodeJson_ne_null hm hlost hparsed
  have hsame := Json.Same.visible r.metadata.parsed.distinct hparsed
  rw [LogRow.visibleMetadata, metadataOrEmpty_of_ne hne]
  rwa [visible_encodeJson hlost] at hsame

/-- A number that is not finite is parsed as `null`, and there is no lone surrogate in what is
parsed. -/
lemma visibleMetadata_lost (hm : m.val ≠ .null)
    (h : r.metadata.val.Same (db.encodeMetadata m).val) (hlost : lostMetadata db m.val) :
    ¬r.visibleMetadata.Same (visible m.val) := by
  have hparsed := parsed_untouched h
  cases db with
  | postgres =>
    obtain ⟨neg, hinf⟩ := hlost
    have hnull : r.metadata.parsed.val = .null := by
      rw [hinf] at hparsed
      exact same_null.mp hparsed
    simp [LogRow.visibleMetadata, metadataOrEmpty, hnull, hinf, emptyObject, visible,
      visibleMembers, Json.Same]
  | mongo =>
    have hne : r.metadata.parsed.val ≠ .null := by
      intro hnull
      rw [hnull, null_same] at hparsed
      cases hj : m.val <;> simp_all [Db.encodeJson, Json.toWellFormed]
    rw [LogRow.visibleMetadata, metadataOrEmpty_of_ne hne]
    intro hsame
    have hvisible := Json.Same.visible r.metadata.parsed.distinct hparsed
    have hwell := hvisible.wellFormed (Json.WellFormed.visible (wellFormed_toWellFormed m.val))
    have hcanonical := (canonical_eq_iff _ _ r.metadata.parsed.distinct m.distinct).mpr hsame
    have hflip := (canonical_eq_iff _ _ m.distinct r.metadata.parsed.distinct).mp hcanonical.symm
    exact hlost (hflip.wellFormed hwell)

end Untouched

/-- An untouched row is read as an entry with the text of the stored one exactly if the level is
written as `LogLevel` writes it, the texts are well formed and the metadata comes back. -/
lemma text_untouched {db : Db} {log : LogEntry} {hash : JsString} {r : LogRow}
    (hm : log.metadata.val ≠ .null) (h : Untouched (entryRow db log hash) r) :
    utf8 (r.entryAt log.timestamp).toHashableString = utf8 log.toHashableString ↔
      Restored db log := by
  obtain ⟨hid, _, hlevel, hsource, hmessage, hmeta, _⟩ := h
  rw [toHashableString_eq_iff]
  simp only [LogRow.entryAt, hid, hlevel, hsource, hmessage, entryRow, intToLevel_levelToInt,
    toWellFormed_eq_iff, true_and]
  constructor
  · rintro ⟨hl, hs, hmsg, hsame⟩
    exact ⟨hl, hs, hmsg, fun hlost => visibleMetadata_lost hm hmeta hlost hsame⟩
  · rintro ⟨hl, hs, hmsg, hlost⟩
    exact ⟨hl, hs, hmsg, visibleMetadata_untouched hm hmeta hlost⟩

lemma rebuilt?_untouched {db : Db} {log : LogEntry} {hash : JsString} {r : LogRow}
    (h : Untouched (entryRow db log hash) r) : r.rebuilt? = some (r.entryAt log.timestamp) := by
  have hdate : dateOf r.timestamp = some log.timestamp := by
    rw [h.timestamp]
    exact dateOf_ms _
  rw [LogRow.rebuilt?, hdate, Option.map_some]

lemma consistent_untouched {sha : Sha256} {db : Db} {log : LogEntry} {r : LogRow}
    (h : Untouched (entryRow db log (sha.computeLogHash log)) r) :
    r.Consistent sha ↔
      sha.computeLogHash (r.entryAt log.timestamp) = sha.computeLogHash log := by
  rw [consistent_iff, rebuilt?_untouched h, h.contentHash]
  simp only [Option.some.injEq, exists_eq_left', entryRow]

/-- `stored` is the row by which `HybridStorage.writeLog` or `HybridStorage.writeBatch` stores an
entry it computes the hash of. -/
inductive StoredAs (sha : Sha256) (db : Db) (log : LogEntry) : LogTable → LogRow → Prop
  | writeLog (table : LogTable) :
    StoredAs sha db log table (anchoredRow db log (sha.computeLogHash log) table)
  | writeBatch (side : Side) :
    StoredAs sha db log (.batched side) (batchedRow db log (sha.computeLogHash log))

lemma StoredAs.untouched {sha : Sha256} {db : Db} {log : LogEntry} {table : LogTable}
    {stored r : LogRow} (hs : StoredAs sha db log table stored) (h : Untouched stored r) :
    Untouched (entryRow db log (sha.computeLogHash log)) r := by
  cases hs with
  | writeLog table =>
    exact ⟨h.id, h.timestamp, h.level, h.source, h.message, h.metadata, h.contentHash⟩
  | writeBatch side => exact h

/-- An untouched log is accepted if the database gives it back as it was written. Otherwise it is
accepted only if two texts have the same hash. -/
theorem untouched_verifies_iff {sha : Sha256} {db : Db} {id : JsString} {timestamp : JsDate}
    {level source message : JsString} {metadata : Option JsonValue} {table : LogTable}
    {stored r : LogRow} {d : Database}
    (hs : StoredAs sha db (.create id timestamp level source message metadata) table stored)
    (hr : d.findById table id = some r) (h : Untouched stored r) :
    (Restored db (.create id timestamp level source message metadata) →
        verifies (verifyLog sha d table id) = true) ∧
      (Set.InjOn sha.digest (r.hashed ∪
          {utf8 (LogEntry.create id timestamp level source message metadata).toHashableString}) →
        verifies (verifyLog sha d table id) = true →
        Restored db (.create id timestamp level source message metadata)) := by
  have hrow := hs.untouched h
  have hiff : verifies (verifyLog sha d table id) = true ↔ r.Consistent sha := by
    rw [verifies_verifyLog, hr]
    simp only [Option.some.injEq, exists_eq_left']
  have htext := text_untouched (metadataOrEmpty_ne_null metadata) hrow
  rw [hiff, consistent_untouched hrow]
  refine ⟨fun hcond => ?_, fun hinj hhash => htext.mp ?_⟩
  · rw [Sha256.computeLogHash, Sha256.sha256, htext.mpr hcond]
    rfl
  · exact (computeLogHash_eq_iff hinj (.inl ⟨_, rebuilt?_untouched hrow, rfl⟩) (.inr rfl)).mp hhash

/-- The entry of a request whose level is `level`. -/
def sampleEntry (level : JsString) : LogEntry :=
  .create (ofString "01890a5d-ac96-774b-bcce-b302099a8057") .epoch level (ofString "api")
    (ofString "started") none

/-- The row PostgreSQL keeps of the entry. -/
def sampleStored (level : JsString) : LogRow :=
  anchoredRow .postgres (sampleEntry level) (lengthSha.computeLogHash (sampleEntry level))
    (.anchored .priv)

lemma sampleStored_untouched (level : JsString) :
    Untouched (sampleStored level) (sampleStored level) :=
  ⟨rfl, rfl, rfl, rfl, rfl, ⟨rfl, trivial⟩, rfl⟩

/-- A log whose level is not one of the five names is read back as `INFO`. -/
theorem untouched_notice_rejected :
    ¬∀ (sha : Sha256) (db : Db) (id : JsString) (timestamp : JsDate)
      (level source message : JsString) (metadata : Option JsonValue) (table : LogTable)
      (stored r : LogRow) (d : Database),
      StoredAs sha db (.create id timestamp level source message metadata) table stored →
      d.findById table id = some r → Untouched stored r →
      verifies (verifyLog sha d table id) = true := by
  intro h
  have hok := h lengthSha .postgres _ _ (ofString "notice") _ _ _ (.anchored .priv) _ _ _
    (.writeLog _) (Database.findById_only _ (sampleStored (ofString "notice")))
    (sampleStored_untouched _)
  revert hok
  decide +kernel

lemma restored_sampleEntry {level : JsString} (h : level ∈ levelNames) :
    Restored .postgres (sampleEntry level) := by
  have hsource : wellFormed (ofString "api") = true := by decide
  have hmessage : wellFormed (ofString "started") = true := by decide
  refine ⟨h, hsource, hmessage, ?_⟩
  rintro ⟨neg, hinf⟩
  cases hinf

lemma sampleStored_injOn {level : JsString} (h : level ∈ levelNames) :
    Set.InjOn lengthSha.digest
      ((sampleStored level).hashed ∪ {utf8 (sampleEntry level).toHashableString}) := by
  have hrow := (@StoredAs.writeLog lengthSha _ _ _).untouched (sampleStored_untouched level)
  have htext := (text_untouched (metadataOrEmpty_ne_null none) hrow).mpr (restored_sampleEntry h)
  have hone : ∀ b ∈ (sampleStored level).hashed ∪ {utf8 (sampleEntry level).toHashableString},
      b = utf8 (sampleEntry level).toHashableString := by
    rintro b (⟨e, he, rfl⟩ | rfl)
    · rw [← htext, Option.some.inj ((rebuilt?_untouched hrow).symm.trans he)]
    · rfl
  intro b hb b' hb' _
  rw [hone b hb, hone b' hb']

theorem untouched_error_verifies :
    verifies (verifyLog lengthSha
        (Database.only (.anchored .priv) (sampleStored (ofString "ERROR"))) (.anchored .priv)
        (sampleEntry (ofString "ERROR")).id) = true ∧
      Restored .postgres (sampleEntry (ofString "ERROR")) := by
  have hcond : Restored .postgres (sampleEntry (ofString "ERROR")) :=
    restored_sampleEntry (by decide)
  have h := @untouched_verifies_iff lengthSha .postgres _ _ (ofString "ERROR") _ _ none _ _ _ _
    (.writeLog _) (Database.findById_only _ (sampleStored (ofString "ERROR")))
    (sampleStored_untouched _)
  exact ⟨h.1 hcond, h.2 (sampleStored_injOn hcond.level) (h.1 hcond)⟩

end HybridLog
