import HybridLog.Core.Canonical
import HybridLog.Js.Parse
import HybridLog.Queue.Messages
import HybridLog.Wire.Protobuf

/-!
# Entries on the wire

A message is put into its queue as the bytes of its JSON text, and an entry is made again from the
parsed text. The two ends agree on the entries of the typed messages.
-/

namespace HybridLog

open Js Protobuf

/-! ### Writing -/

def EntryDTO.members (dto : EntryDTO) : List (JsString × Json) :=
  [(ofString "id", .str dto.id), (ofString "timestampMs", .num (.ofInt dto.timestampMs.ms)),
    (ofString "level", .str dto.level), (ofString "source", .str dto.source),
    (ofString "message", .str dto.message), (ofString "metadata", dto.metadata.val),
    (ofString "dataHash", .str dto.dataHash)]

/-- What a message says beside its entries. A member that is undefined is not written. -/
structure Envelope where
  strategy : JsString
  db : JsString
  correlationId : JsString
  replyTo : Option JsString
  enqueuedAt : JsDate

def Envelope.members (env : Envelope) : List (JsString × Json) :=
  [(ofString "strategy", .str env.strategy), (ofString "db", .str env.db),
    (ofString "correlationId", .str env.correlationId)] ++
  (env.replyTo.map fun replyTo => (ofString "replyTo", Json.str replyTo)).toList ++
  [(ofString "enqueuedAt", .num (.ofInt env.enqueuedAt.ms))]

/-- A message with what it is about as its first member. -/
def messageJson (key : String) (body : Json) (env : Envelope) : Json :=
  .obj ((ofString key, body) :: env.members)

/-- The `SubmitMessage` of an entry. -/
def submitJson (entry : LogEntry) (env : Envelope) : Json :=
  messageJson "entry" (.obj (toDTO entry).members) env

/-- The `BatchSubmitMessage` of some entries. -/
def batchSubmitJson (entries : List LogEntry) (env : Envelope) : Json :=
  messageJson "entries" (.arr (entries.map fun e => .obj (toDTO e).members)) env

/-- `Buffer.from(JSON.stringify(payload))` -/
def content (payload : Json) : Bytes := utf8 payload.text

/-- `SUBMIT_QUEUES` -/
def submitQueueNames : List (JsString × JsString) :=
  ["private_chain", "public_chain", "hybrid_private", "hybrid_public", "hybrid_private_batch",
    "hybrid_public_batch"].map fun strategy =>
      (ofString strategy, ofString "logs." ++ ofString strategy)

/-- The submit queue of a strategy; without one the source throws. -/
def submitQueueFor (strategy : JsString) : Option JsString := submitQueueNames.lookup strategy

/-- The queue that `publishLog` publishes to and the content of its message. `database_only` is
refused, as every other strategy without a queue is. `enqueuedAt` is what the clock shows. -/
def Wire.publishLog (entry : LogEntry) (strategy db : JsString)
    (replyTo correlationId : Option JsString) (enqueuedAt : JsDate) : Option (JsString × Bytes) :=
  if strategy = ofString "database_only" then none
  else (submitQueueFor strategy).map fun queue =>
    (queue, content (submitJson entry
      ⟨strategy, db, correlationId.getD entry.id, replyTo, enqueuedAt⟩))

/-- The queue that `publishBatch` publishes to and the content of its message. -/
def Wire.publishBatch (entries : List LogEntry) (strategy db correlationId : JsString)
    (replyTo : Option JsString) (enqueuedAt : JsDate) : Option (JsString × Bytes) :=
  if strategy = ofString "database_only" then none
  else (submitQueueFor strategy).map fun queue =>
    (queue, content (batchSubmitJson entries ⟨strategy, db, correlationId, replyTo, enqueuedAt⟩))

/-! ### Reading -/

/-- `JSON.parse(msg.content.toString())` -/
def parseMessage (msg : Bytes) : Option JsonValue :=
  (readUtf8 msg).bind fun cs => jsonParse (cs.flatMap utf16Encode)

def stringField (j : JsonValue) (k : JsString) : Option JsString :=
  (j.field k).bind fun v => match v.val with
    | .str s => some s
    | _ => none

def dateField (j : JsonValue) (k : JsString) : Option JsDate :=
  (j.field k).bind fun v => match v.val with
    | .num n => JsDate.ofNumber? n
    | _ => none

/-- A parsed value as an `EntryDTO`. The types of the members are not checked by the source; `none`
is a value of another type. -/
def readDTO (j : JsonValue) : Option EntryDTO := do
  return {
    id := ← stringField j (ofString "id")
    timestampMs := ← dateField j (ofString "timestampMs")
    level := ← stringField j (ofString "level")
    source := ← stringField j (ofString "source")
    message := ← stringField j (ofString "message")
    metadata := metadataOrEmpty (j.field (ofString "metadata"))
    dataHash := ← stringField j (ofString "dataHash") }

def elements : (xs : List Json) → DistinctElems xs ∧ DoublesElems xs → List JsonValue
  | [], _ => []
  | x :: xs, h => ⟨x, h.1.1, h.2.1⟩ :: elements xs ⟨h.1.2, h.2.2⟩

/-- The elements of a value that is an array. -/
def elements? : JsonValue → Option (List JsonValue)
  | ⟨.arr xs, h⟩ => some (elements xs h)
  | _ => none

/-- The entries that the handler of a submit queue makes from a message. -/
def receivedEntries (msg : Bytes) : Option (List LogEntry) := do
  let raw ← parseMessage msg
  match raw.field (ofString "entries") with
  | some entries =>
    let dtos ← elements? entries
    dtos.mapM fun dto => (readDTO dto).map dtoToEntry
  | none =>
    let dto ← raw.field (ofString "entry")
    (readDTO dto).map fun dto => [dtoToEntry dto]

/-! ### What is read is what was written -/

mutual

lemma ordered_finite : ∀ {j : Json}, j.Ordered → j.finite.Ordered
  | .null, _ | .bool _, _ | .str _, _ | .num .zero, _ | .num (.fin _), _ | .num (.inf _), _ =>
    trivial
  | .arr _, h => ordered_finiteElems h
  | .obj ms, h => by
    have hkeys : (finiteMembers ms).map Prod.fst = ms.map Prod.fst := keys_finiteMembers ms
    exact ⟨hkeys ▸ h.1, ordered_finiteMembers h.2⟩

lemma ordered_finiteElems : ∀ {xs : List Json}, OrderedElems xs → OrderedElems (finiteElems xs)
  | [], _ => trivial
  | _ :: _, h => ⟨ordered_finite h.1, ordered_finiteElems h.2⟩

lemma ordered_finiteMembers : ∀ {ms : List (JsString × Json)}, OrderedMembers ms →
    OrderedMembers (finiteMembers ms)
  | [], _ => trivial
  | (_, _) :: _, h => ⟨ordered_finite h.1, ordered_finiteMembers h.2⟩

end

/-- A value of the language, listed as it is enumerated. -/
def Listed (j : Json) : Prop := (j.Distinct ∧ j.Doubles) ∧ j.Ordered

lemma parseMessage_content {payload : Json} (h : Listed payload) :
    parseMessage (content payload) =
      some ⟨payload.finite, distinct_finite h.1.1, doubles_finite h.1.2⟩ := by
  rw [parseMessage, content, readUtf8_utf8, Option.bind_some,
    utf16Encode_chars _ payload.text_wellFormed]
  exact jsonParse_text (distinct_finite h.1.1) (doubles_finite h.1.2) (ordered_finite h.2)

lemma finite_ofInt (z : ℤ) : (Json.num (.ofInt z)).finite = .num (.ofInt z) := by
  have htrunc := trunc?_ofInt z
  cases h : JsNumber.ofInt z with
  | zero | fin d => rfl
  | inf neg =>
    rw [h] at htrunc
    cases htrunc

/-- The milliseconds of a date are a double. -/
lemma doubles_ms (t : JsDate) : (Json.num (.ofInt t.ms)).Doubles := by
  apply rounded_ofInt
  have hrange := t.inRange
  omega

lemma listed_dto (dto : EntryDTO) (h : dto.metadata.val.Ordered) : Listed (.obj dto.members) := by
  refine ⟨⟨⟨?_, ?_⟩, ?_⟩, ?_, ?_⟩
  · show List.Nodup [ofString "id", ofString "timestampMs", ofString "level", ofString "source",
      ofString "message", ofString "metadata", ofString "dataHash"]
    decide
  · exact ⟨trivial, trivial, trivial, trivial, trivial, dto.metadata.distinct, trivial, trivial⟩
  · exact ⟨trivial, doubles_ms _, trivial, trivial, trivial, dto.metadata.doubles, trivial, trivial⟩
  · show List.Pairwise _ [ofString "id", ofString "timestampMs", ofString "level",
      ofString "source", ofString "message", ofString "metadata", ofString "dataHash"]
    decide
  · exact ⟨trivial, trivial, trivial, trivial, trivial, h, trivial, trivial⟩

/-- The members of a DTO after its text has been parsed. -/
lemma finite_members (dto : EntryDTO) : finiteMembers dto.members = dto.parsed.members := by
  simp only [EntryDTO.members, finiteMembers, finite_ofInt]
  rfl

lemma readDTO_members (dto : EntryDTO)
    (h : (Json.obj dto.members).Distinct ∧ (Json.obj dto.members).Doubles) :
    readDTO ⟨.obj dto.members, h⟩ =
      some { dto with metadata := metadataOrEmpty (some dto.metadata) } := by
  have hfield {k : JsString} {v : Json} (hmem : (k, v) ∈ dto.members) :=
    JsonValue.field_obj (h := h) (lookup_eq_some_of_mem h.1.1 hmem)
  have hstring {k s : JsString} (hmem : (k, .str s) ∈ dto.members) :
      stringField ⟨.obj dto.members, h⟩ k = some s := by
    unfold stringField
    rw [hfield hmem]
    rfl
  have hdate : dateField ⟨.obj dto.members, h⟩ (ofString "timestampMs") = some dto.timestampMs := by
    unfold dateField
    rw [hfield (v := .num (.ofInt dto.timestampMs.ms)) (by simp [EntryDTO.members])]
    exact ofNumber?_ofInt dto.timestampMs
  unfold readDTO
  rw [hstring (s := dto.id) (by simp [EntryDTO.members]), hdate,
    hstring (s := dto.level) (by simp [EntryDTO.members]),
    hstring (s := dto.source) (by simp [EntryDTO.members]),
    hstring (s := dto.message) (by simp [EntryDTO.members]),
    hfield (v := dto.metadata.val) (by simp [EntryDTO.members]),
    hstring (s := dto.dataHash) (by simp [EntryDTO.members])]
  rfl

lemma listed_message {key : String} (hkey : key = "entry" ∨ key = "entries") {body : Json}
    (h : Listed body) (env : Envelope) : Listed (messageJson key body env) := by
  obtain ⟨strategy, db, correlationId, replyTo, enqueuedAt⟩ := env
  obtain ⟨⟨hd, hdouble⟩, ho⟩ := h
  have hms : (JsNumber.ofInt enqueuedAt.ms).rounded = JsNumber.ofInt enqueuedAt.ms :=
    doubles_ms enqueuedAt
  rcases hkey with rfl | rfl <;> cases replyTo
  all_goals
    refine ⟨⟨⟨?_, hd, ?_⟩, hdouble, ?_⟩, ?_, ho, ?_⟩
    · simp only [Envelope.members, Option.map_none, Option.map_some, Option.toList_none,
        Option.toList_some, List.cons_append, List.nil_append, List.map_cons, List.map_nil]
      decide
    · simp [Envelope.members, DistinctMembers, Json.Distinct]
    · simp [Envelope.members, DoublesMembers, Json.Doubles, hms]
    · simp only [Enumerated, Envelope.members, Option.map_none, Option.map_some,
        Option.toList_none, Option.toList_some, List.cons_append, List.nil_append, List.map_cons,
        List.map_nil]
      decide
    · simp [Envelope.members, OrderedMembers, Json.Ordered]

lemma finite_message (key : String) (body : Json) (env : Envelope) :
    (messageJson key body env).finite = messageJson key body.finite env := by
  obtain ⟨strategy, db, correlationId, replyTo, enqueuedAt⟩ := env
  have hstr (s : JsString) : (Json.str s).finite = .str s := rfl
  have hobj (ms : List (JsString × Json)) : (Json.obj ms).finite = .obj (finiteMembers ms) := rfl
  rw [messageJson, messageJson, hobj]
  cases replyTo <;> simp [Envelope.members, finiteMembers, finite_ofInt, hstr]

lemma JsonValue.field_eq_none {ms : List (JsString × Json)}
    {h : (Json.obj ms).Distinct ∧ (Json.obj ms).Doubles} {k : JsString}
    (hk : k ∉ ms.map Prod.fst) : JsonValue.field ⟨.obj ms, h⟩ k = none := by
  unfold JsonValue.field
  exact Option.pmap_eq_none_iff.mpr (Option.not_isSome_iff_eq_none.mp fun hsome =>
    hk (lookup_isSome_iff.mp hsome))

/-- What is read of a message under its first key. -/
lemma field_message {key : String} {body : Json} {env : Envelope}
    (h : (messageJson key body env).Distinct ∧ (messageJson key body env).Doubles) :
    JsonValue.field ⟨messageJson key body env, h⟩ (ofString key) =
      some ⟨body, h.1.2.1, h.2.1⟩ :=
  JsonValue.field_obj (lookup_eq_some_of_mem h.1.1 (List.mem_cons_self ..))

lemma field_entries {body : Json} {env : Envelope}
    (h : (messageJson "entry" body env).Distinct ∧ (messageJson "entry" body env).Doubles) :
    JsonValue.field ⟨messageJson "entry" body env, h⟩ (ofString "entries") = none := by
  apply JsonValue.field_eq_none
  obtain ⟨strategy, db, correlationId, replyTo, enqueuedAt⟩ := env
  cases replyTo
  all_goals
    simp only [Envelope.members, Option.map_none, Option.map_some, Option.toList_none,
      Option.toList_some, List.cons_append, List.nil_append, List.map_cons, List.map_nil]
    decide

/-! ### Entries across a queue -/

/-- An entry as its constructor leaves it: its metadata is a value as it is enumerated, such as
`JSON.parse` returns, and not `null`. -/
structure LogEntry.Constructed (e : LogEntry) : Prop where
  ordered : e.metadata.val.Ordered
  not_null : e.metadata.val ≠ .null

lemma listed_entry {e : LogEntry} (h : e.Constructed) : Listed (.obj (toDTO e).members) := by
  apply listed_dto
  show (metadataOrEmpty (some e.metadata)).val.Ordered
  rw [metadataOrEmpty_of_ne h.not_null]
  exact h.ordered

lemma listed_entries : ∀ {entries : List LogEntry}, (∀ e ∈ entries, e.Constructed) →
    Listed (.arr (entries.map fun e => .obj (toDTO e).members))
  | [], _ => ⟨⟨trivial, trivial⟩, trivial⟩
  | e :: entries, h => by
    obtain ⟨⟨hd, hdouble⟩, ho⟩ := listed_entry (h e (List.mem_cons_self ..))
    obtain ⟨⟨hds, hdoubles⟩, hos⟩ := listed_entries fun e' he' => h e' (List.mem_cons_of_mem _ he')
    exact ⟨⟨⟨hd, hds⟩, hdouble, hdoubles⟩, ho, hos⟩

lemma read_entry (e : LogEntry) (h : (Json.obj (toDTO e).parsed.members).Distinct ∧
    (Json.obj (toDTO e).parsed.members).Doubles) :
    (readDTO ⟨.obj (toDTO e).parsed.members, h⟩).map dtoToEntry = some e.queued := by
  rw [readDTO_members, Option.map_some, dtoToEntry,
    metadataOrEmpty_of_ne (metadataOrEmpty_ne_null _)]
  rfl

/-- The parsed value of a message. -/
lemma parseMessage_message {key : String} (hkey : key = "entry" ∨ key = "entries") {body : Json}
    (h : Listed body) (env : Envelope) :
    ∃ hd : (messageJson key body.finite env).Distinct ∧ (messageJson key body.finite env).Doubles,
      parseMessage (content (messageJson key body env)) =
        some ⟨messageJson key body.finite env, hd⟩ := by
  have hlisted := listed_message hkey h env
  have hd := And.intro (distinct_finite hlisted.1.1) (doubles_finite hlisted.1.2)
  have hparsed := parseMessage_content hlisted
  simp only [finite_message] at hd hparsed
  exact ⟨hd, hparsed⟩

lemma finite_dto (dto : EntryDTO) : (Json.obj dto.members).finite = .obj dto.parsed.members :=
  congrArg Json.obj (finite_members dto)

/-- What the handler makes of the message of an entry. -/
theorem receivedEntries_submit {e : LogEntry} (h : e.Constructed) (env : Envelope) :
    receivedEntries (content (submitJson e env)) = some [e.queued] := by
  obtain ⟨hd, hparsed⟩ := parseMessage_message (.inl rfl) (listed_entry h) env
  simp only [finite_dto] at hd hparsed
  have hread := read_entry e ⟨hd.1.2.1, hd.2.1⟩
  unfold receivedEntries submitJson
  rw [hparsed]
  simp only [bind, Option.bind, field_entries hd, field_message hd]
  cases hdto : readDTO ⟨.obj (toDTO e).parsed.members, hd.1.2.1, hd.2.1⟩ with
  | none =>
    rw [hdto] at hread
    cases hread
  | some dto =>
    rw [hdto] at hread
    exact congrArg (fun e => some [e]) (Option.some.inj hread)

lemma finite_entries (entries : List LogEntry) :
    (Json.arr (entries.map fun e => .obj (toDTO e).members)).finite =
      .arr (entries.map fun e => .obj (toDTO e).parsed.members) := by
  refine congrArg Json.arr ?_
  induction entries with
  | nil => rfl
  | cons e entries ih => exact congrArg₂ List.cons (finite_dto _) ih

lemma read_entries : ∀ (entries : List LogEntry)
    (h : DistinctElems (entries.map fun e => .obj (toDTO e).parsed.members) ∧
      DoublesElems (entries.map fun e => .obj (toDTO e).parsed.members)),
    (elements _ h).mapM (fun dto => (readDTO dto).map dtoToEntry) =
      some (entries.map LogEntry.queued)
  | [], _ => rfl
  | e :: entries, h => by
    have hrec := read_entries entries ⟨h.1.2, h.2.2⟩
    have hhead := read_entry e ⟨h.1.1, h.2.1⟩
    refine List.mapM_cons.trans ?_
    rw [hrec]
    exact congrArg (fun head => head >>= fun e => some (entries.map LogEntry.queued) >>= fun es =>
      some (e :: es)) hhead

/-- What the handler makes of the message of some entries. -/
theorem receivedEntries_batch {entries : List LogEntry} (h : ∀ e ∈ entries, e.Constructed)
    (env : Envelope) :
    receivedEntries (content (batchSubmitJson entries env)) =
      some (entries.map LogEntry.queued) := by
  obtain ⟨hd, hparsed⟩ := parseMessage_message (.inr rfl) (listed_entries h) env
  simp only [finite_entries] at hd hparsed
  unfold receivedEntries batchSubmitJson
  rw [hparsed]
  simp only [bind, Option.bind, field_message hd]
  exact read_entries entries ⟨hd.1.2.1, hd.2.1⟩

/-- The canonical form has no numbers that are not finite anyway. -/
lemma canonical_finite (m : JsonValue) : canonical m.val.finite = canonical m.val := by
  have hsame := (canonical_eq_iff m.val m.val m.distinct m.distinct).mp rfl
  apply (canonical_eq_iff _ _ (distinct_finite m.distinct) m.distinct).mpr
  rwa [visible_finite]

/-- What an entry is on the other side of a queue: the numbers of its metadata that are not finite
have become `null`, a metadata that is such a number itself has become `{}`, and all else is
as it was. -/
structure SurvivesQueue (sha : Sha256) (e e' : LogEntry) : Prop where
  id : e'.id = e.id
  timestamp : e'.timestamp = e.timestamp
  level : e'.level = e.level
  source : e'.source = e.source
  message : e'.message = e.message
  dataHash : e'.dataHash = e.dataHash
  metadata : e'.metadata.val =
    if e.metadata.val.finite = .null then emptyObject.val else e.metadata.val.finite
  digest : e.metadata.val.finite ≠ .null → sha.computeLogHash e' = sha.computeLogHash e

lemma queued_survives (sha : Sha256) {e : LogEntry} (h : e.Constructed) :
    SurvivesQueue sha e e.queued := by
  have hmetadata : e.queued.metadata = metadataOrEmpty (some (finiteValue e.metadata)) := by
    rw [← metadataOrEmpty_of_ne h.not_null]
    rfl
  have hkept : e.metadata.val.finite ≠ .null → e.queued.metadata.val = e.metadata.val.finite := by
    intro hne
    rw [hmetadata, metadataOrEmpty_of_ne (m := finiteValue e.metadata) hne]
    rfl
  constructor
  · rfl
  · rfl
  · rfl
  · rfl
  · rfl
  · rfl
  · by_cases hnull : e.metadata.val.finite = .null
    · rw [if_pos hnull, hmetadata]
      have hval : (finiteValue e.metadata).val = .null := hnull
      unfold metadataOrEmpty
      simp only [hval]
    · rw [if_neg hnull]
      exact hkept hnull
  · intro hne
    have htext : e.queued.toHashableString = e.toHashableString := by
      apply Json.text_eq_iff.mpr
      have hcanonical := canonical_finite e.metadata
      rw [← hkept hne] at hcanonical
      exact congrArg (fun j => Json.obj [(ofString "id", .str e.id),
        (ofString "timestamp", .str e.timestamp.toISOString), (ofString "level", .str e.level),
        (ofString "source", .str e.source), (ofString "message", .str e.message),
        (ofString "metadata", j)]) hcanonical
    rw [Sha256.computeLogHash, Sha256.computeLogHash, htext]

/-- `database_only` has no queue. -/
lemma databaseOnly_ne {strategy queue : JsString} (h : submitQueueFor strategy = some queue) :
    strategy ≠ ofString "database_only" := by
  rintro rfl
  revert h
  simp [show submitQueueFor (ofString "database_only") = none by decide]

lemma publishLog_eq {strategy queue : JsString} (h : submitQueueFor strategy = some queue)
    (e : LogEntry) (db : JsString) (replyTo correlationId : Option JsString)
    (enqueuedAt : JsDate) :
    Wire.publishLog e strategy db replyTo correlationId enqueuedAt =
      some (queue, content (submitJson e
        ⟨strategy, db, correlationId.getD e.id, replyTo, enqueuedAt⟩)) := by
  rw [Wire.publishLog, if_neg (databaseOnly_ne h), h, Option.map_some]

lemma publishBatch_eq {strategy queue : JsString} (h : submitQueueFor strategy = some queue)
    (entries : List LogEntry) (db correlationId : JsString) (replyTo : Option JsString)
    (enqueuedAt : JsDate) :
    Wire.publishBatch entries strategy db correlationId replyTo enqueuedAt =
      some (queue, content (batchSubmitJson entries
        ⟨strategy, db, correlationId, replyTo, enqueuedAt⟩)) := by
  rw [Wire.publishBatch, if_neg (databaseOnly_ne h), h, Option.map_some]

/-- Entries are made again from their messages, one by one and position by position. -/
theorem entries_survive (sha : Sha256) (entries : List LogEntry)
    (h : ∀ e ∈ entries, e.Constructed) (strategy db batchId queue : JsString)
    (replyTo correlationId : Option JsString) (enqueuedAt : JsDate)
    (hqueue : submitQueueFor strategy = some queue) :
    (∀ e ∈ entries, ∃ msg e',
      Wire.publishLog e strategy db replyTo correlationId enqueuedAt = some (queue, msg) ∧
        receivedEntries msg = some [e'] ∧ SurvivesQueue sha e e') ∧
      ∃ msg es',
        Wire.publishBatch entries strategy db batchId replyTo enqueuedAt = some (queue, msg) ∧
        receivedEntries msg = some es' ∧ List.Forall₂ (SurvivesQueue sha) entries es' := by
  constructor
  · intro e he
    refine ⟨_, e.queued, publishLog_eq hqueue .., ?_, queued_survives sha (h e he)⟩
    exact receivedEntries_submit (h e he) _
  · refine ⟨_, entries.map LogEntry.queued, publishBatch_eq hqueue ..,
      receivedEntries_batch h _, ?_⟩
    rw [List.forall₂_map_right_iff]
    exact List.forall₂_same.mpr fun e he => queued_survives sha (h e he)

/-- An entry whose metadata is the object with one member. -/
def memberEntry (k : JsString) (n : JsNumber) (h : n.rounded = n) : LogEntry :=
  .create [] .epoch [] [] [] (some ⟨.obj [(k, .num n)],
    ⟨List.nodup_singleton k, trivial, trivial⟩, h, trivial⟩)

lemma memberEntry_constructed (k : JsString) (n : JsNumber) (h : n.rounded = n) :
    (memberEntry k n h).Constructed := by
  constructor
  · exact ⟨List.pairwise_singleton .., trivial, trivial⟩
  · intro h
    cases h

/-- The metadata `{"a": 1e400}` is finite no more. -/
def endlessEntry : LogEntry := memberEntry (ofString "a") (.inf false) rfl

/-- The messages of two entries are read. -/
theorem endless_survives :
    (∀ e ∈ [endlessEntry, memberEntry [] .zero rfl], ∃ msg e',
      Wire.publishLog e (ofString "hybrid_private") (ofString "mongo") none none .epoch =
        some (ofString "logs.hybrid_private", msg) ∧
      receivedEntries msg = some [e'] ∧ SurvivesQueue lengthSha e e') ∧
    ∃ msg es', Wire.publishBatch [endlessEntry, memberEntry [] .zero rfl]
        (ofString "hybrid_private") (ofString "mongo") (ofString "b") none .epoch =
        some (ofString "logs.hybrid_private", msg) ∧
      receivedEntries msg = some es' ∧
      List.Forall₂ (SurvivesQueue lengthSha) [endlessEntry, memberEntry [] .zero rfl] es' := by
  refine entries_survive lengthSha [endlessEntry, memberEntry [] .zero rfl] ?_ _ _ _ _ none none
    .epoch (by decide)
  intro e he
  obtain rfl | he := List.mem_cons.mp he
  · exact memberEntry_constructed ..
  · exact List.mem_singleton.mp he ▸ memberEntry_constructed ..

/-- The number in its metadata does not survive. -/
theorem endless_number_lost : endlessEntry.Constructed ∧
    ∃ msg e', Wire.publishLog endlessEntry (ofString "hybrid_private") (ofString "mongo") none none
        .epoch = some (ofString "logs.hybrid_private", msg) ∧
      receivedEntries msg = some [e'] ∧ e'.metadata ≠ endlessEntry.metadata := by
  have hqueue : submitQueueFor (ofString "hybrid_private") =
      some (ofString "logs.hybrid_private") := by decide
  refine ⟨memberEntry_constructed .., _, endlessEntry.queued, publishLog_eq hqueue .., ?_,
    by decide⟩
  exact receivedEntries_submit (memberEntry_constructed ..) _

end HybridLog
