import HybridLog.Core.HashService

/-!
# The canonical text as a commitment

Two things are asked of the text that is hashed: that it tells apart what differs, and that it does
not depend on the order in which a store returns the keys of the metadata. The second holds. The
first fails where two values of the metadata differ only under the key `__proto__` or in numbers
that are not finite, which `JSON.parse` can produce and `sortKeysDeep` and `JSON.stringify` drop.
-/

namespace HybridLog

open Js

/-! ### Telling entries apart -/

/-- All fields that are hashed agree, the metadata up to the order of keys. -/
structure LogEntry.Agrees (e e' : LogEntry) : Prop where
  id : e.id = e'.id
  timestamp : e.timestamp = e'.timestamp
  level : e.level = e'.level
  source : e.source = e'.source
  message : e.message = e'.message
  metadata : e.metadata.val.Same e'.metadata.val

/-- The fields other than the metadata agree. -/
def LogEntry.SameHead (e e' : LogEntry) : Prop :=
  e.id = e'.id ∧ e.timestamp = e'.timestamp ∧ e.level = e'.level ∧ e.source = e'.source ∧
    e.message = e'.message

lemma text_eq_iff_utf8 {e e' : LogEntry} :
    e.toHashableString = e'.toHashableString ↔
      utf8 e.toHashableString = utf8 e'.toHashableString := by
  rw [LogEntry.toHashableString, LogEntry.toHashableString, Json.text_eq_iff,
    Json.utf8_text_eq_iff]

lemma toHashableString_eq {e e' : LogEntry} :
    e.toHashableString = e'.toHashableString ↔
      e.SameHead e' ∧ (visible e.metadata.val).Same (visible e'.metadata.val) := by
  rw [text_eq_iff_utf8, toHashableString_eq_iff, LogEntry.SameHead]
  simp only [and_assoc]

/-- Equal texts come from entries that agree, exactly if the entries differ in another field or
what is visible of their metadata is all that matters. -/
theorem equal_texts_agree_iff (e e' : LogEntry) :
    (e.toHashableString = e'.toHashableString → e.Agrees e') ↔
      (e.SameHead e' → (visible e.metadata.val).Same (visible e'.metadata.val) →
        e.metadata.val.Same e'.metadata.val) := by
  rw [toHashableString_eq]
  constructor
  · intro h hhead hvisible
    exact (h ⟨hhead, hvisible⟩).metadata
  · rintro h ⟨hhead, hvisible⟩
    obtain ⟨hid, htime, hlevel, hsource, hmessage⟩ := hhead
    exact ⟨hid, htime, hlevel, hsource, hmessage,
      h ⟨hid, htime, hlevel, hsource, hmessage⟩ hvisible⟩

/-- `JSON.parse('{"__proto__":null}')` -/
def shadowedMetadata : JsonValue :=
  ⟨.obj [(protoKey, .null)], ⟨List.nodup_singleton _, trivial, trivial⟩, trivial, trivial⟩

/-- An entry that differs from another one in a member under `__proto__`. -/
def shadowedEntry (metadata : JsonValue) : LogEntry :=
  ⟨[], JsDate.epoch, ofString "INFO", [], [], metadata, []⟩

theorem equal_texts_disagree :
    (shadowedEntry shadowedMetadata).toHashableString = (shadowedEntry emptyObject).toHashableString ∧
      ¬(shadowedEntry shadowedMetadata).Agrees (shadowedEntry emptyObject) := by
  constructor
  · apply toHashableString_eq.mpr
    exact ⟨⟨rfl, rfl, rfl, rfl, rfl⟩, rfl, trivial⟩
  · intro h
    cases h.metadata.1

mutual

/-- A value without members under `__proto__` and without numbers that are not finite. -/
def Plain : Json → Prop
  | .num (.inf _) => False
  | .arr xs => PlainElems xs
  | .obj ms => PlainMembers ms
  | _ => True

def PlainElems : List Json → Prop
  | [] => True
  | x :: xs => Plain x ∧ PlainElems xs

def PlainMembers : List (JsString × Json) → Prop
  | [] => True
  | (k, v) :: ms => k ≠ protoKey ∧ Plain v ∧ PlainMembers ms

end

mutual

/-- All of a plain value is visible. -/
lemma Plain.visible : ∀ {j : Json}, Plain j → HybridLog.visible j = j
  | .null, _ | .bool _, _ | .str _, _ | .num .zero, _ | .num (.fin _), _ => rfl
  | .arr xs, h => by rw [HybridLog.visible, PlainElems.visible h]
  | .obj ms, h => by rw [HybridLog.visible, PlainMembers.visible h]

lemma PlainElems.visible : ∀ {xs : List Json}, PlainElems xs → visibleElems xs = xs
  | [], _ => rfl
  | x :: xs, h => by rw [visibleElems, Plain.visible h.1, PlainElems.visible h.2]

lemma PlainMembers.visible : ∀ {ms : List (JsString × Json)}, PlainMembers ms →
    visibleMembers ms = ms
  | [], _ => rfl
  | (k, v) :: ms, h => by
    rw [visibleMembers, if_neg h.1, Plain.visible h.2.1, PlainMembers.visible h.2.2]

end

/-- Among entries with plain metadata equal texts come from entries that agree. -/
lemma Plain.agrees {e e' : LogEntry} (h : Plain e.metadata.val) (h' : Plain e'.metadata.val)
    (heq : e.toHashableString = e'.toHashableString) : e.Agrees e' := by
  apply (equal_texts_agree_iff e e').mpr _ heq
  rw [h.visible, h'.visible]
  exact fun _ hsame => hsame

/-! ### The order of keys -/

/-- The members of an object with sorted keys, in terms of those of the object. -/
def sortedMembers (ms : List (JsString × Json)) : List (JsString × Json) :=
  assignAll (fun k => (sortKeysMembers ms).lookup k) (sortKeys (ms.map Prod.fst))

lemma lookup_sortedMembers (ms : List (JsString × Json)) (k : JsString) :
    (sortedMembers ms).lookup k = if k = protoKey then none else (ms.lookup k).map sortKeysDeep := by
  rw [sortedMembers, lookup_assignAll, lookup_sortKeysMembers]
  simp only [mem_sortKeys, ← lookup_isSome_iff]
  by_cases hk : k = protoKey
  · simp [hk]
  · cases ms.lookup k with
    | none => simp
    | some v => simp [hk]

/-- The keys of an object with sorted keys are those of the object, but for `__proto__`. -/
lemma keys_sortedMembers {ms : List (JsString × Json)} (h : (ms.map Prod.fst).Nodup) :
    (((sortedMembers ms).map Prod.fst).filter fun k => k ≠ protoKey).Perm
      ((ms.map Prod.fst).filter fun k => k ≠ protoKey) := by
  apply (List.perm_ext_iff_of_nodup ((nodup_assignAll _ _).filter _) (h.filter _)).mpr
  intro k
  have hlookup := lookup_sortedMembers ms k
  rw [sortedMembers] at hlookup
  rw [List.mem_filter, List.mem_filter, ← lookup_isSome_iff, ← lookup_isSome_iff, hlookup]
  by_cases hk : k = protoKey
  · simp [hk]
  · simp [hk]

lemma sortKeysDeep_sortedMembers {ms : List (JsString × Json)} (hms : (ms.map Prod.fst).Nodup)
    (ih : ∀ k v, ms.lookup k = some v → sortKeysDeep (sortKeysDeep v) = sortKeysDeep v) :
    sortKeysDeep (.obj (sortedMembers ms)) = .obj (sortedMembers ms) := by
  have hkeys := sortKeys_filter_congr (keys_sortedMembers hms)
  rw [sortKeysDeep, Json.obj.injEq]
  conv_rhs => rw [sortedMembers, ← assignAll_filter, ← hkeys]
  rw [← assignAll_filter]
  apply assignAll_congr
  intro k hk
  have hproto : k ≠ protoKey := by simpa using (List.mem_filter.mp hk).2
  rw [lookup_sortKeysMembers, lookup_sortKeysMembers, lookup_sortedMembers, if_neg hproto]
  cases hv : ms.lookup k with
  | none => rfl
  | some v => simp only [Option.map_some, ih k v hv]

mutual

/-- Sorting what is sorted changes nothing. -/
theorem sortKeysDeep_sortKeysDeep : ∀ j : Json, j.Distinct →
    sortKeysDeep (sortKeysDeep j) = sortKeysDeep j
  | .null, _ | .bool _, _ | .num _, _ | .str _, _ => rfl
  | .arr xs, h => by
    rw [sortKeysDeep, sortKeysDeep, sortKeysElems_sortKeysElems xs h]
  | .obj ms, h =>
    sortKeysDeep_sortedMembers h.1 fun k v => sortKeysDeep_lookup ms k v h.2

theorem sortKeysElems_sortKeysElems : ∀ xs : List Json, DistinctElems xs →
    sortKeysElems (sortKeysElems xs) = sortKeysElems xs
  | [], _ => rfl
  | x :: xs, h => by
    rw [sortKeysElems, sortKeysElems, sortKeysDeep_sortKeysDeep x h.1,
      sortKeysElems_sortKeysElems xs h.2]

theorem sortKeysDeep_lookup : ∀ (ms : List (JsString × Json)) (k : JsString) (v : Json),
    DistinctMembers ms → ms.lookup k = some v →
      sortKeysDeep (sortKeysDeep v) = sortKeysDeep v
  | [], _, _, _, hl => by cases hl
  | (k', w) :: ms, k, v, hms, hl => by
    rw [lookup_cons] at hl
    split at hl
    · obtain rfl := Option.some.inj hl
      exact sortKeysDeep_sortKeysDeep w hms.1
    · exact sortKeysDeep_lookup ms k v hms.2 hl

end

/-- Metadata with reordered keys has the same canonical text and the same hash. -/
theorem key_order_irrelevant (sha : Sha256) (m m' : JsonValue) (h : m.val.Same m'.val) :
    (sortKeysDeep m.val).text = (sortKeysDeep m'.val).text ∧
      sortKeysDeep (sortKeysDeep m.val) = sortKeysDeep m.val ∧
        ∀ e e' : LogEntry, e.SameHead e' → e.metadata = m → e'.metadata = m' →
          e.toHashableString = e'.toHashableString ∧ sha.computeLogHash e = sha.computeLogHash e' := by
  have hvisible := Json.Same.visible m.distinct h
  refine ⟨?_, sortKeysDeep_sortKeysDeep m.val m.distinct, ?_⟩
  · apply Json.text_eq_iff.mpr
    exact (canonical_eq_iff m.val m'.val m.distinct m'.distinct).mpr hvisible
  · rintro e e' hhead rfl rfl
    have htext : e.toHashableString = e'.toHashableString :=
      toHashableString_eq.mpr ⟨hhead, hvisible⟩
    refine ⟨htext, ?_⟩
    rw [Sha256.computeLogHash, Sha256.computeLogHash, htext]

lemma nodup_tenBA : [ofString "10", ofString "b", ofString "a"].Nodup := by decide

lemma nodup_tenAB : [ofString "10", ofString "a", ofString "b"].Nodup := by decide

lemma nodup_yx : [ofString "y", ofString "x"].Nodup := by decide

lemma nodup_xy : [ofString "x", ofString "y"].Nodup := by decide

/-- `{ "10": [], "b": { "y": null, "x": true }, "a": 0 }` -/
def writtenMetadata : JsonValue :=
  ⟨.obj [(ofString "10", .arr []),
    (ofString "b", .obj [(ofString "y", .null), (ofString "x", .bool true)]),
    (ofString "a", .num .zero)],
    ⟨nodup_tenBA, trivial, ⟨nodup_yx, trivial, trivial, trivial⟩, trivial, trivial⟩,
    ⟨trivial, ⟨trivial, trivial, trivial⟩, rfl, trivial⟩⟩

/-- The same, as a store may return it. -/
def storedMetadata : JsonValue :=
  ⟨.obj [(ofString "10", .arr []), (ofString "a", .num .zero),
    (ofString "b", .obj [(ofString "x", .bool true), (ofString "y", .null)])],
    ⟨nodup_tenAB, trivial, trivial, ⟨nodup_xy, trivial, trivial, trivial⟩, trivial⟩,
    ⟨trivial, rfl, ⟨trivial, trivial, trivial⟩, trivial⟩⟩

lemma written_same_stored : writtenMetadata.val.Same storedMetadata.val := by
  refine ⟨rfl, ⟨.arr [], by decide, trivial⟩, ⟨.obj [(ofString "x", .bool true),
    (ofString "y", .null)], by decide, ?_⟩, ⟨.num .zero, by decide, rfl⟩, trivial⟩
  exact ⟨rfl, ⟨.null, by decide, trivial⟩, ⟨.bool true, by decide, rfl⟩, trivial⟩

theorem stored_metadata_same_text :
    (sortKeysDeep writtenMetadata.val).text = (sortKeysDeep storedMetadata.val).text :=
  (key_order_irrelevant lengthSha writtenMetadata storedMetadata written_same_stored).1

end HybridLog
