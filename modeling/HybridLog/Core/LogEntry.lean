import HybridLog.Js.Values
import HybridLog.Js.Date
import Mathlib.Order.Lex

/-!
# Log entries and their canonical text

`toHashableString` prints an entry with the keys of its metadata sorted at every depth. The text
determines the entry except for what `sortKeysDeep` and `JSON.stringify` leave out: members under
the key `__proto__`, numbers that are not finite, and the order of keys.
-/

namespace HybridLog

open Js

/-! ### Sorting keys -/

/-- The order of `Array.prototype.sort` on strings: by code units. -/
def codeUnitLe (s s' : JsString) : Prop := s.map UInt16.toNat ≤ s'.map UInt16.toNat

instance : DecidableRel codeUnitLe := fun s s' =>
  inferInstanceAs (Decidable (s.map UInt16.toNat ≤ s'.map UInt16.toNat))

def sortKeys (ks : List JsString) : List JsString := ks.insertionSort codeUnitLe

mutual

def sortKeysDeep : Json → Json
  | .arr xs => .arr (sortKeysElems xs)
  | .obj ms =>
    .obj (assignAll (fun k => (sortKeysMembers ms).lookup k) (sortKeys (ms.map Prod.fst)))
  | j => j

def sortKeysElems : List Json → List Json
  | [] => []
  | x :: xs => sortKeysDeep x :: sortKeysElems xs

def sortKeysMembers : List (JsString × Json) → List (JsString × Json)
  | [] => []
  | (k, v) :: ms => (k, sortKeysDeep v) :: sortKeysMembers ms

end

/-! ### Entries -/

structure LogEntry where
  id : JsString
  timestamp : JsDate
  level : JsString
  source : JsString
  message : JsString
  metadata : JsonValue
  /-- The empty string until the hash is computed. -/
  dataHash : JsString
deriving DecidableEq

/-- `{}` -/
def emptyObject : JsonValue := ⟨.obj [], ⟨List.nodup_nil, trivial⟩, trivial⟩

/-- `metadata ?? {}` -/
def metadataOrEmpty : Option JsonValue → JsonValue
  | none => emptyObject
  | some m => match m.val with
    | .null => emptyObject
    | _ => m

/-- `new LogEntry({ level, source, message, metadata })` with the id and the time it gets. -/
def LogEntry.create (id : JsString) (timestamp : JsDate) (level source message : JsString)
    (metadata : Option JsonValue) : LogEntry :=
  ⟨id, timestamp, level, source, message, metadataOrEmpty metadata, []⟩

/-- The object that is hashed. -/
def LogEntry.hashable (e : LogEntry) : Json :=
  .obj [(ofString "id", .str e.id), (ofString "timestamp", .str e.timestamp.toISOString),
    (ofString "level", .str e.level), (ofString "source", .str e.source),
    (ofString "message", .str e.message), (ofString "metadata", sortKeysDeep e.metadata.val)]

def LogEntry.toHashableString (e : LogEntry) : JsString := e.hashable.text

/-! ### What the canonical form shows -/

mutual

/-- A value without its members under `__proto__` and with `null` for numbers that are not
finite. -/
def visible : Json → Json
  | .num (.inf _) => .null
  | .arr xs => .arr (visibleElems xs)
  | .obj ms => .obj (visibleMembers ms)
  | j => j

def visibleElems : List Json → List Json
  | [] => []
  | x :: xs => visible x :: visibleElems xs

def visibleMembers : List (JsString × Json) → List (JsString × Json)
  | [] => []
  | (k, v) :: ms => if k = protoKey then visibleMembers ms else (k, visible v) :: visibleMembers ms

end

/-- The canonical form of a value as it can be read off its text. -/
def canonical (j : Json) : Json := (sortKeysDeep j).finite

lemma codeUnitLe_total (s s' : JsString) : codeUnitLe s s' ∨ codeUnitLe s' s := le_total _ _

lemma codeUnitLe_trans {s s' s'' : JsString} (h : codeUnitLe s s') (h' : codeUnitLe s' s'') :
    codeUnitLe s s'' := le_trans h h'

lemma codeUnitLe_antisymm {s s' : JsString} (h : codeUnitLe s s') (h' : codeUnitLe s' s) :
    s = s' :=
  List.map_injective_iff.mpr (fun _ _ => UInt16.toNat_inj.mp) (le_antisymm h h')

instance : Std.Total codeUnitLe := ⟨codeUnitLe_total⟩

instance : IsTrans JsString codeUnitLe := ⟨fun _ _ _ => codeUnitLe_trans⟩

/-- What is sorted depends only on which keys there are. -/
lemma sortKeys_filter_congr {p : JsString → Bool} {ks ks' : List JsString}
    (h : (ks.filter p).Perm (ks'.filter p)) :
    (sortKeys ks).filter p = (sortKeys ks').filter p := by
  refine List.Perm.eq_of_pairwise (fun _ _ _ _ => codeUnitLe_antisymm)
    ((List.pairwise_insertionSort codeUnitLe ks).filter p)
    ((List.pairwise_insertionSort codeUnitLe ks').filter p) ?_
  exact ((List.perm_insertionSort codeUnitLe ks).filter p).trans
    (h.trans ((List.perm_insertionSort codeUnitLe ks').filter p).symm)

lemma lookup_sortKeysMembers (k : JsString) (ms : List (JsString × Json)) :
    (sortKeysMembers ms).lookup k = (ms.lookup k).map sortKeysDeep := by
  induction ms with
  | nil => rfl
  | cons m ms ih =>
    rw [sortKeysMembers, lookup_cons, lookup_cons, ih]
    split <;> rfl

lemma lookup_visibleMembers (k : JsString) (ms : List (JsString × Json)) :
    (visibleMembers ms).lookup k =
      if k = protoKey then none else (ms.lookup k).map visible := by
  induction ms with
  | nil => simp [visibleMembers]
  | cons m ms ih =>
    obtain ⟨k', v⟩ := m
    rw [visibleMembers, lookup_cons]
    split
    · next h =>
      rw [ih]
      split
      · rfl
      · next hk => rw [if_neg (by rintro rfl; exact hk h)]
    · next h =>
      rw [lookup_cons, ih]
      by_cases hk : k = k'
      · rw [if_pos hk, if_pos hk, if_neg (hk ▸ h), Option.map_some]
      · rw [if_neg hk, if_neg hk]

lemma keys_visibleMembers (ms : List (JsString × Json)) :
    (visibleMembers ms).map Prod.fst = (ms.map Prod.fst).filter fun k => k ≠ protoKey := by
  induction ms with
  | nil => rfl
  | cons m ms ih =>
    rw [visibleMembers]
    split
    · next h => simp [h, ih]
    · next h => simp [h, ih]

/-! ### The canonical form of an object -/

lemma finiteMembers_lookup (k : JsString) (ms : List (JsString × Json)) :
    (finiteMembers ms).lookup k = (ms.lookup k).map Json.finite := by
  induction ms with
  | nil => rfl
  | cons m ms ih =>
    rw [finiteMembers, lookup_cons, lookup_cons, ih]
    split <;> rfl

lemma finiteMembers_createProp (k : JsString) (v : Json) (ms : List (JsString × Json)) :
    finiteMembers (createProp k v ms) = createProp k v.finite (finiteMembers ms) := by
  induction ms with
  | nil => rfl
  | cons m ms ih =>
    rw [createProp, finiteMembers, createProp]
    split
    · rfl
    · rw [finiteMembers, ih]

lemma finiteMembers_replaceProp (k : JsString) (v : Json) (ms : List (JsString × Json)) :
    finiteMembers (replaceProp k v ms) = replaceProp k v.finite (finiteMembers ms) := by
  induction ms with
  | nil => rfl
  | cons m ms ih =>
    rw [replaceProp, finiteMembers, replaceProp]
    split
    · rfl
    · rw [finiteMembers, ih]

lemma finiteMembers_setProp (ms : List (JsString × Json)) (k : JsString) (v : Json) :
    finiteMembers (setProp ms k v) = setProp (finiteMembers ms) k v.finite := by
  simp only [setProp, defineProp, finiteMembers_lookup, Option.isSome_map]
  split
  · rfl
  split
  · exact finiteMembers_replaceProp k v ms
  · exact finiteMembers_createProp k v ms

lemma finiteMembers_assignAll (f : JsString → Option Json) (ks : List JsString) :
    finiteMembers (assignAll f ks) = assignAll (fun k => (f k).map Json.finite) ks := by
  induction ks using List.reverseRecOn with
  | nil => rfl
  | append_singleton ks k ih =>
    rw [assignAll_concat, assignAll_concat, ← ih]
    cases f k with
    | none => rfl
    | some v => exact finiteMembers_setProp _ k v

/-- The members of a canonical object, in terms of the visible keys only. -/
def canonicalMembers (ms : List (JsString × Json)) : List (JsString × Json) :=
  assignAll (fun k => (ms.lookup k).map canonical)
    ((sortKeys (ms.map Prod.fst)).filter fun k => k ≠ protoKey)

lemma canonical_obj (ms : List (JsString × Json)) :
    canonical (.obj ms) = .obj (canonicalMembers ms) := by
  have hcongr (k : JsString) : ((sortKeysMembers ms).lookup k).map Json.finite =
      (ms.lookup k).map canonical := by
    rw [lookup_sortKeysMembers, Option.map_map]
    rfl
  rw [canonical, sortKeysDeep, Json.finite, finiteMembers_assignAll, canonicalMembers,
    assignAll_filter]
  simp only [hcongr]

lemma mem_sortKeys {k : JsString} {ks : List JsString} : k ∈ sortKeys ks ↔ k ∈ ks :=
  (List.perm_insertionSort codeUnitLe ks).mem_iff

lemma lookup_canonicalMembers (ms : List (JsString × Json)) {k : JsString} (h : k ≠ protoKey) :
    (canonicalMembers ms).lookup k = (ms.lookup k).map canonical := by
  rw [canonicalMembers, lookup_assignAll]
  split
  · rfl
  · next hk =>
    have hnone : ms.lookup k = none := by
      rw [← Option.not_isSome_iff_eq_none, lookup_isSome_iff]
      simpa [mem_sortKeys, h] using hk
    rw [hnone, Option.map_none]

/-- Canonical objects are equal if the objects have the same visible keys with values of the same
canonical form. -/
lemma canonicalMembers_congr {ms ns : List (JsString × Json)}
    (hkeys : ((visibleMembers ms).map Prod.fst).Perm ((visibleMembers ns).map Prod.fst))
    (hvals : ∀ k ≠ protoKey, (ms.lookup k).map canonical = (ns.lookup k).map canonical) :
    canonicalMembers ms = canonicalMembers ns := by
  rw [keys_visibleMembers, keys_visibleMembers] at hkeys
  rw [canonicalMembers, canonicalMembers, sortKeys_filter_congr hkeys]
  exact assignAll_congr fun k hk => hvals k (by simpa using (List.mem_filter.mp hk).2)

/-- The visible members of two objects with values related by `R`. -/
lemma same_members_iff {ms ns : List (JsString × Json)} (hms : (ms.map Prod.fst).Nodup)
    (hns : (ns.map Prod.fst).Nodup)
    (ih : ∀ k v v', ms.lookup k = some v → ns.lookup k = some v' →
      (canonical v = canonical v' ↔ (visible v).Same (visible v'))) :
    canonicalMembers ms = canonicalMembers ns ↔
      (visibleMembers ms).length = (visibleMembers ns).length ∧
        SameMembers (visibleMembers ms) (visibleMembers ns) := by
  have hvms : ((visibleMembers ms).map Prod.fst).Nodup :=
    keys_visibleMembers ms ▸ hms.filter _
  have hvns : ((visibleMembers ns).map Prod.fst).Nodup :=
    keys_visibleMembers ns ▸ hns.filter _
  have hmem {ms : List (JsString × Json)} {k : JsString} :
      k ∈ (visibleMembers ms).map Prod.fst ↔ k ≠ protoKey ∧ (ms.lookup k).isSome := by
    rw [← lookup_isSome_iff, lookup_visibleMembers]
    split
    · next h => simp [h]
    · next h => simp only [ne_eq, h, not_false_eq_true, true_and, Option.isSome_map]
  constructor
  · intro h
    have hvals (k : JsString) (hk : k ≠ protoKey) :
        (ms.lookup k).map canonical = (ns.lookup k).map canonical := by
      rw [← lookup_canonicalMembers ms hk, h, lookup_canonicalMembers ns hk]
    have hperm : ((visibleMembers ms).map Prod.fst).Perm ((visibleMembers ns).map Prod.fst) := by
      refine (List.perm_ext_iff_of_nodup hvms hvns).mpr fun k => ?_
      rw [hmem, hmem]
      refine and_congr_right fun hk => ?_
      rw [← Option.isSome_map (f := canonical), hvals k hk, Option.isSome_map]
    refine ⟨by simpa using hperm.length_eq, sameMembers_iff.mpr fun k v hkv => ?_⟩
    have hk := lookup_eq_some_of_mem hvms hkv
    rw [lookup_visibleMembers] at hk
    split at hk
    · cases hk
    · next hproto =>
      obtain ⟨w, hw, rfl⟩ := Option.map_eq_some_iff.mp hk
      have hval := hvals k hproto
      rw [hw, Option.map_some] at hval
      obtain ⟨w', hw', heq⟩ := Option.map_eq_some_iff.mp hval.symm
      refine ⟨visible w', ?_, (ih k w w' hw hw').mp heq.symm⟩
      rw [lookup_visibleMembers, if_neg hproto, hw', Option.map_some]
  · rintro ⟨hlen, hsame⟩
    have hperm := keys_perm_of_same hvms hlen hsame
    rw [sameMembers_iff] at hsame
    refine canonicalMembers_congr hperm fun k hk => ?_
    cases hv : ms.lookup k with
    | none =>
      have hnot : k ∉ (visibleMembers ns).map Prod.fst := by
        rw [← hperm.mem_iff, hmem, hv]
        simp
      rw [hmem] at hnot
      have hnone : ns.lookup k = none :=
        Option.not_isSome_iff_eq_none.mp fun h => hnot ⟨hk, h⟩
      rw [hnone]
    | some v =>
      have hkv : (k, visible v) ∈ visibleMembers ms := by
        have hl : (visibleMembers ms).lookup k = some (visible v) := by
          rw [lookup_visibleMembers, if_neg hk, hv, Option.map_some]
        obtain ⟨l, l', hl', _⟩ := List.lookup_eq_some_iff.mp hl
        rw [hl']
        simp
      obtain ⟨v', hv', hs⟩ := hsame k (visible v) hkv
      rw [lookup_visibleMembers, if_neg hk] at hv'
      obtain ⟨w, hw, rfl⟩ := Option.map_eq_some_iff.mp hv'
      rw [hw, Option.map_some, Option.map_some, (ih k v w hv hw).mpr hs]

mutual

/-- Two values have the same canonical form exactly if their visible parts are the same up to the
order of keys. -/
theorem canonical_eq_iff : ∀ j j' : Json, j.Distinct → j'.Distinct →
    (canonical j = canonical j' ↔ (visible j).Same (visible j'))
  | .obj ms, .obj ns, hj, hj' => by
    rw [canonical_obj, canonical_obj, Json.obj.injEq, visible, visible, Json.Same]
    exact same_members_iff hj.1 hj'.1 fun k v v' hv hv' =>
      canonical_members_iff ms k v v' hj.2 (distinctMembers_lookup hj'.2 hv') hv
  | .arr xs, .arr ys, hj, hj' => by
    simp only [canonical, sortKeysDeep, Json.finite, Json.arr.injEq, visible, Json.Same]
    exact canonical_elems_iff xs ys hj hj'
  | .null, j', _, _ | .bool _, j', _, _ | .str _, j', _, _ | .num .zero, j', _, _
  | .num (.fin _), j', _, _ | .num (.inf _), j', _, _ => by
    cases j' with
    | num n => cases n <;> simp [canonical, sortKeysDeep, Json.finite, visible, Json.Same]
    | _ => simp [canonical, sortKeysDeep, Json.finite, visible, Json.Same]
  | .arr _, .num n, _, _ | .obj _, .num n, _, _ => by
    cases n <;> simp [canonical, sortKeysDeep, Json.finite, visible, Json.Same]
  | .arr _, .null, _, _ | .arr _, .bool _, _, _ | .arr _, .str _, _, _ | .arr _, .obj _, _, _
  | .obj _, .null, _, _ | .obj _, .bool _, _, _ | .obj _, .str _, _, _ | .obj _, .arr _, _, _ => by
    simp [canonical, sortKeysDeep, Json.finite, visible, Json.Same]

theorem canonical_elems_iff : ∀ xs ys : List Json, DistinctElems xs → DistinctElems ys →
    (finiteElems (sortKeysElems xs) = finiteElems (sortKeysElems ys) ↔
      SameElems (visibleElems xs) (visibleElems ys))
  | [], [], _, _ => by simp [sortKeysElems, finiteElems, visibleElems, SameElems]
  | [], _ :: _, _, _ => by simp [sortKeysElems, finiteElems, visibleElems, SameElems]
  | _ :: _, [], _, _ => by simp [sortKeysElems, finiteElems, visibleElems, SameElems]
  | x :: xs, y :: ys, hx, hy => by
    simp only [sortKeysElems, finiteElems, visibleElems, SameElems, List.cons.injEq]
    exact and_congr (canonical_eq_iff x y hx.1 hy.1) (canonical_elems_iff xs ys hx.2 hy.2)

theorem canonical_members_iff : ∀ (ms : List (JsString × Json)) (k : JsString) (v v' : Json),
    DistinctMembers ms → v'.Distinct → ms.lookup k = some v →
      (canonical v = canonical v' ↔ (visible v).Same (visible v'))
  | [], _, _, _, _, _, hl => by cases hl
  | (k', w) :: ms, k, v, v', hms, hv', hl => by
    rw [lookup_cons] at hl
    split at hl
    · obtain rfl := Option.some.inj hl
      exact canonical_eq_iff w v' hms.1 hv'
    · exact canonical_members_iff ms k v v' hms.2 hv' hl

end

lemma metadataOrEmpty_ne_null (m : Option JsonValue) : (metadataOrEmpty m).val ≠ .null := by
  cases m with
  | none => simp [metadataOrEmpty, emptyObject]
  | some m =>
    rw [metadataOrEmpty]
    split
    · simp [emptyObject]
    · next h => exact h

lemma metadataOrEmpty_of_ne {m : JsonValue} (h : m.val ≠ .null) :
    metadataOrEmpty (some m) = m := by
  rw [metadataOrEmpty]
  split
  · next h' => exact absurd h' h
  · rfl

/-! ### Values with reordered keys -/

mutual

lemma Json.Same.visible : ∀ {j j' : Json}, j.Distinct → j.Same j' →
    (HybridLog.visible j).Same (HybridLog.visible j')
  | .null, .null, _, _ => trivial
  | .bool _, .bool _, _, h => h
  | .str _, .str _, _, h => h
  | .num n, .num n', _, h => by
    obtain rfl : n = n' := h
    cases n <;> simp [HybridLog.visible, Json.Same]
  | .arr _, .arr _, hd, h => SameElems.visible hd h
  | .obj ms, .obj ns, hd, h => by
    have hperm := keys_perm_of_same hd.1 h.1 h.2
    refine ⟨?_, SameMembers.visible hd.2 h.2⟩
    have hlen := (hperm.filter fun k => k ≠ protoKey).length_eq
    rw [← keys_visibleMembers, ← keys_visibleMembers] at hlen
    simpa using hlen

lemma SameElems.visible : ∀ {xs ys : List Json}, DistinctElems xs → SameElems xs ys →
    SameElems (visibleElems xs) (visibleElems ys)
  | [], [], _, _ => trivial
  | _ :: _, _ :: _, hd, h => ⟨Json.Same.visible hd.1 h.1, SameElems.visible hd.2 h.2⟩

lemma SameMembers.visible : ∀ {ms ns : List (JsString × Json)}, DistinctMembers ms →
    SameMembers ms ns → SameMembers (visibleMembers ms) (visibleMembers ns)
  | [], _, _, _ => trivial
  | (k, v) :: ms, ns, hd, h => by
    obtain ⟨⟨v', hv', hsame⟩, hms⟩ := h
    have hrest := SameMembers.visible hd.2 hms
    rw [visibleMembers]
    split
    · exact hrest
    · next hk =>
      refine ⟨⟨HybridLog.visible v', ?_, Json.Same.visible hd.1 hsame⟩, hrest⟩
      rw [lookup_visibleMembers, if_neg hk, hv', Option.map_some]

end

mutual

lemma visible_finite : ∀ j : Json, visible j.finite = visible j
  | .null | .bool _ | .str _ | .num .zero | .num (.fin _) | .num (.inf _) => rfl
  | .arr xs => by rw [Json.finite, visible, visible, visibleElems_finite xs]
  | .obj ms => by rw [Json.finite, visible, visible, visibleMembers_finite ms]

lemma visibleElems_finite : ∀ xs : List Json, visibleElems (finiteElems xs) = visibleElems xs
  | [] => rfl
  | x :: xs => by
    rw [finiteElems, visibleElems, visibleElems, visible_finite x, visibleElems_finite xs]

lemma visibleMembers_finite : ∀ ms : List (JsString × Json),
    visibleMembers (finiteMembers ms) = visibleMembers ms
  | [] => rfl
  | (k, v) :: ms => by
    rw [finiteMembers, visibleMembers, visibleMembers, visible_finite v, visibleMembers_finite ms]

end

/-! ### What is hashed determines the entry -/

/-- Two entries are hashed from the same bytes exactly if all their fields agree, the metadata as
far as it is visible and up to the order of keys. -/
theorem toHashableString_eq_iff {e e' : LogEntry} :
    utf8 e.toHashableString = utf8 e'.toHashableString ↔
      e.id = e'.id ∧ e.timestamp = e'.timestamp ∧ e.level = e'.level ∧ e.source = e'.source ∧
        e.message = e'.message ∧ (visible e.metadata.val).Same (visible e'.metadata.val) := by
  rw [← canonical_eq_iff _ _ e.metadata.distinct e'.metadata.distinct, LogEntry.toHashableString,
    LogEntry.toHashableString, Json.utf8_text_eq_iff]
  simp only [LogEntry.hashable, Json.finite, finiteMembers, Json.obj.injEq, List.cons.injEq,
    Prod.mk.injEq, Json.str.injEq, true_and, and_true, canonical]
  constructor
  · rintro ⟨hid, htime, hrest⟩
    exact ⟨hid, JsDate.toISOString_injective htime, hrest⟩
  · rintro ⟨hid, htime, hrest⟩
    exact ⟨hid, by rw [htime], hrest⟩

lemma quote_length (s : JsString) : 2 ≤ (quote s).length := by
  simp [quote]

lemma length_le_quoteUnits (s : JsString) : s.length ≤ (quoteUnits s).length := by
  have hone (c : UInt16) : 1 ≤ (quoteUnit c).length := by
    rw [quoteUnit]
    split
    · simp
    · split <;> simp [unicodeEscape]
  induction s using quoteUnits.induct with
  | case1 => simp
  | case2 c =>
    have := hone c
    simpa only [quoteUnits, List.length_singleton] using this
  | case3 c d rest hcd ih => simpa [quoteUnits, hcd] using ih
  | case4 c d rest hcd ih =>
    have := hone c
    simp only [quoteUnits, hcd, Bool.false_eq_true, if_false, List.length_append,
      List.length_cons] at ih ⊢
    omega

/-- The canonical text is longer than the 64 bytes of an inner node of a batch. -/
theorem toHashableString_length (e : LogEntry) : 64 < (utf8 e.toHashableString).length := by
  refine lt_of_lt_of_le ?_ (length_le_utf8 _)
  have hkeys : (quote (ofString "id")).length = 4 ∧ (quote (ofString "timestamp")).length = 11 ∧
      (quote (ofString "level")).length = 7 ∧ (quote (ofString "source")).length = 8 ∧
      (quote (ofString "message")).length = 9 ∧ (quote (ofString "metadata")).length = 10 := by
    decide
  have htime : 26 ≤ (quote e.timestamp.toISOString).length := by
    have h1 := e.timestamp.toISOString_length
    have h2 := length_le_quoteUnits e.timestamp.toISOString
    simp only [quote, List.length_cons, List.length_append, List.length_nil]
    omega
  have hid := quote_length e.id
  have hlevel := quote_length e.level
  have hsource := quote_length e.source
  have hmessage := quote_length e.message
  have hmeta := (sortKeysDeep e.metadata.val).text_length_pos
  simp only [LogEntry.toHashableString, LogEntry.hashable, Json.text, membersText,
    List.length_cons, List.length_append, List.length_nil, hkeys]
  omega

end HybridLog
