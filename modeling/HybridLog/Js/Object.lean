import HybridLog.Js.Json
import Mathlib.Data.List.Perm.Subperm

/-!
# Objects and their own properties

The own properties of an object are enumerated with the array indices first, in ascending order,
and the other keys in the order they were created. Assigning to the key `__proto__` of an ordinary
object creates no own property.
-/

namespace Js

/-! ### Own properties -/

/-- The number a key denotes, if the key is an array index. -/
def arrayIndex? (k : JsString) : Option ℕ :=
  match takeDigits k with
  | (d :: ds, []) =>
    if (d = 0 → ds = []) ∧ digitsValue (d :: ds) < 4294967295 then some (digitsValue (d :: ds))
    else none
  | _ => none

/-- Whether a new key `k` is enumerated before the key `k'` that is already there. -/
def comesBefore (k k' : JsString) : Bool :=
  match arrayIndex? k, arrayIndex? k' with
  | some i, some j => i < j
  | some _, none => true
  | none, _ => false

def createProp (k : JsString) (v : Json) : List (JsString × Json) → List (JsString × Json)
  | [] => [(k, v)]
  | (k', v') :: ms =>
    if comesBefore k k' then (k, v) :: (k', v') :: ms else (k', v') :: createProp k v ms

def replaceProp (k : JsString) (v : Json) : List (JsString × Json) → List (JsString × Json)
  | [] => []
  | (k', v') :: ms => if k' = k then (k, v) :: ms else (k', v') :: replaceProp k v ms

/-- Define the own property `k`, as an object literal or `JSON.parse` does. -/
def defineProp (ms : List (JsString × Json)) (k : JsString) (v : Json) : List (JsString × Json) :=
  if (ms.lookup k).isSome then replaceProp k v ms else createProp k v ms

def protoKey : JsString := ofString "__proto__"

/-- The assignment `obj[k] = v`. -/
def setProp (ms : List (JsString × Json)) (k : JsString) (v : Json) : List (JsString × Json) :=
  if k = protoKey then ms else defineProp ms k v

lemma lookup_cons (k k' : JsString) (v : Json) (ms : List (JsString × Json)) :
    ((k', v) :: ms).lookup k = if k = k' then some v else ms.lookup k := by
  rw [List.lookup_cons]
  by_cases h : k = k'
  · rw [if_pos h, h, beq_self_eq_true]
  · rw [if_neg h, beq_eq_false_iff_ne.mpr h]

lemma lookup_createProp (k : JsString) (v : Json) (k' : JsString) :
    ∀ ms : List (JsString × Json), ms.lookup k = none →
      (createProp k v ms).lookup k' = if k' = k then some v else ms.lookup k'
  | [], _ => lookup_cons k' k v []
  | (k'', v'') :: ms, hnone => by
    rw [lookup_cons] at hnone
    split at hnone
    · cases hnone
    · next hne =>
      rw [createProp]
      split
      · rw [lookup_cons]
      · rw [lookup_cons, lookup_cons, lookup_createProp k v k' ms hnone]
        split_ifs with h h'
        · exact absurd (h'.symm.trans h) hne
        all_goals rfl

lemma lookup_replaceProp (k : JsString) (v : Json) (k' : JsString) :
    ∀ ms : List (JsString × Json), (ms.lookup k).isSome →
      (replaceProp k v ms).lookup k' = if k' = k then some v else ms.lookup k'
  | [], h => by cases h
  | (k'', v'') :: ms, hsome => by
    rw [replaceProp]
    split
    · next h =>
      subst h
      rw [lookup_cons, lookup_cons]
      split_ifs <;> rfl
    · next hne =>
      rw [lookup_cons, if_neg (Ne.symm hne)] at hsome
      rw [lookup_cons, lookup_cons, lookup_replaceProp k v k' ms hsome]
      split_ifs with h h'
      · exact absurd (h.symm.trans h') hne
      all_goals rfl

@[simp] lemma lookup_setProp (ms : List (JsString × Json)) (k : JsString) (v : Json)
    (k' : JsString) :
    (setProp ms k v).lookup k' = if k' = k ∧ k ≠ protoKey then some v else ms.lookup k' := by
  rw [setProp]
  split
  · next h => simp [h]
  · next h =>
    simp only [h, ne_eq, not_false_eq_true, and_true]
    rw [defineProp]
    split
    · next hs => exact lookup_replaceProp k v k' ms hs
    · next hs => exact lookup_createProp k v k' ms (Option.not_isSome_iff_eq_none.mp hs)

/-- `ks.reduce((acc, k) => { acc[k] = f(k); return acc; }, {})`. -/
def assignAll (f : JsString → Option Json) (ks : List JsString) : List (JsString × Json) :=
  ks.foldl (fun acc k => match f k with
    | some v => setProp acc k v
    | none => acc) []

section assignAll

variable {f g : JsString → Option Json} {ks : List JsString}

lemma assignAll_congr (h : ∀ k ∈ ks, f k = g k) : assignAll f ks = assignAll g ks :=
  List.foldl_ext _ _ _ fun acc k hk => by rw [h k hk]

lemma assignAll_concat (f : JsString → Option Json) (ks : List JsString) (k : JsString) :
    assignAll f (ks ++ [k]) = match f k with
      | some v => setProp (assignAll f ks) k v
      | none => assignAll f ks := by
  simp only [assignAll, List.foldl_append, List.foldl_cons, List.foldl_nil]

/-- The key `__proto__` leaves no trace. -/
lemma assignAll_filter (f : JsString → Option Json) (ks : List JsString) :
    assignAll f (ks.filter fun k => k ≠ protoKey) = assignAll f ks := by
  induction ks using List.reverseRecOn with
  | nil => rfl
  | append_singleton ks k ih =>
    rw [List.filter_append, assignAll_concat]
    by_cases h : k = protoKey
    · have hnil : [k].filter (fun k => k ≠ protoKey) = [] := by simp [h]
      rw [hnil, List.append_nil, ih]
      cases f k with
      | none => rfl
      | some v => simp [setProp, h]
    · have hone : [k].filter (fun k => k ≠ protoKey) = [k] := by simp [h]
      rw [hone, assignAll_concat, ih]

lemma lookup_assignAll (f : JsString → Option Json) (ks : List JsString) (k : JsString) :
    (assignAll f ks).lookup k = if k ∈ ks ∧ k ≠ protoKey then f k else none := by
  induction ks using List.reverseRecOn with
  | nil => simp [assignAll]
  | append_singleton ks k' ih =>
    rw [assignAll_concat]
    by_cases hk : k = k'
    · subst hk
      cases hf : f k with
      | none => simp [ih, hf]
      | some v =>
        rw [lookup_setProp, ih, hf]
        by_cases hp : k = protoKey <;> simp [hp]
    · cases hf : f k' with
      | none => simp [ih, hk]
      | some v => simp [ih, hk]

end assignAll

/-! ### Keys of an object that is built -/

lemma lookup_isSome_iff {k : JsString} {ms : List (JsString × Json)} :
    (ms.lookup k).isSome ↔ k ∈ ms.map Prod.fst := by
  induction ms with
  | nil => simp
  | cons m ms ih =>
    obtain ⟨k', v⟩ := m
    rw [lookup_cons, List.map_cons, List.mem_cons, ← ih]
    split
    · next h => simp [h]
    · next h => simp only [h, false_or]

lemma keys_createProp (k : JsString) (v : Json) (ms : List (JsString × Json)) :
    ((createProp k v ms).map Prod.fst).Perm (k :: ms.map Prod.fst) := by
  induction ms with
  | nil => exact .refl _
  | cons m ms ih =>
    rw [createProp]
    split
    · exact .refl _
    · rw [List.map_cons]
      exact (ih.cons m.1).trans (.swap k m.1 _)

lemma keys_replaceProp (k : JsString) (v : Json) (ms : List (JsString × Json)) :
    (replaceProp k v ms).map Prod.fst = ms.map Prod.fst := by
  induction ms with
  | nil => rfl
  | cons m ms ih =>
    rw [replaceProp]
    split
    · next h => rw [List.map_cons, List.map_cons, h]
    · rw [List.map_cons, List.map_cons, ih]

lemma nodup_setProp {ms : List (JsString × Json)} (h : (ms.map Prod.fst).Nodup) (k : JsString)
    (v : Json) : ((setProp ms k v).map Prod.fst).Nodup := by
  rw [setProp]
  split
  · exact h
  rw [defineProp]
  split
  · rwa [keys_replaceProp]
  · next hk =>
    apply (keys_createProp k v ms).nodup_iff.mpr
    apply List.nodup_cons.mpr
    exact ⟨fun hmem => hk (lookup_isSome_iff.mpr hmem), h⟩

/-- An object that is built by assignments has each key once. -/
lemma nodup_assignAll (f : JsString → Option Json) (ks : List JsString) :
    ((assignAll f ks).map Prod.fst).Nodup := by
  induction ks using List.reverseRecOn with
  | nil => exact List.nodup_nil
  | append_singleton ks k ih =>
    rw [assignAll_concat]
    cases f k with
    | none => exact ih
    | some v => exact nodup_setProp ih k v

/-! ### Values up to the order of keys -/

mutual

/-- No object of the value has a key twice. -/
def Json.Distinct : Json → Prop
  | .arr xs => DistinctElems xs
  | .obj ms => (ms.map Prod.fst).Nodup ∧ DistinctMembers ms
  | _ => True

def DistinctElems : List Json → Prop
  | [] => True
  | x :: xs => x.Distinct ∧ DistinctElems xs

def DistinctMembers : List (JsString × Json) → Prop
  | [] => True
  | (_, v) :: ms => v.Distinct ∧ DistinctMembers ms

end

mutual

/-- Equality of values in which the order of an object's keys does not count. -/
def Json.Same : Json → Json → Prop
  | .null, .null => True
  | .bool b, .bool b' => b = b'
  | .num n, .num n' => n = n'
  | .str s, .str s' => s = s'
  | .arr xs, .arr ys => SameElems xs ys
  | .obj ms, .obj ns => ms.length = ns.length ∧ SameMembers ms ns
  | _, _ => False

def SameElems : List Json → List Json → Prop
  | [], [] => True
  | x :: xs, y :: ys => x.Same y ∧ SameElems xs ys
  | _, _ => False

/-- Each of these members has a counterpart in `ns`. -/
def SameMembers : List (JsString × Json) → List (JsString × Json) → Prop
  | [], _ => True
  | (k, v) :: ms, ns => (∃ v', ns.lookup k = some v' ∧ v.Same v') ∧ SameMembers ms ns

end

lemma distinctMembers_lookup {k : JsString} {v : Json} :
    ∀ {ms : List (JsString × Json)}, DistinctMembers ms → ms.lookup k = some v → v.Distinct
  | (k', v') :: ms, h, hl => by
    rw [lookup_cons] at hl
    split at hl
    · exact Option.some.inj hl ▸ h.1
    · exact distinctMembers_lookup h.2 hl

lemma lookup_eq_some_of_mem {k : JsString} {v : Json} :
    ∀ {ms : List (JsString × Json)}, (ms.map Prod.fst).Nodup → (k, v) ∈ ms →
      ms.lookup k = some v
  | (k', v') :: ms, hnd, hmem => by
    rw [List.map_cons, List.nodup_cons] at hnd
    rw [lookup_cons]
    rcases List.mem_cons.mp hmem with heq | hms
    · cases heq
      rw [if_pos rfl]
    · have hk : k ≠ k' := by
        rintro rfl
        exact hnd.1 (List.mem_map.mpr ⟨(k, v), hms, rfl⟩)
      rw [if_neg hk]
      exact lookup_eq_some_of_mem hnd.2 hms

/-- The members of an object in terms of look-ups. -/
lemma sameMembers_iff {ns : List (JsString × Json)} :
    ∀ {ms : List (JsString × Json)}, SameMembers ms ns ↔
      ∀ k v, (k, v) ∈ ms → ∃ v', ns.lookup k = some v' ∧ v.Same v'
  | [] => by simp [SameMembers]
  | (k, v) :: ms => by
    rw [SameMembers, sameMembers_iff]
    constructor
    · rintro ⟨hkv, hms⟩ k' v' hmem
      rcases List.mem_cons.mp hmem with heq | hmem
      · cases heq
        exact hkv
      · exact hms k' v' hmem
    · intro h
      exact ⟨h k v (by simp), fun k' v' hmem => h k' v' (by simp [hmem])⟩

mutual

/-- A value is the same as itself. -/
lemma same_refl : ∀ {j : Json}, j.Distinct → j.Same j
  | .null, _ => trivial
  | .bool _, _ | .num _, _ | .str _, _ => rfl
  | .arr _, h => sameElems_refl h
  | .obj ms, h => by
    refine ⟨rfl, sameMembers_iff.mpr fun k v hmem => ?_⟩
    exact ⟨v, lookup_eq_some_of_mem h.1 hmem, same_of_mem h.2 hmem⟩

lemma sameElems_refl : ∀ {xs : List Json}, DistinctElems xs → SameElems xs xs
  | [], _ => trivial
  | _ :: _, h => ⟨same_refl h.1, sameElems_refl h.2⟩

lemma same_of_mem : ∀ {ms : List (JsString × Json)} {k : JsString} {v : Json},
    DistinctMembers ms → (k, v) ∈ ms → v.Same v
  | (_, _) :: _, _, _, h, hmem => by
    rcases List.mem_cons.mp hmem with heq | hmem
    · cases heq
      exact same_refl h.1
    · exact same_of_mem h.2 hmem

end

/-- Objects that are the same up to order have the same keys. -/
lemma keys_perm_of_same {ms ns : List (JsString × Json)} (hms : (ms.map Prod.fst).Nodup)
    (hlen : ms.length = ns.length) (h : SameMembers ms ns) :
    (ms.map Prod.fst).Perm (ns.map Prod.fst) := by
  rw [sameMembers_iff] at h
  have hsub : ms.map Prod.fst ⊆ ns.map Prod.fst := by
    intro k hk
    obtain ⟨⟨k', v⟩, hkv, rfl⟩ := List.mem_map.mp hk
    obtain ⟨v', hv', _⟩ := h k' v hkv
    exact lookup_isSome_iff.mp (by rw [hv']; rfl)
  exact (hms.subperm hsub).perm_of_length_le (by simp [hlen])

end Js
