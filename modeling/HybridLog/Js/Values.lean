import HybridLog.Js.Double
import HybridLog.Js.Object

/-!
# Values of the language

In a JSON value of the language the numbers are doubles. A database keeps numbers of any precision,
which are rounded when they are parsed, and MongoDB keeps well-formed strings only.
-/

namespace Js

/-! ### Rounding -/

mutual

/-- The value with its numbers read as doubles. -/
def Json.rounded : Json → Json
  | .num n => .num n.rounded
  | .arr xs => .arr (roundedElems xs)
  | .obj ms => .obj (roundedMembers ms)
  | j => j

def roundedElems : List Json → List Json
  | [] => []
  | x :: xs => x.rounded :: roundedElems xs

def roundedMembers : List (JsString × Json) → List (JsString × Json)
  | [] => []
  | (k, v) :: ms => (k, v.rounded) :: roundedMembers ms

end

mutual

/-- The numbers of the value are doubles. -/
def Json.Doubles : Json → Prop
  | .num n => n.rounded = n
  | .arr xs => DoublesElems xs
  | .obj ms => DoublesMembers ms
  | _ => True

def DoublesElems : List Json → Prop
  | [] => True
  | x :: xs => x.Doubles ∧ DoublesElems xs

def DoublesMembers : List (JsString × Json) → Prop
  | [] => True
  | (_, v) :: ms => v.Doubles ∧ DoublesMembers ms

end

mutual

lemma doubles_rounded : ∀ j : Json, j.rounded.Doubles
  | .null | .bool _ | .str _ => trivial
  | .num n => n.rounded_rounded
  | .arr xs => doubles_roundedElems xs
  | .obj ms => doubles_roundedMembers ms

lemma doubles_roundedElems : ∀ xs : List Json, DoublesElems (roundedElems xs)
  | [] => trivial
  | x :: xs => ⟨doubles_rounded x, doubles_roundedElems xs⟩

lemma doubles_roundedMembers : ∀ ms : List (JsString × Json), DoublesMembers (roundedMembers ms)
  | [] => trivial
  | (_, v) :: ms => ⟨doubles_rounded v, doubles_roundedMembers ms⟩

end

mutual

/-- Doubles are not rounded. -/
lemma rounded_eq_self : ∀ {j : Json}, j.Doubles → j.rounded = j
  | .null, _ | .bool _, _ | .str _, _ => rfl
  | .num _, h => congrArg Json.num h
  | .arr _, h => congrArg Json.arr (roundedElems_eq_self h)
  | .obj _, h => congrArg Json.obj (roundedMembers_eq_self h)

lemma roundedElems_eq_self : ∀ {xs : List Json}, DoublesElems xs → roundedElems xs = xs
  | [], _ => rfl
  | _ :: _, h => by rw [roundedElems, rounded_eq_self h.1, roundedElems_eq_self h.2]

lemma roundedMembers_eq_self : ∀ {ms : List (JsString × Json)}, DoublesMembers ms →
    roundedMembers ms = ms
  | [], _ => rfl
  | (_, _) :: _, h => by rw [roundedMembers, rounded_eq_self h.1, roundedMembers_eq_self h.2]

end

lemma keys_roundedMembers : ∀ ms : List (JsString × Json),
    (roundedMembers ms).map Prod.fst = ms.map Prod.fst
  | [] => rfl
  | (_, _) :: ms => by rw [roundedMembers, List.map_cons, List.map_cons, keys_roundedMembers ms]

lemma lookup_roundedMembers (k : JsString) : ∀ ms : List (JsString × Json),
    (roundedMembers ms).lookup k = (ms.lookup k).map Json.rounded
  | [] => rfl
  | (k', v) :: ms => by
    rw [roundedMembers, lookup_cons, lookup_cons, lookup_roundedMembers k ms]
    split <;> rfl

lemma length_roundedMembers (ms : List (JsString × Json)) :
    (roundedMembers ms).length = ms.length := by
  rw [← List.length_map Prod.fst, keys_roundedMembers, List.length_map]

mutual

lemma distinct_rounded : ∀ {j : Json}, j.Distinct → j.rounded.Distinct
  | .null, _ | .bool _, _ | .str _, _ | .num _, _ => trivial
  | .arr _, h => distinct_roundedElems h
  | .obj ms, h => ⟨(keys_roundedMembers ms).symm ▸ h.1, distinct_roundedMembers h.2⟩

lemma distinct_roundedElems : ∀ {xs : List Json}, DistinctElems xs →
    DistinctElems (roundedElems xs)
  | [], _ => trivial
  | _ :: _, h => ⟨distinct_rounded h.1, distinct_roundedElems h.2⟩

lemma distinct_roundedMembers : ∀ {ms : List (JsString × Json)}, DistinctMembers ms →
    DistinctMembers (roundedMembers ms)
  | [], _ => trivial
  | (_, _) :: _, h => ⟨distinct_rounded h.1, distinct_roundedMembers h.2⟩

end

mutual

/-- The order of keys does not matter to what is read. -/
lemma Json.Same.rounded : ∀ {j j' : Json}, j.Same j' → j.rounded.Same j'.rounded
  | .null, .null, _ => trivial
  | .bool _, .bool _, h | .str _, .str _, h => h
  | .num _, .num _, h => congrArg JsNumber.rounded h
  | .arr _, .arr _, h => SameElems.rounded h
  | .obj ms, .obj ns, h => by
    refine ⟨?_, SameMembers.rounded h.2⟩
    rw [length_roundedMembers, length_roundedMembers]
    exact h.1

lemma SameElems.rounded : ∀ {xs ys : List Json}, SameElems xs ys →
    SameElems (roundedElems xs) (roundedElems ys)
  | [], [], _ => trivial
  | _ :: _, _ :: _, h => ⟨Json.Same.rounded h.1, SameElems.rounded h.2⟩

lemma SameMembers.rounded : ∀ {ms ns : List (JsString × Json)}, SameMembers ms ns →
    SameMembers (roundedMembers ms) (roundedMembers ns)
  | [], _, _ => trivial
  | (k, v) :: ms, ns, h => by
    obtain ⟨⟨v', hv', hsame⟩, hms⟩ := h
    refine ⟨⟨v'.rounded, ?_, Json.Same.rounded hsame⟩, SameMembers.rounded hms⟩
    rw [lookup_roundedMembers, hv', Option.map_some]

end

lemma doublesMembers_iff {ms : List (JsString × Json)} :
    DoublesMembers ms ↔ ∀ m ∈ ms, m.2.Doubles := by
  induction ms with
  | nil => simp [DoublesMembers]
  | cons m ms ih => simp [DoublesMembers, ih]

lemma doublesMembers_lookup {k : JsString} {v : Json} {ms : List (JsString × Json)}
    (h : DoublesMembers ms) (hl : ms.lookup k = some v) : v.Doubles := by
  induction ms with
  | nil => cases hl
  | cons m ms ih =>
    rw [lookup_cons] at hl
    split at hl
    · exact Option.some.inj hl ▸ h.1
    · exact ih h.2 hl

mutual

lemma doubles_finite : ∀ {j : Json}, j.Doubles → j.finite.Doubles
  | .null, _ | .bool _, _ | .str _, _ | .num (.inf _), _ => trivial
  | .num .zero, h | .num (.fin _), h => h
  | .arr _, h => doubles_finiteElems h
  | .obj _, h => doubles_finiteMembers h

lemma doubles_finiteElems : ∀ {xs : List Json}, DoublesElems xs → DoublesElems (finiteElems xs)
  | [], _ => trivial
  | _ :: _, h => ⟨doubles_finite h.1, doubles_finiteElems h.2⟩

lemma doubles_finiteMembers : ∀ {ms : List (JsString × Json)}, DoublesMembers ms →
    DoublesMembers (finiteMembers ms)
  | [], _ => trivial
  | (_, _) :: _, h => ⟨doubles_finite h.1, doubles_finiteMembers h.2⟩

end

/-- A JSON value of the language: the keys of an object are distinct, and numbers are doubles. -/
def JsonValue : Type := {j : Json // j.Distinct ∧ j.Doubles}

instance : DecidableEq JsonValue :=
  inferInstanceAs (DecidableEq {j : Json // j.Distinct ∧ j.Doubles})

lemma JsonValue.distinct (j : JsonValue) : j.val.Distinct := j.property.1

lemma JsonValue.doubles (j : JsonValue) : j.val.Doubles := j.property.2

/-! ### Well-formed strings -/

mutual

/-- The strings and the keys of the value are well formed. -/
def Json.WellFormed : Json → Prop
  | .str s => wellFormed s = true
  | .arr xs => WellFormedElems xs
  | .obj ms => WellFormedMembers ms
  | _ => True

def WellFormedElems : List Json → Prop
  | [] => True
  | x :: xs => x.WellFormed ∧ WellFormedElems xs

def WellFormedMembers : List (JsString × Json) → Prop
  | [] => True
  | (k, v) :: ms => (wellFormed k = true ∧ v.WellFormed) ∧ WellFormedMembers ms

end

mutual

/-- The value with lone surrogates replaced. Of members whose keys become equal the last one is
left. -/
def Json.toWellFormed : Json → Json
  | .str s => .str (Js.toWellFormed s)
  | .arr xs => .arr (toWellFormedElems xs)
  | .obj ms => .obj (toWellFormedMembers ms)
  | j => j

def toWellFormedElems : List Json → List Json
  | [] => []
  | x :: xs => x.toWellFormed :: toWellFormedElems xs

def toWellFormedMembers : List (JsString × Json) → List (JsString × Json)
  | [] => []
  | (k, v) :: ms =>
    if ((toWellFormedMembers ms).lookup (Js.toWellFormed k)).isSome then toWellFormedMembers ms
    else (Js.toWellFormed k, v.toWellFormed) :: toWellFormedMembers ms

end

mutual

lemma wellFormed_toWellFormed : ∀ j : Json, j.toWellFormed.WellFormed
  | .null | .bool _ | .num _ => trivial
  | .str s => wellFormed_toWellFormed_str s
  | .arr xs => wellFormed_toWellFormedElems xs
  | .obj ms => wellFormed_toWellFormedMembers ms

lemma wellFormed_toWellFormedElems : ∀ xs : List Json, WellFormedElems (toWellFormedElems xs)
  | [] => trivial
  | x :: xs => ⟨wellFormed_toWellFormed x, wellFormed_toWellFormedElems xs⟩

lemma wellFormed_toWellFormedMembers : ∀ ms : List (JsString × Json),
    WellFormedMembers (toWellFormedMembers ms)
  | [] => trivial
  | (k, v) :: ms => by
    rw [toWellFormedMembers]
    split
    · exact wellFormed_toWellFormedMembers ms
    · exact ⟨⟨wellFormed_toWellFormed_str k, wellFormed_toWellFormed v⟩,
        wellFormed_toWellFormedMembers ms⟩

end

lemma mem_keys_toWellFormedMembers {k : JsString} : ∀ {ms : List (JsString × Json)},
    k ∈ (toWellFormedMembers ms).map Prod.fst → ∃ k' ∈ ms.map Prod.fst, Js.toWellFormed k' = k
  | [], h => by cases h
  | (k', v) :: ms, h => by
    rw [toWellFormedMembers] at h
    have hrest (h : k ∈ (toWellFormedMembers ms).map Prod.fst) :
        ∃ k'' ∈ ((k', v) :: ms).map Prod.fst, Js.toWellFormed k'' = k := by
      obtain ⟨k'', hk'', heq⟩ := mem_keys_toWellFormedMembers h
      exact ⟨k'', List.mem_cons_of_mem _ hk'', heq⟩
    split at h
    · exact hrest h
    · rcases List.mem_cons.mp h with rfl | h
      · exact ⟨k', List.mem_cons_self .., rfl⟩
      · exact hrest h

mutual

lemma distinct_toWellFormed : ∀ j : Json, j.toWellFormed.Distinct
  | .null | .bool _ | .num _ | .str _ => trivial
  | .arr xs => distinct_toWellFormedElems xs
  | .obj ms => distinct_toWellFormedMembers ms

lemma distinct_toWellFormedElems : ∀ xs : List Json, DistinctElems (toWellFormedElems xs)
  | [] => trivial
  | x :: xs => ⟨distinct_toWellFormed x, distinct_toWellFormedElems xs⟩

lemma distinct_toWellFormedMembers : ∀ ms : List (JsString × Json),
    ((toWellFormedMembers ms).map Prod.fst).Nodup ∧ DistinctMembers (toWellFormedMembers ms)
  | [] => ⟨List.nodup_nil, trivial⟩
  | (k, v) :: ms => by
    obtain ⟨hnodup, hdistinct⟩ := distinct_toWellFormedMembers ms
    rw [toWellFormedMembers]
    split
    · exact ⟨hnodup, hdistinct⟩
    · next hnew =>
      rw [lookup_isSome_iff] at hnew
      exact ⟨List.nodup_cons.mpr ⟨hnew, hnodup⟩, distinct_toWellFormed v, hdistinct⟩

end

mutual

lemma doubles_toWellFormed : ∀ {j : Json}, j.Doubles → j.toWellFormed.Doubles
  | .null, _ | .bool _, _ | .str _, _ => trivial
  | .num _, h => h
  | .arr _, h => doubles_toWellFormedElems h
  | .obj _, h => doubles_toWellFormedMembers h

lemma doubles_toWellFormedElems : ∀ {xs : List Json}, DoublesElems xs →
    DoublesElems (toWellFormedElems xs)
  | [], _ => trivial
  | _ :: _, h => ⟨doubles_toWellFormed h.1, doubles_toWellFormedElems h.2⟩

lemma doubles_toWellFormedMembers : ∀ {ms : List (JsString × Json)}, DoublesMembers ms →
    DoublesMembers (toWellFormedMembers ms)
  | [], _ => trivial
  | (_, _) :: _, h => by
    rw [toWellFormedMembers]
    split
    · exact doubles_toWellFormedMembers h.2
    · exact ⟨doubles_toWellFormed h.1, doubles_toWellFormedMembers h.2⟩

end

mutual

/-- Well-formed values are left as they are. -/
lemma toWellFormed_value_eq_self : ∀ {j : Json}, j.Distinct → j.WellFormed → j.toWellFormed = j
  | .null, _, _ | .bool _, _, _ | .num _, _, _ => rfl
  | .str _, _, h => congrArg Json.str (toWellFormed_eq_self h)
  | .arr _, hd, h => congrArg Json.arr (toWellFormedElems_eq_self hd h)
  | .obj _, hd, h => congrArg Json.obj (toWellFormedMembers_eq_self hd.1 hd.2 h)

lemma toWellFormedElems_eq_self : ∀ {xs : List Json}, DistinctElems xs → WellFormedElems xs →
    toWellFormedElems xs = xs
  | [], _, _ => rfl
  | _ :: _, hd, h => by
    rw [toWellFormedElems, toWellFormed_value_eq_self hd.1 h.1, toWellFormedElems_eq_self hd.2 h.2]

lemma toWellFormedMembers_eq_self : ∀ {ms : List (JsString × Json)}, (ms.map Prod.fst).Nodup →
    DistinctMembers ms → WellFormedMembers ms → toWellFormedMembers ms = ms
  | [], _, _, _ => rfl
  | (k, _) :: ms, hnodup, hd, h => by
    obtain ⟨hnew, hnodup⟩ := List.nodup_cons.mp hnodup
    have hnone : ¬(ms.lookup k).isSome := fun hsome => hnew (lookup_isSome_iff.mp hsome)
    rw [toWellFormedMembers, toWellFormedMembers_eq_self hnodup hd.2 h.2,
      toWellFormed_eq_self h.1.1, if_neg hnone, toWellFormed_value_eq_self hd.1 h.1.2]

end

lemma wellFormedMembers_lookup {k : JsString} {v : Json} : ∀ {ms : List (JsString × Json)},
    WellFormedMembers ms → ms.lookup k = some v → wellFormed k = true ∧ v.WellFormed
  | (k', v') :: ms, h, hl => by
    rw [lookup_cons] at hl
    split at hl
    · next heq => exact ⟨heq ▸ h.1.1, Option.some.inj hl ▸ h.1.2⟩
    · exact wellFormedMembers_lookup h.2 hl

mutual

lemma Json.Same.wellFormed : ∀ {j j' : Json}, j.Same j' → j'.WellFormed → j.WellFormed
  | .null, .null, _, _ | .bool _, .bool _, _, _ | .num _, .num _, _, _ => trivial
  | .str s, .str s', h, hw => by
    obtain rfl : s = s' := h
    exact hw
  | .arr _, .arr _, h, hw => SameElems.wellFormed h hw
  | .obj _, .obj _, h, hw => SameMembers.wellFormed h.2 hw

lemma SameElems.wellFormed : ∀ {xs ys : List Json}, SameElems xs ys → WellFormedElems ys →
    WellFormedElems xs
  | [], [], _, _ => trivial
  | _ :: _, _ :: _, h, hw => ⟨Json.Same.wellFormed h.1 hw.1, SameElems.wellFormed h.2 hw.2⟩

lemma SameMembers.wellFormed : ∀ {ms ns : List (JsString × Json)}, SameMembers ms ns →
    WellFormedMembers ns → WellFormedMembers ms
  | [], _, _, _ => trivial
  | (_, _) :: _, _, h, hw => by
    obtain ⟨⟨v', hv', hsame⟩, hms⟩ := h
    obtain ⟨hk, hwv⟩ := wellFormedMembers_lookup hw hv'
    exact ⟨⟨hk, Json.Same.wellFormed hsame hwv⟩, SameMembers.wellFormed hms hw⟩

end

end Js
