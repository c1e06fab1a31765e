import HybridLog.Js.Date
import HybridLog.Js.Values

/-!
# Parsed values

`JSON.parse` creates an object member by member, so its own properties come in the order of
enumeration and each of them once, and it reads numbers as doubles. A value that is listed in this
way is read back from its text as it was, except for numbers that are not finite.
-/

namespace Js

/-! ### The order of own properties -/

lemma comesBefore_trans {k k' k'' : JsString} (h : comesBefore k k' = true)
    (h' : comesBefore k' k'' = true) : comesBefore k k'' = true := by
  unfold comesBefore at *
  cases hk : arrayIndex? k with
  | none => simp [hk] at h
  | some i =>
    cases hk' : arrayIndex? k' with
    | none => simp [hk'] at h'
    | some i' =>
      cases hk'' : arrayIndex? k'' with
      | none => rfl
      | some i'' =>
        simp only [hk, hk', hk'', decide_eq_true_eq] at h h' ⊢
        exact h.trans h'

lemma comesBefore_irrefl (k : JsString) : comesBefore k k = false := by
  unfold comesBefore
  cases arrayIndex? k with
  | none => rfl
  | some i => simp

/-- The keys are listed as they are enumerated. -/
def Enumerated (ks : List JsString) : Prop := ks.Pairwise fun k k' => comesBefore k' k = false

lemma mem_createProp {k : JsString} {v : Json} {m : JsString × Json}
    {ms : List (JsString × Json)} : m ∈ createProp k v ms ↔ m = (k, v) ∨ m ∈ ms := by
  induction ms with
  | nil => simp [createProp]
  | cons m' ms ih =>
    rw [createProp]
    split
    · exact List.mem_cons
    · rw [List.mem_cons, ih, List.mem_cons]
      exact or_left_comm

lemma enumerated_createProp (k : JsString) (v : Json) {ms : List (JsString × Json)}
    (h : Enumerated (ms.map Prod.fst)) : Enumerated ((createProp k v ms).map Prod.fst) := by
  induction ms with
  | nil => exact List.pairwise_singleton ..
  | cons m ms ih =>
    obtain ⟨hm, hms⟩ := List.pairwise_cons.mp h
    rw [createProp]
    split
    · next hbefore =>
      refine List.pairwise_cons.mpr ⟨?_, h⟩
      -- what is enumerated before the new key would be so before the key after it
      intro k' hk'
      by_contra hk
      have hm' := comesBefore_trans (Bool.eq_true_of_not_eq_false hk) hbefore
      rcases List.mem_cons.mp hk' with rfl | hk'
      · rw [comesBefore_irrefl] at hm'
        cases hm'
      · rw [hm k' hk'] at hm'
        cases hm'
    · next hbefore =>
      refine List.pairwise_cons.mpr ⟨?_, ih hms⟩
      intro k' hk'
      obtain ⟨m', hm', rfl⟩ := List.mem_map.mp hk'
      rcases mem_createProp.mp hm' with rfl | hm'
      · exact Bool.eq_false_of_not_eq_true hbefore
      · exact hm _ (List.mem_map_of_mem hm')

lemma enumerated_defineProp {ms : List (JsString × Json)} (h : Enumerated (ms.map Prod.fst))
    (k : JsString) (v : Json) : Enumerated ((defineProp ms k v).map Prod.fst) := by
  rw [defineProp]
  split
  · rwa [keys_replaceProp]
  · exact enumerated_createProp k v h

lemma nodup_defineProp {ms : List (JsString × Json)} (h : (ms.map Prod.fst).Nodup) (k : JsString)
    (v : Json) : ((defineProp ms k v).map Prod.fst).Nodup := by
  rw [defineProp]
  split
  · rwa [keys_replaceProp]
  · next hk =>
    apply (keys_createProp k v ms).nodup_iff.mpr
    apply List.nodup_cons.mpr
    exact ⟨fun hmem => hk (lookup_isSome_iff.mpr hmem), h⟩

lemma mem_replaceProp {k : JsString} {v : Json} {m : JsString × Json}
    {ms : List (JsString × Json)} (h : m ∈ replaceProp k v ms) : m = (k, v) ∨ m ∈ ms := by
  induction ms with
  | nil => cases h
  | cons m' ms ih =>
    rw [replaceProp] at h
    split at h
    · exact (List.mem_cons.mp h).imp id (List.mem_cons_of_mem _)
    · rcases List.mem_cons.mp h with rfl | h
      · exact .inr (List.mem_cons_self ..)
      · exact (ih h).imp id (List.mem_cons_of_mem _)

lemma mem_defineProp {k : JsString} {v : Json} {m : JsString × Json} {ms : List (JsString × Json)}
    (h : m ∈ defineProp ms k v) : m = (k, v) ∨ m ∈ ms := by
  rw [defineProp] at h
  split at h
  · exact mem_replaceProp h
  · exact mem_createProp.mp h

/-- A new property that is enumerated last is created last. -/
lemma defineProp_last {k : JsString} {v : Json} {ms : List (JsString × Json)}
    (hnew : k ∉ ms.map Prod.fst) (hlast : ∀ k' ∈ ms.map Prod.fst, comesBefore k k' = false) :
    defineProp ms k v = ms ++ [(k, v)] := by
  have hnone : ¬(ms.lookup k).isSome = true := fun h => hnew (lookup_isSome_iff.mp h)
  rw [defineProp, if_neg hnone]
  induction ms with
  | nil => rfl
  | cons m ms ih =>
    have hm := hlast m.1 (List.mem_cons_self ..)
    simp only [List.map_cons, List.mem_cons, not_or] at hnew
    have hms := ih hnew.2 (fun k' hk' => hlast k' (List.mem_cons_of_mem _ hk'))
      fun h => hnew.2 (lookup_isSome_iff.mp h)
    rw [createProp, if_neg (by rw [hm]; exact Bool.false_ne_true), hms, List.cons_append]

/-- The properties of an object that is created member by member. -/
def defineAll (ms : List (JsString × Json)) : List (JsString × Json) :=
  ms.foldl (fun acc m => defineProp acc m.1 m.2) []

lemma defineAll_concat (ms : List (JsString × Json)) (m : JsString × Json) :
    defineAll (ms ++ [m]) = defineProp (defineAll ms) m.1 m.2 := by
  simp only [defineAll, List.foldl_append, List.foldl_cons, List.foldl_nil]

lemma defineAll_spec (ms : List (JsString × Json)) : ((defineAll ms).map Prod.fst).Nodup ∧
    Enumerated ((defineAll ms).map Prod.fst) ∧ defineAll ms ⊆ ms := by
  induction ms using List.reverseRecOn with
  | nil => exact ⟨List.nodup_nil, List.Pairwise.nil, List.Subset.refl _⟩
  | append_singleton ms m ih =>
    rw [defineAll_concat]
    obtain ⟨hnodup, horder, hsub⟩ := ih
    refine ⟨nodup_defineProp hnodup _ _, enumerated_defineProp horder _ _, ?_⟩
    intro m' hm'
    rcases mem_defineProp hm' with rfl | hm'
    · simp
    · exact List.mem_append_left _ (hsub hm')

lemma defineAll_eq_self {ms : List (JsString × Json)} (hnodup : (ms.map Prod.fst).Nodup)
    (horder : Enumerated (ms.map Prod.fst)) : defineAll ms = ms := by
  induction ms using List.reverseRecOn with
  | nil => rfl
  | append_singleton ms m ih =>
    rw [List.map_append, List.map_singleton] at hnodup horder
    obtain ⟨hms, -, hlast⟩ := List.pairwise_append.mp horder
    have hnew : m.1 ∉ ms.map Prod.fst := fun h =>
      List.disjoint_of_nodup_append hnodup h (List.mem_singleton_self _)
    rw [defineAll_concat, ih (List.Nodup.of_append_left hnodup) hms]
    exact defineProp_last hnew fun k' hk' => hlast k' hk' m.1 (List.mem_singleton_self _)

/-! ### Values -/

mutual

/-- The members of every object of the value are listed as they are enumerated. -/
def Json.Ordered : Json → Prop
  | .arr xs => OrderedElems xs
  | .obj ms => Enumerated (ms.map Prod.fst) ∧ OrderedMembers ms
  | _ => True

def OrderedElems : List Json → Prop
  | [] => True
  | x :: xs => x.Ordered ∧ OrderedElems xs

def OrderedMembers : List (JsString × Json) → Prop
  | [] => True
  | (_, v) :: ms => v.Ordered ∧ OrderedMembers ms

end

mutual

/-- The value that is created for what has been read. -/
def Json.created : Json → Json
  | .arr xs => .arr (createdElems xs)
  | .obj ms => .obj (defineAll (createdMembers ms))
  | j => j

def createdElems : List Json → List Json
  | [] => []
  | x :: xs => x.created :: createdElems xs

def createdMembers : List (JsString × Json) → List (JsString × Json)
  | [] => []
  | (k, v) :: ms => (k, v.created) :: createdMembers ms

end

lemma distinctMembers_iff {ms : List (JsString × Json)} :
    DistinctMembers ms ↔ ∀ m ∈ ms, m.2.Distinct := by
  induction ms with
  | nil => simp [DistinctMembers]
  | cons m ms ih => simp [DistinctMembers, ih]

lemma orderedMembers_iff {ms : List (JsString × Json)} :
    OrderedMembers ms ↔ ∀ m ∈ ms, m.2.Ordered := by
  induction ms with
  | nil => simp [OrderedMembers]
  | cons m ms ih => simp [OrderedMembers, ih]

mutual

/-- What is created has every key of an object once, in the order of enumeration. -/
theorem created_spec : ∀ j : Json, j.created.Distinct ∧ j.created.Ordered
  | .null | .bool _ | .num _ | .str _ => ⟨trivial, trivial⟩
  | .arr xs => createdElems_spec xs
  | .obj ms => by
    obtain ⟨hnodup, horder, hsub⟩ := defineAll_spec (createdMembers ms)
    obtain ⟨hdistinct, hordered⟩ := createdMembers_spec ms
    refine ⟨⟨hnodup, distinctMembers_iff.mpr fun m hm => ?_⟩,
      horder, orderedMembers_iff.mpr fun m hm => ?_⟩
    · exact distinctMembers_iff.mp hdistinct m (hsub hm)
    · exact orderedMembers_iff.mp hordered m (hsub hm)

theorem createdElems_spec : ∀ xs : List Json,
    DistinctElems (createdElems xs) ∧ OrderedElems (createdElems xs)
  | [] => ⟨trivial, trivial⟩
  | x :: xs => by
    obtain ⟨hx, hx'⟩ := created_spec x
    obtain ⟨hxs, hxs'⟩ := createdElems_spec xs
    exact ⟨⟨hx, hxs⟩, hx', hxs'⟩

theorem createdMembers_spec : ∀ ms : List (JsString × Json),
    DistinctMembers (createdMembers ms) ∧ OrderedMembers (createdMembers ms)
  | [] => ⟨trivial, trivial⟩
  | (_, v) :: ms => by
    obtain ⟨hv, hv'⟩ := created_spec v
    obtain ⟨hms, hms'⟩ := createdMembers_spec ms
    exact ⟨⟨hv, hms⟩, hv', hms'⟩

end

mutual

/-- A value that is listed as it was created is created again. -/
theorem created_eq_self : ∀ j : Json, j.Distinct → j.Ordered → j.created = j
  | .null, _, _ | .bool _, _, _ | .num _, _, _ | .str _, _, _ => rfl
  | .arr xs, hd, ho => congrArg Json.arr (createdElems_eq_self xs hd ho)
  | .obj ms, hd, ho => by
    rw [Json.created, createdMembers_eq_self ms hd.2 ho.2, defineAll_eq_self hd.1 ho.1]

theorem createdElems_eq_self : ∀ xs : List Json, DistinctElems xs → OrderedElems xs →
    createdElems xs = xs
  | [], _, _ => rfl
  | x :: xs, hd, ho => by
    rw [createdElems, created_eq_self x hd.1 ho.1, createdElems_eq_self xs hd.2 ho.2]

theorem createdMembers_eq_self : ∀ ms : List (JsString × Json), DistinctMembers ms →
    OrderedMembers ms → createdMembers ms = ms
  | [], _, _ => rfl
  | (k, v) :: ms, hd, ho => by
    rw [createdMembers, created_eq_self v hd.1 ho.1, createdMembers_eq_self ms hd.2 ho.2]

end

mutual

lemma doubles_created : ∀ {j : Json}, j.Doubles → j.created.Doubles
  | .null, h | .bool _, h | .num _, h | .str _, h => h
  | .arr _, h => doubles_createdElems h
  | .obj ms, h => doublesMembers_iff.mpr fun m hm =>
    doublesMembers_iff.mp (doubles_createdMembers h) m ((defineAll_spec (createdMembers ms)).2.2 hm)

lemma doubles_createdElems : ∀ {xs : List Json}, DoublesElems xs → DoublesElems (createdElems xs)
  | [], _ => trivial
  | _ :: _, h => ⟨doubles_created h.1, doubles_createdElems h.2⟩

lemma doubles_createdMembers : ∀ {ms : List (JsString × Json)}, DoublesMembers ms →
    DoublesMembers (createdMembers ms)
  | [], _ => trivial
  | (_, _) :: _, h => ⟨doubles_created h.1, doubles_createdMembers h.2⟩

end

/-- `JSON.parse`; a text that is no JSON makes it throw. -/
def jsonParse (s : JsString) : Option JsonValue :=
  (parseValue s.length s).bind fun p =>
    if skipSpace p.2 = [] then
      some ⟨p.1.rounded.created, (created_spec _).1, doubles_created (doubles_rounded p.1)⟩
    else none

/-- A text is parsed as the value it was written from, up to numbers that are not finite. -/
theorem jsonParse_text {j : Json} (hd : j.finite.Distinct) (hdouble : j.finite.Doubles)
    (ho : j.finite.Ordered) : jsonParse j.text = some ⟨j.finite, hd, hdouble⟩ := by
  have hread := parseValue_text j _ [] le_rfl (by simp [endsNumber])
  rw [List.append_nil] at hread
  have hvalue : j.finite.rounded.created = j.finite := by
    rw [rounded_eq_self hdouble, created_eq_self _ hd ho]
  rw [jsonParse, hread, Option.bind_some]
  exact (if_pos rfl).trans (congrArg some (Subtype.ext hvalue))

/-- The property `k` of a value; `none` is `undefined`. -/
def JsonValue.field : JsonValue → JsString → Option JsonValue
  | ⟨.obj ms, h⟩, k =>
    (ms.lookup k).pmap (fun v hv => ⟨v, distinctMembers_lookup h.1.2 hv,
      doublesMembers_lookup h.2 hv⟩) fun _ hv => hv
  | _, _ => none

lemma JsonValue.field_obj {ms : List (JsString × Json)}
    {h : (Json.obj ms).Distinct ∧ (Json.obj ms).Doubles} {k : JsString} {v : Json}
    (hv : ms.lookup k = some v) : field ⟨.obj ms, h⟩ k =
      some ⟨v, distinctMembers_lookup h.1.2 hv, doublesMembers_lookup h.2 hv⟩ := by
  unfold field
  exact (Option.pmap_eq_some_iff (p := fun v => ms.lookup k = some v)).mpr ⟨v, hv, hv, rfl⟩

/-! ### Integers -/

/-- The number an integer is. -/
def JsNumber.ofInt (z : ℤ) : JsNumber :=
  ofDigits (z < 0) (natDigits z.natAbs) (natDigits z.natAbs).length

/-- The integer that is left without the digits after the point. -/
def Decimal.trunc (d : Decimal) : ℤ :=
  let n := digitsValue (d.digits.take d.point.toNat ++
    List.replicate (d.point.toNat - d.digits.length) 0)
  if d.neg then -n else n

def JsNumber.trunc? : JsNumber → Option ℤ
  | .zero => some 0
  | .fin d => some d.trunc
  | .inf _ => none

/-- `new Date(n)`; there is no valid date for a number out of range. -/
def JsDate.ofNumber? (n : JsNumber) : Option JsDate :=
  n.trunc?.bind fun ms =>
    if h : -8640000000000000 ≤ ms ∧ ms ≤ 8640000000000000 then some ⟨ms, h⟩ else none

lemma rdropWhile_append_zeros (ds : List (Fin 10)) : ds.rdropWhile (· = 0) ++
    List.replicate (ds.length - (ds.rdropWhile (· = 0)).length) 0 = ds := by
  induction ds using List.reverseRecOn with
  | nil => rfl
  | append_singleton ds d ih =>
    by_cases hd : d = 0
    · have hlen := (List.rdropWhile_prefix (fun x : Fin 10 => decide (x = 0)) ds).length_le
      rw [List.rdropWhile_concat_pos _ _ _ (by simpa using hd), List.length_append,
        List.length_singleton, Nat.sub_add_comm hlen, List.replicate_succ', ← List.append_assoc, ih,
        hd]
    · rw [List.rdropWhile_concat_neg _ _ _ (by simpa using hd), Nat.sub_self, List.replicate_zero,
        List.append_nil]

lemma natDigits_head_ne_zero {n : ℕ} {d : Fin 10} {ds : List (Fin 10)}
    (h : natDigits n = d :: ds) : d ≠ 0 := by
  have hn : n ≠ 0 := by
    rintro rfl
    cases h
  have hne : Nat.digits 10 n ≠ [] := Nat.digits_ne_nil_iff_ne_zero.mpr hn
  have hlast := Nat.getLast_digit_ne_zero 10 hn
  have hlt : (Nat.digits 10 n).getLast hne < 10 :=
    Nat.digits_lt_base (by decide) (List.getLast_mem hne)
  have hd : d = Fin.ofNat 10 ((Nat.digits 10 n).getLast hne) := by
    have hhead := congrArg List.head? h
    rw [natDigits, List.head?_map, List.head?_reverse, List.getLast?_eq_some_getLast hne] at hhead
    exact (Option.some.inj hhead).symm
  rw [hd]
  intro hzero
  have hval := congrArg Fin.val hzero
  rw [Fin.val_ofNat, Nat.mod_eq_of_lt hlt] at hval
  exact hlast hval

lemma trunc?_ofInt (z : ℤ) : (JsNumber.ofInt z).trunc? = some z := by
  rw [JsNumber.ofInt]
  have hvalue := digitsValue_natDigits z.natAbs
  cases hds : natDigits z.natAbs with
  | nil =>
    have hz : z.natAbs = 0 := by
      by_contra hne
      exact natDigits_ne_nil hne hds
    rw [Int.natAbs_eq_zero.mp hz]
    rfl
  | cons d ds =>
    rw [hds] at hvalue
    rw [ofDigits, dif_neg (natDigits_head_ne_zero hds), JsNumber.trunc?, Decimal.trunc]
    have hlen := (List.rdropWhile_prefix (fun x : Fin 10 => decide (x = 0)) (d :: ds)).length_le
    simp only [Int.toNat_natCast, List.take_of_length_le hlen, rdropWhile_append_zeros, hvalue]
    by_cases hz : z < 0
    · rw [decide_eq_true hz, if_pos rfl]
      congr 1
      omega
    · rw [decide_eq_false hz, if_neg Bool.false_ne_true]
      congr 1
      omega

/-- An integer of at most 53 bits is a double. -/
lemma rounded_ofInt {z : ℤ} (h : z.natAbs ≤ 2 ^ 53) :
    (JsNumber.ofInt z).rounded = JsNumber.ofInt z := by
  rw [JsNumber.ofInt]
  have hvalue := digitsValue_natDigits z.natAbs
  have hlength : (natDigits z.natAbs).length ≤ 16 := by
    rw [natDigits, List.length_map, List.length_reverse]
    exact Nat.digits_length_le_iff (by decide) _ |>.mpr (h.trans_lt (by decide))
  cases hds : natDigits z.natAbs with
  | nil => rfl
  | cons d ds =>
    rw [hds] at hvalue hlength
    have hlen := (List.rdropWhile_prefix (fun x : Fin 10 => decide (x = 0)) (d :: ds)).length_le
    rw [ofDigits, dif_neg (natDigits_head_ne_zero hds)]
    refine Decimal.round_of_safe ⟨?_, ?_, ?_⟩
    · exact Int.ofNat_le.mpr hlen
    · exact Int.ofNat_le.mpr hlength
    · simp only [Int.toNat_natCast, rdropWhile_append_zeros, hvalue]
      exact h

example : (JsNumber.ofInt (2 ^ 53 + 1)).rounded = JsNumber.ofInt (2 ^ 53) := by decide +kernel

/-- A date is made again from its milliseconds. -/
lemma ofNumber?_ofInt (t : JsDate) : JsDate.ofNumber? (.ofInt t.ms) = some t := by
  rw [JsDate.ofNumber?, trunc?_ofInt, Option.bind_some, dif_pos t.inRange]

end Js
