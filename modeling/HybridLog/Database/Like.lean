import Mathlib.Data.List.Infix
import Mathlib.Data.List.Basic

/-!
# Patterns of `LIKE`

In a pattern `%` stands for any text and `_` for any character; a backslash takes the meaning from
the character after it. A text that is put between two `%` as it is, is looked for literally
exactly if it has none of the three. Which characters are told apart where case is ignored is a
parameter, and two databases need not agree on it.
-/

namespace Like

/-! ### Patterns -/

inductive Token
  | any
  | one
  | char (c : Char)

/-- A character that no backslash stands before. -/
def token (c : Char) : Token :=
  if c = '%' then .any else if c = '_' then .one else .char c

/-- A pattern must not end with a backslash that escapes nothing. -/
def parse : List Char → Option (List Token)
  | [] => some []
  | [c] => if c = '\\' then none else some [token c]
  | c :: d :: p =>
    if c = '\\' then (parse p).map (.char d :: ·) else (parse (d :: p)).map (token c :: ·)

section Accepts

variable (fold : Char → Char)

/-- Characters with the same image under `fold` are not told apart. -/
def accepts : List Token → List Char → Bool
  | [], t => t.isEmpty
  | .any :: ts, t => t.tails.any (accepts ts)
  | .one :: ts, t => match t with
    | [] => false
    | _ :: t => accepts ts t
  | .char c :: ts, t => match t with
    | [] => false
    | d :: t => fold c = fold d && accepts ts t

/-- The pattern is one, and the text is of its form. -/
def matchesText (pattern t : List Char) : Option Bool :=
  (parse pattern).map fun ts => accepts fold ts t

/-- The text occurs in the other, with characters that are not told apart. -/
def Contains (p t : List Char) : Prop := p.map fold <:+: t.map fold

instance (p t : List Char) : Decidable (Contains fold p t) :=
  inferInstanceAs (Decidable (_ <:+: _))

lemma accepts_any (ts : List Token) (t : List Char) :
    accepts fold (.any :: ts) t ↔ ∃ s, s <:+ t ∧ accepts fold ts s := by
  rw [accepts, List.any_eq_true]
  constructor
  · rintro ⟨s, hs, h⟩
    exact ⟨s, (List.mem_tails s t).mp hs, h⟩
  · rintro ⟨s, hs, h⟩
    exact ⟨s, (List.mem_tails s t).mpr hs, h⟩

/-- A text that begins with the given characters. -/
lemma accepts_chars (p : List Char) (t : List Char) :
    accepts fold (p.map .char ++ [.any]) t ↔ p.map fold <+: t.map fold := by
  induction p generalizing t with
  | nil =>
    constructor
    · exact fun _ => List.nil_prefix
    · exact fun _ => (accepts_any fold [] t).mpr ⟨[], List.nil_suffix, rfl⟩
  | cons c p ih =>
    cases t with
    | nil => simp [accepts]
    | cons d t =>
      rw [List.map_cons, List.cons_append, accepts, Bool.and_eq_true, decide_eq_true_iff, ih,
        List.map_cons, List.map_cons, List.cons_prefix_cons]

/-- Between two `%`, characters are looked for literally. -/
lemma accepts_between (p t : List Char) :
    accepts fold (.any :: (p.map .char ++ [.any])) t ↔ Contains fold p t := by
  rw [accepts_any, Contains, List.infix_iff_prefix_suffix]
  constructor
  · rintro ⟨s, hs, h⟩
    exact ⟨s.map fold, (accepts_chars fold p s).mp h, hs.map fold⟩
  · rintro ⟨s, hp, hs⟩
    obtain ⟨s', hs', rfl⟩ := List.suffix_map_iff.mp hs
    exact ⟨s', hs', (accepts_chars fold p s').mpr hp⟩

/-! ### Between two `%` -/

/-- The characters that a pattern does not take for themselves. -/
def special : List Char := ['%', '_', '\\']

/-- None of the characters is special. -/
def Plain (p : List Char) : Prop := ∀ c ∈ p, c ∉ special

instance (p : List Char) : Decidable (Plain p) := List.decidableBAll _ p

/-- A pattern for the texts that the given one is in. -/
def within (p : List Char) : List Char := '%' :: (p ++ ['%'])

lemma parse_cons {c : Char} {q : List Char} (hc : c ≠ '\\') :
    parse (c :: q) = (parse q).map (token c :: ·) := by
  cases q with
  | nil => simp [parse, hc]
  | cons d q => rw [parse, if_neg hc]

lemma parse_escape (d : Char) (q : List Char) :
    parse ('\\' :: d :: q) = (parse q).map (.char d :: ·) := by rw [parse, if_pos rfl]

lemma Plain.parse {p : List Char} (h : Plain p) :
    parse (p ++ ['%']) = some (p.map .char ++ [.any]) := by
  induction p with
  | nil => rfl
  | cons c p ih =>
    have hc : c ∉ special := h c (List.mem_cons_self ..)
    simp only [special, List.mem_cons, List.not_mem_nil, or_false, not_or] at hc
    rw [List.cons_append, parse_cons hc.2.2, ih fun d hd => h d (List.mem_cons_of_mem c hd), token,
      if_neg hc.1, if_neg hc.2.1, Option.map_some, List.map_cons, List.cons_append]

/-- Special characters have no case. -/
def Caseless : Prop := ∀ c ∈ special, ∀ d, fold d = fold c → d = c

/-- A text of the form of a pattern, in which the pattern occurs only if it is plain. -/
def sample : List Char → List Char
  | [] => []
  | [c] => if c = '\\' then ['%'] else own c
  | c :: d :: p => if c = '\\' then d :: sample p else own c ++ sample (d :: p)
where
  /-- What stands for a character that no backslash stands before. -/
  own (c : Char) : List Char := if c = '%' then [] else if c = '_' then ['a'] else [c]

lemma length_own (c : Char) : (sample.own c).length ≤ 1 := by
  rw [sample.own]
  split
  · exact Nat.zero_le 1
  · split <;> exact le_rfl

lemma length_sample (p : List Char) : (sample p).length ≤ p.length := by
  induction p using sample.induct with
  | case1 => exact le_rfl
  | case2 => exact le_rfl
  | case3 c hc =>
    rw [sample, if_neg hc]
    exact length_own c
  | case4 d p ih =>
    rw [sample, if_pos rfl, List.length_cons, List.length_cons, List.length_cons]
    exact (Nat.succ_le_succ ih).trans (Nat.le_succ _)
  | case5 c d p hc ih =>
    rw [sample, if_neg hc, List.length_append, List.length_cons, Nat.add_comm]
    exact Nat.add_le_add ih (length_own c)

lemma accepts_own (c : Char) {ts : List Token} {t : List Char} (h : accepts fold ts t) :
    accepts fold (token c :: ts) (sample.own c ++ t) := by
  rw [token, sample.own]
  split
  · exact (accepts_any fold ts t).mpr ⟨t, List.suffix_rfl, h⟩
  · split
    · exact h
    · rw [List.cons_append, List.nil_append, accepts, h, Bool.and_true, decide_eq_true rfl]

/-- The pattern is one, and its sample is of its form. -/
lemma parse_sample (p : List Char) :
    ∃ ts, parse (p ++ ['%']) = some ts ∧ accepts fold ts (sample p) := by
  induction p using sample.induct with
  | case1 => exact ⟨[.any], rfl, (accepts_any fold [] []).mpr ⟨[], List.suffix_rfl, rfl⟩⟩
  | case2 => exact ⟨[.char '%'], rfl, by simp [sample, accepts]⟩
  | case3 c hc =>
    refine ⟨[token c, .any], ?_, ?_⟩
    · rw [List.cons_append, parse_cons hc]
      rfl
    · have hnil : accepts fold [.any] [] := (accepts_any fold [] []).mpr ⟨[], List.suffix_rfl, rfl⟩
      have := accepts_own fold c hnil
      rwa [List.append_nil, ← show sample [c] = sample.own c from if_neg hc] at this
  | case4 d p ih =>
    obtain ⟨ts, hts, h⟩ := ih
    refine ⟨.char d :: ts, ?_, ?_⟩
    · rw [List.cons_append, List.cons_append, parse_escape, hts, Option.map_some]
    · rw [sample, if_pos rfl, accepts, h, Bool.and_true, decide_eq_true rfl]
  | case5 c d p hc ih =>
    obtain ⟨ts, hts, h⟩ := ih
    refine ⟨token c :: ts, ?_, ?_⟩
    · rw [List.cons_append, parse_cons hc, hts, Option.map_some]
    · rw [sample, if_neg hc]
      exact accepts_own fold c h

lemma parse_within (p : List Char) {ts : List Token} (h : parse (p ++ ['%']) = some ts) :
    parse (within p) = some (.any :: ts) := by
  rw [within, parse_cons (by decide), h, Option.map_some]
  rfl

lemma matches_sample (p : List Char) : matchesText fold (within p) (sample p) = some true := by
  obtain ⟨ts, hts, h⟩ := parse_sample fold p
  rw [matchesText, parse_within p hts, Option.map_some]
  exact congrArg some ((accepts_any fold ts _).mpr ⟨_, List.suffix_rfl, h⟩)

/-- A character that stands for itself is not special. -/
lemma own_eq {fold : Char → Char} (hf : Caseless fold) {c : Char} {p q : List Char}
    (hc : c ≠ '\\') (hlen : q.length ≤ p.length)
    (h : (sample.own c ++ q).map fold = fold c :: p.map fold) :
    c ∉ special ∧ q.map fold = p.map fold := by
  rw [sample.own] at h
  split at h
  · have := congrArg List.length h
    simp only [List.nil_append, List.length_map, List.length_cons] at this
    omega
  · split at h
    · rename_i hu
      subst hu
      have ha : 'a' = '_' := hf '_' (by decide) 'a' (List.cons_eq_cons.mp h).1
      exact absurd ha (by decide)
    · rename_i hp hu
      refine ⟨?_, (List.cons_eq_cons.mp h).2⟩
      simp [special, hc, hp, hu]

/-- A pattern that spells its sample is plain. -/
lemma plain_of_map_eq {fold : Char → Char} (hf : Caseless fold) {p : List Char}
    (h : (sample p).map fold = p.map fold) : Plain p := by
  induction p using sample.induct with
  | case1 => exact fun c hc => absurd hc (List.not_mem_nil)
  | case2 =>
    have hesc : '%' = '\\' := hf '\\' (by decide) '%' (List.cons_eq_cons.mp h).1
    exact absurd hesc (by decide)
  | case3 c hc =>
    rw [sample, if_neg hc, ← List.append_nil (sample.own c)] at h
    intro d hd
    rw [List.mem_singleton.mp hd]
    exact (own_eq hf (p := []) hc le_rfl h).1
  | case4 d p _ =>
    have := congrArg List.length h
    have := length_sample p
    simp only [sample, if_true, List.length_map, List.length_cons] at *
    omega
  | case5 c d p hc ih =>
    rw [sample, if_neg hc, List.map_cons] at h
    obtain ⟨hfirst, hrest⟩ := own_eq hf hc (length_sample _) h
    intro x hx
    rcases List.mem_cons.mp hx with rfl | hx
    · exact hfirst
    · exact ih hrest x hx

end Accepts

/-! ### Two ways to ignore case -/

/-- Both tell the characters of the text apart from the same others. -/
def SameVariants (f g : Char → Char) (p : List Char) : Prop :=
  ∀ c ∈ p, ∀ d, f c = f d ↔ g c = g d

section Variants

variable {f g : Char → Char} {p : List Char}

lemma SameVariants.map_eq (h : SameVariants f g p) {t : List Char} :
    p.map f = t.map f ↔ p.map g = t.map g := by
  induction p generalizing t with
  | nil => cases t <;> simp
  | cons c p ih =>
    cases t with
    | nil => simp
    | cons d t =>
      simp only [List.map_cons, List.cons.injEq]
      exact and_congr (h c (List.mem_cons_self ..) d)
        (ih fun e he => h e (List.mem_cons_of_mem c he))

/-- A segment of the text is spelled as the other one. -/
lemma contains_iff {t : List Char} :
    Contains f p t ↔ ∃ s, s <:+: t ∧ p.map f = s.map f := by
  constructor
  · intro h
    obtain ⟨s, hs, heq⟩ := List.infix_map_iff.mp h
    exact ⟨s, hs, heq⟩
  · rintro ⟨s, hs, heq⟩
    rw [Contains, heq]
    exact hs.map f

/-- A text is found in the same texts exactly if its characters have the same variants. -/
lemma contains_congr_iff :
    (∀ t, Contains f p t ↔ Contains g p t) ↔ SameVariants f g p := by
  constructor
  · intro h c hc d
    obtain ⟨s, s', rfl⟩ := List.append_of_mem hc
    -- the text with one character replaced
    have hspell (k : Char → Char) : Contains k (s ++ c :: s') (s ++ d :: s') ↔ k c = k d := by
      constructor
      · intro hin
        have hlen : ((s ++ d :: s').map k).length ≤ ((s ++ c :: s').map k).length := by simp
        have := hin.eq_of_length_le hlen
        simpa using this
      · intro heq
        rw [Contains, List.map_append, List.map_append, List.map_cons, List.map_cons, heq]
    rw [← hspell f, ← hspell g]
    exact h _
  · intro h t
    rw [contains_iff, contains_iff]
    simp only [h.map_eq]

/-- A text is looked for literally between two `%`, for another way to ignore case, exactly if it
is plain and both tell its characters apart alike. -/
theorem literal_iff (hg : Caseless g) :
    (∀ t, matchesText f (within p) t = some true ↔ Contains g p t) ↔
      Plain p ∧ SameVariants f g p := by
  have hplain (h : Plain p) (t : List Char) :
      matchesText f (within p) t = some true ↔ Contains f p t := by
    rw [matchesText, parse_within p h.parse, Option.map_some, Option.some_inj]
    exact accepts_between f p t
  constructor
  · intro h
    have hin : Contains g p (sample p) := (h _).mp (matches_sample f p)
    have hp : Plain p := by
      refine plain_of_map_eq hg (hin.eq_of_length_le ?_).symm
      rw [List.length_map, List.length_map]
      exact length_sample p
    exact ⟨hp, contains_congr_iff.mp fun t => (hplain hp t).symm.trans (h t)⟩
  · rintro ⟨hp, hsame⟩ t
    exact (hplain hp t).trans (contains_congr_iff.mpr hsame t)

end Variants

end Like
