import Mathlib.Algebra.BigOperators.Group.Finset.Piecewise
import Mathlib.Data.List.Nodup
import Mathlib.Data.List.Forall2
import Mathlib.Data.List.Infix
import Mathlib.Data.Set.Function

/-!
# Append-only ledgers

A ledger takes every key once: an entry with a new key is appended, an entry with a known key is
rejected. This is what a store of records under keys is for, whatever tables it is kept in; a
machine keeps a ledger if it accepts the same calls and its tables are those of the ledger.
-/

namespace Ledger

/-- What an account puts under a key. -/
structure Entry (K A V : Type*) where
  key : K
  account : A
  value : V

variable {K A V S C : Type*}

/-- The keys of a ledger, in the order of their entries. -/
def keys (l : List (Entry K A V)) : List K := l.map Entry.key

@[simp] lemma keys_nil : keys ([] : List (Entry K A V)) = [] := rfl

@[simp] lemma keys_append (l l' : List (Entry K A V)) : keys (l ++ l') = keys l ++ keys l' :=
  List.map_append

@[simp] lemma keys_singleton (e : Entry K A V) : keys [e] = [e.key] := rfl

@[simp] lemma length_keys (l : List (Entry K A V)) : (keys l).length = l.length := List.length_map _

lemma key_mem_keys {l : List (Entry K A V)} {e : Entry K A V} (h : e ∈ l) : e.key ∈ keys l :=
  List.mem_map_of_mem h

/-! ### The entries of one account -/

section History

variable [DecidableEq A]

def history (l : List (Entry K A V)) (a : A) : List (Entry K A V) :=
  l.filter fun e => e.account = a

@[simp] lemma history_nil (a : A) : history ([] : List (Entry K A V)) a = [] := rfl

@[simp] lemma history_append (l l' : List (Entry K A V)) (a : A) :
    history (l ++ l') a = history l a ++ history l' a := List.filter_append ..

/-- The last entry counts for its own account only. -/
lemma history_concat (l : List (Entry K A V)) (e : Entry K A V) (a : A) :
    history (l ++ [e]) a = if a = e.account then history l a ++ [e] else history l a := by
  rw [history_append]
  split
  · next h => simp [history, h]
  · next h => simp [history, Ne.symm h]

/-- The histories of all accounts together are the ledger. -/
lemma sum_length_history {l : List (Entry K A V)} {F : Finset A}
    (h : ∀ e ∈ l, e.account ∈ F) : ∑ a ∈ F, (history l a).length = l.length := by
  induction l using List.reverseRecOn with
  | nil => simp
  | append_singleton l e ih =>
    have hlen (a : A) : (history (l ++ [e]) a).length =
        (history l a).length + if a = e.account then 1 else 0 := by
      rw [history_concat]
      split
      · rw [List.length_append, List.length_singleton]
      · rfl
    have he : e.account ∈ F := h e (by simp)
    have hl : ∀ e' ∈ l, e'.account ∈ F := fun e' he' => h e' (by simp [he'])
    simp only [hlen, Finset.sum_add_distrib, ih hl, Finset.sum_ite_eq', he, if_true,
      List.length_append, List.length_singleton]

end History

/-! ### Submitting entries -/

section Submit

variable [DecidableEq K]

/-- An entry is offered to a ledger. -/
def submit (l : List (Entry K A V)) (e : Entry K A V) : List (Entry K A V) :=
  if e.key ∈ keys l then l else l ++ [e]

/-- Entries are offered one after the other. -/
def submitAll (l : List (Entry K A V)) (es : List (Entry K A V)) : List (Entry K A V) :=
  es.foldl submit l

@[simp] lemma submitAll_nil (l : List (Entry K A V)) : submitAll l [] = l := rfl

@[simp] lemma submitAll_cons (l es : List (Entry K A V)) (e : Entry K A V) :
    submitAll l (e :: es) = submitAll (submit l e) es := rfl

lemma submitAll_append (l es es' : List (Entry K A V)) :
    submitAll l (es ++ es') = submitAll (submitAll l es) es' := List.foldl_append ..

lemma submit_of_new {l : List (Entry K A V)} {e : Entry K A V} (h : e.key ∉ keys l) :
    submit l e = l ++ [e] := if_neg h

lemma submit_of_known {l : List (Entry K A V)} {e : Entry K A V} (h : e.key ∈ keys l) :
    submit l e = l := if_pos h

lemma nodup_submit {l : List (Entry K A V)} (h : (keys l).Nodup) (e : Entry K A V) :
    (keys (submit l e)).Nodup := by
  by_cases he : e.key ∈ keys l
  · rwa [submit_of_known he]
  · rw [submit_of_new he, keys_append]
    apply h.append (List.nodup_singleton _)
    simpa using he

/-- Each key is taken once. -/
theorem nodup_submitAll {l : List (Entry K A V)} (h : (keys l).Nodup) (es : List (Entry K A V)) :
    (keys (submitAll l es)).Nodup := by
  induction es generalizing l with
  | nil => exact h
  | cons e es ih => exact ih (nodup_submit h e)

end Submit

/-! ### Machines that keep a ledger -/

/-- A call that fails leaves the state as it is. -/
def run (step : S → C → Option S) (s : S) (calls : List C) : S :=
  calls.foldl (fun s c => (step s c).getD s) s

/-- The calls that do not fail. -/
def accepted (step : S → C → Option S) : S → List C → List C
  | _, [] => []
  | s, c :: calls => match step s c with
    | some s' => c :: accepted step s' calls
    | none => accepted step s calls

section Run

variable {step : S → C → Option S}

lemma run_append (step : S → C → Option S) (s : S) (calls calls' : List C) :
    run step s (calls ++ calls') = run step (run step s calls) calls' := List.foldl_append ..

@[simp] lemma run_nil (step : S → C → Option S) (s : S) : run step s [] = s := rfl

lemma run_cons (step : S → C → Option S) (s : S) (c : C) (calls : List C) :
    run step s (c :: calls) = run step ((step s c).getD s) calls := rfl

lemma accepted_append (step : S → C → Option S) (s : S) (calls calls' : List C) :
    accepted step s (calls ++ calls') =
      accepted step s calls ++ accepted step (run step s calls) calls' := by
  induction calls generalizing s with
  | nil => rfl
  | cons c calls ih =>
    rw [List.cons_append, accepted, accepted, run_cons]
    cases h : step s c with
    | some s' => simp only [Option.getD_some, ih, List.cons_append]
    | none => simp only [Option.getD_none, ih]

/-- What is accepted did not fail in some state. -/
lemma exists_step_of_mem_accepted {s : S} {calls : List C} {c : C} (h : c ∈ accepted step s calls) :
    ∃ s₁ s₂, step s₁ c = some s₂ := by
  induction calls generalizing s with
  | nil => cases h
  | cons d calls ih =>
    rw [accepted] at h
    cases hd : step s d with
    | none =>
      simp only [hd] at h
      exact ih h
    | some s' =>
      simp only [hd] at h
      rcases List.mem_cons.mp h with rfl | h
      · exact ⟨s, s', hd⟩
      · exact ih h

/-- An accepted call is among those accepted in the end, after those before it. -/
lemma accepted_split {s s' : S} {pre post : List C} {c : C} (h : step (run step s pre) c = some s') :
    accepted step s (pre ++ c :: post) = accepted step s pre ++ c :: accepted step s' post := by
  rw [accepted_append, accepted]
  simp only [h]

end Run

/-- The tables of a machine are those of a ledger, `Rel`, and stay so: a call is accepted if it offers
an entry whose key is new, and then its entry is appended. -/
structure Keeps (valid : C → Prop) (entry : C → Option (Entry K A V)) (step : S → C → Option S)
    (Rel : S → List (Entry K A V) → Prop) : Prop where
  accepts : ∀ {s l c}, Rel s l → valid c →
    ((step s c).isSome ↔ ∃ e, entry c = some e ∧ e.key ∉ keys l)
  appends : ∀ {s l c s' e}, Rel s l → valid c → step s c = some s' → entry c = some e →
    Rel s' (l ++ [e])

section Keeps

variable {valid : C → Prop} {entry : C → Option (Entry K A V)} {step : S → C → Option S}
  {Rel : S → List (Entry K A V) → Prop} {s : S} {l : List (Entry K A V)} {calls : List C} {c : C}

/-- A call that is accepted offers a new entry. -/
lemma Keeps.new (h : Keeps valid entry step Rel) (hs : Rel s l) (hc : valid c) {s' : S}
    (hstep : step s c = some s') :
    ∃ e, entry c = some e ∧ e.key ∉ keys l ∧ Rel s' (l ++ [e]) := by
  obtain ⟨e, he, hnew⟩ := (h.accepts hs hc).mp (Option.isSome_of_eq_some hstep)
  exact ⟨e, he, hnew, h.appends hs hc hstep he⟩

lemma filterMap_cons_toList (c : C) (calls : List C) :
    (c :: calls).filterMap entry = (entry c).toList ++ calls.filterMap entry := by
  cases he : entry c with
  | none => rw [List.filterMap_cons_none he, Option.toList_none, List.nil_append]
  | some e => rw [List.filterMap_cons_some he, Option.toList_some, List.singleton_append]

variable [DecidableEq K]

/-- A call that is not accepted offers nothing that the ledger would take. -/
lemma Keeps.known (h : Keeps valid entry step Rel) (hs : Rel s l) (hc : valid c)
    (hstep : step s c = none) : submitAll l (entry c).toList = l := by
  cases he : entry c with
  | none => rfl
  | some e =>
    apply submit_of_known
    by_contra hnew
    have hsome := (h.accepts hs hc).mpr ⟨e, he, hnew⟩
    rw [hstep] at hsome
    cases hsome

/-- A run keeps the ledger of the entries that are offered. -/
theorem Keeps.run (h : Keeps valid entry step Rel) (hs : Rel s l) (hvalid : ∀ c ∈ calls, valid c) :
    Rel (run step s calls) (submitAll l (calls.filterMap entry)) := by
  induction calls generalizing s l with
  | nil => exact hs
  | cons c calls ih =>
    have hc := hvalid c (by simp)
    have hrest : ∀ c' ∈ calls, valid c' := fun c' hc' => hvalid c' (by simp [hc'])
    rw [run_cons, filterMap_cons_toList, submitAll_append]
    cases hstep : step s c with
    | some s' =>
      obtain ⟨e, he, hnew, hs'⟩ := h.new hs hc hstep
      rw [he, Option.toList_some, submitAll_cons, submitAll_nil, submit_of_new hnew]
      exact ih hs' hrest
    | none =>
      rw [h.known hs hc hstep]
      exact ih hs hrest

/-- What a machine accepts is what the ledger takes. -/
theorem Keeps.accepted (h : Keeps valid entry step Rel) (hs : Rel s l)
    (hvalid : ∀ c ∈ calls, valid c) :
    submitAll l (calls.filterMap entry) = l ++ (accepted step s calls).filterMap entry := by
  induction calls generalizing s l with
  | nil => simp [Ledger.accepted]
  | cons c calls ih =>
    have hc := hvalid c (by simp)
    have hrest : ∀ c' ∈ calls, valid c' := fun c' hc' => hvalid c' (by simp [hc'])
    rw [filterMap_cons_toList, submitAll_append, Ledger.accepted]
    cases hstep : step s c with
    | some s' =>
      obtain ⟨e, he, hnew, hs'⟩ := h.new hs hc hstep
      rw [he, Option.toList_some, submitAll_cons, submitAll_nil, submit_of_new hnew, ih hs' hrest]
      dsimp only
      rw [filterMap_cons_toList, he, Option.toList_some, List.append_assoc]
    | none =>
      rw [h.known hs hc hstep]
      exact ih hs hrest

/-- The ledger of a run from the start is that of the accepted calls, which have different keys. -/
theorem Keeps.ledger (h : Keeps valid entry step Rel) (hs : Rel s [])
    (hvalid : ∀ c ∈ calls, valid c) :
    Rel (Ledger.run step s calls) ((Ledger.accepted step s calls).filterMap entry) ∧
      (keys ((Ledger.accepted step s calls).filterMap entry)).Nodup := by
  have haccepted := h.accepted hs hvalid
  rw [List.nil_append] at haccepted
  rw [← haccepted]
  exact ⟨h.run hs hvalid, nodup_submitAll (l := []) List.nodup_nil _⟩

end Keeps

/-! ### Ledgers that mirror each other -/

section Mirror

open List (Forall₂)

variable {A' V' C' : Type*} {R : Entry K A V → Entry K A' V' → Prop}
  {l es : List (Entry K A V)} {l' es' : List (Entry K A' V')}

lemma keys_eq_of_forall₂ (hkey : ∀ {e e'}, R e e' → e.key = e'.key) (h : Forall₂ R l l') :
    keys l = keys l' := by
  induction h with
  | nil => rfl
  | cons he _ ih => exact congrArg₂ _ (hkey he) ih

/-- Ledgers that are offered the same keys take the same entries. -/
theorem submitAll_forall₂ [DecidableEq K] (hkey : ∀ {e e'}, R e e' → e.key = e'.key)
    (h : Forall₂ R l l') (hes : Forall₂ R es es') :
    Forall₂ R (submitAll l es) (submitAll l' es') := by
  induction hes generalizing l l' with
  | nil => exact h
  | @cons e e' es es' he _ ih =>
    apply ih
    by_cases hnew : e.key ∈ keys l
    · have hnew' : e'.key ∈ keys l' := hkey he ▸ keys_eq_of_forall₂ hkey h ▸ hnew
      rwa [submit_of_known hnew, submit_of_known hnew']
    · have hnew' : e'.key ∉ keys l' := hkey he ▸ keys_eq_of_forall₂ hkey h ▸ hnew
      rw [submit_of_new hnew, submit_of_new hnew']
      exact List.rel_append h (.cons he .nil)

/-- Accounts that correspond have histories of the same length. -/
lemma length_history_eq [DecidableEq A] [DecidableEq A'] {a : A} {a' : A'}
    (haccount : ∀ {e e'}, R e e' → (e.account = a ↔ e'.account = a')) (h : Forall₂ R l l') :
    (history l a).length = (history l' a').length := by
  apply Forall₂.length_eq (R := R)
  apply List.rel_filter _ h
  intro e e' he
  simpa using haccount he

/-- Two machines are called at the same time. -/
lemma filterMap_forall₂ (entry : C → Option (Entry K A V)) (entry' : C' → Option (Entry K A' V'))
    {calls : List (C × C')}
    (h : ∀ x ∈ calls, ∃ e e', entry x.1 = some e ∧ entry' x.2 = some e' ∧ R e e') :
    Forall₂ R ((calls.map Prod.fst).filterMap entry) ((calls.map Prod.snd).filterMap entry') := by
  induction calls with
  | nil => exact .nil
  | cons x calls ih =>
    obtain ⟨e, e', he, he', hR⟩ := h x (by simp)
    rw [List.map_cons, List.map_cons, List.filterMap_cons_some he, List.filterMap_cons_some he']
    exact .cons hR (ih fun y hy => h y (by simp [hy]))

lemma exists_of_forall₂_append (hl : Forall₂ R l l') {pre post : List (Entry K A V)}
    {e : Entry K A V} (h : l = pre ++ e :: post) :
    ∃ pre' e' post', l' = pre' ++ e' :: post' ∧ Forall₂ R pre pre' ∧ R e e' := by
  subst h
  induction pre generalizing l' with
  | nil =>
    cases hl with
    | cons he hpost => exact ⟨[], _, _, rfl, .nil, he⟩
  | cons d pre ih =>
    cases hl with
    | cons hd hl =>
      obtain ⟨pre', e', post', rfl, hpre, he⟩ := ih hl
      exact ⟨_ :: pre', e', post', rfl, .cons hd hpre, he⟩

end Mirror

/-! ### Chains of hashes -/

/-- The hash over a list of keys: each key is hashed together with what came before it. -/
def chain {H : Type*} (hash : H → K → H) (start : H) (ks : List K) : H := ks.foldl hash start

section Chain

variable {H : Type*} {hash : H → K → H} {start : H}

@[simp] lemma chain_concat (hash : H → K → H) (start : H) (ks : List K) (k : K) :
    chain hash start (ks ++ [k]) = hash (chain hash start ks) k := by
  simp [chain]

/-- The pairs that are hashed in a chain. -/
def Chained (hash : H → K → H) (start : H) (ks : List K) (p : H × K) : Prop :=
  ∃ pre post, ks = pre ++ p.2 :: post ∧ p.1 = chain hash start pre

lemma Chained.append {ks : List K} {p : H × K} (h : Chained hash start ks p) (more : List K) :
    Chained hash start (ks ++ more) p := by
  obtain ⟨pre, post, rfl, hp⟩ := h
  exact ⟨pre, post ++ more, by simp, hp⟩

/-- Chains of the same length with the same hash are over the same keys, if no two of the hashed
pairs collide. -/
theorem chain_injective {ks ks' : List K} (hlen : ks.length = ks'.length)
    (h : chain hash start ks = chain hash start ks')
    (hinj : Set.InjOn (fun p : H × K => hash p.1 p.2)
      {p | Chained hash start ks p ∨ Chained hash start ks' p}) : ks = ks' := by
  induction ks using List.reverseRecOn generalizing ks' with
  | nil => exact (List.length_eq_zero_iff.mp hlen.symm).symm
  | append_singleton ks k ih =>
    rcases List.eq_nil_or_concat ks' with rfl | ⟨ks', k', rfl⟩
    · simp at hlen
    rw [List.concat_eq_append] at hlen h hinj ⊢
    rw [chain_concat, chain_concat] at h
    have hlast : (chain hash start ks, k) = (chain hash start ks', k') :=
      hinj (.inl ⟨ks, [], rfl, rfl⟩) (.inr ⟨ks', [], rfl, rfl⟩) h
    obtain ⟨hchain, rfl⟩ := Prod.mk.inj hlast
    have hks := ih (by simpa using hlen) hchain
      (hinj.mono fun p hp => hp.imp (fun h => h.append [k]) (fun h => h.append [k]))
    rw [hks]

end Chain

end Ledger
