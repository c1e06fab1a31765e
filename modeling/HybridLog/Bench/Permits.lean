import HybridLog.Bench.Drivers

/-!
# The semaphore of the benchmark

A permit that is released goes to the caller that waits longest, and `current` stays as it is. So
`current` counts the permits that are held, whoever holds them, and the calls of `acquire` are
granted in the order in which they are made.
-/

namespace HybridLog

open Async

/-! ### A semaphore in use -/

/-- A semaphore, and what has become of the calls of `acquire`, which are numbered as they are
made. -/
structure Permits where
  sem : Semaphore
  calls : ℕ
  granted : List ℕ
  released : List ℕ

namespace Permits

def start : Permits := ⟨⟨0, []⟩, 0, [], []⟩

/-- The calls that have been granted a permit and have not released it. -/
def holders (p : Permits) : List ℕ := p.granted.filter (· ∉ p.released)

def acquire (max : ℕ) (p : Permits) : Permits :=
  let acquired := p.sem.acquire max p.calls
  { sem := acquired.1
    calls := p.calls + 1
    granted := if acquired.2 then p.granted ++ [p.calls] else p.granted
    released := p.released }

def release (p : Permits) (i : ℕ) : Permits :=
  let released := p.sem.release
  { sem := released.1
    calls := p.calls
    granted := p.granted ++ released.2.toList
    released := p.released ++ [i] }

end Permits

/-- Anybody may call `acquire`, and a holder may call `release`. -/
inductive PermitStep (max : ℕ) : Permits → Permits → Prop
  | acquire {p : Permits} : PermitStep max p (p.acquire max)
  | release {p : Permits} {i : ℕ} (h : i ∈ p.holders) : PermitStep max p (p.release i)

/-- The sequences of calls of `acquire` and `release`. -/
abbrev PermitRun (max : ℕ) : Permits → Permits → Prop :=
  Relation.ReflTransGen (PermitStep max)

/-! ### The invariant -/

/-- How many calls of `acquire` are granted after `calls` calls and `released` releases. -/
def grants (max calls released : ℕ) : ℕ := min calls (max + released)

/-- The first calls are granted, the others wait in their order. -/
structure PermitInv (max : ℕ) (p : Permits) : Prop where
  granted : p.granted = List.range (grants max p.calls p.released.length)
  queue : p.sem.queue = (List.range p.calls).drop (grants max p.calls p.released.length)
  current : p.sem.current + p.released.length = grants max p.calls p.released.length
  released : p.released.Nodup
  subset : p.released ⊆ p.granted

namespace PermitInv

variable {max : ℕ} {p p' : Permits}

lemma start : PermitInv max .start := by
  have hnone : grants max 0 0 = 0 := Nat.zero_min _
  constructor
  · simp [Permits.start, hnone]
  · simp [Permits.start]
  · simp [Permits.start, hnone]
  · exact List.nodup_nil
  · exact List.nil_subset _

lemma acquire (h : PermitInv max p) : PermitInv max (p.acquire max) := by
  obtain ⟨hgranted, hqueue, hcurrent, hreleased, hsubset⟩ := h
  rw [Permits.acquire, Semaphore.acquire]
  by_cases hroom : p.sem.current < max
  · -- a free permit: nobody waits, and the call is granted
    have hall : grants max p.calls p.released.length = p.calls := by
      rw [grants] at hcurrent ⊢
      omega
    have hnext : grants max (p.calls + 1) p.released.length = p.calls + 1 := by
      rw [grants] at hcurrent ⊢
      omega
    rw [if_pos hroom]
    rw [hall] at hgranted hqueue hcurrent
    constructor
    · simp [hnext, hgranted, List.range_succ]
    · simp only [hnext, hqueue]
      rw [List.drop_eq_nil_of_le (by simp), List.drop_eq_nil_of_le (by simp)]
    · simp only [hnext]
      omega
    · exact hreleased
    · intro i hi
      simpa using Or.inl (hsubset hi)
  · -- all permits are held: the call waits
    have hfull : grants max p.calls p.released.length = max + p.released.length := by
      rw [grants] at hcurrent ⊢
      omega
    have hsame : grants max (p.calls + 1) p.released.length =
        grants max p.calls p.released.length := by
      rw [grants] at hcurrent ⊢
      rw [grants]
      omega
    have hle : grants max p.calls p.released.length ≤ p.calls := Nat.min_le_left _ _
    rw [if_neg hroom]
    constructor
    · simp [hsame, hgranted]
    · simp only [hsame, hqueue, List.range_succ]
      rw [List.drop_append_of_le_length (by simpa using hle)]
    · simpa only [hsame] using hcurrent
    · exact hreleased
    · simpa using hsubset

/-- A holder is granted and not released, so there are more grants than releases. -/
lemma lt_grants (h : PermitInv max p) {i : ℕ} (hi : i ∈ p.holders) :
    p.released.length < grants max p.calls p.released.length := by
  obtain ⟨hmem, hnot⟩ := List.mem_filter.mp hi
  have hnodup : (i :: p.released).Nodup :=
    List.nodup_cons.mpr ⟨by simpa using hnot, h.released⟩
  have hsub : i :: p.released ⊆ p.granted := List.cons_subset.mpr ⟨hmem, h.subset⟩
  have hlen := (hnodup.subperm hsub).length_le
  rwa [h.granted, List.length_range, List.length_cons] at hlen

lemma release (h : PermitInv max p) {i : ℕ} (hi : i ∈ p.holders) :
    PermitInv max (p.release i) := by
  have hlt := h.lt_grants hi
  obtain ⟨hmem, hnot⟩ := List.mem_filter.mp hi
  obtain ⟨hgranted, hqueue, hcurrent, hreleased, hsubset⟩ := h
  have hnodup : (p.released ++ [i]).Nodup := by
    rw [List.nodup_append]
    refine ⟨hreleased, List.nodup_singleton i, ?_⟩
    rintro j hj k hk rfl
    rw [List.mem_singleton.mp hk] at hj
    simp [hj] at hnot
  have hsub (l : List ℕ) : p.released ++ [i] ⊆ p.granted ++ l := by
    intro j hj
    rcases List.mem_append.mp hj with hj | hj
    · exact List.mem_append_left l (hsubset hj)
    · rw [List.mem_singleton.mp hj]
      exact List.mem_append_left l hmem
  have hlen : (p.released ++ [i]).length = p.released.length + 1 := List.length_append
  rw [Permits.release, Semaphore.release]
  cases hq : p.sem.queue with
  | nil =>
    -- nobody waits: every call is granted, and a permit becomes free
    rw [hq] at hqueue
    have hle : p.calls ≤ grants max p.calls p.released.length := by
      simpa using List.drop_eq_nil_iff.mp hqueue.symm
    have hsame : grants max p.calls (p.released.length + 1) =
        grants max p.calls p.released.length := by
      rw [grants] at hle
      rw [grants, grants]
      omega
    constructor
    · simp only [hlen, hsame, Option.toList_none, List.append_nil, hgranted]
    · simpa only [hlen, hsame, hq] using hqueue
    · simp only [hlen, hsame]
      omega
    · exact hnodup
    · exact hsub _
  | cons next queue =>
    -- the permit goes to the first that waits, which is the first not granted yet
    rw [hq] at hqueue
    have hlt' : grants max p.calls p.released.length < p.calls := by
      by_contra hge
      rw [List.drop_eq_nil_of_le (by simpa using hge)] at hqueue
      cases hqueue
    have hnext : grants max p.calls (p.released.length + 1) =
        grants max p.calls p.released.length + 1 := by
      rw [grants] at hlt'
      rw [grants, grants]
      omega
    have hdrop := List.drop_eq_getElem_cons
      (l := List.range p.calls) (i := grants max p.calls p.released.length) (by simpa using hlt')
    rw [List.getElem_range, ← hqueue] at hdrop
    obtain ⟨hfirst, hrest⟩ := List.cons.inj hdrop
    constructor
    · simp only [hlen, hnext, Option.toList_some, hgranted, List.range_succ, hfirst]
    · simpa only [hlen, hnext] using hrest
    · simp only [hlen, hnext]
      omega
    · exact hnodup
    · exact hsub _

lemma step (h : PermitInv max p) (hstep : PermitStep max p p') : PermitInv max p' := by
  cases hstep with
  | acquire => exact h.acquire
  | release hi => exact h.release hi

lemma run (h : PermitInv max p) (hrun : PermitRun max p p') : PermitInv max p' := by
  induction hrun with
  | refl => exact h
  | tail _ hstep ih => exact ih.step hstep

/-- As many permits are held as have been granted and not released. -/
lemma length_holders (h : PermitInv max p) :
    p.holders.length + p.released.length = grants max p.calls p.released.length := by
  have hnodup : p.granted.Nodup := h.granted ▸ List.nodup_range
  have hperm : (p.granted.filter (· ∈ p.released)).Perm p.released := by
    apply (List.perm_ext_iff_of_nodup (hnodup.filter _) h.released).mpr
    intro i
    rw [List.mem_filter, decide_eq_true_eq]
    exact ⟨fun hi => hi.2, fun hi => ⟨h.subset hi, hi⟩⟩
  have hsplit := @List.length_eq_length_filter_add _ p.granted fun i => decide (i ∈ p.released)
  rw [hperm.length_eq, h.granted, List.length_range] at hsplit
  rw [hsplit, Permits.holders, h.granted, add_comm]
  congr 2
  apply List.filter_congr
  intro i _
  simp

end PermitInv

/-! ### The worker pool -/

/-- What a driver of `n` entries, whose writes hold the permits, has made of its semaphore. -/
structure Bounded.Uses (n : ℕ) (d : Bounded) (p : Permits) : Prop where
  sem : p.sem = d.sem
  calls : p.calls = n
  released : p.released = d.done
  granted : p.granted.Perm (d.done ++ d.writing)

namespace Bounded.Uses

variable {log : ℕ → Bool} {max n : ℕ} {d : Bounded} {p : Permits}

lemma enter (h : d.Uses n p) : (d.enter max n).Uses (n + 1) (p.acquire max) := by
  obtain ⟨hsem, hcalls, hreleased, hgranted⟩ := h
  constructor
  · simp only [Permits.acquire, Bounded.enter, hsem, hcalls]
  · simp only [Permits.acquire, hcalls]
  · exact hreleased
  · simp only [Permits.acquire, Bounded.enter, hsem, hcalls]
    split
    · rw [← List.append_assoc]
      exact hgranted.append_right [n]
    · exact hgranted

/-- An entry that is being written holds a permit. -/
lemma mem_holders (h : d.Uses n p) (hinv : BoundedInv log max n d) {i : ℕ} (hi : i ∈ d.writing) :
    i ∈ p.holders := by
  have hnodup : (d.done ++ (d.writing ++ d.sem.queue)).Nodup :=
    hinv.entries.nodup_iff.mpr List.nodup_range
  rw [Permits.holders, List.mem_filter, h.released]
  constructor
  · exact h.granted.mem_iff.mpr (List.mem_append_right d.done hi)
  · have hnot : i ∉ d.done := fun hdone =>
      (List.disjoint_of_nodup_append hnodup) hdone (List.mem_append_left _ hi)
    simpa using hnot

lemma settle (h : d.Uses n p) {i : ℕ} (hi : i ∈ d.writing) :
    (d.settle i (log i)).Uses n (p.release i) := by
  obtain ⟨hsem, hcalls, hreleased, hgranted⟩ := h
  constructor
  · simp only [Permits.release, Bounded.settle, hsem]
  · exact hcalls
  · simp only [Permits.release, Bounded.settle, hreleased]
  · have herase : (d.done ++ d.writing).Perm (d.done ++ [i] ++ d.writing.erase i) := by
      rw [List.append_assoc]
      exact (List.perm_cons_erase hi).append_left d.done
    simp only [Permits.release, Bounded.settle, hsem]
    rw [← List.append_assoc]
    exact (hgranted.trans herase).append_right _

end Bounded.Uses

section

variable {log : ℕ → Bool} {max n : ℕ} {d : Bounded}

lemma exists_uses_start (max n : ℕ) :
    ∃ p, PermitRun max .start p ∧ (Bounded.start max n).Uses n p := by
  induction n with
  | zero => exact ⟨.start, .refl, rfl, rfl, rfl, .refl _⟩
  | succ n ih =>
    obtain ⟨p, hrun, huses⟩ := ih
    refine ⟨p.acquire max, hrun.tail .acquire, ?_⟩
    rw [Bounded.start, List.range_succ, List.foldl_append]
    exact huses.enter

/-- What a driver does is a sequence of calls of `acquire` and of `release` by holders. -/
lemma exists_uses (h : Relation.ReflTransGen (BoundedStep log) (Bounded.start max n) d) :
    BoundedInv log max n d ∧ ∃ p, PermitRun max .start p ∧ d.Uses n p := by
  induction h with
  | refl => exact ⟨.start, exists_uses_start max n⟩
  | tail _ hstep ih =>
    obtain ⟨hinv, p, hrun, huses⟩ := ih
    refine ⟨hinv.step hstep, ?_⟩
    cases hstep with
    | @answer i hi =>
      exact ⟨p.release i, hrun.tail (.release (huses.mem_holders hinv hi)), huses.settle hi⟩

/-- However calls of `acquire` and of `release` by holders follow one another, the permits that are
held are counted by `current` and at most `max`, nobody waits while one is free, and the calls are
granted in their order, as many as there are permits for. So the driver has at most `max` writes
under way at any time, and it settles every entry. -/
theorem semaphore_bounds (hmax : 1 ≤ max) :
    (∀ p, PermitRun max .start p → p.holders.length ≤ max ∧ p.holders.length = p.sem.current ∧
      (p.sem.queue ≠ [] → p.holders.length = max) ∧
      p.granted = List.range (min p.calls (max + p.released.length))) ∧
    ∀ log n d, Relation.ReflTransGen (BoundedStep log) (Bounded.start max n) d →
      d.writing.length ≤ max ∧ Inevitable (BoundedStep log) (Bounded.Finished n) d := by
  have hsem {p : Permits} (hrun : PermitRun max .start p) : p.holders.length ≤ max ∧
      p.holders.length = p.sem.current ∧ (p.sem.queue ≠ [] → p.holders.length = max) ∧
      p.granted = List.range (min p.calls (max + p.released.length)) := by
    have hinv := PermitInv.start.run hrun
    have hheld := hinv.length_holders
    have hcurrent := hinv.current
    refine ⟨?_, ?_, ?_, hinv.granted⟩
    · rw [grants] at hheld
      omega
    · omega
    · intro hqueue
      rw [hinv.queue, ne_eq, List.drop_eq_nil_iff, List.length_range] at hqueue
      rw [grants] at hheld hqueue
      omega
  refine ⟨fun p => hsem, ?_⟩
  intro log n d hd
  obtain ⟨hinv, p, hrun, huses⟩ := exists_uses hd
  constructor
  · obtain ⟨hle, hcurrent, -⟩ := hsem hrun
    rw [hcurrent, huses.sem, hinv.current] at hle
    exact hle
  · exact hinv.finishes hmax

end

/-- Two calls for one permit, which the first one hands over. -/
def handedOver : Permits := ((Permits.start.acquire 1).acquire 1).release 0

lemma handedOver_run : PermitRun 1 .start handedOver := by
  have hfirst : PermitRun 1 .start (Permits.start.acquire 1) := .single .acquire
  have hsecond : PermitRun 1 .start ((Permits.start.acquire 1).acquire 1) := hfirst.tail .acquire
  exact hsecond.tail (.release (by decide))

theorem handedOver_bounds : handedOver.holders = [1] ∧ handedOver.sem.current = 1 ∧
    handedOver.granted = List.range (min handedOver.calls (1 + handedOver.released.length)) :=
  ⟨by decide, by decide, ((semaphore_bounds le_rfl).1 _ handedOver_run).2.2.2⟩

end HybridLog
