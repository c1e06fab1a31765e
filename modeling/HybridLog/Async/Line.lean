import Mathlib.Data.List.Infix
import Mathlib.Data.List.Pairwise

/-!
# A queue with one message in hand

A broker that gives a consumer its next message only after the last one has been acknowledged serves
a queue in the order of publication. A message that is given back takes its old place.
-/

namespace Async

/-- A queue of numbered messages, with the messages ever published to it and the deliveries. -/
structure Line (M : Type) where
  published : List M
  delivered : List (ℕ × M)
  /-- Delivered and not yet acknowledged. -/
  unacked : List (ℕ × M)
  waiting : List (ℕ × M)
  /-- No message has this number or a greater one. -/
  next : ℕ

variable {M : Type}

namespace Line

/-- The messages that have not been acknowledged, in the order they will be. -/
def pending (q : Line M) : List (ℕ × M) := q.unacked ++ q.waiting

/-- What is left of a queue that is served in order: the last messages that were published, the
first of them in hand, with numbers that no earlier delivery exceeds. -/
structure InOrder (q : Line M) : Prop where
  suffix : q.pending.map Prod.snd <:+ q.published
  increasing : q.pending.Pairwise fun m m' => m.1 < m'.1
  below : ∀ m ∈ q.pending, m.1 < q.next
  single : q.unacked.length ≤ 1
  deliveries : q.delivered.Pairwise fun m m' => m.1 ≤ m'.1
  behind : ∀ n ∈ q.delivered, n.1 < q.next ∧ ∀ m ∈ q.pending, n.1 ≤ m.1

variable {q : Line M}

lemma InOrder.empty : InOrder (⟨[], [], [], [], 0⟩ : Line M) where
  suffix := List.suffix_refl []
  increasing := .nil
  below _ hm := by cases hm
  single := Nat.zero_le 1
  deliveries := .nil
  behind _ hn := by cases hn

/-- Numbers are used up by other queues. -/
lemma InOrder.skip (h : q.InOrder) {next : ℕ} (hle : q.next ≤ next) :
    InOrder { q with next := next } :=
  { h with
    below := fun m hm => (h.below m hm).trans_le hle
    behind := fun n hn => ⟨(h.behind n hn).1.trans_le hle, (h.behind n hn).2⟩ }

lemma InOrder.publish (h : q.InOrder) (m : M) :
    InOrder { q with
      published := q.published ++ [m]
      waiting := q.waiting ++ [(q.next, m)]
      next := q.next + 1 } := by
  have hpending : ∀ m' ∈ q.pending ++ [(q.next, m)], m' ∈ q.pending ∨ m' = (q.next, m) := by
    simp
  have hassoc : q.unacked ++ (q.waiting ++ [(q.next, m)]) = q.pending ++ [(q.next, m)] :=
    (List.append_assoc ..).symm
  constructor
  · obtain ⟨old, hold⟩ := h.suffix
    refine ⟨old, ?_⟩
    rw [pending, hassoc, List.map_append, ← List.append_assoc, hold]
    rfl
  · rw [pending, hassoc, List.pairwise_append]
    refine ⟨h.increasing, List.pairwise_singleton _ _, fun m₁ hm₁ m₂ hm₂ => ?_⟩
    cases List.mem_singleton.mp hm₂
    exact h.below m₁ hm₁
  · rw [pending, hassoc]
    intro m' hm'
    rcases hpending m' hm' with hm' | rfl
    · exact Nat.lt_succ_of_lt (h.below m' hm')
    · exact Nat.lt_succ_self _
  · exact h.single
  · exact h.deliveries
  · intro n hn
    obtain ⟨hlt, hle⟩ := h.behind n hn
    refine ⟨Nat.lt_succ_of_lt hlt, ?_⟩
    rw [pending, hassoc]
    intro m' hm'
    rcases hpending m' hm' with hm' | rfl
    · exact hle m' hm'
    · exact hlt.le

/-- The first message is delivered while none is in hand. -/
lemma InOrder.deliver (h : q.InOrder) {m : ℕ × M} {rest : List (ℕ × M)} (hnone : q.unacked = [])
    (hwaiting : q.waiting = m :: rest) :
    InOrder { q with
      delivered := q.delivered ++ [m]
      unacked := [m]
      waiting := rest } := by
  have hpending : q.pending = m :: rest := by rw [pending, hnone, hwaiting, List.nil_append]
  have hsuffix := h.suffix
  have hincreasing := h.increasing
  have hbelow := h.below
  have hbehind := h.behind
  rw [hpending] at hsuffix hincreasing hbelow hbehind
  refine ⟨hsuffix, hincreasing, hbelow, le_rfl, ?_, ?_⟩
  · rw [List.pairwise_append]
    refine ⟨h.deliveries, List.pairwise_singleton _ _, fun n hn n' hn' => ?_⟩
    cases List.mem_singleton.mp hn'
    exact (hbehind n hn).2 m (List.mem_cons_self ..)
  · intro n hn
    rcases List.mem_append.mp hn with hn | hn
    · exact hbehind n hn
    · cases List.mem_singleton.mp hn
      refine ⟨hbelow m (List.mem_cons_self ..), fun m' hm' => ?_⟩
      rcases List.mem_cons.mp hm' with rfl | hm'
      · exact le_rfl
      · exact ((List.pairwise_cons.mp hincreasing).1 m' hm').le

/-- The message in hand is acknowledged, unless it is one to keep. -/
lemma InOrder.acknowledge (h : q.InOrder) (keep : ℕ × M → Bool) :
    InOrder { q with unacked := q.unacked.filter keep } := by
  have hkept : (q.unacked.filter keep).Sublist q.unacked := List.filter_sublist
  rcases Nat.le_one_iff_eq_zero_or_eq_one.mp (hkept.length_le.trans h.single) with hlen | hlen
  · rw [List.length_eq_zero_iff.mp hlen]
    have hsuffix : q.waiting <:+ q.pending := List.suffix_append _ _
    exact ⟨(hsuffix.map Prod.snd).trans h.suffix, h.increasing.sublist hsuffix.sublist,
      fun m hm => h.below m (hsuffix.subset hm), Nat.zero_le 1, h.deliveries,
      fun n hn => ⟨(h.behind n hn).1, fun m hm => (h.behind n hn).2 m (hsuffix.subset hm)⟩⟩
  · rwa [hkept.eq_of_length_le (by rw [hlen]; exact h.single)]

/-- The message in hand is given back. -/
lemma InOrder.giveBack (h : q.InOrder) :
    InOrder { q with unacked := [], waiting := q.unacked ++ q.waiting } :=
  ⟨h.suffix, h.increasing, h.below, Nat.zero_le 1, h.deliveries, h.behind⟩

lemma InOrder.unacked_eq (h : q.InOrder) {m : ℕ × M} (hm : m ∈ q.unacked) : q.unacked = [m] := by
  have hlen : q.unacked.length = 1 := h.single.antisymm (List.length_pos_of_mem hm)
  obtain ⟨m', hm'⟩ := List.length_eq_one_iff.mp hlen
  rw [hm', List.mem_singleton] at hm
  rw [hm', hm]

/-- The message in hand has the number of the last delivery. -/
lemma InOrder.le_of_unacked (h : q.InOrder) {m : ℕ × M} (hm : m ∈ q.unacked) {n : ℕ × M}
    (hn : n ∈ q.delivered) : n.1 ≤ m.1 :=
  (h.behind n hn).2 m (List.mem_append_left _ hm)

/-! ### Steps -/

/-- What may become of a queue; messages are given back only if `back`. -/
inductive Step (back : Prop) (q : Line M) : Line M → Prop
  | skip {next : ℕ} (h : q.next ≤ next) : Step back q { q with next := next }
  | publish (m : M) : Step back q { q with
      published := q.published ++ [m]
      waiting := q.waiting ++ [(q.next, m)]
      next := q.next + 1 }
  | deliver {m : ℕ × M} {rest : List (ℕ × M)} (hnone : q.unacked = [])
    (hwaiting : q.waiting = m :: rest) : Step back q { q with
      delivered := q.delivered ++ [m]
      unacked := [m]
      waiting := rest }
  | acknowledge (keep : ℕ × M → Bool) : Step back q { q with unacked := q.unacked.filter keep }
  | giveBack (hback : back) : Step back q { q with
      unacked := []
      waiting := q.unacked ++ q.waiting }

variable {q' : Line M} {back : Prop}

/-- The queue stays in order. -/
theorem InOrder.step (h : q.InOrder) (hstep : q.Step back q') : q'.InOrder := by
  cases hstep with
  | skip hle => exact h.skip hle
  | publish m => exact h.publish m
  | deliver hnone hwaiting => exact h.deliver hnone hwaiting
  | acknowledge keep => exact h.acknowledge keep
  | giveBack _ => exact h.giveBack

/-- The messages are delivered once each, in the order of their publication. -/
def Once (q : Line M) : Prop := (q.delivered ++ q.waiting).map Prod.snd = q.published

lemma Once.empty : Once (⟨[], [], [], [], 0⟩ : Line M) := rfl

/-- So it is as long as nothing is given back. -/
theorem Once.step (h : q.Once) (hback : ¬back) (hstep : q.Step back q') : q'.Once := by
  rw [Once] at h
  cases hstep with
  | skip _ => exact h
  | publish m => simp [Once, ← h]
  | deliver hnone hwaiting => simp [Once, ← h, hwaiting]
  | acknowledge keep => exact h
  | giveBack hb => exact (hback hb).elim

end Line

end Async
