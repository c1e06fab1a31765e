import HybridLog.Async.Pool
import HybridLog.Core.LogStorage
import Mathlib.Data.List.Count
import Mathlib.Data.List.Range
import Mathlib.Logic.Relation

/-!
# The batch writer

A `BatchWriter` collects entries and hands them to a storage when the buffer is full, when its
timer expires or when it is told to. Flushes are not serialised: while the storage works on one
batch the next one may be handed over. The second half of this file runs a writer among all
orders of these events.
-/

namespace HybridLog

open Js

/-! ### Operations -/

/-- An entry in the buffer, with the number of the promise its caller waits on. -/
structure PendingEntry where
  entry : LogEntry
  promise : ℕ
deriving DecidableEq

structure BatchWriter where
  buffer : List PendingEntry
  /-- `flushTimer` is set. -/
  armed : Bool

namespace BatchWriter

def empty : BatchWriter := ⟨[], false⟩

/-- The part of `flush` up to its first `await`: the timer is cleared, and what the buffer held is
handed to the storage unless it is empty. -/
def flush (w : BatchWriter) : BatchWriter × List PendingEntry := (empty, w.buffer)

def scheduleFlush (w : BatchWriter) : BatchWriter := { w with armed := true }

def write (maxSize : ℕ) (w : BatchWriter) (p : PendingEntry) : BatchWriter × List PendingEntry :=
  let pushed : BatchWriter := { w with buffer := w.buffer ++ [p] }
  if maxSize ≤ pushed.buffer.length then pushed.flush else (pushed.scheduleFlush, [])

/-- The timer expires. -/
def expire (w : BatchWriter) : BatchWriter × List PendingEntry := { w with armed := false }.flush

end BatchWriter

/-- How a promise is settled. -/
inductive Outcome
  | resolved (r : WriteResult)
  | rejected (err : JsError)
deriving DecidableEq

/-- What the storage resolves to: one result for a batch, or one for each of its entries if it has
no `writeBatch`. -/
inductive Answer
  | batch (r : BatchWriteResult)
  | logs (rs : List WriteResult)

/-- How the promises of a batch are settled once the storage has answered. -/
def outcomes (batch : List PendingEntry) : Except JsError Answer → List Outcome
  | .ok (.batch r) => batch.map fun p => .resolved (r.forEntry p.entry)
  | .ok (.logs rs) => rs.map .resolved
  | .error err => batch.map fun _ => .rejected err

/-- Settle a promise; a promise that is settled already stays as it is. -/
def settle (settled : ℕ → Option Outcome) (n : ℕ) (o : Outcome) : ℕ → Option Outcome :=
  Function.update settled n (some ((settled n).getD o))

def settleAll : List ℕ → List Outcome → (ℕ → Option Outcome) → ℕ → Option Outcome
  | n :: ns, o :: os, settled => settleAll ns os (settle settled n o)
  | _, _, settled => settled

lemma settle_self {settled : ℕ → Option Outcome} {n : ℕ} (o : Outcome)
    (h : settled n = none) : settle settled n o n = some o := by
  rw [settle, Function.update_self, h, Option.getD_none]

lemma settle_of_ne {settled : ℕ → Option Outcome} {n m : ℕ} (o : Outcome) (h : m ≠ n) :
    settle settled n o m = settled m :=
  Function.update_of_ne h _ _

lemma settle_of_some {settled : ℕ → Option Outcome} {m : ℕ} {o' : Outcome} (n : ℕ) (o : Outcome)
    (h : settled m = some o') : settle settled n o m = some o' := by
  by_cases hmn : m = n
  · rw [← hmn, settle, Function.update_self, h, Option.getD_some]
  · rw [settle_of_ne o hmn, h]

lemma settleAll_of_notMem : ∀ {ns : List ℕ} {os : List Outcome} {settled : ℕ → Option Outcome}
    {m : ℕ}, m ∉ ns → settleAll ns os settled m = settled m
  | [], _, _, _, _ => by rw [settleAll]; simp
  | _ :: _, [], _, _, _ => by rw [settleAll]; simp
  | n :: ns, o :: os, settled, m, h => by
    obtain ⟨hn, hns⟩ : m ≠ n ∧ m ∉ ns := by simpa using h
    rw [settleAll, settleAll_of_notMem hns, settle_of_ne o hn]

lemma settleAll_of_some : ∀ {ns : List ℕ} {os : List Outcome} {settled : ℕ → Option Outcome}
    {m : ℕ} {o : Outcome}, settled m = some o → settleAll ns os settled m = some o
  | [], _, _, _, _, h => by rw [settleAll]; exact h; simp
  | _ :: _, [], _, _, _, h => by rw [settleAll]; exact h; simp
  | n :: ns, o :: os, _, _, _, h => by rw [settleAll, settleAll_of_some (settle_of_some n o h)]

/-- Settling promises that are settled already does nothing. -/
lemma settleAll_settled : ∀ {ns : List ℕ} (os : List Outcome) {settled : ℕ → Option Outcome},
    (∀ n ∈ ns, (settled n).isSome = true) → settleAll ns os settled = settled
  | [], _, _, _ => by rw [settleAll]; simp
  | _ :: _, [], _, _ => by rw [settleAll]; simp
  | n :: ns, o :: os, settled, h => by
    obtain ⟨o', ho'⟩ := Option.isSome_iff_exists.mp (h n (List.mem_cons_self ..))
    have hsame : settle settled n o = settled := by
      rw [settle, ho', Option.getD_some, ← ho', Function.update_eq_self]
    rw [settleAll, hsame, settleAll_settled os fun m hm => h m (List.mem_cons_of_mem _ hm)]

/-- Promises that are still open are settled each with its own outcome. -/
lemma settleAll_open : ∀ {ns : List ℕ} {os : List Outcome} {settled : ℕ → Option Outcome},
    ns.Nodup → ns.length = os.length → (∀ n ∈ ns, settled n = none) →
      ns.map (settleAll ns os settled) = os.map some
  | [], [], _, _, _, _ => rfl
  | n :: ns, o :: os, settled, hnd, hlen, hopen => by
    obtain ⟨hn, hnd⟩ := List.nodup_cons.mp hnd
    have hrest : ∀ m ∈ ns, settle settled n o m = none := fun m hm => by
      rw [settle_of_ne o (by rintro rfl; exact hn hm)]
      exact hopen m (List.mem_cons_of_mem _ hm)
    have hhead : settleAll ns os (settle settled n o) n = some o := by
      rw [settleAll_of_notMem hn, settle_self o (hopen n (List.mem_cons_self ..))]
    rw [List.map_cons, List.map_cons, settleAll, hhead,
      settleAll_open hnd (by simpa using hlen) hrest]

/-! ### A writer among its events -/

structure WriterConfig where
  maxSize : ℕ
  /-- The storage has a `writeBatch`. -/
  hasWriteBatch : Bool
  hasOnFlush : Bool

/-- A call of `flush` that has handed a batch to the storage. -/
structure Flushing where
  batch : List PendingEntry
  answer : Option (Except JsError Answer)
  /-- The call waits for `onFlush`. -/
  hooked : Bool

structure WriterState where
  writer : BatchWriter
  /-- All batches handed to the storage so far, in the order in which they were handed over. -/
  flushes : List Flushing
  settled : ℕ → Option Outcome
  /-- All entries written so far, in order. -/
  written : List PendingEntry

namespace WriterState

def start : WriterState := ⟨.empty, [], fun _ => none, []⟩

/-- The state after the writer has become `w` and handed over `batch`. -/
def handOver (s : WriterState) : BatchWriter × List PendingEntry → WriterState
  | (w, []) => { s with writer := w }
  | (w, p :: ps) => { s with writer := w, flushes := s.flushes ++ [⟨p :: ps, none, false⟩] }

def write (cfg : WriterConfig) (s : WriterState) (e : LogEntry) : WriterState :=
  let p : PendingEntry := ⟨e, s.written.length⟩
  { s with written := s.written ++ [p] }.handOver (s.writer.write cfg.maxSize p)

/-- The promises of a batch are settled, and the flushes become `flushes`. -/
def settleBatch (s : WriterState) (batch : List PendingEntry) (os : List Outcome)
    (flushes : List Flushing) : WriterState :=
  ⟨s.writer, flushes, settleAll (batch.map PendingEntry.promise) os s.settled, s.written⟩

end WriterState

/-- The storage can answer so. -/
def Fits (cfg : WriterConfig) (batch : List PendingEntry) : Except JsError Answer → Prop
  | .ok (.batch _) => cfg.hasWriteBatch = true
  | .ok (.logs rs) => cfg.hasWriteBatch = false ∧ rs.length = batch.length
  | .error _ => True

/-- `onFlush` is called only for the result of `writeBatch`. -/
def callsOnFlush (cfg : WriterConfig) : Except JsError Answer → Bool
  | .ok (.batch _) => cfg.hasOnFlush
  | _ => false

inductive WriterStep (cfg : WriterConfig) : WriterState → WriterState → Prop
  | write {s : WriterState} (e : LogEntry) : WriterStep cfg s (s.write cfg e)
  | expire {s : WriterState} (h : s.writer.armed = true) :
    WriterStep cfg s (s.handOver s.writer.expire)
  | flush {s : WriterState} : WriterStep cfg s (s.handOver s.writer.flush)
  | answer {s : WriterState} {l l' : List Flushing} {batch : List PendingEntry} {hooked : Bool}
    (a : Except JsError Answer) (h : s.flushes = l ++ ⟨batch, none, hooked⟩ :: l')
    (ha : Fits cfg batch a) :
    WriterStep cfg s (s.settleBatch batch (outcomes batch a)
      (l ++ ⟨batch, some a, callsOnFlush cfg a⟩ :: l'))
  | onFlush {s : WriterState} {l l' : List Flushing} {batch : List PendingEntry}
    {a : Option (Except JsError Answer)} (h : s.flushes = l ++ ⟨batch, a, true⟩ :: l') :
    WriterStep cfg s { s with flushes := l ++ ⟨batch, a, false⟩ :: l' }
  | onFlushThrows {s : WriterState} {l l' : List Flushing} {batch : List PendingEntry}
    {a : Option (Except JsError Answer)} (err : JsError)
    (h : s.flushes = l ++ ⟨batch, a, true⟩ :: l') :
    WriterStep cfg s (s.settleBatch batch (outcomes batch (.error err))
      (l ++ ⟨batch, a, false⟩ :: l'))

abbrev WriterRun (cfg : WriterConfig) : WriterState → WriterState → Prop :=
  Relation.ReflTransGen (WriterStep cfg)

/-! ### The invariant -/

/-- How the promises of a flush stand: all open until the storage answers, then settled by its
answer. -/
def Flushing.expected (f : Flushing) : List (Option Outcome) :=
  match f.answer with
  | none => f.batch.map fun _ => none
  | some a => (outcomes f.batch a).map some

/-- Every written entry is in one of the batches handed over or in `buffer`. -/
structure Tracked (cfg : WriterConfig) (s : WriterState) (buffer : List PendingEntry) : Prop where
  promises : s.written.map PendingEntry.promise = List.range s.written.length
  split : (s.flushes.map Flushing.batch).flatten ++ buffer = s.written
  sizes : ∀ f ∈ s.flushes, 1 ≤ f.batch.length ∧ f.batch.length ≤ cfg.maxSize
  fits : ∀ f ∈ s.flushes, ∀ a ∈ f.answer, Fits cfg f.batch a
  hooked : ∀ f ∈ s.flushes, f.hooked = true → f.answer.isSome = true
  standing : ∀ f ∈ s.flushes, f.batch.map (fun p => s.settled p.promise) = f.expected
  waiting : ∀ p ∈ buffer, s.settled p.promise = none
  fresh : ∀ n, s.written.length ≤ n → s.settled n = none

structure WriterInv (cfg : WriterConfig) (s : WriterState) : Prop where
  tracked : Tracked cfg s s.writer.buffer
  room : s.writer.buffer.length < cfg.maxSize
  timer : s.writer.armed = true ↔ s.writer.buffer ≠ []

lemma outcomes_length {cfg : WriterConfig} {batch : List PendingEntry}
    {a : Except JsError Answer} (h : Fits cfg batch a) :
    (outcomes batch a).length = batch.length := by
  match a, h with
  | .ok (.batch r), _ => simp [outcomes]
  | .ok (.logs rs), h => simpa [outcomes] using h.2
  | .error err, _ => simp [outcomes]

/-- The promises of one batch are different from each other and from all others. -/
lemma promises_disjoint {l l' : List (List PendingEntry)} {b buffer : List PendingEntry}
    (h : (((l ++ b :: l').flatten ++ buffer).map PendingEntry.promise).Nodup) :
    (b.map PendingEntry.promise).Nodup ∧
      (∀ c ∈ l ++ l', ∀ q ∈ c, q.promise ∉ b.map PendingEntry.promise) ∧
      ∀ q ∈ buffer, q.promise ∉ b.map PendingEntry.promise := by
  have hperm : ((l ++ b :: l').flatten ++ buffer).Perm (b ++ ((l ++ l').flatten ++ buffer)) := by
    simp only [List.flatten_append, List.flatten_cons, List.append_assoc]
    exact List.perm_append_comm_assoc _ _ _
  have hnd := (hperm.map PendingEntry.promise).nodup_iff.mp h
  rw [List.map_append, List.nodup_append'] at hnd
  refine ⟨hnd.1, fun c hc q hq hb => ?_, fun q hq hb => ?_⟩
  · refine hnd.2.2 hb (List.mem_map_of_mem ?_)
    exact List.mem_append_left _ (List.mem_flatten_of_mem hc hq)
  · exact hnd.2.2 hb (List.mem_map_of_mem (List.mem_append_right _ hq))

namespace Tracked

variable {cfg : WriterConfig} {s : WriterState} {buffer : List PendingEntry}

lemma start : Tracked cfg .start [] where
  promises := rfl
  split := rfl
  sizes := by simp [WriterState.start]
  fits := by simp [WriterState.start]
  hooked := by simp [WriterState.start]
  standing := by simp [WriterState.start]
  waiting := by simp
  fresh := fun _ _ => rfl

/-- A new entry joins the buffer. -/
lemma push (h : Tracked cfg s buffer) (e : LogEntry) :
    Tracked cfg { s with written := s.written ++ [⟨e, s.written.length⟩] }
      (buffer ++ [⟨e, s.written.length⟩]) where
  promises := by
    rw [List.map_append, h.promises, List.length_append, List.length_singleton, List.range_succ]
    rfl
  split := by rw [← List.append_assoc, h.split]
  sizes := h.sizes
  fits := h.fits
  hooked := h.hooked
  standing := h.standing
  waiting := by
    intro p hp
    rcases List.mem_append.mp hp with hp | hp
    · exact h.waiting p hp
    · rw [List.mem_singleton.mp hp]
      exact h.fresh _ (le_refl _)
  fresh := fun n hn => h.fresh n (by simp only [List.length_append] at hn; omega)

/-- A batch is handed over from the front of the buffer. -/
lemma handOver {w : BatchWriter} {batch : List PendingEntry}
    (h : Tracked cfg s (batch ++ w.buffer)) (hle : batch.length ≤ cfg.maxSize) :
    Tracked cfg (s.handOver (w, batch)) w.buffer := by
  cases batch with
  | nil => exact ⟨h.promises, h.split, h.sizes, h.fits, h.hooked, h.standing, h.waiting, h.fresh⟩
  | cons p ps =>
    have hnew : ∀ {P : Flushing → Prop}, (∀ f ∈ s.flushes, P f) → P ⟨p :: ps, none, false⟩ →
        ∀ f ∈ s.flushes ++ [⟨p :: ps, none, false⟩], P f := by
      intro P hold hP f hf
      rcases List.mem_append.mp hf with hf | hf
      · exact hold f hf
      · rwa [List.mem_singleton.mp hf]
    refine ⟨h.promises, ?_, hnew h.sizes ⟨by simp, hle⟩, hnew h.fits (by simp),
      hnew h.hooked (by simp), hnew h.standing ?_, fun q hq => ?_, h.fresh⟩
    · have hsplit := h.split
      simp only [WriterState.handOver, ← hsplit]
      simp
    · exact List.map_congr_left fun q hq => h.waiting q (List.mem_append_left _ hq)
    · exact h.waiting q (List.mem_append_right _ hq)

lemma nodup (h : Tracked cfg s buffer) : (s.written.map PendingEntry.promise).Nodup := by
  rw [h.promises]
  exact List.nodup_range

lemma promise_lt (h : Tracked cfg s buffer) {p : PendingEntry} (hp : p ∈ s.written) :
    p.promise < s.written.length := by
  have := List.mem_map_of_mem (f := PendingEntry.promise) hp
  rwa [h.promises, List.mem_range] at this

/-- The storage answers for one batch. -/
lemma answer (h : Tracked cfg s buffer) {l l' : List Flushing} {batch : List PendingEntry}
    {hooked : Bool} {a : Except JsError Answer}
    (hs : s.flushes = l ++ ⟨batch, none, hooked⟩ :: l') (ha : Fits cfg batch a) (hooked' : Bool) :
    Tracked cfg (s.settleBatch batch (outcomes batch a) (l ++ ⟨batch, some a, hooked'⟩ :: l'))
      buffer := by
  have hnodup : (((l.map Flushing.batch ++ batch :: l'.map Flushing.batch).flatten ++
      buffer).map PendingEntry.promise).Nodup := by
    have hnodup := h.nodup
    rw [← h.split, hs] at hnodup
    simpa using hnodup
  obtain ⟨hnd, hothers, hbuffer⟩ := promises_disjoint hnodup
  have hmem : ∀ f ∈ l ++ l', f ∈ s.flushes := fun f hf => by
    rw [hs]
    rcases List.mem_append.mp hf with hf | hf <;> simp [hf]
  have hself : (⟨batch, none, hooked⟩ : Flushing) ∈ s.flushes := by simp [hs]
  have hopen : ∀ n ∈ batch.map PendingEntry.promise, s.settled n = none := by
    intro n hn
    obtain ⟨p, hp, rfl⟩ := List.mem_map.mp hn
    exact List.map_inj_left.mp (h.standing _ hself) p hp
  have hnew : ∀ {P : Flushing → Prop}, (∀ f ∈ l ++ l', P f) → P ⟨batch, some a, hooked'⟩ →
      ∀ f ∈ l ++ ⟨batch, some a, hooked'⟩ :: l', P f := by
    intro P hold hP f hf
    simp only [List.mem_append, List.mem_cons] at hf
    rcases hf with hf | rfl | hf
    · exact hold f (List.mem_append_left _ hf)
    · exact hP
    · exact hold f (List.mem_append_right _ hf)
  refine ⟨h.promises, ?_, hnew (fun f hf => h.sizes f (hmem f hf))
    (h.sizes ⟨batch, none, hooked⟩ hself),
    hnew (fun f hf => h.fits f (hmem f hf)) (by simpa using ha),
    hnew (fun f hf => h.hooked f (hmem f hf)) (fun _ => rfl),
    hnew (fun f hf => ?_) ?_, fun p hp => ?_, fun n hn => ?_⟩
  · rw [WriterState.settleBatch, ← h.split, hs]
    simp
  · rw [← h.standing f (hmem f hf)]
    refine List.map_congr_left fun q hq => settleAll_of_notMem ?_
    exact hothers f.batch (by rw [← List.map_append]; exact List.mem_map_of_mem hf) q hq
  · have hall := settleAll_open hnd
      (by rw [List.length_map, outcomes_length ha]) hopen
    rwa [List.map_map] at hall
  · exact (settleAll_of_notMem (hbuffer p hp)).trans (h.waiting p hp)
  · have hn' : n ∉ batch.map PendingEntry.promise := by
      intro hmemn
      obtain ⟨p, hp, rfl⟩ := List.mem_map.mp hmemn
      have hw : p ∈ s.written := by
        rw [← h.split, hs]
        simp [hp]
      exact absurd (h.promise_lt hw) (not_lt.mpr hn)
    exact (settleAll_of_notMem hn').trans (h.fresh n hn)

/-- A call of `flush` is done with `onFlush`. -/
lemma unhook (h : Tracked cfg s buffer) {l l' : List Flushing} {batch : List PendingEntry}
    {a : Option (Except JsError Answer)} (hs : s.flushes = l ++ ⟨batch, a, true⟩ :: l') :
    Tracked cfg { s with flushes := l ++ ⟨batch, a, false⟩ :: l' } buffer := by
  obtain ⟨hpromises, hsplit, hsizes, hfits, hhooked, hstanding, hwaiting, hfresh⟩ := h
  rw [hs] at hsplit hsizes hfits hhooked hstanding
  refine ⟨hpromises, ?_, Async.forall_mem_replace [_] hsizes (by simp),
    Async.forall_mem_replace [_] hfits (by simp), Async.forall_mem_replace [_] hhooked (by simp),
    Async.forall_mem_replace [_] hstanding ?_, hwaiting, hfresh⟩
  · simpa using hsplit
  · intro hold f hf
    rw [List.mem_singleton.mp hf]
    exact hold

/-- The promises of a batch that is answered for are settled, those of one in flight are not. -/
lemma settled_iff (h : Tracked cfg s buffer) {f : Flushing} (hf : f ∈ s.flushes)
    {p : PendingEntry} (hp : p ∈ f.batch) :
    (s.settled p.promise).isSome = true ↔ f.answer.isSome = true := by
  have hstanding := h.standing f hf
  cases ha : f.answer with
  | none =>
    rw [Flushing.expected, ha] at hstanding
    rw [List.map_inj_left.mp hstanding p hp]
    simp
  | some a =>
    have hmem : s.settled p.promise ∈ f.expected := by
      rw [← hstanding]
      exact List.mem_map_of_mem (f := fun q => s.settled q.promise) hp
    rw [Flushing.expected, ha] at hmem
    obtain ⟨o, _, ho⟩ := List.mem_map.mp hmem
    simp [← ho]

lemma settleAll_hooked (h : Tracked cfg s buffer) {l l' : List Flushing}
    {batch : List PendingEntry} {a : Option (Except JsError Answer)}
    (hs : s.flushes = l ++ ⟨batch, a, true⟩ :: l') (os : List Outcome) :
    settleAll (batch.map PendingEntry.promise) os s.settled = s.settled := by
  have hmem : (⟨batch, a, true⟩ : Flushing) ∈ s.flushes := by simp [hs]
  refine settleAll_settled _ fun n hn => ?_
  obtain ⟨p, hp, rfl⟩ := List.mem_map.mp hn
  exact (h.settled_iff hmem hp).mpr (h.hooked _ hmem rfl)

end Tracked

variable {cfg : WriterConfig} {s s' : WriterState}

lemma WriterInv.start (h : 1 ≤ cfg.maxSize) : WriterInv cfg .start :=
  ⟨.start, h, by simp [WriterState.start, BatchWriter.empty]⟩

/-- A flush hands over the whole buffer. -/
lemma WriterInv.flushed {w : BatchWriter} (h : Tracked cfg s w.buffer) (hmax : 1 ≤ cfg.maxSize)
    (hle : w.buffer.length ≤ cfg.maxSize) : WriterInv cfg (s.handOver w.flush) := by
  have hwriter : (s.handOver w.flush).writer = .empty := by
    rw [BatchWriter.flush]
    cases w.buffer <;> rfl
  have htracked : Tracked cfg s (w.buffer ++ BatchWriter.empty.buffer) := by
    rwa [BatchWriter.empty, List.append_nil]
  refine ⟨?_, ?_, ?_⟩
  · rw [hwriter]
    exact htracked.handOver hle
  · rw [hwriter]
    exact hmax
  · rw [hwriter]
    simp [BatchWriter.empty]

lemma WriterInv.write (h : WriterInv cfg s) (e : LogEntry) : WriterInv cfg (s.write cfg e) := by
  have htracked := h.tracked.push e
  rw [WriterState.write, BatchWriter.write]
  have hroom := h.room
  split
  · refine WriterInv.flushed htracked (by omega) ?_
    rw [List.length_append, List.length_singleton]
    exact hroom
  · next hlen =>
    refine ⟨htracked.handOver (Nat.zero_le _), not_le.mp hlen, ?_⟩
    simp [WriterState.handOver, BatchWriter.scheduleFlush]

/-- Every step keeps the invariant. -/
lemma WriterInv.step (h : WriterInv cfg s) (hstep : WriterStep cfg s s') : WriterInv cfg s' := by
  have hroom := h.room
  cases hstep with
  | write e => exact h.write e
  | expire harmed => exact WriterInv.flushed h.tracked (by omega) hroom.le
  | flush => exact WriterInv.flushed h.tracked (by omega) hroom.le
  | answer a hs ha => exact ⟨h.tracked.answer hs ha _, h.room, h.timer⟩
  | onFlush hs => exact ⟨h.tracked.unhook hs, h.room, h.timer⟩
  | onFlushThrows err hs =>
    rw [WriterState.settleBatch, h.tracked.settleAll_hooked hs]
    exact ⟨h.tracked.unhook hs, h.room, h.timer⟩

lemma WriterInv.run (h : WriterInv cfg s) (hrun : WriterRun cfg s s') : WriterInv cfg s' := by
  induction hrun with
  | refl => exact h
  | tail _ hstep ih => exact ih.step hstep

/-- A settled promise stays settled as it is. -/
lemma WriterStep.settled (hstep : WriterStep cfg s s') {n : ℕ} {o : Outcome}
    (h : s.settled n = some o) : s'.settled n = some o := by
  have hhand : ∀ (t : WriterState) (wb : BatchWriter × List PendingEntry),
      (t.handOver wb).settled = t.settled := fun t wb => by
    obtain ⟨w, b⟩ := wb
    cases b <;> rfl
  cases hstep with
  | write e => rwa [WriterState.write, hhand]
  | expire _ => rwa [hhand]
  | flush => rwa [hhand]
  | answer a _ _ => exact settleAll_of_some h
  | onFlush _ => exact h
  | onFlushThrows err _ => exact settleAll_of_some h

lemma WriterRun.settled (hrun : WriterRun cfg s s') {n : ℕ} {o : Outcome}
    (h : s.settled n = some o) : s'.settled n = some o := by
  induction hrun with
  | refl => exact h
  | tail _ hstep ih => exact hstep.settled ih

/-! ### Where an entry is -/

namespace WriterState

/-- The batches handed over, in the order in which they were. -/
def handed (s : WriterState) : List (List PendingEntry) := s.flushes.map Flushing.batch

/-- The batches the storage has not answered for. -/
def inFlight (s : WriterState) : List (List PendingEntry) :=
  (s.flushes.filter fun f => f.answer.isNone).map Flushing.batch

/-- How often the entry of promise `n` stands in the batches `bs`. -/
def occurrences (n : ℕ) (bs : List (List PendingEntry)) : ℕ :=
  (bs.flatten.map PendingEntry.promise).count n

/-- In how many places the entry of promise `n` is: the buffer, a batch in flight, or settled. -/
def places (s : WriterState) (n : ℕ) : ℕ :=
  occurrences n [s.writer.buffer] + occurrences n s.inFlight +
    if (s.settled n).isSome then 1 else 0

end WriterState

open WriterState

lemma occurrences_pos {n : ℕ} {bs : List (List PendingEntry)} :
    0 < occurrences n bs ↔ ∃ b ∈ bs, ∃ p ∈ b, p.promise = n := by
  rw [occurrences, List.count_pos_iff]
  simp only [List.mem_map, List.mem_flatten]
  exact ⟨fun ⟨p, ⟨b, hb, hp⟩, hn⟩ => ⟨b, hb, p, hp, hn⟩,
    fun ⟨b, hb, p, hp, hn⟩ => ⟨p, ⟨b, hb, hp⟩, hn⟩⟩

lemma occurrences_inFlight_le (s : WriterState) (n : ℕ) :
    occurrences n s.inFlight ≤ occurrences n s.handed :=
  ((List.filter_sublist.map Flushing.batch).flatten.map PendingEntry.promise).count_le n

namespace Tracked

variable {buffer : List PendingEntry}

lemma occurrences_eq (h : Tracked cfg s buffer) {n : ℕ} (hn : n < s.written.length) :
    occurrences n [buffer] + occurrences n s.handed = 1 := by
  have hone : (s.written.map PendingEntry.promise).count n = 1 := by
    rw [h.promises]
    exact List.count_eq_one_of_mem List.nodup_range (List.mem_range.mpr hn)
  rw [← h.split, List.map_append, List.count_append] at hone
  rw [occurrences, occurrences, handed, List.flatten_singleton, add_comm]
  exact hone

/-- With `writeBatch` every entry of an answered batch is told the outcome of the batch. -/
lemma settled_eq (h : Tracked cfg s buffer) (hbatch : cfg.hasWriteBatch = true) {f : Flushing}
    (hf : f ∈ s.flushes) {p : PendingEntry} (hp : p ∈ f.batch) {o : Outcome}
    (ho : s.settled p.promise = some o) :
    (∃ r, f.answer = some (.ok (.batch r)) ∧ o = .resolved (r.forEntry p.entry)) ∨
      ∃ err, f.answer = some (.error err) ∧ o = .rejected err := by
  obtain ⟨a, ha⟩ := Option.isSome_iff_exists.mp ((h.settled_iff hf hp).mp (by simp [ho]))
  have hfits := h.fits f hf a ha
  have hstanding := h.standing f hf
  rw [Flushing.expected, ha] at hstanding
  match a, hfits with
  | .ok (.batch r), _ =>
    simp only [outcomes, List.map_map, List.map_inj_left] at hstanding
    exact .inl ⟨r, ha, by simpa [ho] using hstanding p hp⟩
  | .ok (.logs rs), hfits => exact absurd (hbatch.symm.trans hfits.1) (by decide)
  | .error err, _ =>
    simp only [outcomes, List.map_map, List.map_inj_left] at hstanding
    exact .inr ⟨err, ha, by simpa [ho] using hstanding p hp⟩

end Tracked

/-- Every written entry is in one place. -/
lemma WriterInv.places_eq (h : WriterInv cfg s) {n : ℕ} (hn : n < s.written.length) :
    s.places n = 1 := by
  have hall := h.tracked.occurrences_eq hn
  have hle := occurrences_inFlight_le s n
  rw [WriterState.places]
  rcases Nat.eq_zero_or_pos (occurrences n s.handed) with hzero | hpos
  · -- the entry is in the buffer
    obtain ⟨b, hb, p, hp, rfl⟩ := occurrences_pos.mp (by omega : 0 < occurrences n [s.writer.buffer])
    rw [List.mem_singleton.mp hb] at hp
    rw [h.tracked.waiting p hp]
    simp
    omega
  · obtain ⟨b, hb, p, hp, rfl⟩ := occurrences_pos.mp hpos
    obtain ⟨f, hf, rfl⟩ := List.mem_map.mp hb
    have hiff := h.tracked.settled_iff hf hp
    cases ha : f.answer with
    | none =>
      have hin : 0 < occurrences p.promise s.inFlight :=
        occurrences_pos.mpr ⟨f.batch, List.mem_map_of_mem (by simp [hf, ha]), p, hp, rfl⟩
      rw [if_neg (by simp [hiff, ha])]
      omega
    | some a =>
      have hset : (s.settled p.promise).isSome = true := hiff.mpr (by simp [ha])
      have hout : ¬0 < occurrences p.promise s.inFlight := by
        intro hin
        obtain ⟨b', hb', q, hq, hqp⟩ := occurrences_pos.mp hin
        obtain ⟨g, hg, rfl⟩ := List.mem_map.mp hb'
        obtain ⟨hgs, hga⟩ := List.mem_filter.mp hg
        have := (h.tracked.settled_iff hgs hq).mp (hqp ▸ hset)
        simp_all
      rw [if_pos hset]
      omega

/-- Whatever the order of writes, flushes, timers and answers of the storage, a batch writer
neither loses, duplicates nor strands an entry. -/
theorem batch_writer_tracks_entries (hmax : 1 ≤ cfg.maxSize) (hrun : WriterRun cfg .start s) :
    (∀ n < s.written.length, s.places n = 1) ∧
      (s.writer.buffer ≠ [] →
        s.writer.armed = true ∧ s.writer.buffer.length < cfg.maxSize) ∧
      s.handed.flatten <+: s.written ∧
      (∀ b ∈ s.handed, 1 ≤ b.length ∧ b.length ≤ cfg.maxSize) ∧
      (cfg.hasWriteBatch = true → ∀ p ∈ s.written, ∀ o, s.settled p.promise = some o →
        (∃ f ∈ s.flushes, p ∈ f.batch ∧
          ((∃ r, f.answer = some (.ok (.batch r)) ∧ o = .resolved (r.forEntry p.entry)) ∨
            ∃ err, f.answer = some (.error err) ∧ o = .rejected err)) ∧
        ∀ s', WriterRun cfg s s' → s'.settled p.promise = some o) := by
  have h := (WriterInv.start hmax).run hrun
  have hsplit : s.handed.flatten ++ s.writer.buffer = s.written := h.tracked.split
  refine ⟨fun n => h.places_eq, fun hne => ⟨h.timer.mpr hne, h.room⟩, ⟨_, hsplit⟩, ?_, ?_⟩
  · intro b hb
    obtain ⟨f, hf, rfl⟩ := List.mem_map.mp hb
    exact h.tracked.sizes f hf
  · intro hbatch p hp o ho
    refine ⟨?_, fun s' hs' => hs'.settled ho⟩
    rw [← hsplit] at hp
    rcases List.mem_append.mp hp with hp | hp
    · obtain ⟨b, hb, hpb⟩ := List.mem_flatten.mp hp
      obtain ⟨f, hf, rfl⟩ := List.mem_map.mp hb
      exact ⟨f, hf, hpb, h.tracked.settled_eq hbatch hf hpb ho⟩
    · rw [h.tracked.waiting p hp] at ho
      cases ho

/-- An entry for a writer to try. -/
def blankEntry : LogEntry := .create [] .epoch [] [] [] none

/-- A writer of batches of two. -/
def pairWriter : WriterConfig := ⟨2, true, true⟩

/-- Two entries have been written and handed over, and the storage has answered. -/
def answeredPair : WriterState :=
  ((WriterState.start.write pairWriter blankEntry).write pairWriter blankEntry).settleBatch
    [⟨blankEntry, 0⟩, ⟨blankEntry, 1⟩]
    (outcomes [⟨blankEntry, 0⟩, ⟨blankEntry, 1⟩] (.ok (.batch (.failed [] [] 2 "timeout"))))
    [⟨[⟨blankEntry, 0⟩, ⟨blankEntry, 1⟩], some (.ok (.batch (.failed [] [] 2 "timeout"))), true⟩]

lemma answeredPair_run : WriterRun pairWriter .start answeredPair :=
  ((Relation.ReflTransGen.single (.write blankEntry)).tail (.write blankEntry)).tail
    (@WriterStep.answer _ _ [] [] _ _ (.ok (.batch (.failed [] [] 2 "timeout"))) rfl rfl)

theorem answered_pair_tracked :
    answeredPair.places 0 = 1 ∧ answeredPair.places 1 = 1 ∧
      ∃ f ∈ answeredPair.flushes, ⟨blankEntry, 1⟩ ∈ f.batch := by
  obtain ⟨hplaces, _, _, _, hsettled⟩ :=
    batch_writer_tracks_entries (by decide : 1 ≤ pairWriter.maxSize) answeredPair_run
  obtain ⟨⟨f, hf, hp, _⟩, _⟩ := hsettled rfl ⟨blankEntry, 1⟩
    (List.mem_cons_of_mem _ (List.mem_singleton_self _)) _ rfl
  exact ⟨hplaces 0 (by decide), hplaces 1 (by decide), f, hf, hp⟩

end HybridLog
