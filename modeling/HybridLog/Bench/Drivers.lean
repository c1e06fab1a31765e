import HybridLog.Async.Inevitable
import HybridLog.Modes.BatchWriter

/-!
# The write drivers of a benchmark

A benchmark writes its entries in one of three ways: through a semaphore, through a batch writer,
or through a queue whose replies it collects until a timeout. Each driver settles every entry
once, and it counts a success exactly if some write has one.
-/

namespace HybridLog

open Js Async

/-! ### Through a semaphore -/

/-- Callers of `acquire` are told apart by the number of their entry. -/
structure Semaphore where
  current : ℕ
  queue : List ℕ

namespace Semaphore

/-- Whether the caller goes on at once. -/
def acquire (max : ℕ) (sem : Semaphore) (i : ℕ) : Semaphore × Bool :=
  if sem.current < max then ({ sem with current := sem.current + 1 }, true)
  else ({ sem with queue := sem.queue ++ [i] }, false)

/-- The caller that goes on instead, if one waits. -/
def release (sem : Semaphore) : Semaphore × Option ℕ :=
  match sem.queue with
  | next :: queue => ({ sem with queue := queue }, some next)
  | [] => ({ sem with current := sem.current - 1 }, none)

end Semaphore

structure Bounded where
  sem : Semaphore
  /-- The entries whose write has been called and not answered. -/
  writing : List ℕ
  done : List ℕ
  successCount : ℕ
  failureCount : ℕ

namespace Bounded

/-- `await semaphore.acquire()`, and the call of the write if it goes on. -/
def enter (max : ℕ) (d : Bounded) (i : ℕ) : Bounded :=
  let acquired := d.sem.acquire max i
  { d with
    sem := acquired.1
    writing := if acquired.2 then d.writing ++ [i] else d.writing }

/-- All entries are tried at once. -/
def start (max n : ℕ) : Bounded := (List.range n).foldl (enter max) ⟨⟨0, []⟩, [], [], 0, 0⟩

/-- The write of entry `i` resolves; it releases the semaphore, which may let another one on. -/
def settle (d : Bounded) (i : ℕ) (success : Bool) : Bounded :=
  let released := d.sem.release
  { sem := released.1
    writing := d.writing.erase i ++ released.2.toList
    done := d.done ++ [i]
    successCount := if success then d.successCount + 1 else d.successCount
    failureCount := if success then d.failureCount else d.failureCount + 1 }

/-- All of the first `n` entries are settled. -/
def Finished (n : ℕ) (d : Bounded) : Prop := ∀ i < n, i ∈ d.done

end Bounded

/-- `log i` says whether the write of entry `i` is a success. -/
inductive BoundedStep (log : ℕ → Bool) : Bounded → Bounded → Prop
  | answer {d : Bounded} {i : ℕ} (h : i ∈ d.writing) : BoundedStep log d (d.settle i (log i))

/-- Of `n` entries each is settled, being written or waiting, and nobody waits while the semaphore
has room. -/
structure BoundedInv (log : ℕ → Bool) (max n : ℕ) (d : Bounded) : Prop where
  entries : (d.done ++ (d.writing ++ d.sem.queue)).Perm (List.range n)
  current : d.sem.current = d.writing.length
  full : d.sem.queue ≠ [] → max ≤ d.sem.current
  successes : d.successCount = d.done.countP log
  failures : d.failureCount = d.done.countP (!log ·)

namespace BoundedInv

variable {log : ℕ → Bool} {max n : ℕ} {d d' : Bounded}

lemma enter (h : BoundedInv log max n d) : BoundedInv log max (n + 1) (d.enter max n) := by
  have hperm {l : List ℕ} (hl : (d.done ++ (d.writing ++ d.sem.queue) ++ [n]).Perm l) :
      l.Perm (List.range (n + 1)) := by
    rw [List.range_succ]
    exact hl.symm.trans (h.entries.append_right [n])
  rw [Bounded.enter, Semaphore.acquire]
  by_cases hlt : d.sem.current < max
  · rw [if_pos hlt]
    refine ⟨hperm ?_, ?_, fun hq => (h.full hq).trans (Nat.le_succ _), h.successes, h.failures⟩
    · simp only [if_true, List.append_assoc]
      exact (List.perm_append_comm.append_left _).append_left _
    · simp [h.current]
  · rw [if_neg hlt]
    refine ⟨hperm ?_, h.current, fun _ => not_lt.mp hlt, h.successes, h.failures⟩
    simp

lemma start : BoundedInv log max n (Bounded.start max n) := by
  induction n with
  | zero => exact ⟨.refl _, rfl, fun h => absurd rfl h, rfl, rfl⟩
  | succ n ih =>
    rw [Bounded.start, List.range_succ, List.foldl_append]
    exact ih.enter

lemma settle (h : BoundedInv log max n d) {i : ℕ} (hi : i ∈ d.writing) :
    BoundedInv log max n (d.settle i (log i)) := by
  have hpos : 0 < d.writing.length := List.length_pos_of_mem hi
  have hlen : (d.writing.erase i).length = d.writing.length - 1 := List.length_erase_of_mem hi
  have hentries (q : List ℕ) : (d.done ++ [i] ++ (d.writing.erase i ++ q)).Perm
      (d.done ++ (d.writing ++ q)) := by
    rw [List.append_assoc]
    refine List.Perm.append_left _ ?_
    rw [List.singleton_append, ← List.cons_append]
    exact (List.perm_cons_erase hi).symm.append_right q
  have hcount : (if log i then d.successCount + 1 else d.successCount)
      = (d.done ++ [i]).countP log := by
    rw [h.successes]
    cases hl : log i <;> simp [List.countP_append, hl]
  have hcount' : (if log i then d.failureCount else d.failureCount + 1)
      = (d.done ++ [i]).countP (!log ·) := by
    rw [h.failures]
    cases hl : log i <;> simp [List.countP_append, hl]
  rw [Bounded.settle, Semaphore.release]
  cases hq : d.sem.queue with
  | cons next queue =>
    refine ⟨?_, ?_, fun _ => h.full (by simp [hq]), hcount, hcount'⟩
    · refine List.Perm.trans ?_ (hq ▸ h.entries)
      simpa using hentries (next :: queue)
    · simp only [Option.toList_some, List.length_append, List.length_singleton, hlen, h.current]
      omega
  | nil =>
    refine ⟨?_, ?_, fun hne => absurd rfl hne, hcount, hcount'⟩
    · refine List.Perm.trans ?_ (hq ▸ h.entries)
      simpa [hq] using hentries []
    · simp only [Option.toList_none, List.append_nil, hlen, h.current]

lemma step (h : BoundedInv log max n d) (hstep : BoundedStep log d d') :
    BoundedInv log max n d' := by
  cases hstep with
  | answer hi => exact h.settle hi

/-- While an entry is open, some write is under way. -/
lemma exists_step (h : BoundedInv log max n d) (hmax : 1 ≤ max) (hopen : ¬ d.Finished n) :
    ∃ d', BoundedStep log d d' := by
  cases hw : d.writing with
  | cons i w => exact ⟨_, .answer (hw ▸ List.mem_cons_self ..)⟩
  | nil =>
    refine absurd (fun i hi => ?_) hopen
    have hq : d.sem.queue = [] := by
      by_contra hne
      have := h.full hne
      rw [h.current, hw, List.length_nil] at this
      omega
    have := h.entries
    rw [hw, hq, List.append_nil, List.append_nil] at this
    exact this.mem_iff.mpr (List.mem_range.mpr hi)

lemma length_done_le (h : BoundedInv log max n d) : d.done.length ≤ n := by
  have := h.entries.length_eq
  rw [List.length_append, List.length_range] at this
  omega

lemma perm_of_finished (h : BoundedInv log max n d) (hfin : d.Finished n) :
    d.done.Perm (List.range n) := by
  have hle : n ≤ d.done.length := by
    have hsub : List.range n ⊆ d.done := fun i hi => hfin i (List.mem_range.mp hi)
    have := (List.nodup_range.subperm hsub).length_le
    rwa [List.length_range] at this
  have hlen := h.entries.length_eq
  rw [List.length_append, List.length_range] at hlen
  have hnil : d.writing ++ d.sem.queue = [] := List.length_eq_zero_iff.mp (by omega)
  have := h.entries
  rwa [hnil, List.append_nil] at this

/-- In the end the counters account for every entry. -/
lemma counts (h : BoundedInv log max n d) (hfin : d.Finished n) :
    d.successCount + d.failureCount = n ∧ (0 < d.successCount ↔ ∃ i < n, log i = true) := by
  have hperm := h.perm_of_finished hfin
  constructor
  · have hsplit := List.length_eq_countP_add_countP (p := log) (l := d.done)
    rw [hperm.length_eq, List.length_range] at hsplit
    rw [h.successes, h.failures, hsplit]
    simp
  · rw [h.successes, hperm.countP_eq, List.countP_pos_iff]
    simp

end BoundedInv

section

variable {log : ℕ → Bool} {max n : ℕ} {d d' : Bounded}

lemma BoundedStep.lt (h : BoundedInv log max n d) (hstep : BoundedStep log d d') :
    n - d'.done.length < n - d.done.length := by
  have hle := (h.step hstep).length_done_le
  cases hstep with
  | @answer i hi =>
    have hlen : (d.settle i (log i)).done.length = d.done.length + 1 := by
      rw [Bounded.settle, List.length_append, List.length_singleton]
    rw [hlen] at hle ⊢
    omega

lemma BoundedInv.not_step (h : BoundedInv log max n d) (hfin : d.Finished n) :
    ¬ BoundedStep log d d' := by
  intro hstep
  have hlt := hstep.lt h
  rw [(h.perm_of_finished hfin).length_eq, List.length_range, Nat.sub_self] at hlt
  exact absurd hlt (Nat.not_lt_zero _)

/-- However the writes are answered, a driver on its way settles every entry. -/
lemma BoundedInv.finishes (h : BoundedInv log max n d) (hmax : 1 ≤ max) :
    Inevitable (BoundedStep log) (Bounded.Finished n) d :=
  Inevitable.of_measure (fun d => n - d.done.length) (fun _ _ h hstep => h.step hstep)
    (fun _ _ h hstep => hstep.lt h) (fun _ h hopen => h.exists_step hmax hopen) h

lemma bounded_finishes (log : ℕ → Bool) {max : ℕ} (n : ℕ) (hmax : 1 ≤ max) :
    Inevitable (BoundedStep log) (Bounded.Finished n) (Bounded.start max n) :=
  BoundedInv.start.finishes hmax

end

/-! ### Through a batch writer -/

/-- What the storage is going to answer: to the write of each entry and to each batch, in the
order in which they are handed over. -/
structure BatchAnswers where
  log : ℕ → Bool
  flush : ℕ → Bool

/-- The answer to batch number `k` has the success foreseen. -/
def BatchAnswers.Agrees (ans : BatchAnswers) (k : ℕ) (batch : List PendingEntry) :
    Except JsError Answer → Prop
  | .ok (.batch r) => r.success = ans.flush k
  | .ok (.logs rs) => rs.map WriteResult.success = batch.map fun p => ans.log p.promise
  | .error _ => False

/-- After all entries have been written the timer may expire, and the storage answers. -/
inductive BatchStep (cfg : WriterConfig) (ans : BatchAnswers) : WriterState → WriterState → Prop
  | expire {s : WriterState} (h : s.writer.armed = true) :
    BatchStep cfg ans s (s.handOver s.writer.expire)
  | answer {s : WriterState} {l l' : List Flushing} {batch : List PendingEntry} {hooked : Bool}
    (a : Except JsError Answer) (h : s.flushes = l ++ ⟨batch, none, hooked⟩ :: l')
    (ha : Fits cfg batch a) (hans : ans.Agrees l.length batch a) :
    BatchStep cfg ans s (s.settleBatch batch (outcomes batch a)
      (l ++ ⟨batch, some a, callsOnFlush cfg a⟩ :: l'))

lemma BatchStep.writer {cfg : WriterConfig} {ans : BatchAnswers} {s s' : WriterState}
    (h : BatchStep cfg ans s s') : WriterStep cfg s s' := by
  cases h with
  | expire h => exact .expire h
  | answer a h ha _ => exact .answer a h ha

namespace WriterState

/-- All entries are written one after the other, without a pause. -/
def writeAll (cfg : WriterConfig) (logs : List LogEntry) : WriterState :=
  logs.foldl (WriterState.write cfg) .start

/-- `Promise.all` of the writes has resolved. -/
def Finished (s : WriterState) : Prop := ∀ p ∈ s.written, (s.settled p.promise).isSome

def succeeded : Option Outcome → Bool
  | some (.resolved r) => r.success
  | _ => false

def successCount (s : WriterState) : ℕ :=
  s.written.countP fun p => succeeded (s.settled p.promise)

def failureCount (s : WriterState) : ℕ :=
  s.written.countP fun p => !succeeded (s.settled p.promise)

end WriterState

/-- While the entries are written, every batch handed over is a full one. -/
structure FillInv (cfg : WriterConfig) (n : ℕ) (s : WriterState) : Prop where
  writer : WriterInv cfg s
  written : s.written.length = n
  handed : cfg.maxSize * s.flushes.length + s.writer.buffer.length = n
  waiting : ∀ f ∈ s.flushes, f.answer = none

lemma FillInv.write {cfg : WriterConfig} {n : ℕ} {s : WriterState} (h : FillInv cfg n s)
    (e : LogEntry) : FillInv cfg (n + 1) (s.write cfg e) := by
  have hwriter := h.writer.write e
  have hroom := h.writer.room
  have hhanded := h.handed
  rw [WriterState.write, BatchWriter.write] at hwriter ⊢
  by_cases hfull : cfg.maxSize ≤ (s.writer.buffer ++ [PendingEntry.mk e s.written.length]).length
  · rw [if_pos hfull] at hwriter ⊢
    rw [List.length_append, List.length_singleton] at hfull
    rw [BatchWriter.flush] at hwriter ⊢
    cases hb : s.writer.buffer ++ [PendingEntry.mk e s.written.length] with
    | nil => simp at hb
    | cons q b =>
      rw [hb] at hwriter
      refine ⟨hwriter, ?_, ?_, fun f hf => ?_⟩
      · simp [WriterState.handOver, h.written]
      · simp only [WriterState.handOver, List.length_append, List.length_singleton,
          BatchWriter.empty, List.length_nil, mul_add]
        omega
      · rcases List.mem_append.mp hf with hf | hf
        · exact h.waiting f hf
        · rw [List.mem_singleton.mp hf]
  · rw [if_neg hfull] at hwriter ⊢
    refine ⟨hwriter, ?_, ?_, h.waiting⟩
    · simp [WriterState.handOver, h.written]
    · simp only [WriterState.handOver, BatchWriter.scheduleFlush, List.length_append,
        List.length_singleton]
      omega

lemma fillInv_writeAll {cfg : WriterConfig} (hmax : 1 ≤ cfg.maxSize) (logs : List LogEntry) :
    FillInv cfg logs.length (WriterState.writeAll cfg logs) := by
  induction logs using List.reverseRecOn with
  | nil => exact ⟨WriterInv.start hmax, rfl, by simp [WriterState.writeAll, WriterState.start,
      BatchWriter.empty], fun f hf => absurd hf List.not_mem_nil⟩
  | append_singleton logs e ih =>
    rw [WriterState.writeAll, List.foldl_append, List.length_append, List.length_singleton]
    exact ih.write e

/-- Where the batches of `n` entries begin, and what they have been answered. -/
structure BatchInv (cfg : WriterConfig) (ans : BatchAnswers) (n : ℕ) (s : WriterState) :
    Prop where
  writer : WriterInv cfg s
  written : s.written.length = n
  handed : n ≤ cfg.maxSize * s.flushes.length + s.writer.buffer.length
  started : ∀ k < s.flushes.length, cfg.maxSize * k < n
  buffered : s.writer.buffer ≠ [] → cfg.maxSize * s.flushes.length < n
  answers : ∀ k f, s.flushes[k]? = some f → ∀ a ∈ f.answer, ans.Agrees k f.batch a

namespace BatchInv

variable {cfg : WriterConfig} {ans : BatchAnswers} {n : ℕ} {s s' : WriterState}

lemma start (hmax : 1 ≤ cfg.maxSize) (logs : List LogEntry) :
    BatchInv cfg ans logs.length (WriterState.writeAll cfg logs) := by
  have h := fillInv_writeAll hmax logs
  have hhanded := h.handed
  refine ⟨h.writer, h.written, hhanded.ge, fun k hk => ?_, fun hb => ?_, fun k f hf a ha => ?_⟩
  · have : cfg.maxSize * k < cfg.maxSize * (WriterState.writeAll cfg logs).flushes.length :=
      Nat.mul_lt_mul_of_pos_left hk hmax
    omega
  · have := List.length_pos_iff.mpr hb
    omega
  · rw [h.waiting f (List.mem_of_getElem? hf)] at ha
    cases ha

lemma expire (h : BatchInv cfg ans n s) (harmed : s.writer.armed = true) :
    BatchInv cfg ans n (s.handOver s.writer.expire) := by
  have hwriter := h.writer.step (.expire harmed)
  have hbuffer := h.writer.timer.mp harmed
  have hroom := h.writer.room
  have hhanded := h.handed
  rw [BatchWriter.expire, BatchWriter.flush] at hwriter ⊢
  simp only at hwriter ⊢
  cases hb : s.writer.buffer with
  | nil => exact absurd hb hbuffer
  | cons q b =>
    rw [hb] at hwriter
    refine ⟨hwriter, h.written, ?_, fun k hk => ?_, fun hne => absurd rfl hne, fun k f hf => ?_⟩
    · simp only [WriterState.handOver, List.length_append, List.length_singleton, mul_add]
      omega
    · rw [WriterState.handOver, List.length_append, List.length_singleton] at hk
      rcases Nat.lt_succ_iff_lt_or_eq.mp hk with hk | rfl
      · exact h.started k hk
      · exact h.buffered hbuffer
    · rw [WriterState.handOver, List.getElem?_append] at hf
      split at hf
      · exact h.answers k f hf
      · rw [List.getElem?_singleton] at hf
        split at hf
        · rw [← Option.some.inj hf]
          exact fun a ha => absurd ha (Option.not_mem_none a)
        · cases hf

lemma answer (h : BatchInv cfg ans n s) {l l' : List Flushing} {batch : List PendingEntry}
    {hooked : Bool} {a : Except JsError Answer} (hs : s.flushes = l ++ ⟨batch, none, hooked⟩ :: l')
    (ha : Fits cfg batch a) (hans : ans.Agrees l.length batch a) :
    BatchInv cfg ans n (s.settleBatch batch (outcomes batch a)
      (l ++ ⟨batch, some a, callsOnFlush cfg a⟩ :: l')) := by
  have hlen : (l ++ ⟨batch, some a, callsOnFlush cfg a⟩ :: l').length = s.flushes.length := by
    rw [hs, List.length_append, List.length_append, List.length_cons, List.length_cons]
  refine ⟨h.writer.step (.answer a hs ha), h.written, hlen ▸ h.handed, hlen ▸ h.started,
    hlen ▸ h.buffered, fun k f hf => ?_⟩
  have hold := h.answers k
  rw [hs] at hold
  rw [WriterState.settleBatch] at hf
  rcases lt_trichotomy k l.length with hk | rfl | hk
  · rw [List.getElem?_append_left hk] at hf hold
    exact hold f hf
  · rw [List.getElem?_append_right le_rfl, Nat.sub_self, List.getElem?_cons_zero,
      Option.some_inj] at hf
    rw [← hf]
    exact fun a' ha' => Option.some.inj ha' ▸ hans
  · obtain ⟨j, rfl⟩ := Nat.exists_eq_add_of_lt hk
    rw [List.getElem?_append_right (by omega), show l.length + j + 1 - l.length = j + 1 by omega,
      List.getElem?_cons_succ] at hf hold
    exact hold f hf

lemma step (h : BatchInv cfg ans n s) (hstep : BatchStep cfg ans s s') :
    BatchInv cfg ans n s' := by
  cases hstep with
  | expire harmed => exact h.expire harmed
  | answer a hs ha hans => exact h.answer hs ha hans

lemma exists_answer (cfg : WriterConfig) (ans : BatchAnswers) (k : ℕ) (batch : List PendingEntry) :
    ∃ a, Fits cfg batch a ∧ ans.Agrees k batch a := by
  cases hb : cfg.hasWriteBatch with
  | true => exact ⟨.ok (.batch ⟨[], [], [], 0, ans.flush k, none, none, none⟩), hb, rfl⟩
  | false =>
    refine ⟨.ok (.logs (batch.map fun p => ⟨p.entry.id, ans.log p.promise, none, none, none⟩)),
      ⟨hb, List.length_map ..⟩, ?_⟩
    show List.map _ (List.map _ _) = _
    rw [List.map_map]
    rfl

/-- While a promise is open, the timer runs or the storage owes an answer. -/
lemma exists_step (h : BatchInv cfg ans n s) (hopen : ¬ s.Finished) :
    ∃ s', BatchStep cfg ans s s' := by
  obtain ⟨p, hp, hnone⟩ : ∃ p ∈ s.written, ¬ (s.settled p.promise).isSome := by
    by_contra hall
    push Not at hall
    exact hopen hall
  have htracked := h.writer.tracked
  rw [← htracked.split] at hp
  rcases List.mem_append.mp hp with hp | hp
  · obtain ⟨_, hb, hpb⟩ := List.mem_flatten.mp hp
    obtain ⟨f, hf, rfl⟩ := List.mem_map.mp hb
    have hanswer : f.answer = none := by
      rw [htracked.settled_iff hf hpb] at hnone
      simpa using hnone
    obtain ⟨l, l', hs⟩ := List.append_of_mem hf
    obtain ⟨batch, answer, hooked⟩ := f
    simp only at hanswer
    subst hanswer
    obtain ⟨a, ha, hans⟩ := exists_answer cfg ans l.length batch
    exact ⟨_, .answer a hs ha hans⟩
  · exact ⟨_, .expire (h.writer.timer.mpr (List.ne_nil_of_mem hp))⟩

/-- The timer and the open answers. -/
def rest (s : WriterState) : ℕ :=
  (if s.writer.armed then 2 else 0) + s.flushes.countP fun f => f.answer.isNone

lemma rest_lt (hstep : BatchStep cfg ans s s') : rest s' < rest s := by
  cases hstep with
  | expire harmed =>
    rw [BatchWriter.expire, BatchWriter.flush, rest, rest, if_pos harmed]
    simp only
    cases s.writer.buffer with
    | nil =>
      simp [WriterState.handOver, BatchWriter.empty]
    | cons p b =>
      simp only [WriterState.handOver, BatchWriter.empty, List.countP_append, List.countP_singleton]
      simp
      omega
  | answer a hs _ _ =>
    rw [rest, rest, hs]
    refine Nat.add_lt_add_left ?_ _
    simp [WriterState.settleBatch, List.countP_append]

/-- An entry succeeds as its batch was foreseen to, or as itself. -/
lemma succeeded_eq (h : BatchInv cfg ans n s) {k : ℕ} {f : Flushing}
    (hf : s.flushes[k]? = some f) {p : PendingEntry} (hp : p ∈ f.batch)
    (hset : (s.settled p.promise).isSome) :
    WriterState.succeeded (s.settled p.promise)
      = if cfg.hasWriteBatch then ans.flush k else ans.log p.promise := by
  have hmem := List.mem_of_getElem? hf
  obtain ⟨a, ha⟩ := Option.isSome_iff_exists.mp ((h.writer.tracked.settled_iff hmem hp).mp hset)
  have hfits := h.writer.tracked.fits f hmem a ha
  have hans := h.answers k f hf a ha
  have hstanding := congrArg (List.map WriterState.succeeded) (h.writer.tracked.standing f hmem)
  rw [Flushing.expected, ha] at hstanding
  cases a with
  | error err => exact absurd hans id
  | ok answer =>
    cases answer with
    | batch r =>
      rw [if_pos (show cfg.hasWriteBatch = true from hfits), ← show r.success = ans.flush k from hans]
      simp only [outcomes, List.map_map] at hstanding
      exact List.map_inj_left.mp hstanding p hp
    | logs rs =>
      rw [if_neg (by rw [hfits.1]; exact Bool.false_ne_true)]
      simp only [outcomes, List.map_map] at hstanding
      have hlogs : rs.map WriteResult.success = f.batch.map fun p => ans.log p.promise := hans
      exact List.map_inj_left.mp (hstanding.trans hlogs) p hp

lemma buffer_eq_nil (h : BatchInv cfg ans n s) (hfin : s.Finished) : s.writer.buffer = [] := by
  by_contra hne
  obtain ⟨p, hp⟩ := List.exists_mem_of_ne_nil _ hne
  have hw : p ∈ s.written := by
    rw [← h.writer.tracked.split]
    exact List.mem_append_right _ hp
  have := hfin p hw
  rw [h.writer.tracked.waiting p hp] at this
  cases this

/-- The entry written is in one of the batches. -/
lemma exists_batch (h : BatchInv cfg ans n s) (hfin : s.Finished) {p : PendingEntry}
    (hp : p ∈ s.written) : ∃ (k : ℕ) (f : Flushing), s.flushes[k]? = some f ∧ p ∈ f.batch := by
  rw [← h.writer.tracked.split, h.buffer_eq_nil hfin, List.append_nil] at hp
  obtain ⟨_, hb, hpb⟩ := List.mem_flatten.mp hp
  obtain ⟨f, hf, rfl⟩ := List.mem_map.mp hb
  obtain ⟨k, hk⟩ := List.mem_iff_getElem?.mp hf
  exact ⟨k, f, hk, hpb⟩

lemma mem_written (h : BatchInv cfg ans n s) {f : Flushing} (hf : f ∈ s.flushes)
    {p : PendingEntry} (hp : p ∈ f.batch) : p ∈ s.written := by
  rw [← h.writer.tracked.split]
  exact List.mem_append_left _ (List.mem_flatten.mpr ⟨_, List.mem_map_of_mem hf, hp⟩)

end BatchInv

/-- In the end neither the timer nor the storage has anything left to do. -/
lemma BatchInv.not_step {cfg : WriterConfig} {ans : BatchAnswers} {n : ℕ} {s s' : WriterState}
    (h : BatchInv cfg ans n s) (hfin : s.Finished) : ¬ BatchStep cfg ans s s' := by
  intro hstep
  cases hstep with
  | expire harmed => exact h.writer.timer.mp harmed (h.buffer_eq_nil hfin)
  | answer a hs _ _ =>
    have hmem : (⟨_, none, _⟩ : Flushing) ∈ s.flushes := hs ▸ List.mem_append_right _
      (List.mem_cons_self ..)
    obtain ⟨p, hp⟩ := List.exists_mem_of_length_pos (h.writer.tracked.sizes _ hmem).1
    have := (h.writer.tracked.settled_iff hmem hp).mp (hfin p (h.mem_written hmem hp))
    cases this

/-- Some write of the batch driver is a success. -/
def BatchAnswers.SomeSuccess (ans : BatchAnswers) (cfg : WriterConfig) (n : ℕ) : Prop :=
  if cfg.hasWriteBatch then ∃ k, cfg.maxSize * k < n ∧ ans.flush k else ∃ i < n, ans.log i

namespace BatchInv

variable {cfg : WriterConfig} {ans : BatchAnswers} {n : ℕ} {s s' : WriterState}

/-- In the end the counters account for every entry. -/
lemma counts (h : BatchInv cfg ans n s) (hfin : s.Finished) :
    s.successCount + s.failureCount = n ∧ (0 < s.successCount ↔ ans.SomeSuccess cfg n) := by
  constructor
  · have hsplit := List.length_eq_countP_add_countP (p := fun p : PendingEntry =>
      WriterState.succeeded (s.settled p.promise)) (l := s.written)
    rw [h.written] at hsplit
    rw [WriterState.successCount, WriterState.failureCount, hsplit]
    simp
  rw [WriterState.successCount, List.countP_pos_iff, BatchAnswers.SomeSuccess]
  constructor
  · rintro ⟨p, hp, hsuc⟩
    obtain ⟨k, f, hk, hpf⟩ := h.exists_batch hfin hp
    rw [h.succeeded_eq hk hpf (hfin p hp)] at hsuc
    by_cases hb : cfg.hasWriteBatch = true
    · rw [if_pos hb] at hsuc ⊢
      obtain ⟨hlt, -⟩ := List.getElem?_eq_some_iff.mp hk
      exact ⟨k, h.started k hlt, hsuc⟩
    · rw [if_neg hb] at hsuc ⊢
      refine ⟨p.promise, ?_, hsuc⟩
      rw [← h.written]
      exact h.writer.tracked.promise_lt hp
  · intro hsome
    by_cases hb : cfg.hasWriteBatch = true
    · rw [if_pos hb] at hsome
      obtain ⟨k, hk, hsuc⟩ := hsome
      have hlt : k < s.flushes.length := by
        have hhanded := h.handed
        rw [h.buffer_eq_nil hfin, List.length_nil, Nat.add_zero] at hhanded
        exact Nat.lt_of_mul_lt_mul_left (hk.trans_le hhanded)
      have hf := List.getElem?_eq_getElem hlt
      have hmem := List.mem_of_getElem? hf
      obtain ⟨p, hp⟩ := List.exists_mem_of_length_pos (h.writer.tracked.sizes _ hmem).1
      refine ⟨p, h.mem_written hmem hp, ?_⟩
      rw [h.succeeded_eq hf hp (hfin p (h.mem_written hmem hp)), if_pos hb]
      exact hsuc
    · rw [if_neg hb] at hsome
      obtain ⟨i, hi, hsuc⟩ := hsome
      have hmem : i ∈ s.written.map PendingEntry.promise := by
        rw [h.writer.tracked.promises, h.written]
        exact List.mem_range.mpr hi
      obtain ⟨p, hp, rfl⟩ := List.mem_map.mp hmem
      obtain ⟨k, f, hk, hpf⟩ := h.exists_batch hfin hp
      refine ⟨p, hp, ?_⟩
      rw [h.succeeded_eq hk hpf (hfin p hp), if_neg hb]
      exact hsuc

end BatchInv

/-- However the storage answers, every promise of the batch driver is settled. -/
lemma batch_finishes (cfg : WriterConfig) (ans : BatchAnswers) (hmax : 1 ≤ cfg.maxSize)
    (logs : List LogEntry) :
    Inevitable (BatchStep cfg ans) WriterState.Finished (WriterState.writeAll cfg logs) :=
  Inevitable.of_measure BatchInv.rest (fun _ _ h hstep => h.step hstep)
    (fun _ _ _ hstep => BatchInv.rest_lt hstep) (fun _ h hopen => h.exists_step hopen)
    (BatchInv.start hmax logs)

/-! ### Through a queue -/

/-- The success of the replies collected, and of those that are still to come before the
timeout. -/
structure Drain where
  collected : List Bool
  coming : List Bool

namespace Drain

def successCount (d : Drain) : ℕ := d.collected.countP id

/-- Entries without a reply count as failures. -/
def failureCount (n : ℕ) (d : Drain) : ℤ :=
  d.collected.countP (!·) + ((n : ℤ) - d.collected.length)

/-- The replies are complete, or the time is over. -/
def Drained (n : ℕ) (d : Drain) : Prop := n ≤ d.collected.length ∨ d.coming = []

lemma counts (n : ℕ) (d : Drain) : (d.successCount : ℤ) + d.failureCount n = n := by
  have hsplit := List.length_eq_countP_add_countP (p := id) (l := d.collected)
  have hnot : (d.collected.countP fun b => decide ¬ id b = true) = d.collected.countP (!·) :=
    List.countP_congr fun b _ => by simp
  rw [successCount, failureCount]
  omega

end Drain

end HybridLog
