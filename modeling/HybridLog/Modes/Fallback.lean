import HybridLog.Modes.BatchWriter

/-!
# The fallback of the batch writer

Where the storage has no `writeBatch`, a flush calls `writeLog` for each entry and waits for all
calls together: the first call that rejects decides what all callers of the batch are told. The
calls end in any order, also those of different flushes.
-/

namespace HybridLog

/-! ### Operations -/

/-- How calls of `writeLog` have ended, by the promise of the entry. -/
abbrev Calls := ℕ → Option (Except JsError WriteResult)

/-- The results of the calls for some entries, if all have resolved. -/
def resolvedAll (done : Calls) : List PendingEntry → Option (List WriteResult)
  | [] => some []
  | p :: ps => match done p.promise with
    | some (.ok r) => (resolvedAll done ps).map (r :: ·)
    | _ => none

/-- What `Promise.all` makes of a call for the batch that has just ended with `r`. -/
def joined (done : Calls) (batch : List PendingEntry) :
    Except JsError WriteResult → Option (Except JsError Answer)
  | .error err => some (.error err)
  | .ok _ => (resolvedAll done batch).map fun rs => .ok (.logs rs)

structure FallbackState where
  writer : WriterState
  done : Calls

namespace FallbackState

def start : FallbackState := ⟨.start, fun _ => none⟩

/-- The call for the entry `p` of the flush `f` ends with `r`. What is joined already stays so. -/
def complete (s : FallbackState) (l l' : List Flushing) (f : Flushing) (p : PendingEntry)
    (r : Except JsError WriteResult) : FallbackState :=
  let done := Function.update s.done p.promise (some r)
  match f.answer, joined done f.batch r with
  | none, some a =>
    ⟨s.writer.settleBatch f.batch (outcomes f.batch a) (l ++ ⟨f.batch, some a, false⟩ :: l'), done⟩
  | _, _ => ⟨s.writer, done⟩

end FallbackState

/-- A writer for batches of `maxSize` over a storage without `writeBatch`. -/
def fallbackWriter (maxSize : ℕ) : WriterConfig := ⟨maxSize, false, false⟩

inductive FallbackStep (maxSize : ℕ) : FallbackState → FallbackState → Prop
  | write {s : FallbackState} (e : LogEntry) :
    FallbackStep maxSize s ⟨s.writer.write (fallbackWriter maxSize) e, s.done⟩
  | expire {s : FallbackState} (h : s.writer.writer.armed = true) :
    FallbackStep maxSize s ⟨s.writer.handOver s.writer.writer.expire, s.done⟩
  | flush {s : FallbackState} :
    FallbackStep maxSize s ⟨s.writer.handOver s.writer.writer.flush, s.done⟩
  | complete {s : FallbackState} {l l' : List Flushing} {f : Flushing} {p : PendingEntry}
    (r : Except JsError WriteResult) (h : s.writer.flushes = l ++ f :: l') (hp : p ∈ f.batch)
    (hopen : s.done p.promise = none) : FallbackStep maxSize s (s.complete l l' f p r)

abbrev FallbackRun (maxSize : ℕ) : FallbackState → FallbackState → Prop :=
  Relation.ReflTransGen (FallbackStep maxSize)

/-! ### Joins -/

variable {done : Calls} {ps batch : List PendingEntry} {rs : List WriteResult}

lemma resolvedAll_eq_some (h : resolvedAll done ps = some rs) :
    ps.map (fun p => done p.promise) = rs.map fun r => some (.ok r) := by
  induction ps generalizing rs with
  | nil =>
    cases h
    rfl
  | cons p ps ih =>
    rw [resolvedAll] at h
    split at h
    · next r hr =>
      obtain ⟨rest, hrest, rfl⟩ := Option.map_eq_some_iff.mp h
      rw [List.map_cons, List.map_cons, hr, ih hrest]
    · cases h

lemma resolvedAll_eq_none (h : resolvedAll done ps = none) :
    ∃ p ∈ ps, ∀ r, done p.promise ≠ some (.ok r) := by
  induction ps with
  | nil => cases h
  | cons p ps ih =>
    rw [resolvedAll] at h
    split at h
    · obtain ⟨q, hq, hne⟩ := ih (Option.map_eq_none_iff.mp h)
      exact ⟨q, List.mem_cons_of_mem _ hq, hne⟩
    · next hne => exact ⟨p, List.mem_cons_self .., hne⟩

/-- How the calls of a flush have ended, as far as its answer tells. -/
def Joined (done : Calls) (batch : List PendingEntry) : Option (Except JsError Answer) → Prop
  | none => (∀ p ∈ batch, ∀ err, done p.promise ≠ some (.error err)) ∧
    ∃ p ∈ batch, done p.promise = none
  | some (.ok (.logs rs)) => batch.map (fun p => done p.promise) = rs.map fun r => some (.ok r)
  | some (.ok (.batch _)) => False
  | some (.error err) => ∃ p ∈ batch, done p.promise = some (.error err)

/-- Calls for other batches do not matter. -/
lemma Joined.of_notMem {answer : Option (Except JsError Answer)} (h : Joined done batch answer)
    {n : ℕ} (hn : n ∉ batch.map PendingEntry.promise) (r : Except JsError WriteResult) :
    Joined (Function.update done n (some r)) batch answer := by
  have hsame : ∀ p ∈ batch, Function.update done n (some r) p.promise = done p.promise := by
    intro p hp
    apply Function.update_of_ne
    rintro rfl
    exact hn (List.mem_map_of_mem hp)
  match answer, h with
  | none, ⟨herr, p, hp, hnone⟩ =>
    refine ⟨fun q hq err => ?_, p, hp, (hsame p hp).trans hnone⟩
    rw [hsame q hq]
    exact herr q hq err
  | some (.ok (.logs rs)), h => exact (List.map_congr_left hsame).trans h
  | some (.error err), ⟨p, hp, herr⟩ => exact ⟨p, hp, (hsame p hp).trans herr⟩

/-- A call ends after the batch has been answered for. -/
lemma Joined.late {a : Except JsError Answer} (h : Joined done batch (some a)) {p : PendingEntry}
    (hp : p ∈ batch) (hopen : done p.promise = none) (r : Except JsError WriteResult) :
    Joined (Function.update done p.promise (some r)) batch (some a) := by
  match a, h with
  | .ok (.logs rs), h =>
    have hmem : done p.promise ∈ rs.map fun r => some (Except.ok r) :=
      h ▸ List.mem_map_of_mem (f := fun p => done p.promise) hp
    obtain ⟨r', -, hr'⟩ := List.mem_map.mp hmem
    rw [hopen] at hr'
    cases hr'
  | .error err, ⟨q, hq, herr⟩ =>
    refine ⟨q, hq, ?_⟩
    rw [Function.update_of_ne, herr]
    intro heq
    rw [heq, hopen] at herr
    cases herr

/-- A call ends and decides the answer, or leaves it open. -/
lemma Joined.complete (h : Joined done batch none) {p : PendingEntry} (hp : p ∈ batch)
    (r : Except JsError WriteResult) :
    Joined (Function.update done p.promise (some r)) batch
      (joined (Function.update done p.promise (some r)) batch r) := by
  cases r with
  | error err => exact ⟨p, hp, Function.update_self ..⟩
  | ok r =>
    rw [joined]
    cases hall : resolvedAll (Function.update done p.promise (some (.ok r))) batch with
    | some rs => exact resolvedAll_eq_some hall
    | none =>
      have hnoerr : ∀ q ∈ batch, ∀ err,
          Function.update done p.promise (some (.ok r)) q.promise ≠ some (.error err) := by
        intro q hq err
        by_cases heq : q.promise = p.promise
        · rw [heq, Function.update_self]
          exact fun h => by cases h
        · rw [Function.update_of_ne heq]
          exact h.1 q hq err
      refine ⟨hnoerr, ?_⟩
      obtain ⟨q, hq, hne⟩ := resolvedAll_eq_none hall
      refine ⟨q, hq, ?_⟩
      match hr : Function.update done p.promise (some (.ok r)) q.promise with
      | none => rfl
      | some (.ok r') => exact absurd hr (hne r')
      | some (.error err) => exact absurd hr (hnoerr q hq err)

lemma fits_joined {m : ℕ} {r : Except JsError WriteResult} {a : Except JsError Answer}
    (h : joined done batch r = some a) : Fits (fallbackWriter m) batch a := by
  cases r with
  | error err =>
    cases h
    exact trivial
  | ok r =>
    obtain ⟨rs, hrs, rfl⟩ := Option.map_eq_some_iff.mp h
    have hlen := congrArg List.length (resolvedAll_eq_some hrs)
    simp only [List.length_map] at hlen
    exact ⟨rfl, hlen.symm⟩

/-! ### The invariant -/

/-- The writer does what it does, and what it tells its callers is what its calls have been joined
to. -/
structure FallbackInv (m : ℕ) (s : FallbackState) : Prop where
  writer : WriterInv (fallbackWriter m) s.writer
  unstarted : ∀ n, (∀ f ∈ s.writer.flushes, n ∉ f.batch.map PendingEntry.promise) → s.done n = none
  joins : ∀ f ∈ s.writer.flushes, Joined s.done f.batch f.answer

/-- The entries in the buffer are in no batch. -/
lemma Tracked.notMem_of_buffer {cfg : WriterConfig} {s : WriterState} {buffer : List PendingEntry}
    (h : Tracked cfg s buffer) {p : PendingEntry} (hp : p ∈ buffer) :
    ∀ f ∈ s.flushes, p.promise ∉ f.batch.map PendingEntry.promise := by
  intro f hf hmem
  have hnodup := h.nodup
  rw [← h.split, List.map_append] at hnodup
  refine List.disjoint_of_nodup_append hnodup ?_ (List.mem_map_of_mem hp)
  obtain ⟨q, hq, heq⟩ := List.mem_map.mp hmem
  rw [← heq]
  exact List.mem_map_of_mem (List.mem_flatten_of_mem (List.mem_map_of_mem hf) hq)

/-- A batch from the front of the buffer is handed over, and its calls begin. -/
lemma FallbackInv.handOver {m : ℕ} {s : WriterState} {w : BatchWriter} {batch : List PendingEntry}
    (hinv : WriterInv (fallbackWriter m) (s.handOver (w, batch)))
    (htracked : Tracked (fallbackWriter m) s (batch ++ w.buffer))
    (hunstarted : ∀ n, (∀ f ∈ s.flushes, n ∉ f.batch.map PendingEntry.promise) → done n = none)
    (hjoins : ∀ f ∈ s.flushes, Joined done f.batch f.answer) :
    FallbackInv m ⟨s.handOver (w, batch), done⟩ := by
  cases batch with
  | nil => exact ⟨hinv, hunstarted, hjoins⟩
  | cons p ps =>
    have hnew : ∀ q ∈ p :: ps, done q.promise = none := fun q hq =>
      hunstarted _ (htracked.notMem_of_buffer (List.mem_append_left _ hq))
    refine ⟨hinv, fun n hn => hunstarted n fun f hf => hn f (List.mem_append_left _ hf), ?_⟩
    intro f hf
    rcases List.mem_append.mp hf with hf | hf
    · exact hjoins f hf
    · rw [List.mem_singleton.mp hf]
      refine ⟨fun q hq err h => ?_, p, List.mem_cons_self .., hnew p (List.mem_cons_self ..)⟩
      cases (hnew q hq).symm.trans h

section Steps

variable {m : ℕ} {s s' : FallbackState}

lemma FallbackInv.start (h : 1 ≤ m) : FallbackInv m .start where
  writer := .start h
  unstarted _ _ := rfl
  joins _ hf := by cases hf

/-- The writer takes at most one step of its own. -/
lemma FallbackState.writer_complete {l l' : List Flushing} {f : Flushing} {p : PendingEntry}
    {r : Except JsError WriteResult} (h : s.writer.flushes = l ++ f :: l') :
    WriterRun (fallbackWriter m) s.writer (s.complete l l' f p r).writer := by
  unfold complete
  obtain ⟨batch, answer, hooked⟩ := f
  cases answer with
  | some a => exact .refl
  | none =>
    dsimp only
    split
    · next a hnone ha =>
      have hstep := WriterStep.answer a h (fits_joined (m := m) ha)
      have hhook : callsOnFlush (fallbackWriter m) a = false := by
        cases r with
        | error err =>
          cases ha
          rfl
        | ok r =>
          obtain ⟨rs, hrs, rfl⟩ := Option.map_eq_some_iff.mp ha
          rfl
      rw [hhook] at hstep
      exact .single hstep
    · exact .refl

/-- How a call that ends leaves the flush it belongs to. -/
lemma FallbackState.complete_spec {l l' : List Flushing} {f : Flushing} {p : PendingEntry}
    (r : Except JsError WriteResult) (hs : s.writer.flushes = l ++ f :: l') (hp : p ∈ f.batch)
    (hopen : s.done p.promise = none) (hjoin : Joined s.done f.batch f.answer) :
    (s.complete l l' f p r).done = Function.update s.done p.promise (some r) ∧
      ∃ answer hooked,
        (s.complete l l' f p r).writer.flushes = l ++ ⟨f.batch, answer, hooked⟩ :: l' ∧
        Joined (Function.update s.done p.promise (some r)) f.batch answer := by
  obtain ⟨batch, answer, hooked⟩ := f
  unfold complete
  cases answer with
  | some a => exact ⟨rfl, some a, hooked, hs, hjoin.late hp hopen r⟩
  | none =>
    have hnext := hjoin.complete hp r
    dsimp only
    cases ha : joined (Function.update s.done p.promise (some r)) batch r with
    | none =>
      rw [ha] at hnext
      exact ⟨rfl, none, hooked, hs, hnext⟩
    | some a =>
      rw [ha] at hnext
      exact ⟨rfl, some a, false, rfl, hnext⟩

lemma FallbackInv.complete (h : FallbackInv m s) {l l' : List Flushing} {f : Flushing}
    {p : PendingEntry} (r : Except JsError WriteResult) (hs : s.writer.flushes = l ++ f :: l')
    (hp : p ∈ f.batch) (hopen : s.done p.promise = none) :
    FallbackInv m (s.complete l l' f p r) := by
  have hmem : p.promise ∈ f.batch.map PendingEntry.promise := List.mem_map_of_mem hp
  have hf : f ∈ s.writer.flushes := by simp [hs]
  obtain ⟨hdone, answer, hooked, hflushes, hjoin⟩ :=
    FallbackState.complete_spec r hs hp hopen (h.joins f hf)
  have hothers : ∀ g ∈ l ++ l', p.promise ∉ g.batch.map PendingEntry.promise := by
    have hnodup : (((l.map Flushing.batch ++ f.batch :: l'.map Flushing.batch).flatten ++
        s.writer.writer.buffer).map PendingEntry.promise).Nodup := by
      have hwritten := h.writer.tracked.nodup
      rw [← h.writer.tracked.split, hs] at hwritten
      simpa using hwritten
    obtain ⟨-, hothers, -⟩ := promises_disjoint hnodup
    intro g hg hpg
    obtain ⟨q, hq, heq⟩ := List.mem_map.mp hpg
    refine hothers g.batch ?_ q hq (heq ▸ hmem)
    rw [← List.map_append]
    exact List.mem_map_of_mem hg
  refine ⟨h.writer.run (FallbackState.writer_complete hs), ?_, ?_⟩
  · rw [hdone, hflushes]
    intro n hn
    have hne : n ≠ p.promise := by
      rintro rfl
      exact hn ⟨f.batch, answer, hooked⟩ (by simp) hmem
    rw [Function.update_of_ne hne]
    apply h.unstarted
    rw [hs]
    intro g hg
    simp only [List.mem_append, List.mem_cons] at hg
    rcases hg with hg | rfl | hg
    · exact hn g (by simp [hg])
    · exact hn ⟨g.batch, answer, hooked⟩ (by simp)
    · exact hn g (by simp [hg])
  · rw [hdone, hflushes]
    have hold : ∀ g ∈ l ++ l', Joined (Function.update s.done p.promise (some r)) g.batch
        g.answer := by
      intro g hg
      refine (h.joins g ?_).of_notMem (hothers g hg) r
      rw [hs]
      rcases List.mem_append.mp hg with hg | hg
      · exact List.mem_append_left _ hg
      · exact List.mem_append_right _ (List.mem_cons_of_mem _ hg)
    intro g hg
    simp only [List.mem_append, List.mem_cons] at hg
    rcases hg with hg | rfl | hg
    · exact hold g (List.mem_append_left _ hg)
    · exact hjoin
    · exact hold g (List.mem_append_right _ hg)

/-- Every step keeps the invariant. -/
lemma FallbackInv.step (h : FallbackInv m s) (hstep : FallbackStep m s s') :
    FallbackInv m s' := by
  cases hstep with
  | write e =>
    have hinv := h.writer.step (.write e)
    have htracked := h.writer.tracked.push e
    rw [WriterState.write, BatchWriter.write] at hinv ⊢
    split at hinv
    · next hfull =>
      rw [if_pos hfull]
      refine FallbackInv.handOver hinv ?_ h.unstarted h.joins
      rwa [BatchWriter.empty, List.append_nil]
    · next hroom =>
      rw [if_neg hroom]
      exact FallbackInv.handOver hinv htracked h.unstarted h.joins
  | expire harmed =>
    refine FallbackInv.handOver (h.writer.step (.expire harmed)) ?_ h.unstarted h.joins
    rw [BatchWriter.empty, List.append_nil]
    exact h.writer.tracked
  | flush =>
    refine FallbackInv.handOver (h.writer.step .flush) ?_ h.unstarted h.joins
    rw [BatchWriter.empty, List.append_nil]
    exact h.writer.tracked
  | complete r hs hp hopen => exact h.complete r hs hp hopen

lemma FallbackInv.run (h : FallbackInv m s) (hrun : FallbackRun m s s') : FallbackInv m s' := by
  induction hrun with
  | refl => exact h
  | tail _ hstep ih => exact ih.step hstep

/-! ### Outcomes -/

/-- How a promise is settled that is settled with how its call has ended. -/
def ownOutcome : Except JsError WriteResult → Outcome
  | .ok r => .resolved r
  | .error err => .rejected err

/-- Every caller of the batch is told how the call for its entry has ended. -/
def KeptApart (s : FallbackState) (batch : List PendingEntry) : Prop :=
  ∀ p ∈ batch, s.writer.settled p.promise = (s.done p.promise).map ownOutcome

/-- All calls for the batch resolve, or all reject with the same error. -/
def EndAlike (s : FallbackState) (batch : List PendingEntry) : Prop :=
  (∀ p ∈ batch, ∃ r, s.done p.promise = some (.ok r)) ∨
    ∃ err, ∀ p ∈ batch, s.done p.promise = some (.error err)

lemma FallbackInv.keptApart_iff (h : FallbackInv m s) {f : Flushing}
    (hf : f ∈ s.writer.flushes) (hended : ∀ p ∈ f.batch, (s.done p.promise).isSome) :
    KeptApart s f.batch ↔ EndAlike s f.batch := by
  have hjoin := h.joins f hf
  have hstanding := h.writer.tracked.standing f hf
  obtain ⟨batch, answer, hooked⟩ := f
  dsimp only at hended hjoin hstanding ⊢
  match answer, hjoin, hstanding with
  | none, ⟨_, p, hp, hnone⟩, _ =>
    have hsome := hended p hp
    rw [hnone] at hsome
    cases hsome
  | some (.ok (.logs rs)), hlogs, hstanding =>
    have hsettled : batch.map (fun p => s.writer.settled p.promise) =
        batch.map fun p => (s.done p.promise).map ownOutcome := by
      have hmapped : batch.map (fun p => s.writer.settled p.promise) =
          (rs.map Outcome.resolved).map some := hstanding
      rw [hmapped, List.map_map]
      have hmap := congrArg (List.map (Option.map ownOutcome)) hlogs
      rw [List.map_map, List.map_map] at hmap
      exact hmap.symm
    refine iff_of_true (fun p hp => List.map_inj_left.mp hsettled p hp) (.inl fun p hp => ?_)
    have hmem : s.done p.promise ∈ rs.map fun r => some (Except.ok r) :=
      hlogs ▸ List.mem_map_of_mem (f := fun p => s.done p.promise) hp
    obtain ⟨r, -, hr⟩ := List.mem_map.mp hmem
    exact ⟨r, hr.symm⟩
  | some (.error err), ⟨q, hq, herr⟩, hstanding =>
    have hsettled : ∀ p ∈ batch, s.writer.settled p.promise = some (.rejected err) := by
      have hmapped : batch.map (fun p => s.writer.settled p.promise) =
          (batch.map fun _ => Outcome.rejected err).map some := hstanding
      rw [List.map_map] at hmapped
      exact List.map_inj_left.mp hmapped
    constructor
    · intro hapart
      refine .inr ⟨err, fun p hp => ?_⟩
      have hown := hapart p hp
      rw [hsettled p hp] at hown
      obtain ⟨r, hr, hrej⟩ := Option.map_eq_some_iff.mp hown.symm
      cases r with
      | ok r => cases hrej
      | error err' =>
        cases hrej
        exact hr
    · rintro (hok | ⟨err', hall⟩)
      · obtain ⟨r, hr⟩ := hok q hq
        rw [hr] at herr
        cases herr
      · have heq := herr.symm.trans (hall q hq)
        cases heq
        intro p hp
        rw [hsettled p hp, hall p hp]
        rfl

end Steps

/-- A writer for batches of no entries writes every entry at once, like one for batches of one. -/
lemma FallbackStep.max {m : ℕ} {s s' : FallbackState} (h : FallbackStep m s s') :
    FallbackStep (max 1 m) s s' := by
  cases h with
  | write e =>
    have hwrite : s.writer.write (fallbackWriter m) e =
        s.writer.write (fallbackWriter (Max.max 1 m)) e := by
      have hfull (n : ℕ) : Max.max 1 m ≤ n + 1 ↔ m ≤ n + 1 := by omega
      simp only [WriterState.write, BatchWriter.write, fallbackWriter, List.length_append,
        List.length_singleton, hfull]
    rw [hwrite]
    exact .write e
  | expire harmed => exact .expire harmed
  | flush => exact .flush
  | complete r hs hp hopen => exact .complete r hs hp hopen

/-- When all calls of a flush have ended, whatever the order in which they did and whatever else
the writer did meanwhile, its callers have been told each how the call for its own entry has ended
exactly if the calls have all resolved or have all rejected with the same error. -/
theorem kept_apart_iff {m : ℕ} {s : FallbackState} (hrun : FallbackRun m .start s) {f : Flushing}
    (hf : f ∈ s.writer.flushes) (hended : ∀ p ∈ f.batch, (s.done p.promise).isSome) :
    KeptApart s f.batch ↔ EndAlike s f.batch := by
  have hrun' : FallbackRun (max 1 m) .start s :=
    Relation.ReflTransGen.mono (fun _ _ => FallbackStep.max) _ _ hrun
  exact ((FallbackInv.start (le_max_left 1 m)).run hrun').keptApart_iff hf hended

/-- Two entries have been written and handed over. -/
def handedPair : FallbackState :=
  ⟨(WriterState.start.write (fallbackWriter 2) blankEntry).write (fallbackWriter 2) blankEntry,
    fun _ => none⟩

def pairFlush : Flushing := ⟨[⟨blankEntry, 0⟩, ⟨blankEntry, 1⟩], none, false⟩

lemma handedPair_run : FallbackRun 2 .start handedPair :=
  (Relation.ReflTransGen.single (.write blankEntry)).tail (.write blankEntry)

/-- The call for the first of them has resolved. -/
def halfWritten (r : WriteResult) : FallbackState :=
  handedPair.complete [] [] pairFlush ⟨blankEntry, 0⟩ (.ok r)

lemma halfWritten_run (r : WriteResult) : FallbackRun 2 .start (halfWritten r) :=
  handedPair_run.tail (.complete (.ok r) rfl (List.mem_cons_self ..) rfl)

lemma halfWritten_flushes (r : WriteResult) : (halfWritten r).writer.flushes = [pairFlush] := rfl

/-- The call for the second ends as well. -/
def endedPair (r : WriteResult) (r' : Except JsError WriteResult) : FallbackState :=
  (halfWritten r).complete [] [] pairFlush ⟨blankEntry, 1⟩ r'

lemma endedPair_run (r : WriteResult) (r' : Except JsError WriteResult) :
    FallbackRun 2 .start (endedPair r r') :=
  (halfWritten_run r).tail (.complete r' (halfWritten_flushes r)
    (List.mem_cons_of_mem _ (List.mem_cons_self ..)) rfl)

/-- A result of a call. -/
def storedResult : WriteResult := ⟨[], true, none, none, none⟩

/-- If both calls resolve, both callers are told so. -/
theorem resolved_pair_kept_apart :
    KeptApart (endedPair storedResult (.ok storedResult)) pairFlush.batch := by
  refine (kept_apart_iff (endedPair_run storedResult (.ok storedResult))
    (f := ⟨pairFlush.batch, some (.ok (.logs [storedResult, storedResult])), false⟩) ?_ ?_).mpr ?_
  · exact List.mem_singleton_self _
  · decide
  · refine .inl fun p hp => ?_
    obtain rfl | hp := List.mem_cons.mp hp
    · exact ⟨_, rfl⟩
    · obtain rfl := List.mem_singleton.mp hp
      exact ⟨_, rfl⟩

/-- If the second call rejects, the caller whose entry has been written is told its error. -/
theorem written_entry_rejected : ¬∀ m s, FallbackRun m .start s → ∀ f ∈ s.writer.flushes,
    (∀ p ∈ f.batch, (s.done p.promise).isSome) → KeptApart s f.batch := by
  intro h
  have hrun := endedPair_run storedResult (.error "RangeError")
  have hkept := h 2 _ hrun ⟨pairFlush.batch, some (.error "RangeError"), false⟩
    (List.mem_singleton_self _) (by decide) ⟨blankEntry, 0⟩ (List.mem_cons_self ..)
  cases hkept

end HybridLog
