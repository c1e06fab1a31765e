import HybridLog.System.Origins

/-!
# Promises of the batch writers

An entry is buffered with a promise, which the flush of a batch with the entry settles. The promises
are numbered in the order in which the entries were buffered.
-/

namespace HybridLog

open Js Async

/-! ### Writers and settled promises -/

/-- What a writer holds or hands over after a write was there before or is new. -/
lemma BatchWriter.mem_write {w : BatchWriter} {maxSize : ℕ} {p q : PendingEntry}
    (h : q ∈ (w.write maxSize p).1.buffer ∨ q ∈ (w.write maxSize p).2) : q ∈ w.buffer ∨ q = p := by
  have hall (hq : q ∈ w.buffer ++ [p]) : q ∈ w.buffer ∨ q = p := by simpa using hq
  rw [BatchWriter.write] at h
  split at h
  · rcases h with h | h
    · cases h
    · exact hall h
  · rcases h with h | h
    · exact hall h
    · cases h

lemma settle_eq_some {settled : ℕ → Option Outcome} {n m : ℕ} {o o' : Outcome}
    (h : settle settled n o m = some o') : settled m = some o' ∨ m = n ∧ o' = o := by
  by_cases hm : m = n
  · subst hm
    cases hs : settled m with
    | none =>
      rw [settle_self o hs] at h
      exact .inr ⟨rfl, (Option.some.inj h).symm⟩
    | some o₁ =>
      rw [settle_of_some m o hs] at h
      exact .inl h
  · rw [settle_of_ne o hm] at h
    exact .inl h

lemma settleAll_eq_some {m : ℕ} {o : Outcome} : ∀ {l : List (ℕ × Outcome)}
    {settled : ℕ → Option Outcome}, settleAll (l.map Prod.fst) (l.map Prod.snd) settled m = some o →
      settled m = some o ∨ (m, o) ∈ l
  | [], _, h => .inl h
  | (n, o₁) :: l, _, h => by
    rcases settleAll_eq_some (l := l) h with h | h
    · rcases settle_eq_some h with h | ⟨rfl, rfl⟩
      · exact .inl h
      · exact .inr (.head _)
    · exact .inr (.tail _ h)

/-! ### Numbers -/

/-- What an event buffers. -/
def buffered : Event Req Req.Answer Tag Delivery → Option (WriterKey × LogEntry)
  | .call _ (.buffer key entry) _ => some (key, entry)
  | _ => none

lemma filterMap_buffered {tr : RedeliveryTrace} {ev : Event Req Req.Answer Tag Delivery}
    (h : buffered ev = none) : (tr ++ [ev]).filterMap buffered = tr.filterMap buffered := by
  simp [h]

/-- The promise of an entry counts the entries that were buffered before. -/
def Numbered (tr : RedeliveryTrace) (key : WriterKey) (p : PendingEntry) : Prop :=
  (tr.filterMap buffered)[p.promise]? = some (key, p.entry)

section

variable {tr tr' : RedeliveryTrace} {key key' : WriterKey} {p p' : PendingEntry}

lemma Numbered.later (h : Numbered tr key p) (htr : tr <+: tr') : Numbered tr' key p := by
  obtain ⟨more, rfl⟩ := htr
  rw [Numbered, List.filterMap_append]
  exact List.getElem?_append_left (List.getElem?_eq_some_iff.mp h).1 ▸ h

/-- One entry has the number. -/
lemma Numbered.unique (h : Numbered tr key p) (h' : Numbered tr key' p')
    (hp : p.promise = p'.promise) : key = key' ∧ p.entry = p'.entry := by
  rw [Numbered, hp] at h
  exact Prod.mk.inj (Option.some.inj (h.symm.trans h'))

end

/-- What an event hands over, or gives a promise, is numbered. -/
def NumbersEvent (tr : RedeliveryTrace) : Event Req Req.Answer Tag Delivery → Prop
  | .ext (.server (.expire key batch)) => ∀ p ∈ batch, Numbered tr key p
  | .call _ (.buffer key entry) (promise, batch) =>
    Numbered tr key ⟨entry, promise⟩ ∧ ∀ p ∈ batch, Numbered tr key p
  | _ => True

lemma NumbersEvent.later {tr tr' : RedeliveryTrace} {ev : Event Req Req.Answer Tag Delivery}
    (h : NumbersEvent tr ev) (htr : tr <+: tr') : NumbersEvent tr' ev := by
  cases ev with
  | ext x =>
    cases x with
    | server x => cases x with
      | expire key batch => exact fun p hp => (h p hp).later htr
      | _ => trivial
    | requeue seq msg => trivial
  | call t e r => cases e with
    | buffer key entry => exact ⟨h.1.later htr, fun p hp => (h.2 p hp).later htr⟩
    | _ => trivial

/-- A request has settled the promise. -/
def SettledBy (tr : RedeliveryTrace) (promise : ℕ) (o : Outcome) : Prop :=
  ∃ t l, Did t (.settle l) () tr ∧ (promise, o) ∈ l

lemma SettledBy.later {tr tr' : RedeliveryTrace} {promise : ℕ} {o : Outcome}
    (h : SettledBy tr promise o) (htr : tr <+: tr') : SettledBy tr' promise o := by
  obtain ⟨t, l, hd, hl⟩ := h
  exact ⟨t, l, hd.later htr, hl⟩

/-! ### The invariant -/

/-- Promises are numbered, and settled by requests only. -/
structure Promised (s : State) (tr : RedeliveryTrace) : Prop where
  count : s.promises = (tr.filterMap buffered).length
  events : ∀ ev ∈ tr, NumbersEvent tr ev
  writers : ∀ key, ∀ p ∈ (s.writers key).buffer, Numbered tr key p
  settled : ∀ promise o, s.settled promise = some o → SettledBy tr promise o

namespace Promised

variable {s s' : State} {tr : RedeliveryTrace} {ev : Event Req Req.Answer Tag Delivery}

lemma start : Promised .start [] := by
  constructor
  · rfl
  · intro ev hev
    cases hev
  · intro key p hp
    cases hp
  · intro promise o ho
    cases ho

lemma push (h : Promised s tr) (hcount : s'.promises = ((tr ++ [ev]).filterMap buffered).length)
    (hev : NumbersEvent (tr ++ [ev]) ev)
    (hwriters : ∀ key, ∀ p ∈ (s'.writers key).buffer, Numbered (tr ++ [ev]) key p)
    (hsettled : ∀ promise o, s'.settled promise = some o →
      s.settled promise = some o ∨ SettledBy (tr ++ [ev]) promise o) :
    Promised s' (tr ++ [ev]) := by
  constructor
  · exact hcount
  · intro ev' hev'
    rcases List.mem_append.mp hev' with hold | hnew
    · exact (h.events ev' hold).later (List.prefix_append _ _)
    · rw [List.mem_singleton.mp hnew]
      exact hev
  · exact hwriters
  · intro promise o ho
    rcases hsettled promise o ho with hold | hnew
    · exact (h.settled promise o hold).later (List.prefix_append _ _)
    · exact hnew

/-- An event that buffers nothing and settles no promise. -/
lemma skip (h : Promised s tr) (hnone : buffered ev = none) (hev : NumbersEvent (tr ++ [ev]) ev)
    (hpromises : s'.promises = s.promises) (hsettled : s'.settled = s.settled)
    (hwriters : ∀ key, ∀ p ∈ (s'.writers key).buffer, p ∈ (s.writers key).buffer) :
    Promised s' (tr ++ [ev]) := by
  apply h.push
  · rw [hpromises, h.count, filterMap_buffered hnone]
  · exact hev
  · exact fun key p hp => (h.writers key p (hwriters key p hp)).later (List.prefix_append _ _)
  · intro promise o ho
    rw [hsettled] at ho
    exact .inl ho

variable {cfg : ServerConfig} {objectHash : ObjectHash}

/-- An entry is buffered with the next promise. -/
lemma buffer (h : Promised s tr) (t : Tag) (key : WriterKey) (entry : LogEntry) :
    Promised (s.buffer key entry).1 (tr ++ [.call t (.buffer key entry) (s.buffer key entry).2]) := by
  generalize hev : (Event.call t (.buffer key entry) (s.buffer key entry).2 :
    Event Req Req.Answer Tag Delivery) = ev
  have hbuffered : (tr ++ [ev]).filterMap buffered = tr.filterMap buffered ++ [(key, entry)] := by
    subst hev
    rw [List.filterMap_append]
    rfl
  have hold {key' : WriterKey} {p : PendingEntry} (hp : p ∈ (s.writers key').buffer) :
      Numbered (tr ++ [ev]) key' p := (h.writers key' p hp).later (List.prefix_append _ _)
  have hnew : Numbered (tr ++ [ev]) key ⟨entry, s.promises⟩ := by
    rw [Numbered, hbuffered, h.count]
    exact List.getElem?_concat_length
  have hwrite {p : PendingEntry}
      (hp : p ∈ ((s.writers key).write batchSize ⟨entry, s.promises⟩).1.buffer ∨
        p ∈ ((s.writers key).write batchSize ⟨entry, s.promises⟩).2) :
      Numbered (tr ++ [ev]) key p := by
    rcases BatchWriter.mem_write hp with hp | rfl
    · exact hold hp
    · exact hnew
  apply h.push
  · rw [hbuffered, List.length_append, ← h.count]
    rfl
  · subst hev
    exact ⟨hnew, fun p hp => hwrite (.inr hp)⟩
  · intro key' p hp
    by_cases hkey : key' = key
    · subst hkey
      simp only [State.buffer, Function.update_self] at hp
      exact hwrite (.inl hp)
    · simp only [State.buffer, Function.update_of_ne hkey] at hp
      exact hold hp
  · exact fun promise o ho => .inl ho

lemma call {t : Tag} {e : Req} {r : e.Answer} (h : Promised s tr)
    (hs : s.apply t e r = some s') : Promised s' (tr ++ [.call t e r]) := by
  rcases State.apply_eq_some hs with ⟨he, rfl⟩ | ⟨-, -, hs⟩
  · apply h.skip
    · rcases he with rfl | rfl <;> rfl
    · rcases he with rfl | rfl <;> trivial
    · cases t <;> rfl
    · cases t <;> rfl
    · cases t <;> exact fun _ _ hp => hp
  cases State.answer_effect hs with
  | buffer => exact h.buffer t _ _
  | @settle settled =>
    apply h.push
    · rw [filterMap_buffered rfl]
      exact h.count
    · trivial
    · exact fun key p hp => (h.writers key p hp).later (List.prefix_append _ _)
    · intro promise o ho
      rcases settleAll_eq_some ho with hold | hmem
      · exact .inl hold
      · exact .inr ⟨t, settled, List.mem_append_right _ (List.mem_singleton_self _), hmem⟩
  | idle hidle =>
    apply h.skip _ _ rfl rfl fun _ _ hp => hp
    · cases e with
      | buffer key entry => exact hidle.elim
      | _ => rfl
    · cases e with
      | buffer key entry => exact hidle.elim
      | _ => trivial
  | _ => exact h.skip rfl trivial rfl rfl fun _ _ hp => hp

lemma server {x : External} {ps : List (Tag × Prog Req Req.Answer Unit)} (h : Promised s tr)
    (hs : s.accept cfg objectHash x = some (s', ps)) :
    Promised s' (tr ++ [.ext (.server x)]) := by
  cases x with
  | expire key batch =>
    simp only [State.accept] at hs
    split at hs
    · next hkey =>
      cases hs
      apply h.skip
      · rfl
      · intro p hp
        rw [hkey.2] at hp
        exact (h.writers key p hp).later (List.prefix_append _ _)
      · rfl
      · rfl
      · intro key' p hp
        by_cases heq : key' = key
        · subst heq
          simp [BatchWriter.expire, BatchWriter.flush, BatchWriter.empty] at hp
        · simpa [heq] using hp
    · cases hs
  | chain x =>
    obtain ⟨s₁, hs₁, heq⟩ := Option.map_eq_some_iff.mp hs
    cases heq
    cases x with
    | commit _ | nextBlock _ | mine _ _ =>
      obtain ⟨n, _, rfl⟩ := Option.map_eq_some_iff.mp hs₁
      exact h.skip rfl trivial rfl rfl fun _ _ hp => hp
  | _ =>
    simp only [State.accept] at hs
    split at hs
    · cases hs
      exact h.skip rfl trivial rfl rfl fun _ _ hp => hp
    · cases hs

end Promised

variable {cfg : ServerConfig} {objectHash : ObjectHash}

theorem promised {c : RedeliveryConfig} (h : Reach (atLeastOnce cfg objectHash) .start c) :
    Promised c.world.state c.world.trace := by
  induction h with
  | refl => exact .start
  | tail _ hstep ih =>
    cases hstep with
    | call hs => exact ih.call hs
    | fork | left | right | done => exact ih
    | ext hs =>
      rcases atLeastOnce_accept cfg objectHash hs with ⟨y, rfl, hy⟩ | ⟨seq, msg, rfl, hr, rfl⟩
      · exact ih.server hy
      · obtain ⟨-, rfl⟩ := requeue_eq_some hr
        exact ih.skip rfl trivial rfl rfl fun _ _ hp => hp

/-! ### Who settles a promise -/

/-- The entries of a batch that is flushed are numbered. -/
lemma Flushes.numbered {t : Tag} {key : WriterKey} {batch : List PendingEntry}
    {pre tr : RedeliveryTrace} (h : Flushes .server pre t key batch) (hpre : pre <+: tr)
    (hevents : ∀ ev ∈ tr, NumbersEvent tr ev) : ∀ p ∈ batch, Numbered tr key p := by
  cases h with
  | full hb => exact (hevents _ (hpre.subset hb)).2
  | timer hx => exact hevents _ (hpre.subset hx)

/-- How the flush of a batch that has the entry resolves the promise of the entry. -/
inductive Resolved (cfg : ServerConfig) (key : WriterKey) (entry : LogEntry) (t : Tag)
    (tr : RedeliveryTrace) : WriteResult → Prop
  | batch {st : Storage} {entries : List LogEntry} {r : BatchWriteResult}
    (hst : key.storage cfg = some st) (hentry : entry ∈ entries)
    (h : Storage.BatchResult cfg key.opts entries t tr st r) :
    Resolved cfg key entry t tr (r.forEntry entry)
  | log {st : Storage} {r : WriteResult} (hst : key.storage cfg = some st)
    (hb : st.writeBatch? cfg = none) (h : Storage.LogResult cfg key.opts entry t tr st r) :
    Resolved cfg key entry t tr r

lemma Resolved.later {key : WriterKey} {entry : LogEntry} {t : Tag} {tr tr' : RedeliveryTrace}
    {r : WriteResult} (h : Resolved cfg key entry t tr r) (htr : tr <+: tr') :
    Resolved cfg key entry t tr' r := by
  cases h with
  | batch hst hentry h => exact .batch hst hentry (h.later htr)
  | log hst hb h => exact .log hst hb (h.later htr)

lemma FlushResult.resolved {key : WriterKey} {pending : List PendingEntry} {t : Tag}
    {tr : RedeliveryTrace} {a : Answer} (h : FlushResult cfg key pending t tr a) {n : ℕ}
    {r : WriteResult} (hmem : (n, Outcome.resolved r) ∈ settlements pending (.ok a)) :
    ∃ p ∈ pending, p.promise = n ∧ Resolved cfg key p.entry t tr r := by
  cases h with
  | batch hst h =>
    rw [settlements, outcomes, List.zip_map'] at hmem
    obtain ⟨p, hp, heq⟩ := List.mem_map.mp hmem
    cases heq
    exact ⟨p, hp, rfl, .batch hst (List.mem_map_of_mem hp) h⟩
  | logs hst hb h =>
    rw [settlements, outcomes, List.zip_map] at hmem
    obtain ⟨⟨p, r'⟩, hpair, heq⟩ := List.mem_map.mp hmem
    cases heq
    exact ⟨p, (List.of_mem_zip hpair).1, rfl, .log hst hb ((List.forall₂_iff_zip.mp h).2 hpair)⟩

/-- A promise that resolves has been resolved by the flush of a batch that has its entry. -/
theorem resolved_of_await {c : RedeliveryConfig} (h : Reach (atLeastOnce cfg objectHash) .start c)
    {t t' : Tag} {key : WriterKey} {entry : LogEntry} {promise : ℕ} {batch : List PendingEntry}
    {r : WriteResult} (hb : Did t (.buffer key entry) (promise, batch) c.world.trace)
    (ha : Did t' (.await promise) (.resolved r) c.world.trace) :
    ∃ t₁, Resolved cfg key entry t₁ c.world.trace r := by
  have hp := promised h
  have hnumber : Numbered c.world.trace key ⟨entry, promise⟩ := (hp.events _ hb).1
  obtain ⟨t₁, l, hsettle, hl⟩ :=
    hp.settled promise _ ((atLeastOnce_faithful cfg objectHash).marked h ha)
  obtain ⟨pre, hpre, hstep⟩ := (atLeastOnce_guarded h).did hsettle
  cases hstep.own (by simp [Req.OfStorage]) with
  | settle hflushes hresult =>
    obtain ⟨p, hpmem, hpn, hresolved⟩ := hresult.resolved hl
    obtain ⟨rfl, rfl⟩ := (hflushes.numbered hpre hp.events p hpmem).unique hnumber hpn
    exact ⟨t₁, hresolved.later hpre⟩
  | reject _ =>
    rw [settlements, outcomes, List.zip_map'] at hl
    obtain ⟨p, _, heq⟩ := List.mem_map.mp hl
    cases heq

end HybridLog
