import HybridLog.Async.Retry
import HybridLog.Queue.Settled
import HybridLog.Storage.AllOrNone

/-!
# Redelivery of submit messages

A crash of the server leaves the databases and the chains as they are and the message without an
acknowledgement, so the broker delivers it again. Other programs use the databases and the chains
meanwhile.
-/

namespace HybridLog

open Js Async

/-! ### Crashes -/

/-- The databases and the chains are the same. Memory and queues may differ. -/
structure State.Same (s u : State) : Prop where
  dbs : s.dbs = u.dbs
  exonum : s.exonum = u.exonum
  ethereum : s.ethereum = u.ethereum

/-- The requests that databases and chains are changed by. -/
def Req.Lasts : Req → Prop
  | .insert .. | .insertBatchRecord .. | .linkLeaves .. | .linkLeaf .. | .updateAnchorStatus ..
  | .updateBatchAnchorStatus .. | .submit _ => True
  | _ => False

/-- Answers that leave the databases and the chains as they are. -/
def Req.Inert : (e : Req) → e.Answer → Prop
  | .insert .., Except.ok () | .insertBatchRecord .., Except.ok () | .linkLeaves .., Except.ok ()
  | .linkLeaf .., Except.ok () | .updateAnchorStatus .., Except.ok ()
  | .updateBatchAnchorStatus .., Except.ok () | .submit _, Except.ok _ => False
  | _, _ => True

/-- The requests to the broker and the clock. -/
def Req.Passing : Req → Prop
  | .publishSubmit _ | .publishConfirm _ | .publishReply .. | .ack | .nack | .now => True
  | _ => False

/-- The state after a request is answered. The memory of the batch writers is lost in a crash, and
no handler of a message asks them. -/
def State.serve : (e : Req) → e.Answer → State → Option State
  | .buffer .., _, _ | .settle _, _, _ | .await _, _, _ => none
  | e, r, s => s.answer e r

/-- What happens while a message is processed: something on a chain, or a request of another
program. -/
inductive Meanwhile
  | chain (x : ChainEvent)
  | request (e : Req) (r : e.Answer)

variable (cfg : ServerConfig) (objectHash : ObjectHash)

/-- The programs that process a message, among others. -/
def processing : Machine Req Req.Answer Unit Meanwhile State where
  apply _ := State.serve
  accept
    | .chain x, s => (s.onChain cfg objectHash x).map fun s' => (s', [])
    | .request e r, s => (s.serve e r).map fun s' => (s', [])

/-! ### What is looked at -/

namespace State

lemma Same.refl (s : State) : Same s s := ⟨rfl, rfl, rfl⟩

lemma same_equivalence : Equivalence Same where
  refl := Same.refl
  symm h := ⟨h.dbs.symm, h.exonum.symm, h.ethereum.symm⟩
  trans h h' := ⟨h.dbs.trans h'.dbs, h.exonum.trans h'.exonum, h.ethereum.trans h'.ethereum⟩

variable {s u s' : State}

lemma Same.setDb (h : Same s u) (db : Db) (d : Database) : Same (s.setDb db d) (u.setDb db d) :=
  ⟨by rw [State.setDb, State.setDb, h.dbs], h.exonum, h.ethereum⟩

lemma serve_answer {e : Req} {r : e.Answer} (h : s.serve e r = some s') :
    s.answer e r = some s' := by
  cases e with
  | buffer _ _ | settle _ | await _ => cases h
  | _ => exact h

/-- A state is answered as one with the same databases and chains. -/
lemma Same.serve (h : Same s u) {e : Req} {r : e.Answer} (hs : s.serve e r = some s') :
    ∃ u', u.serve e r = some u' ∧ Same s' u' := by
  obtain ⟨hdbs, hexonum, hethereum⟩ := id h
  cases e with
  | buffer _ _ | settle _ | await _ => cases hs
  | insert db table row =>
    cases r with
    | error err => cases hs; exact ⟨u, rfl, h⟩
    | ok _ =>
      obtain ⟨d, hd, rfl⟩ := Option.map_eq_some_iff.mp hs
      rw [hdbs] at hd
      exact ⟨_, congrArg (Option.map (u.setDb db)) hd, h.setDb db d⟩
  | insertBatchRecord db table row =>
    cases r with
    | error err => cases hs; exact ⟨u, rfl, h⟩
    | ok _ =>
      obtain ⟨d, hd, rfl⟩ := Option.map_eq_some_iff.mp hs
      rw [hdbs] at hd
      exact ⟨_, congrArg (Option.map (u.setDb db)) hd, h.setDb db d⟩
  | linkLeaves _ _ _ | linkLeaf _ _ _ _ | updateBatchAnchorStatus _ _ _ _ _ _ =>
    cases r with
    | error err => cases hs; exact ⟨u, rfl, h⟩
    | ok _ =>
      cases hs
      refine ⟨_, rfl, ?_⟩
      rw [hdbs]
      exact h.setDb _ _
  | updateAnchorStatus db table id status txHash anchoredAt =>
    cases r with
    | error err => cases hs; exact ⟨u, rfl, h⟩
    | ok _ =>
      simp only [State.serve, answer] at hs ⊢
      split at hs
      · next hdb =>
        cases hs
        rw [if_pos hdb, hdbs]
        exact ⟨_, rfl, h.setDb _ _⟩
      · cases hs
  | submit tx =>
    cases r with
    | error err => cases hs; cases tx <;> exact ⟨u, rfl, h⟩
    | ok txHash => cases tx with
      | exonum tx =>
        obtain ⟨n, hn, rfl⟩ := Option.map_eq_some_iff.mp hs
        rw [hexonum] at hn
        exact ⟨_, congrArg (Option.map _) hn, hdbs, rfl, hethereum⟩
      | ethereum tx =>
        obtain ⟨c, hc, rfl⟩ := Option.map_eq_some_iff.mp hs
        rw [hethereum] at hc
        exact ⟨_, congrArg (Option.map _) hc, hdbs, hexonum, rfl⟩
  | getTransaction txHash n =>
    cases r with
    | error err => cases hs; exact ⟨u, rfl, h⟩
    | ok type => cases type with
      | inPool | other => cases hs; exact ⟨u, rfl, h⟩
      | committed =>
        simp only [State.serve, answer] at hs ⊢
        rw [hexonum] at hs
        split at hs
        · next hmem => cases hs; exact ⟨u, if_pos hmem, h⟩
        · cases hs
  | getReceipt txHash n =>
    cases r with
    | error err => cases hs; exact ⟨u, rfl, h⟩
    | ok receipt => cases receipt with
      | none => cases hs; exact ⟨u, rfl, h⟩
      | some receipt =>
        simp only [State.serve, answer] at hs ⊢
        rw [hethereum] at hs
        split at hs
        · split at hs
          · next heq => cases hs; exact ⟨u, if_pos heq, h⟩
          · cases hs
        · cases hs
  | getBlockNumber n =>
    cases r with
    | error err => cases hs; exact ⟨u, rfl, h⟩
    | ok current =>
      simp only [State.serve, answer] at hs ⊢
      rw [hethereum] at hs
      split at hs
      · next hle => cases hs; exact ⟨u, if_pos hle, h⟩
      · cases hs
  | waitReceipt txHash =>
    cases r with
    | error err => cases hs; exact ⟨u, rfl, h⟩
    | ok _ =>
      simp only [State.serve, answer] at hs ⊢
      rw [hethereum] at hs
      split at hs
      · split at hs
        · next heq => cases hs; exact ⟨u, if_pos heq, h⟩
        · cases hs
      · cases hs
  | publishSubmit msg | publishConfirm msg =>
    cases r with
    | error err => cases hs; exact ⟨u, rfl, h⟩
    | ok _ => cases hs; exact ⟨_, rfl, hdbs, hexonum, hethereum⟩
  | publishReply _ _ | ack | nack | now | respond _ => cases hs; exact ⟨u, rfl, h⟩

/-- Inert answers change no database and no chain. -/
lemma same_of_inert {e : Req} {r : e.Answer} (hs : s.serve e r = some s') (hr : e.Inert r) :
    Same s s' := by
  cases serve_answer hs |> answer_effect with
  | insert _ | record _ | links | link | status _ | batchStatus | submitExonum _
  | submitEthereum _ => exact hr.elim
  | publishSubmit | publishConfirm | buffer | settle => exact ⟨rfl, rfl, rfl⟩
  | committed _ | receipt _ _ | blockNumber | waited _ _ | await _ | idle _ => exact .refl s

lemma Same.onChain (h : Same s u) {x : ChainEvent} (hs : s.onChain cfg objectHash x = some s') :
    ∃ u', u.onChain cfg objectHash x = some u' ∧ Same s' u' := by
  cases x with
  | commit txHash =>
    obtain ⟨n, hn, rfl⟩ := Option.map_eq_some_iff.mp hs
    rw [h.exonum] at hn
    exact ⟨_, congrArg (Option.map _) hn, h.dbs, rfl, h.ethereum⟩
  | nextBlock timestamp =>
    obtain ⟨c, hc, rfl⟩ := Option.map_eq_some_iff.mp hs
    rw [h.ethereum] at hc
    exact ⟨_, congrArg (Option.map _) hc, h.dbs, h.exonum, rfl⟩
  | mine txHash status =>
    obtain ⟨c, hc, rfl⟩ := Option.map_eq_some_iff.mp hs
    rw [h.ethereum] at hc
    exact ⟨_, congrArg (Option.map _) hc, h.dbs, h.exonum, rfl⟩

end State

/-- An outside event starts no program. -/
lemma processing_accept {x : Meanwhile} {s s' : State} {ps : List (Unit × Prog Req Req.Answer Unit)}
    (h : (processing cfg objectHash).accept x s = some (s', ps)) :
    ps = [] ∧ ((∃ y, x = .chain y ∧ s.onChain cfg objectHash y = some s') ∨
      ∃ e r, x = .request e r ∧ s.serve e r = some s') := by
  cases x with
  | chain y =>
    obtain ⟨s₁, hs, heq⟩ := Option.map_eq_some_iff.mp h
    cases heq
    exact ⟨rfl, .inl ⟨y, rfl, hs⟩⟩
  | request e r =>
    obtain ⟨s₁, hs, heq⟩ := Option.map_eq_some_iff.mp h
    cases heq
    exact ⟨rfl, .inr ⟨e, r, rfl, hs⟩⟩

theorem processing_looked :
    Looked (processing cfg objectHash) State.Same Req.Inert Req.Passing Req.Lasts where
  equiv := State.same_equivalence
  respects h hs := h.serve hs
  accepts {x s s' ps u} h hs := by
    obtain ⟨rfl, ⟨y, rfl, hy⟩ | ⟨e, r, rfl, hr⟩⟩ := processing_accept cfg objectHash hs
    · obtain ⟨u', hu', hsame⟩ := h.onChain cfg objectHash hy
      exact ⟨rfl, u', congrArg (Option.map _) hu', hsame⟩
    · obtain ⟨u', hu', hsame⟩ := h.serve hr
      exact ⟨rfl, u', congrArg (Option.map _) hu', hsame⟩
  unchanged hs hr := State.same_of_inert hs hr
  answered t e s he := by
    cases e with
    | publishSubmit _ | publishConfirm _ | publishReply _ _ =>
      exact ⟨Except.error "", s, rfl, trivial⟩
    | ack | nack => exact ⟨(), s, rfl, trivial⟩
    | now => exact ⟨(0 : ℕ), s, rfl, trivial⟩
    | _ => exact he.elim
  passing e he := by
    cases e with
    | publishSubmit _ | publishConfirm _ | publishReply _ _ | ack | nack | now => exact not_false
    | _ => exact he.elim

lemma processing_faithful : Faithful (processing cfg objectHash) where
  apply {t e r s s'} hs := ⟨s', State.answer_effect (State.serve_answer hs), .refl s'⟩
  accept {x s s' ps} hs := by
    obtain ⟨-, ⟨y, rfl, hy⟩ | ⟨e, r, rfl, hr⟩⟩ := processing_accept cfg objectHash hs
    · exact State.le_onChain hy
    · exact (State.answer_effect (State.serve_answer hr)).le

/-! ### Attempts at a message -/

section Message

variable (msg : SubmitMessage)

/-- The program a delivery of the message starts. -/
def SubmitMessage.program : Prog Req Req.Answer Unit :=
  (consume (submitHandler cfg msg.strategy msg)).run.detach

/-- The table of the rows of the message. -/
def SubmitMessage.rowTable : LogTable :=
  if msg.strategy.isBatch then msg.strategy.batchedTableFor else msg.strategy.anchoredTableFor

/-- The request takes the message from the broker. -/
def acknowledges : Event Req Req.Answer Unit Meanwhile → Bool
  | .call _ .ack _ | .call _ .nack _ => true
  | _ => false

/-- The broker still has the message. -/
def Unacknowledged (c : Async.Config Req Req.Answer Unit Meanwhile State) : Prop :=
  ∀ ev ∈ c.world.trace, acknowledges ev = false

instance (c : Async.Config Req Req.Answer Unit Meanwhile State) : Decidable (Unacknowledged c) :=
  inferInstanceAs (Decidable (∀ ev ∈ c.world.trace, acknowledges ev = false))

/-- A row has the id of each entry of the message. -/
def State.HoldsEntries (s : State) : Prop :=
  ∀ x ∈ msg.body.read, ∃ r ∈ (s.dbs msg.db).logs msg.rowTable, r.id = x.id

/-- A crash hits an attempt before any of its requests has changed a database or a chain, or when it
will make no more such requests and all entries are in the database. -/
inductive HarmlessCut (c : Async.Config Req Req.Answer Unit Meanwhile State) : Prop
  | before (h : Looked.Untouched Req.Inert c.world)
  | after (hleft : ∀ p ∈ c.procs, p.2.Only Req.Passing) (hne : msg.body.read ≠ [])
    (hheld : c.world.state.HoldsEntries msg)

variable {msg}

lemma State.HoldsEntries.later {s s' : State} (h : s.HoldsEntries msg) (hs : s.Le s') :
    s'.HoldsEntries msg := by
  intro x hx
  obtain ⟨r, hr, hid⟩ := h x hx
  obtain ⟨r', hr', hcore⟩ := (hs.dbs msg.db).mem hr
  exact ⟨r', hr', (congrArg LogRow.id hcore).trans hid⟩

lemma State.HoldsEntries.of_same {s s' : State} (h : s.HoldsEntries msg) (hs : s.Same s') :
    s'.HoldsEntries msg := by
  rw [State.HoldsEntries, ← hs.dbs]
  exact h

variable {cfg}

/-- Until an entry has been inserted, the handler changes nothing but to insert it. -/
lemma SubmitStep.inserts {t : Unit} {e : Req} {tr : Trace Req Req.Answer Unit Meanwhile}
    (h : SubmitStep cfg msg.strategy msg t e tr) (hs : msg.strategy.isHybrid = true)
    (hne : msg.body.read ≠ []) :
    e.Passing ∨ ∃ x ∈ msg.body.read, ∃ row : LogRow, row.id = x.id ∧
      (e = .insert msg.db msg.rowTable row ∨
        Did t (.insert msg.db msg.rowTable row) (Except.ok ()) tr) := by
  cases h with
  | handOver _ | reply _ _ _ | ack _ => exact .inl trivial
  | write h =>
  refine .inr ?_
  generalize msg.body = body at h hne
  cases h with
  | @entry st dto _ _ hst h =>
    obtain ⟨db', anchor, mode, rfl⟩ := pickStorage_of_isHybrid hst hs
    have hw := pickStorage_hybrid cfg hst
    obtain rfl := hw.adapter
    refine ⟨dtoToEntry dto.parsed, List.mem_singleton_self _,
      HybridStorage.logRow cfg msg.db mode (dtoToEntry dto.parsed), rfl, ?_⟩
    have htable : msg.rowTable = mode.logTable := hw.logTable.symm
    rw [htable]
    cases h with
    | hybrid h => cases h with
      | insert => exact .inl rfl
      | anchor hi _ | update hi _ _ => exact .inr hi
  | @entries st dtos _ _ hst h =>
    obtain ⟨db', anchor, mode, rfl⟩ := pickStorage_of_isHybrid hst hs
    have hw := pickStorage_hybrid cfg hst
    obtain rfl := hw.adapter
    cases h with
    | @hybrid _ _ side _ _ h =>
    have htable : msg.rowTable = .batched side := hw.logTable.symm
    rw [htable]
    have hleaves {tr : Trace Req Req.Answer Unit Meanwhile}
        (hl : HybridStorage.Leaves cfg msg.db side (SubmitBody.entries dtos).read t tr) :
        ∃ x ∈ (SubmitBody.entries dtos).read, ∃ row : LogRow, row.id = x.id ∧
          (e = .insert msg.db (.batched side) row ∨
            Did t (.insert msg.db (.batched side) row) (Except.ok ()) tr) := by
      obtain ⟨x, hx⟩ := List.exists_mem_of_ne_nil _ hne
      exact ⟨x, hx, HybridStorage.leafRow cfg msg.db x, rfl, .inr (hl.did cfg _ _ _ hx)⟩
    cases h with
    | @insert _ x _ hx => exact ⟨x, hx, HybridStorage.leafRow cfg msg.db x, rfl, .inl rfl⟩
    | record hl => exact hleaves hl
    | link hr _ => exact hleaves hr.leaves
    | anchor hs _ | update hs _ _ => exact hleaves hs.recorded.leaves

variable {objectHash} {s : State} {c c' : Async.Config Req Req.Answer Unit Meanwhile State}

/-- The programs of an attempt keep to what the handler may do. -/
lemma program_guarded (h : Run (processing cfg objectHash) (.begin () (msg.program cfg) s) c) :
    Guarded (fun t e tr => SubmitStep cfg msg.strategy msg t e tr) c.world.trace := by
  refine (Run.guarded ?_ h Guarded.nil ?_).1
  · intro tr x s s' ps hx p hp
    obtain ⟨rfl, -⟩ := processing_accept cfg objectHash hx
    cases hp
  · intro p hp
    cases List.mem_singleton.mp hp
    exact Follows.detach (consume_follows (submitHandler_follows cfg msg.strategy msg _ _))

/-- Where all entries are in the database, an attempt changes nothing. -/
lemma untouched_of_holds (hs : msg.strategy.isHybrid = true) (hne : msg.body.read ≠ [])
    (hheld : s.HoldsEntries msg)
    (h : Run (processing cfg objectHash) (.begin () (msg.program cfg) s) c) :
    Looked.Untouched Req.Inert c.world := by
  have hinvariant := @Run.invariant _ _ _ _ _ (processing cfg objectHash)
    (fun t e tr => SubmitStep cfg msg.strategy msg t e tr) (fun _ => True) fun w =>
      w.state.HoldsEntries msg ∧ Looked.Untouched Req.Inert w
  have hinit : Looked.Untouched Req.Inert (⟨s, []⟩ : World Req Req.Answer Unit Meanwhile State) :=
    fun _ _ _ hd => (List.not_mem_nil hd).elim
  refine (hinvariant ?_ ?_ h ⟨hheld, hinit⟩ (program_guarded h) fun _ _ => trivial).2
  · rintro w t e r s' _ hstep _ ⟨hheld, hinert⟩ hserve
    have heffect := State.answer_effect (State.serve_answer hserve)
    refine ⟨hheld.later heffect.le, fun t' e' r' hd => ?_⟩
    rcases List.mem_append.mp hd with hd | hd
    · exact hinert t' e' r' hd
    cases List.mem_singleton.mp hd
    rcases hstep.inserts hs hne with hpassing | ⟨x, hx, row, hid, rfl | hdone⟩
    · cases e with
      | publishSubmit _ | publishConfirm _ | publishReply _ _ | ack | nack | now => trivial
      | _ => exact hpassing.elim
    · cases heffect with
      | idle _ =>
        cases r with
        | error err => trivial
        | ok _ => contradiction
      | insert hins =>
        obtain ⟨r, hr, hrid⟩ := hheld x hx
        exact absurd (.inl (hrid.trans hid.symm)) ((Database.insert_eq_some hins).1 r hr)
    · exact (hinert _ _ _ hdone).elim
  · rintro w x s' ps _ _ ⟨hheld, hinert⟩ hx
    refine ⟨hheld.later ((processing_faithful cfg objectHash).accept hx), fun t e r hd => ?_⟩
    rcases List.mem_append.mp hd with hd | hd
    · exact hinert t e r hd
    · cases List.mem_singleton.mp hd

/-- Attempts change nothing any more where all entries are in the database. -/
lemma retried_untouched {cuttable : Async.Config Req Req.Answer Unit Meanwhile State → Prop}
    {cuts : List (Async.Config Req Req.Answer Unit Meanwhile State)}
    {w : World Req Req.Answer Unit Meanwhile State} (hs : msg.strategy.isHybrid = true)
    (hne : msg.body.read ≠ []) (hheld : s.HoldsEntries msg)
    (h : Retried (processing cfg objectHash) State.Same () (msg.program cfg) cuttable s cuts w) :
    (∀ c ∈ cuts, Looked.Untouched Req.Inert c.world) ∧ Looked.Untouched Req.Inert w := by
  induction h with
  | completed h => exact ⟨by simp, untouched_of_holds hs hne hheld h⟩
  | @cut s s' c cuts w h _ hsame _ ih =>
    have hle := (processing_faithful cfg objectHash).le_of_run h
    obtain ⟨hcuts, hw⟩ := ih ((hheld.later hle).of_same hsame)
    exact ⟨by simpa using ⟨untouched_of_holds hs hne hheld h, hcuts⟩, hw⟩

lemma harmless_of_cuts {cuttable : Async.Config Req Req.Answer Unit Meanwhile State → Prop}
    {cuts : List (Async.Config Req Req.Answer Unit Meanwhile State)}
    {w : World Req Req.Answer Unit Meanwhile State} (hs : msg.strategy.isHybrid = true)
    (h : Retried (processing cfg objectHash) State.Same () (msg.program cfg) cuttable s cuts w)
    (hcuts : ∀ c ∈ cuts, HarmlessCut msg c) : Harmless Req.Inert Req.Passing cuts w := by
  induction h with
  | completed h => exact .last
  | @cut s s' c cuts w h _ hsame hagain ih =>
    cases hcuts c (by simp) with
    | before hc => exact .untouched hc (ih fun c' hc' => hcuts c' (by simp [hc']))
    | after hleft hne hheld =>
      obtain ⟨hall, hw⟩ := retried_untouched hs hne (hheld.of_same hsame) hagain
      exact .through hleft hall hw

/-- However often a message for a hybrid strategy is delivered again, the databases and the chains
are as after one processing of it, if no crash hits an attempt between the changes it makes. -/
theorem redelivery_as_once {cuts : List (Async.Config Req Req.Answer Unit Meanwhile State)}
    {w : World Req Req.Answer Unit Meanwhile State} (hs : msg.strategy.isHybrid = true)
    (h : Retried (processing cfg objectHash) State.Same () (msg.program cfg) Unacknowledged s cuts
      w)
    (hcuts : ∀ c ∈ cuts, HarmlessCut msg c) :
    AsOnce (processing cfg objectHash) State.Same () (msg.program cfg) Req.Lasts s
      (attempts cuts w) w.state :=
  h.asOnce (processing_looked cfg objectHash) (harmless_of_cuts hs h hcuts)

end Message

/-! ### Attempts to try statements on -/

/-- An attempt at a message along a schedule. -/
def attemptFrom (s : State) (moves : List (Move Req Req.Answer Meanwhile State)) :
    Option (Async.Config Req Req.Answer Unit Meanwhile State) :=
  (Config.begin () (anchoredMessage.program connectedConfig) s).play
    (processing connectedConfig fun _ => []) moves

/-- The message is handed over and not yet acknowledged. -/
def handedOverAttempt : Option (Async.Config Req Req.Answer Unit Meanwhile State) :=
  attemptFrom .start (List.replicate 5 (.act 0 State.prompt))

/-- The row is inserted and nothing else has been done. -/
def insertedAttempt : Option (Async.Config Req Req.Answer Unit Meanwhile State) :=
  attemptFrom .start [.act 0 State.prompt]

/-- The row is refused and the message acknowledged. -/
def refusedAttempt (s : State) : Option (Async.Config Req Req.Answer Unit Meanwhile State) :=
  attemptFrom s [.act 0 refusing, .act 0 State.prompt, .act 0 State.prompt]

/-- An attempt that is cut off, and one that is refused the row. -/
lemma retried_once (moves : List (Move Req Req.Answer Meanwhile State))
    {c : Async.Config Req Req.Answer Unit Meanwhile State}
    {w : World Req Req.Answer Unit Meanwhile State} (hc : attemptFrom .start moves = some c)
    (hack : Unacknowledged c) (hw : refusedAttempt c.world.state = some ⟨w, []⟩) :
    Retried (processing connectedConfig fun _ => []) State.Same ()
      (anchoredMessage.program connectedConfig) Unacknowledged .start [c] w :=
  .cut (Run.of_play hc) hack (.refl _) (.completed (Run.of_play hw))

theorem handed_over_redelivered :
    ∃ (h : handedOverAttempt.isSome)
      (h' : (refusedAttempt (handedOverAttempt.get h).world.state).isSome),
      let c := handedOverAttempt.get h
      let w := ((refusedAttempt c.world.state).get h').world
      AsOnce (processing connectedConfig fun _ => []) State.Same ()
        (anchoredMessage.program connectedConfig) Req.Lasts .start (attempts [c] w) w.state := by
  refine ⟨rfl, rfl, ?_⟩
  have hretried := retried_once (List.replicate 5 (.act 0 State.prompt))
    (c := handedOverAttempt.get rfl) rfl (by decide) rfl
  refine redelivery_as_once ?_ hretried ?_
  · rfl
  intro c hc
  obtain rfl := List.mem_singleton.mp hc
  refine .after ?_ ?_ ?_
  · intro p hp
    obtain rfl := List.mem_singleton.mp hp
    exact ⟨trivial, fun _ => trivial⟩
  · exact List.cons_ne_nil _ _
  · intro x hx
    obtain rfl := List.mem_singleton.mp hx
    show ∃ r ∈ ((handedOverAttempt.get rfl).world.state.dbs .postgres).logs (.anchored .priv),
      r.id = [0x61]
    decide

/-- The requests of a handler of a log for the private chain, up to the transaction. -/
lemma program_anchored (cfg : ServerConfig) (dto : EntryDTO) (correlationId : JsString)
    (enqueuedAt : ℕ) : ∃ row k,
    SubmitMessage.program cfg ⟨.entry dto, .hybridPrivate, .postgres, correlationId, none,
      enqueuedAt⟩ = .call (.insert .postgres (.anchored .priv) row) k ∧
    (∀ err, k (Except.error err : Except JsError Unit) = .call .ack fun _ => .pure ()) ∧
    ∃ next, k (Except.ok () : Except JsError Unit) = .call .now next ∧
      ∀ ms : ℕ, ∃ tx last, next ms = .call (.submit tx) last := by
  have hinsert (db : Db) (log : LogEntry) (contentHash : JsString) (table : LogTable) :
      (insertAnchored db log contentHash table).run =
        .call (.insert db table (anchoredRow db log contentHash table)) fun r => .pure r := rfl
  have hnow : now.run = .call .now fun ms => .pure (.ok ms) := rfl
  have hack : ack.run = .call .ack fun _ => .pure (.ok ()) := rfl
  have hsubmit (mode : AnchorMode) (args : Bytes) : (ExonumAnchor.submitTxBytes cfg mode args).run =
      .call (.submit (.exonum ⟨mode.service, args, cfg.exonumAuthor⟩)) fun r => .pure r := rfl
  simp only [SubmitMessage.program, consume, submitHandler, submitWrite, pickStorage,
    pickStorage.ofDb, reduceCtorEq, false_and, if_false, Storage.writeLog, HybridStorage.writeLog,
    Anchor.writeLog, ExonumAnchor.writeLog, replyIfAsked, replyQueue, Option.filter_none, hinsert,
    hnow, hack, hsubmit,
    Task.run_bind, Task.run_tryCatch, Task.run_finallyDo, Prog.call_bind, Prog.detach]
  refine ⟨_, _, rfl, fun err => ?_, ?_⟩
  · simp only [Prog.pure_bind', Task.run_pure, Prog.call_bind, WriteResult.failed]
  · simp only [Prog.pure_bind', Prog.call_bind]
    exact ⟨_, rfl, fun ms => ⟨_, _, rfl⟩⟩

/-- A transaction is sent. -/
def sends : Event Req Req.Answer Unit Meanwhile → Bool
  | .call _ (.submit _) _ => true
  | _ => false

theorem inserted_row_left_pending : ¬∀ (cfg : ServerConfig) (objectHash : ObjectHash)
    (msg : SubmitMessage) (s : State)
    (cuts : List (Async.Config Req Req.Answer Unit Meanwhile State))
    (w : World Req Req.Answer Unit Meanwhile State), msg.strategy.isHybrid = true →
    Retried (processing cfg objectHash) State.Same () (msg.program cfg) Unacknowledged s cuts w →
    AsOnce (processing cfg objectHash) State.Same () (msg.program cfg) Req.Lasts s
      (attempts cuts w) w.state := by
  intro hall
  have hretried := retried_once [.act 0 State.prompt]
    (c := insertedAttempt.get rfl) rfl (by decide) rfl
  obtain ⟨v, hrun, hsame, hout, hlast⟩ := hall _ _ _ _ _ _ rfl hretried
  have hquiet : outside v.trace = [] := hout
  have hunsent : ∀ u ∈ attempts [insertedAttempt.get rfl]
      ((refusedAttempt (insertedAttempt.get rfl).world.state).get rfl).world,
      ∀ ev ∈ u.trace, sends ev = false := by decide
  obtain ⟨row, k, hprogram, herror, next, hok, hsubmit⟩ := program_anchored connectedConfig
    (toDTO (.create [0x61] .epoch infoLevel [] (ofString "hello") none)) [0x63] 0
  rw [Config.begin, anchoredMessage, hprogram] at hrun
  obtain ⟨r, s₁, hs₁, hrun₁⟩ := Run.head_call hrun hquiet
  cases r with
  | error err =>
    -- the message is acknowledged without a row
    cases hs₁
    rw [herror] at hrun₁
    obtain ⟨_, s₂, hs₂, hrun₂⟩ := Run.head_call hrun₁ hquiet
    cases hs₂
    have hv := Run.head_done hrun₂ hquiet
    have hrows := congrArg (fun dbs => (dbs Db.postgres).logs (.anchored .priv)) hsame.dbs
    rw [hv] at hrows
    cases hrows
  | ok _ =>
    -- the transaction is sent next, which no attempt has done
    rw [hok] at hrun₁
    obtain ⟨ms, s₂, hs₂, hrun₂⟩ := Run.head_call hrun₁ hquiet
    obtain ⟨tx, last, hlast'⟩ := hsubmit ms
    rw [hlast'] at hrun₂
    obtain ⟨r₃, s₃, hs₃, hrun₃⟩ := Run.head_call hrun₂ hquiet
    have hd : Did () _ r₃ v.trace := (Run.trace_le hrun₃).subset (List.mem_append_right _
      (List.mem_singleton_self _))
    obtain ⟨u, hu, hd⟩ := hlast () _ r₃ trivial hd
    exact Bool.noConfusion (hunsent u hu _ hd)

end HybridLog
