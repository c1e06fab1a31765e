import HybridLog.Async.Schedule
import HybridLog.Queue.Settled
import HybridLog.System.Accept

/-!
# Statuses move forward

The handler of a confirm message writes one status. So a row that is settled is written again only
if its message is handed out once more after that, or while it is still being handled.
-/

namespace HybridLog

open Js Async

variable {cfg : ServerConfig} {objectHash : ObjectHash} {seq : ℕ} {msg : ConfirmMessage}

/-! ### The one write of a handler -/

/-- A request that writes a status. -/
def Req.isUpdate : Req → Bool
  | .updateAnchorStatus .. | .updateBatchAnchorStatus .. => true
  | _ => false

lemma Req.WritesStatus.isUpdate {k : StatusKey} {st : AnchorStatus} {e : Req}
    (h : e.WritesStatus k st) : e.isUpdate = true := by
  cases h <;> rfl

/-- A handler of message `seq` has the right to write a status, once. -/
def updateTariff (seq : ℕ) (msg : ConfirmMessage) :
    Tariff Req Req.Answer Tag Delivery Unit where
  allowed _ := True
  gain _ _ _ := 0
  cost
    | .confirm seq' msg', e, _ => if (seq', msg') = (seq, msg) ∧ e.isUpdate = true then {()} else 0
    | _, _, _ => 0
  left := ⊤

/-- What a delivery gives to the handlers of message `seq`. -/
def Delivery.rights (seq : ℕ) (msg : ConfirmMessage) : Delivery → Multiset Unit
  | .server (.deliverConfirm seq' msg') => if (seq', msg') = (seq, msg) then {()} else 0
  | _ => 0

@[simp] lemma updateTariff_gain (t : Tag) (e : Req) (r : e.Answer) :
    (updateTariff seq msg).gain t e r = 0 := rfl

lemma updateTariff_free {t : Tag} {e : Req} (h : t = .confirm seq msg → e.isUpdate = false) :
    (updateTariff seq msg).Free t e := by
  intro r
  refine ⟨rfl, ?_⟩
  cases t with
  | confirm seq' msg' =>
    refine if_neg ?_
    rintro ⟨heq, he⟩
    cases heq
    rw [h rfl] at he
    cases he
  | _ => rfl

lemma updateTariff_idle {t : Tag} (h : t ≠ .confirm seq msg) (e : Req) :
    (updateTariff seq msg).Free t e := updateTariff_free fun heq => absurd heq h

lemma updateTariff_cost {e : Req} {r : e.Answer} (h : e.isUpdate = true) :
    (updateTariff seq msg).cost (.confirm seq msg) e r = {()} := if_pos ⟨rfl, h⟩

/-- A task of a handler of message `seq` that writes no more than it may. -/
abbrev WithinRights (seq : ℕ) (msg : ConfirmMessage) {α : Type} (p : Io α) (m : Multiset Unit) :
    Prop :=
  PaysTask (updateTariff seq msg) (.confirm seq msg) (fun _ _ => True) (fun _ _ => True) p m

/-- A task that writes no status. -/
lemma withinRights_of_free {α : Type} {P : Guard Req Req.Answer Tag Delivery}
    {Q : α → RedeliveryTrace → Prop} {Er : JsError → RedeliveryTrace → Prop} {p : Io α}
    {tr : RedeliveryTrace} (h : FollowsTask P (.confirm seq msg) Q Er p tr)
    (hP : ∀ e tr', P (.confirm seq msg) e tr' → e.isUpdate = false) (m : Multiset Unit) :
    PaysTask (updateTariff seq msg) (.confirm seq msg) (fun _ m' => m' = m) (fun _ m' => m' = m) p
      m := by
  apply PaysTask.weaken (PaysTask.of_free h (fun e tr' he => updateTariff_free fun _ => hP e tr' he)
    m)
  · exact fun _ _ h => h.2
  · exact fun _ _ h => h.2

lemma Req.Looks.not_update {e : Req} (h : e.Looks) : e.isUpdate = false := by
  cases e with
  | getTransaction _ _ | getReceipt _ _ | getBlockNumber _ | waitReceipt _ | now => rfl
  | _ => exact h.elim

lemma withinRights_request {α : Type} {e : Req} {k : e.Answer → Except JsError α}
    {m : Multiset Unit} (h : e.isUpdate = true → m = {()}) :
    WithinRights seq msg (Task.request e k) m := by
  apply PaysTask.request
  intro r _
  cases he : e.isUpdate with
  | true =>
    refine ⟨0, ?_, ?_⟩
    · rw [h he, updateTariff_cost he]
      rfl
    · split <;> trivial
  | false =>
    have hfree : (updateTariff seq msg).Free (.confirm seq msg) e := updateTariff_free fun _ => he
    refine ⟨m, ?_, ?_⟩
    · obtain ⟨hgain, hcost⟩ := hfree r
      rw [hgain, hcost, add_zero, zero_add]
    · split <;> trivial

lemma confirmUpdate_withinRights (strategy : LogStrategy) (raw : ConfirmMessage) (r : TxCheck) :
    WithinRights seq msg (confirmUpdate cfg strategy raw r) {()} := by
  have hnow : FollowsTask LookStep (Tag.confirm seq msg) (fun _ _ => True) (fun _ _ => False)
      (anchoredNow (some r.confirmed)) ([] : RedeliveryTrace) :=
    FollowsTask.weaken (anchoredNow_follows (some r.confirmed) _ []) (fun _ _ _ _ => trivial)
      fun _ _ _ h => h
  rw [confirmUpdate]
  split
  · split
    · exact PaysTask.throw trivial
    · apply PaysTask.bind
      apply PaysTask.weaken (withinRights_of_free hnow (fun _ _ h => Req.Looks.not_update h) {()})
      · rintro anchoredAt _ rfl
        split
        · exact withinRights_request fun _ => rfl
        · exact withinRights_request fun _ => rfl
      · exact fun _ _ _ => trivial
  · exact PaysTask.pure trivial

lemma withinRights_plain {α : Type} {e : Req} {k : e.Answer → Except JsError α} {m : Multiset Unit}
    (h : e.isUpdate = false) : WithinRights seq msg (Task.request e k) m :=
  withinRights_request fun he => by
    rw [h] at he
    cases he

lemma replyIfAsked_withinRights {Er : JsError → Multiset Unit → Prop} (replyTo : Option JsString)
    (result : ResultMessage) (m : Multiset Unit) :
    PaysTask (updateTariff seq msg) (.confirm seq msg) (fun _ _ => True) Er
      (replyIfAsked replyTo result) m := by
  rw [replyIfAsked]
  cases replyQueue replyTo with
  | none => exact PaysTask.pure trivial
  | some queue =>
    apply PaysTask.tryCatch
    apply PaysTask.weaken (withinRights_plain rfl)
    · exact fun _ _ _ => trivial
    · exact fun _ _ _ => PaysTask.pure trivial

/-- The handler of a confirm message writes at most one status. -/
lemma confirmHandler_withinRights (strategy : LogStrategy) (raw : ConfirmMessage) :
    WithinRights seq msg (confirmHandler cfg strategy raw) {()} := by
  have hpoll : FollowsTask LookStep (Tag.confirm seq msg)
      (fun r tr => Polled cfg raw.txHash (.confirm seq msg) tr raw.chain r) (fun _ _ => False)
      (pollFrom cfg raw.chain raw.txHash ⟨false, true⟩ 60 0) ([] : RedeliveryTrace) :=
    pollFrom_follows cfg raw.txHash _ raw.chain 60 0 _ [] rfl nofun
  have hack (m : Multiset Unit) : WithinRights seq msg ack m := withinRights_plain rfl
  have hbody : WithinRights seq msg (tryCatch (do
      let r ← pollFrom cfg raw.chain raw.txHash ⟨false, true⟩ 60 0
      confirmUpdate cfg strategy raw r
      replyIfAsked raw.replyTo ⟨raw.correlationId, r.confirmed, some raw.txHash, none⟩)
      fun err => replyIfAsked raw.replyTo ⟨raw.correlationId, false, none, some err⟩) {()} := by
    apply PaysTask.tryCatch
    apply PaysTask.bind
    apply PaysTask.weaken (withinRights_of_free hpoll (fun _ _ h => Req.Looks.not_update h) {()})
    · rintro r _ rfl
      apply PaysTask.bind
      apply PaysTask.weaken (confirmUpdate_withinRights strategy raw r)
      · exact fun _ _ _ => replyIfAsked_withinRights _ _ _
      · exact fun _ _ _ => replyIfAsked_withinRights _ _ _
    · exact fun _ _ _ => replyIfAsked_withinRights _ _ _
  apply PaysTask.finallyDo
  apply PaysTask.weaken hbody
  · exact fun _ m _ => hack m
  · exact fun _ m _ => hack m

lemma consume_withinRights (strategy : LogStrategy) (raw : ConfirmMessage) :
    Pays (updateTariff seq msg) (.confirm seq msg) (fun _ m => m ∈ (updateTariff seq msg).left)
      (consume (confirmHandler cfg strategy raw)).run.detach {()} := by
  apply PaysTask.detach
  apply PaysTask.tryCatch
  apply PaysTask.weaken (confirmHandler_withinRights strategy raw)
  · exact fun _ _ _ => AddSubmonoid.mem_top _
  · intro _ m _
    apply PaysTask.weaken (withinRights_plain (e := .nack) rfl)
    · exact fun _ _ _ => AddSubmonoid.mem_top _
    · exact fun _ _ _ => AddSubmonoid.mem_top _

/-- A delivery of message `seq` starts a handler that may write one status; no other program may
write one for it. -/
lemma accept_rights {x : Delivery} {s s' : State} {ps : List (Tag × Prog Req Req.Answer Unit)}
    (h : (atLeastOnce cfg objectHash).accept x s = some (s', ps)) :
    PoolPays (updateTariff seq msg) ps (x.rights seq msg) := by
  rcases atLeastOnce_accept cfg objectHash h with ⟨y, rfl, hy⟩ | ⟨seq', msg', rfl, -, rfl⟩
  · have hidle {t : Tag} {p : Prog Req Req.Answer Unit} (ht : t ≠ .confirm seq msg) :
        PoolPays (updateTariff seq msg) [(t, p)] 0 :=
      .single (.idle (updateTariff_idle ht) fun _ => AddSubmonoid.mem_top _)
    cases State.accept_eq_some hy with
    | post | flush | deliverSubmit => exact hidle nofun
    | enqueue | expire | chain => exact .nil
    | @deliverConfirm seq' msg' _ =>
      by_cases heq : (seq', msg') = (seq, msg)
      · cases heq
        rw [Delivery.rights, if_pos rfl]
        exact .single (consume_withinRights _ _)
      · rw [Delivery.rights, if_neg heq]
        exact hidle fun h => heq (by cases h; rfl)
  · exact .nil

/-! ### Runs -/

/-- A confirm message whose handler runs has been delivered. -/
lemma delivered_of_running {c : RedeliveryConfig} (h : Reach (atLeastOnce cfg objectHash) .start c) :
    ∀ p ∈ c.procs, p.1 = .confirm seq msg →
      .ext (.server (.deliverConfirm seq msg)) ∈ c.world.trace := by
  apply h.tagged (P := fun t tr => t = .confirm seq msg →
    .ext (.server (.deliverConfirm seq msg)) ∈ tr)
  · exact fun t tr tr' h htr ht => htr.subset (h ht)
  · intro x s s' ps tr hs p hp ht
    rcases atLeastOnce_accept cfg objectHash hs with ⟨y, rfl, hy⟩ | ⟨_, _, rfl, -, rfl⟩
    · cases State.accept_eq_some hy with
      | deliverConfirm =>
        cases List.mem_singleton.mp hp
        cases ht
        exact List.mem_append_right _ (List.mem_singleton_self _)
      | post | flush | deliverSubmit =>
        cases List.mem_singleton.mp hp
        cases ht
      | enqueue | expire | chain => cases hp
    · cases hp

/-- Message `seq` may be handed out: no handler of it runs, and what it names is not settled. -/
structure Due (c : RedeliveryConfig) (seq : ℕ) (msg : ConfirmMessage) : Prop where
  unhandled : ∀ p ∈ c.procs, p.1 ≠ .confirm seq msg
  unsettled : ∀ k, msg.statusKey = some k → ¬c.world.state.Settled k

variable (cfg objectHash) in
/-- A step in which no confirm message is handed out that is not due. -/
structure InTime (c c' : RedeliveryConfig) : Prop where
  step : Step (atLeastOnce cfg objectHash) c c'
  due : ∀ seq msg, c'.world.trace = c.world.trace ++ [.ext (.server (.deliverConfirm seq msg))] →
    Due c seq msg

lemma run_of_inTime {c c' : RedeliveryConfig}
    (h : Relation.ReflTransGen (InTime cfg objectHash) c c') :
    Run (atLeastOnce cfg objectHash) c c' := by
  induction h with
  | refl => exact .refl
  | tail _ hstep ih => exact ih.tail hstep.step

/-- The handlers of message `seq` have the right to one write at most, and to none once the row that
the message names is settled. -/
def Licensed (seq : ℕ) (msg : ConfirmMessage) (c : RedeliveryConfig) : Prop :=
  ∃ dues, PoolPays (updateTariff seq msg) c.procs dues ∧ dues ≤ {()} ∧
    ∀ k, msg.statusKey = some k → c.world.state.Settled k → dues = 0

lemma State.settled_congr {s s' : State} (h : s'.dbs = s.dbs) {k : StatusKey} :
    s'.Settled k ↔ s.Settled k := by
  cases k <;> simp only [Settled, h]

/-- A program that writes the status of a row has inserted it, and then no message for the row has
been published before, or it handles the message for the row. -/
lemma writer_cases {c c' : RedeliveryConfig} (h : Reach (atLeastOnce cfg objectHash) .start c)
    (h' : Reach (atLeastOnce cfg objectHash) .start c') (hroots : RootsOnce c'.world.trace) {t : Tag}
    {e : Req} {r : e.Answer} (htrace : c'.world.trace = c.world.trace ++ [.call t e r])
    (hs : e.succeeds r = true) {k : StatusKey} {st : AnchorStatus} (hw : e.WritesStatus k st) :
    t.writes = true ∧ (taken c.world.trace).count (.write k) = 0 ∧
        (taken c.world.trace).count (.handOver k) = 0 ∨
      ∃ seq msg, t = .confirm seq msg ∧ msg.statusKey = some k ∧
        ∃ t', Published c.world.trace t' seq msg := by
  cases ht : t.writes with
  | true => exact .inl ⟨rfl, first_write h' htrace h hroots ⟨e, r, rfl, hs, hw⟩ ht⟩
  | false =>
    cases t with
    | confirm seq msg =>
      have hstep := atLeastOnce_guarded h' c.world.trace _ e r [] htrace
      exact .inr ⟨seq, msg, rfl, published_of_writes h hstep List.prefix_rfl hw⟩
    | _ => cases ht

/-- Whoever has written the status of a row has taken a right to do so. -/
lemma taken_of_wrote {c : RedeliveryConfig} (h : Reach (atLeastOnce cfg objectHash) .start c)
    {ev : Event Req Req.Answer Tag Delivery} (hev : ev ∈ c.world.trace) {t : Tag} {k : StatusKey}
    {st : AnchorStatus} (hw : Wrote t k st ev) :
    0 < (taken c.world.trace).count (.write k) ∨ 0 < (taken c.world.trace).count (.handOver k) := by
  obtain ⟨pre, post, hsplit⟩ := List.append_of_mem hev
  cases ht : t.writes with
  | true =>
    left
    rw [hsplit, taken_append, taken_cons, hw.taken ht, Multiset.count_add, Multiset.count_add,
      Multiset.count_singleton_self]
    omega
  | false =>
    right
    obtain ⟨e, r, rfl, -, hwrites⟩ := hw
    cases t with
    | confirm seq msg =>
      obtain ⟨hk, t', hp⟩ := published_of_writes h (atLeastOnce_guarded h pre _ e r post hsplit)
        ⟨_, hsplit.symm⟩ hwrites
      exact taken_of_published hp hk
    | _ => cases ht

lemma Delivery.rights_eq_zero {x : Delivery} (h : x ≠ .server (.deliverConfirm seq msg)) :
    x.rights seq msg = 0 := by
  cases x with
  | requeue _ _ => rfl
  | server y => cases y with
    | deliverConfirm seq' msg' =>
      refine if_neg fun heq => h ?_
      cases heq
      rfl
    | _ => rfl

/-- A step charges nothing unless it hands the message out. -/
lemma charged_eq_zero {new : RedeliveryTrace} (hlen : new.length ≤ 1)
    (hnew : new ≠ [.ext (.server (.deliverConfirm seq msg))]) :
    (new.map ((updateTariff seq msg).charged (Delivery.rights seq msg))).sum = 0 := by
  rcases new with _ | ⟨ev, _ | ⟨ev', rest⟩⟩
  · rfl
  · cases ev with
    | call t e r => rfl
    | ext x =>
      have hx : x.rights seq msg = 0 := Delivery.rights_eq_zero fun hx => hnew (by rw [hx])
      simpa [Tariff.charged] using hx
  · simp at hlen

/-- A message that is handed out when it is due gives its handler the right to one write. -/
lemma Licensed.handedOut {c c' : RedeliveryConfig} (hstep : InTime cfg objectHash c c')
    (hnew : c'.world.trace = c.world.trace ++ [.ext (.server (.deliverConfirm seq msg))]) :
    Licensed seq msg c' := by
  have hdue := hstep.due seq msg hnew
  have hidle : PoolPays (updateTariff seq msg) c.procs 0 :=
    .idle fun p hp => updateTariff_idle (hdue.unhandled p hp)
  obtain ⟨new, dues, left, htrace, -, hpool, -, hsum⟩ :=
    hidle.step (fun _ _ _ _ => accept_rights) hstep.step fun _ _ => trivial
  have hsame : c'.world.state.dbs = c.world.state.dbs := by
    rcases step_dbs hstep.step with hsame | ⟨t, e, r, s, -, -, hcall⟩
    · exact hsame
    · rw [hcall] at hnew
      cases List.append_cancel_left hnew
  obtain rfl := List.append_cancel_left (hnew.symm.trans htrace)
  refine ⟨dues, hpool, ?_, ?_⟩
  · have hsum' : {()} = dues + left := by
      simpa [Tariff.charged, Tariff.paid, Delivery.rights] using hsum
    exact hsum' ▸ Multiset.le_add_right _ _
  · intro k hk hsettled
    exact absurd ((State.settled_congr hsame).mp hsettled) (hdue.unsettled k hk)

/-- A step that settles the row which a delivered message names is the write of a handler of the
message. -/
lemma settled_by_handler {c c' : RedeliveryConfig} (h : Reach (atLeastOnce cfg objectHash) .start c)
    (hstep : Step (atLeastOnce cfg objectHash) c c') (hroots : RootsOnce c'.world.trace)
    (hrun : ∃ p ∈ c'.procs, p.1 = .confirm seq msg) {k : StatusKey} (hk : msg.statusKey = some k)
    (hbefore : ¬c.world.state.Settled k) (hsettled : c'.world.state.Settled k) :
    ∃ (e : Req) (r : e.Answer),
      c'.world.trace = c.world.trace ++ [.call (.confirm seq msg) e r] ∧ e.isUpdate = true := by
  have h' := h.tail hstep
  rcases step_dbs hstep with hsame | ⟨t, e, r, s, heffect, hdbs, hcall⟩
  · exact absurd ((State.settled_congr hsame).mp hsettled) hbefore
  have hinserts := (atLeastOnce_guarded h' _ t e r [] hcall).insertsPending
  rcases settled_before heffect hinserts ((State.settled_congr hdbs).mp hsettled) with
    hold | ⟨st, hs, hw⟩
  · exact absurd hold hbefore
  obtain ⟨p, hp, ht⟩ := hrun
  have hdelivered := delivered_of_running h' p hp ht
  rw [hcall] at hdelivered
  obtain ⟨t₀, hp₀⟩ := (delivers h).delivered seq msg
    ((List.mem_append.mp hdelivered).resolve_right (by simp))
  rcases writer_cases h h' hroots hcall hs hw with ⟨-, -, hnone⟩ | ⟨seq', msg', rfl, hk', t₁, hp₁⟩
  · -- the writer of the row hands its message out only later
    have hpos := taken_of_published hp₀ hk
    omega
  · obtain ⟨rfl, rfl⟩ := published_once h (hroots.mono hstep.trace_le) hp₀ hp₁ hk hk'
    exact ⟨e, r, hcall, hw.isUpdate⟩

/-- A step in time keeps the licences. -/
lemma Licensed.step {c c' : RedeliveryConfig} (h : Reach (atLeastOnce cfg objectHash) .start c)
    (hstep : InTime cfg objectHash c c') (hroots : RootsOnce c'.world.trace)
    (hl : Licensed seq msg c) : Licensed seq msg c' := by
  by_cases hrun : ∃ p ∈ c'.procs, p.1 = .confirm seq msg
  case neg =>
    -- no handler of the message runs
    exact ⟨0, .idle fun p hp => updateTariff_idle fun ht => hrun ⟨p, hp, ht⟩, Multiset.zero_le _,
      fun _ _ _ => rfl⟩
  by_cases hnew : c'.world.trace = c.world.trace ++ [.ext (.server (.deliverConfirm seq msg))]
  · exact .handedOut hstep hnew
  obtain ⟨dues, hpool, hle, hzero⟩ := hl
  obtain ⟨new, dues', left, htrace, hlen, hpool', -, hsum⟩ :=
    hpool.step (fun _ _ _ _ => accept_rights) hstep.step fun _ _ => trivial
  rw [charged_eq_zero hlen fun h => hnew (h ▸ htrace), add_zero] at hsum
  have hle' : dues' ≤ dues := by
    rw [hsum]
    exact (Multiset.le_add_left _ _).trans (Multiset.le_add_right _ _)
  refine ⟨dues', hpool', hle'.trans hle, fun k hk hsettled => ?_⟩
  by_cases hbefore : c.world.state.Settled k
  · exact Multiset.le_zero.mp (hle'.trans_eq (hzero k hk hbefore))
  -- the row is settled now, and the handler that has done so has paid for it
  obtain ⟨e, r, hcall, hupdate⟩ := settled_by_handler h hstep.step hroots hrun hk hbefore hsettled
  obtain rfl := List.append_cancel_left (hcall.symm.trans htrace)
  have hpaid : dues = {()} + dues' + left := by
    simpa [Tariff.paid, updateTariff_cost hupdate] using hsum
  have hcard : dues.card ≤ 1 := Multiset.card_le_card hle
  rw [hpaid, Multiset.card_add, Multiset.card_add, Multiset.card_singleton] at hcard
  exact Multiset.card_eq_zero.mp (by omega)

lemma licensed {c : RedeliveryConfig}
    (h : Relation.ReflTransGen (InTime cfg objectHash) (Config.start .start) c)
    (hroots : RootsOnce c.world.trace) (seq : ℕ) (msg : ConfirmMessage) : Licensed seq msg c := by
  induction h with
  | refl => exact ⟨0, .nil, Multiset.zero_le _, fun _ _ _ => rfl⟩
  | tail hrun hstep ih =>
    exact (ih (hroots.mono hstep.step.trace_le)).step (run_of_inTime hrun) hstep hroots

/-- In a run in time, a row that has settled is not changed. -/
lemma StatusTable.settled_stays {Row : Type} (table : StatusTable Row)
    (hkey : ∀ s : State, ∀ row ∈ table.rows s.dbs, table.Settled row → s.Settled (table.key row))
    {c c' : RedeliveryConfig}
    (h : Relation.ReflTransGen (InTime cfg objectHash) (Config.start .start) c)
    (hrun : Relation.ReflTransGen (InTime cfg objectHash) c c') (hroots : RootsOnce c'.world.trace)
    {row : Row} (hrow : row ∈ table.rows c.world.state.dbs) (hsettled : table.Settled row) :
    row ∈ table.rows c'.world.state.dbs := by
  induction hrun with
  | refl => exact hrow
  | @tail c₁ c₂ hrun hstep ih =>
    have hroots₁ := hroots.mono hstep.step.trace_le
    have hmem := ih hroots₁
    have h₁ := run_of_inTime (h.trans hrun)
    rcases step_dbs hstep.step with hsame | ⟨t, e, r, s, heffect, hdbs, htrace⟩
    · rwa [hsame]
    rw [hdbs]
    rcases table.keeps heffect row hmem with hkept | ⟨st, hs, hw⟩
    · exact hkept
    exfalso
    rcases writer_cases h₁ (h₁.tail hstep.step) hroots htrace hs hw with
      ⟨-, hwrite, hhand⟩ | ⟨seq, msg, rfl, hk, -⟩
    · -- the status has been written before
      obtain ⟨t₀, st₀, -, ev, hev, hw₀⟩ := table.wrote h₁ hmem hsettled
      have htaken := taken_of_wrote h₁ hev hw₀
      omega
    · obtain ⟨dues, hpool, -, hzero⟩ := licensed (h.trans hrun) hroots₁ seq msg
      rw [hzero _ hk (hkey _ row hmem hsettled)] at hpool
      obtain ⟨new, dues', left, hnew, -, -, -, hsum⟩ :=
        hpool.step (fun _ _ _ _ => accept_rights) hstep.step fun _ _ => trivial
      obtain rfl := List.append_cancel_left (htrace.symm.trans hnew)
      simp [Tariff.charged, Tariff.paid, updateTariff_cost hw.isUpdate] at hsum

/-- With a broker that delivers confirm messages at least once: if no root of a batch is used twice,
and no confirm message is handed out while a handler of it runs or after the row or record it names
has settled, then what is settled stays as it is. -/
theorem settled_rows_stay {c c' : RedeliveryConfig}
    (h : Relation.ReflTransGen (InTime cfg objectHash) (Config.start .start) c)
    (hrun : Relation.ReflTransGen (InTime cfg objectHash) c c') (hroots : RootsOnce c'.world.trace)
    (db : Db) (side : Side) :
    (∀ row ∈ (c.world.state.dbs db).logs (.anchored side), row.Settled →
        row ∈ (c'.world.state.dbs db).logs (.anchored side)) ∧
      ∀ row ∈ (c.world.state.dbs db).batches side, row.Settled →
        row ∈ (c'.world.state.dbs db).batches side :=
  ⟨fun _ hrow hsettled => (anchoredTable db side).settled_stays
      (fun _ row hmem hrow => ⟨row, hmem, rfl, hrow⟩) h hrun hroots hrow hsettled,
    fun _ hrow hsettled => (batchesTable db side).settled_stays
      (fun _ row hmem hrow => ⟨row, hmem, rfl, hrow⟩) h hrun hroots hrow hsettled⟩

/-! ### Schedules in time -/

instance : DecidablePred LogRow.Settled := fun r =>
  decidable_of_iff (r.anchorStatus ≠ none ∧ r.anchorStatus ≠ some .pending) <| by
    unfold LogRow.Settled
    cases r.anchorStatus <;> simp

instance : DecidablePred BatchRow.Settled := fun r =>
  inferInstanceAs (Decidable (r.anchorStatus ≠ .pending))

instance (s : State) : DecidablePred s.Settled
  | .log db side id => inferInstanceAs
    (Decidable (∃ r ∈ (s.dbs db).logs (.anchored side), r.id = id ∧ r.Settled))
  | .batch db side root => inferInstanceAs
    (Decidable (∃ r ∈ (s.dbs db).batches side, r.merkleRoot = root ∧ r.Settled))

/-- The confirm message a program handles. -/
def Tag.confirmed : Tag → Option (ℕ × ConfirmMessage)
  | .confirm seq msg => some (seq, msg)
  | _ => none

lemma Tag.confirmed_eq_some {t : Tag} : t.confirmed = some (seq, msg) ↔ t = .confirm seq msg := by
  cases t <;> simp [confirmed]

instance (c : RedeliveryConfig) (seq : ℕ) (msg : ConfirmMessage) : Decidable (Due c seq msg) :=
  decidable_of_iff ((∀ p ∈ c.procs, p.1.confirmed ≠ some (seq, msg)) ∧
      ∀ k ∈ msg.statusKey, ¬c.world.state.Settled k)
    ⟨fun h => ⟨fun p hp ht => h.1 p hp (Tag.confirmed_eq_some.mpr ht), h.2⟩,
      fun h => ⟨fun p hp ht => h.unhandled p hp (Tag.confirmed_eq_some.mp ht), h.unsettled⟩⟩

abbrev RedeliveryMove := Move Req Req.Answer Delivery State

variable (cfg objectHash) in
/-- The configuration at the end of a schedule, if its moves are possible and hand out only messages
that are due. -/
def playInTime : RedeliveryConfig → List RedeliveryMove → Option RedeliveryConfig
  | c, [] => some c
  | c, .ext (.server (.deliverConfirm seq msg)) :: ms =>
    if Due c seq msg then
      (c.move (atLeastOnce cfg objectHash) (.ext (.server (.deliverConfirm seq msg)))).bind fun c' =>
        playInTime c' ms
    else none
  | c, m :: ms => (c.move (atLeastOnce cfg objectHash) m).bind fun c' => playInTime c' ms

lemma inTime_of_play {ms : List RedeliveryMove} {c c' : RedeliveryConfig}
    (h : playInTime cfg objectHash c ms = some c') :
    Relation.ReflTransGen (InTime cfg objectHash) c c' := by
  fun_induction playInTime with
  | case1 c =>
    cases h
    exact .refl
  | case2 c seq msg ms hdue ih =>
    obtain ⟨c₁, hmove, hplay⟩ := Option.bind_eq_some_iff.mp h
    refine .head ⟨Step.of_move hmove, fun seq' msg' htrace => ?_⟩ (ih c₁ hplay)
    cases Config.ext_of_move hmove htrace
    exact hdue
  | case3 => cases h
  | case4 c m ms hm ih =>
    obtain ⟨c₁, hmove, hplay⟩ := Option.bind_eq_some_iff.mp h
    refine .head ⟨Step.of_move hmove, fun seq' msg' htrace => ?_⟩ (ih c₁ hplay)
    exact absurd (Config.ext_of_move hmove htrace) (hm seq' msg')

/-- An Exonum node that does not answer. -/
def State.unreachable : (e : Req) → State → e.Answer
  | .getTransaction .., _ => (Except.error "timeout" : Except JsError ExplorerType)
  | e, s => s.prompt e

/-- A node that sends a second transaction. -/
def State.second : (e : Req) → State → e.Answer
  | .submit .., _ => (Except.ok "u" : Except JsError TxHash)
  | e, s => s.prompt e

/-- Another message for the same strategy. -/
def anotherMessage : SubmitMessage :=
  { anchoredMessage with
    body := .entry (toDTO (.create [0x62] .epoch infoLevel [] (ofString "goodbye") none)) }

def anchoredConfirm : ConfirmMessage := confirmMessage .hybridPrivate anchoredMessage [0x61] "t"

/-- The row of a message is settled by the second handler of its confirm message. The first one has
got no answer, and the broker has delivered the message again. -/
def settledRun : Option RedeliveryConfig :=
  playInTime connectedConfig (fun _ => []) (Config.start State.start)
    ([.ext (.server (.enqueue anchoredMessage)),
        .ext (.server (.deliverSubmit 0 anchoredMessage))] ++
      List.replicate 7 (.act 0 State.prompt) ++
      [.ext (.server (.chain (.commit "t"))),
        .ext (.server (.deliverConfirm 1 anchoredConfirm))] ++
      List.replicate 61 (.act 0 State.unreachable) ++
      [.ext (.requeue 1 anchoredConfirm)] ++
      List.replicate 2 (.act 0 State.prompt) ++
      [.ext (.server (.deliverConfirm 1 anchoredConfirm))] ++
      List.replicate 3 (.act 0 State.prompt))

lemma settledRun_isSome : settledRun.isSome := by decide +kernel

lemma settledRun_inTime : Relation.ReflTransGen (InTime connectedConfig fun _ => [])
    (Config.start State.start) (settledRun.get settledRun_isSome) :=
  inTime_of_play (Option.some_get settledRun_isSome).symm

lemma settledRun_row : ∃ row ∈ ((settledRun.get settledRun_isSome).world.state.dbs .postgres).logs
    (.anchored .priv), row.anchorStatus = some .confirmed := by
  decide +kernel

/-- The handler ends, and another message is handled and its row settled as well. -/
def settledLater : Option RedeliveryConfig :=
  playInTime connectedConfig (fun _ => []) (settledRun.get settledRun_isSome)
    (List.replicate 2 (.act 0 State.prompt) ++
      [.ext (.server (.enqueue anotherMessage)),
        .ext (.server (.deliverSubmit 2 anotherMessage))] ++
      List.replicate 7 (.act 0 State.second) ++
      [.ext (.server (.chain (.commit "u"))),
        .ext (.server (.deliverConfirm 3
          (confirmMessage .hybridPrivate anotherMessage [0x62] "u")))] ++
      List.replicate 3 (.act 0 State.prompt))

lemma settledLater_isSome : settledLater.isSome := by decide +kernel

theorem settled_row_stays : ∃ h : settledLater.isSome,
    ∃ row ∈ ((settledRun.get settledRun_isSome).world.state.dbs .postgres).logs (.anchored .priv),
      row.Settled ∧
        row ∈ ((settledLater.get h).world.state.dbs .postgres).logs (.anchored .priv) := by
  have hroots : RootsOnce (settledLater.get settledLater_isSome).world.trace := by
    unfold RootsOnce
    decide +kernel
  obtain ⟨row, hrow, hst⟩ := settledRun_row
  have hsettled : row.Settled := ⟨_, hst, nofun⟩
  have hlater := inTime_of_play (Option.some_get settledLater_isSome).symm
  have hstay := (settled_rows_stay settledRun_inTime hlater hroots .postgres .priv).1
  exact ⟨settledLater_isSome, row, hrow, hsettled, hstay row hrow hsettled⟩

/-- The message is delivered again, and this time all polls fail. -/
def resetRun : Option RedeliveryConfig :=
  (settledRun.get settledRun_isSome).play (atLeastOnce connectedConfig fun _ => [])
    ([.ext (.requeue 1 anchoredConfirm), .ext (.server (.deliverConfirm 1 anchoredConfirm))] ++
      List.replicate 61 (.act 1 State.unreachable))

theorem settled_row_reset : ¬∀ c c' : RedeliveryConfig,
    Reach (atLeastOnce connectedConfig fun _ => []) .start c →
    Run (atLeastOnce connectedConfig fun _ => []) c c' →
    ∀ row ∈ (c.world.state.dbs .postgres).logs (.anchored .priv), row.Settled →
      row ∈ (c'.world.state.dbs .postgres).logs (.anchored .priv) := by
  intro hstay
  obtain ⟨c', hc'⟩ : ∃ c', resetRun = some c' := Option.isSome_iff_exists.mp (by decide +kernel)
  have hreset : resetRun.map (fun c => ((c.world.state.dbs .postgres).logs (.anchored .priv)).map
      LogRow.anchorStatus) = some [some .pending] := by decide +kernel
  obtain ⟨row, hrow, hst⟩ := settledRun_row
  have hkept := hstay _ c' (run_of_inTime settledRun_inTime) (Run.of_play hc') row hrow
    ⟨_, hst, nofun⟩
  rw [hc'] at hreset
  have hmem : row.anchorStatus ∈ [some AnchorStatus.pending] :=
    Option.some.inj hreset ▸ List.mem_map_of_mem hkept
  rw [hst] at hmem
  cases List.mem_singleton.mp hmem

end HybridLog
