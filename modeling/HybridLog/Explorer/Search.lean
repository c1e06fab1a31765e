import HybridLog.Async.Solo
import HybridLog.Chain.Histories
import HybridLog.Chain.Pages
import HybridLog.Core.HashService

/-!
# The search of the explorer page

The page reads all keys of a contract in pages of 50 and then the records in groups of 10, while
others go on writing. It is asynchronous code over requests to a node, each of which may fail: a page
that cannot be read ends the search with an error, a record that cannot be read is passed over.
-/

namespace HybridLog

open Js Async

/-! ### Requests of the page -/

inductive PageReq
  | getPage (offset limit : ℕ)
  | getRecord (hash : Bytes)

/-- What a node answers, or the exception of a call that reverts or does not arrive. -/
abbrev PageReq.Answer (R : Type) : PageReq → Type
  | .getPage .. => Except JsError (List Bytes)
  | .getRecord _ => Except JsError R

abbrev PageTask (R : Type) := Task PageReq (PageReq.Answer R) JsError

/-- What the list of a panel shows. -/
inductive ListView (R : Type)
  | invalidAddress
  | noRecords (forAddress : Bool)
  | cards (count : String) (cards : List (Bytes × R))
  | error (err : JsError)

/-! ### `search` -/

/-- `toLowerCase`, for the texts that are addresses. -/
def lowerUnit (c : UInt16) : UInt16 := if 0x41 ≤ c ∧ c ≤ 0x5a then c + 0x20 else c

def toLowerCase (s : JsString) : JsString := s.map lowerUnit

/-- An address in lower-case hexadecimal. -/
def addressText (a : Bytes) : JsString := ofString "0x" ++ toHex a

section Search

variable {R : Type} (submitterOf : R → Bytes)

/-- The loop over the pages, for `fuel` rounds. It has no result if it would go on after them. -/
def fetchHashes : ℕ → ℕ → List Bytes → PageTask R (Option (List Bytes))
  | 0, _, _ => pure none
  | fuel + 1, offset, allHashes => do
    let page ← Task.request (.getPage offset 50) id
    if page.length = 0 then pure (some allHashes)
    else if page.length < 50 then pure (some (allHashes ++ page))
    else fetchHashes fuel (offset + page.length) (allHashes ++ page)

/-- `c.getRecord(h).catch(() => null)` -/
def fetchRecord (hash : Bytes) : PageTask R (Option R) :=
  Task.request (.getRecord hash) fun
    | .ok rec => .ok (some rec)
    | .error _ => .ok none

/-- The records of a group that could be read, with their hashes. -/
def readRecords (batch : List Bytes) (recs : List (Option R)) : List (Bytes × R) :=
  (batch.zip recs).filterMap fun p => p.2.map fun rec => (p.1, rec)

/-- The loop over the groups, of which there are `rounds`. -/
def fetchRecords : ℕ → List Bytes → List (Bytes × R) → PageTask R (List (Bytes × R))
  | 0, _, allRecords => pure allRecords
  | rounds + 1, hashes, allRecords => do
    let batch := hashes.take 10
    let recs ← promiseAll (batch.map fetchRecord)
    fetchRecords rounds (hashes.drop 10) (allRecords ++ readRecords batch recs)

/-- The records that are shown for an input, from `allRecords`. -/
def filterRecords (input : JsString) (allRecords : List (Bytes × R)) : List (Bytes × R) :=
  if input = [] then allRecords
  else allRecords.filter fun p => addressText (submitterOf p.2) = toLowerCase input

/-- The text beside the number of records. -/
def countText (input : JsString) (filtered allRecords : ℕ) : String :=
  if input = [] then toString filtered else s!"{filtered} / {allRecords} (filtered)"

/-- The search for what has been typed in, without the blanks around it. It has no result where it
goes on reading pages after `fuel` of them. -/
def search (isAddress : JsString → Bool) (fuel : ℕ) (input : JsString) :
    PageTask R (Option (ListView R)) :=
  if input ≠ [] ∧ isAddress input = false then pure (some .invalidAddress)
  else tryCatch (do
    match ← fetchHashes fuel 0 [] with
    | none => pure none
    | some allHashes =>
      let allRecords ← fetchRecords ((allHashes.length + 9) / 10) allHashes []
      let filtered := filterRecords submitterOf input allRecords
      if filtered.length = 0 then pure (some (.noRecords (input ≠ [])))
      else pure (some (.cards (countText input filtered.length allRecords.length) filtered.reverse)))
    fun err => pure (some (.error err))

end Search

/-! ### Among the calls of others -/

section Among

variable {S A R : Type} (m : OnChainStore S A R) (sha : Sha256)

/-- Requests of the page and calls of the contract, in the order they happen. -/
abbrev PageTrace (A R : Type) := Trace PageReq (PageReq.Answer R) Unit (StoreCall A)

/-- The calls of the contract. -/
def pastCalls (tr : PageTrace A R) : List (StoreCall A) :=
  tr.filterMap fun
    | .ext x => some x
    | .call .. => none

/-- The variables of the contract after what has happened. -/
def storeAt (tr : PageTrace A R) : ContractStore R := m.view (m.after sha (pastCalls tr))

/-- A node answers with what the contract says, or not at all. -/
def NodeAnswers (tr : PageTrace A R) : (e : PageReq) → e.Answer R → Prop
  | .getPage offset limit, .ok page =>
    pageOf (storeAt m sha tr).ordered (BitVec.ofNat 256 offset) (BitVec.ofNat 256 limit) = some page
  | .getRecord hash, .ok rec => (storeAt m sha tr).getRecord m.contract hash = some rec
  | .getPage .., .error _ | .getRecord _, .error _ => True

/-- Before a request is answered others may call the contract. -/
def Interleaved (tr : PageTrace A R) (e : PageReq) (r : e.Answer R) (tr' : PageTrace A R) : Prop :=
  ∃ calls : List (StoreCall A), NodeAnswers m sha (tr ++ calls.map .ext) e r ∧
    tr' = tr ++ calls.map .ext ++ [.call () e r]

/-! ### What the list shows -/

/-- Since `tr` the request has been answered so. -/
def AnsweredSince (tr tr' : PageTrace A R) (e : PageReq) (r : e.Answer R) : Prop :=
  ∃ pre, tr <+: pre ∧ pre ++ [.call () e r] <+: tr'

/-- The records of a contract with their keys, in their order. -/
def ContractStore.listing (s : ContractStore R) : List (Bytes × R) :=
  s.ordered.map fun h => (h, s.records h)

/-- The records that are kept after `past`, but for those whose requests have failed. -/
structure Fetched (tr past tr' : PageTrace A R) (allRecords : List (Bytes × R)) : Prop where
  since : tr <+: past
  before : past <+: tr'
  listed : allRecords.Sublist (storeAt m sha past).listing
  missing : ∀ p ∈ (storeAt m sha past).listing, p ∉ allRecords →
    ∃ err, AnsweredSince tr tr' (.getRecord p.1) (.error err)

variable (submitterOf : R → Bytes) (isAddress : JsString → Bool) (fuel : ℕ) (input : JsString)

/-- What a search that runs from `tr` to `tr'` shows: the records the contract has at one moment
meanwhile, the newest first, or why there are none. -/
def Shows (tr tr' : PageTrace A R) : Option (ListView R) → Prop
  | none => 50 * fuel ≤ (storeAt m sha tr').ordered.length
  | some .invalidAddress => input ≠ [] ∧ isAddress input = false
  | some (.error err) => ∃ offset, AnsweredSince tr tr' (.getPage offset 50) (.error err)
  | some (.noRecords forAddress) => (forAddress = true ↔ input ≠ []) ∧
    ∃ past allRecords, Fetched m sha tr past tr' allRecords ∧
      filterRecords submitterOf input allRecords = []
  | some (.cards count cards) => cards ≠ [] ∧
    ∃ past allRecords, Fetched m sha tr past tr' allRecords ∧
      cards = (filterRecords submitterOf input allRecords).reverse ∧
      count = countText input cards.length allRecords.length

variable {m sha submitterOf isAddress fuel input} {tr past tr' : PageTrace A R}

/-! ### The contract grows -/

lemma pastCalls_append (tr tr' : PageTrace A R) :
    pastCalls (tr ++ tr') = pastCalls tr ++ pastCalls tr' := List.filterMap_append

/-- The node has answered every request since `tr`. -/
def Truthful (m : OnChainStore S A R) (sha : Sha256) (tr tr' : PageTrace A R) : Prop :=
  ∀ pre e r, tr <+: pre → pre ++ [.call () e r] <+: tr' → NodeAnswers m sha pre e r

/-- What is known of the traces of a search. -/
structure Genuine (m : OnChainStore S A R) (sha : Sha256) (tr tr' : PageTrace A R) : Prop where
  stamped : OnChainStore.Stamped (pastCalls tr')
  /-- The bounds of the page after the last one fit into 256 bits. -/
  fits : (storeAt m sha tr').ordered.length + 50 < 2 ^ 256
  answers : Truthful m sha tr tr'

/-- The ledger of the contract. -/
def ledgerAt (m : OnChainStore S A R) (sha : Sha256) (tr : PageTrace A R) :
    List (Ledger.Entry Bytes Bytes (StoreCall A)) :=
  (m.accepted sha (pastCalls tr)).map m.contract.entry

lemma ledgerAt_le (m : OnChainStore S A R) (sha : Sha256) (h : tr <+: tr') :
    ledgerAt m sha tr <+: ledgerAt m sha tr' := by
  obtain ⟨more, rfl⟩ := h
  rw [ledgerAt, ledgerAt, pastCalls_append, OnChainStore.accepted, OnChainStore.accepted,
    Ledger.accepted_append, List.map_append]
  exact List.prefix_append _ _

section Growth

variable (hstamped : OnChainStore.Stamped (pastCalls tr')) (h : tr <+: tr')

lemma holds_storeAt (m : OnChainStore S A R) (sha : Sha256)
    (hstamped : OnChainStore.Stamped (pastCalls tr)) :
    (storeAt m sha tr).Holds m.contract sha (ledgerAt m sha tr) :=
  OnChainStore.holds_after m sha hstamped

include hstamped h

lemma stamped_before : OnChainStore.Stamped (pastCalls tr) := by
  obtain ⟨more, rfl⟩ := h
  rw [pastCalls_append] at hstamped
  exact fun x hx => hstamped x (List.mem_append_left _ hx)

/-- New keys come after the old ones. -/
lemma ordered_le (m : OnChainStore S A R) (sha : Sha256) :
    (storeAt m sha tr).ordered <+: (storeAt m sha tr').ordered := by
  rw [(holds_storeAt m sha hstamped).ordered,
    (holds_storeAt m sha (stamped_before hstamped h)).ordered]
  exact (ledgerAt_le m sha h).map _

/-- A record stays as it is. -/
lemma records_eq {hash : Bytes} (hash_mem : hash ∈ (storeAt m sha tr).ordered) :
    (storeAt m sha tr').records hash = (storeAt m sha tr).records hash := by
  have hold := holds_storeAt m sha (stamped_before hstamped h)
  rw [hold.ordered] at hash_mem
  obtain ⟨e, he, rfl⟩ := List.mem_map.mp hash_mem
  obtain ⟨l, l', hl⟩ := List.append_of_mem he
  obtain ⟨more, hmore⟩ := ledgerAt_le m sha h
  rw [hold.record l e l' hl]
  refine (holds_storeAt m sha hstamped).record l e (l' ++ more) ?_
  rw [← hmore, hl]
  simp

end Growth

lemma Genuine.before (hg : Genuine m sha tr tr') (h : past <+: tr') : Genuine m sha tr past where
  stamped := stamped_before hg.stamped h
  fits := (Nat.add_le_add_right (ordered_le hg.stamped h m sha).length_le 50).trans_lt hg.fits
  answers pre e r hpre hcall := hg.answers pre e r hpre (hcall.trans h)

/-- A page is the window of the keys there are. -/
lemma page_eq (hg : Genuine m sha tr tr') {offset : ℕ} {page : List Bytes}
    (hoffset : offset ≤ (storeAt m sha tr').ordered.length)
    (hpage : NodeAnswers m sha tr' (.getPage offset 50) (.ok page)) :
    page = Paging.window (storeAt m sha tr').ordered offset 50 := by
  have hfits := hg.fits
  have hlen : (storeAt m sha tr').ordered.length < 2 ^ 256 := by omega
  have hoff : (BitVec.ofNat 256 offset).toNat = offset := by
    rw [BitVec.toNat_ofNat, Nat.mod_eq_of_lt (by omega)]
  have hlimit : (BitVec.ofNat 256 50).toNat = 50 := rfl
  rw [NodeAnswers, pageOf_eq hlen, if_pos, hoff, hlimit] at hpage
  · exact (Option.some.inj hpage).symm
  · rw [PageFits, hoff, hlimit]
    omega

/-! ### The loops -/

/-- All requests are allowed. -/
abbrev AnyRequest : Guard PageReq (PageReq.Answer R) Unit (StoreCall A) := fun _ _ _ => True

/-- What the loop over the pages returns: all keys of one moment, or nothing where the contract has
more keys than it has read pages for. -/
def FetchedHashes (m : OnChainStore S A R) (sha : Sha256) (tr : PageTrace A R) (rounds : ℕ)
    (r : Option (List Bytes)) (tr' : PageTrace A R) : Prop :=
  Genuine m sha tr tr' → match r with
    | none => 50 * rounds ≤ (storeAt m sha tr').ordered.length
    | some allHashes => ∃ past, tr <+: past ∧ past <+: tr' ∧
      allHashes = (storeAt m sha past).ordered

lemma fetchHashes_follows (m : OnChainStore S A R) (sha : Sha256) (tr : PageTrace A R)
    (fuel done : ℕ) (allHashes : List Bytes) {tr₁ : PageTrace A R} (htr : tr <+: tr₁)
    (hread : Genuine m sha tr tr₁ →
      allHashes.length = 50 * done ∧ allHashes <+: (storeAt m sha tr₁).ordered) :
    FollowsTask AnyRequest () (FetchedHashes m sha tr (done + fuel))
      (fun err tr' => ∃ offset, AnsweredSince tr tr' (.getPage offset 50) (.error err))
      (fetchHashes fuel allHashes.length allHashes) tr₁ := by
  induction fuel generalizing done allHashes tr₁ with
  | zero =>
    refine FollowsTask.pure fun tr' htr' hg => ?_
    obtain ⟨hlen, hle⟩ := hread (hg.before htr')
    rw [Nat.add_zero, ← hlen]
    exact hle.length_le.trans (ordered_le hg.stamped htr' m sha).length_le
  | succ fuel ih =>
    apply FollowsTask.bind
    apply FollowsTask.request_at
    · exact fun _ _ => trivial
    rintro (err | page) pre tr₂ hpre htr₂
    · exact ⟨_, pre, htr.trans hpre, htr₂⟩
    have hpast : pre <+: tr₂ := (List.prefix_append _ _).trans htr₂
    -- the keys that have been read are still the first ones when the page is read
    have hpage (hg : Genuine m sha tr tr₂) : allHashes.length = 50 * done ∧
        allHashes <+: (storeAt m sha pre).ordered ∧
          page = Paging.window (storeAt m sha pre).ordered allHashes.length 50 := by
      have hgpre := hg.before hpast
      obtain ⟨hlen, hle⟩ := hread (hgpre.before hpre)
      have hle' := hle.trans (ordered_le hgpre.stamped hpre m sha)
      exact ⟨hlen, hle',
        page_eq hgpre hle'.length_le (hg.answers pre _ _ (htr.trans hpre) htr₂)⟩
    have hlast (hshort : page.length < 50) (tr' : PageTrace A R) (htr' : tr₂ <+: tr') :
        FetchedHashes m sha tr (done + (fuel + 1)) (some (allHashes ++ page)) tr' := by
      intro hg
      obtain ⟨-, hle, rfl⟩ := hpage (hg.before htr')
      exact ⟨pre, htr.trans hpre, hpast.trans htr', Paging.append_window_of_short hle hshort⟩
    dsimp only [id]
    split
    · next hempty =>
      rw [List.length_eq_zero_iff] at hempty
      subst hempty
      rw [List.append_nil] at hlast
      exact FollowsTask.pure (hlast (Nat.succ_pos 49))
    split
    · next hshort => exact FollowsTask.pure (hlast hshort)
    next hfull =>
    have hnext := ih (done + 1) (allHashes ++ page) ((htr.trans hpre).trans hpast) fun hg => by
        obtain ⟨hlen, hle, rfl⟩ := hpage hg
        have hmore := Paging.append_window_le hle 50
        refine ⟨?_, hmore.trans (ordered_le hg.stamped hpast m sha)⟩
        have hsize : (Paging.window (storeAt m sha pre).ordered allHashes.length 50).length ≤ 50 :=
          List.length_take_le ..
        rw [List.length_append]
        omega
    rw [List.length_append, Nat.add_right_comm] at hnext
    exact hnext

/-! ### The records -/

/-- What is known of a record that has been asked for. -/
def FetchedRecord (tr : PageTrace A R) (hash : Bytes) (r : Option R) (tr' : PageTrace A R) : Prop :=
  match r with
  | some rec => AnsweredSince tr tr' (.getRecord hash) (.ok rec)
  | none => ∃ err, AnsweredSince tr tr' (.getRecord hash) (.error err)

lemma AnsweredSince.later {e : PageReq} {r : e.Answer R} (h : AnsweredSince tr past e r)
    (hle : past <+: tr') : AnsweredSince tr tr' e r := by
  obtain ⟨pre, hpre, hcall⟩ := h
  exact ⟨pre, hpre, hcall.trans hle⟩

lemma FetchedRecord.later {hash : Bytes} {r : Option R} (h : FetchedRecord tr hash r past)
    (hle : past <+: tr') : FetchedRecord tr hash r tr' := by
  cases r with
  | some rec => exact AnsweredSince.later h hle
  | none =>
    obtain ⟨err, herr⟩ := h
    exact ⟨err, herr.later hle⟩

lemma fetchRecord_follows (hash : Bytes) {tr₁ : PageTrace A R} (htr : tr <+: tr₁) :
    FollowsTask AnyRequest () (FetchedRecord tr hash) (fun _ _ => False) (fetchRecord hash) tr₁ := by
  apply FollowsTask.request_at
  · exact fun _ _ => trivial
  rintro (err | rec) pre tr₂ hpre htr₂
  · exact ⟨err, pre, htr.trans hpre, htr₂⟩
  · exact ⟨pre, htr.trans hpre, htr₂⟩

/-- The records that have been read, from answers to the requests for `hashes`. -/
def FetchedRecords (tr : PageTrace A R) (hashes : List Bytes) (allRecords : List (Bytes × R))
    (tr' : PageTrace A R) : Prop :=
  ∃ recs, List.Forall₂ (fun hash r => FetchedRecord tr hash r tr') hashes recs ∧
    allRecords = readRecords hashes recs

lemma readRecords_append {hashes more : List Bytes} {recs moreRecs : List (Option R)}
    (h : hashes.length = recs.length) : readRecords (hashes ++ more) (recs ++ moreRecs) =
      readRecords hashes recs ++ readRecords more moreRecs := by
  rw [readRecords, List.zip_append h, List.filterMap_append]
  rfl

lemma fetchRecords_follows (tr : PageTrace A R) (rounds : ℕ) (done hashes : List Bytes)
    (allRecords : List (Bytes × R)) {tr₁ : PageTrace A R} (htr : tr <+: tr₁)
    (hrounds : hashes.length ≤ 10 * rounds)
    (hread : FetchedRecords tr done allRecords tr₁) :
    FollowsTask AnyRequest () (FetchedRecords tr (done ++ hashes)) (fun _ _ => False)
      (fetchRecords rounds hashes allRecords) tr₁ := by
  induction rounds generalizing done hashes allRecords tr₁ with
  | zero =>
    have hnil : hashes = [] := List.length_eq_zero_iff.mp (Nat.le_zero.mp hrounds)
    subst hnil
    rw [List.append_nil]
    refine FollowsTask.pure fun tr' htr' => ?_
    obtain ⟨recs, hrecs, rfl⟩ := hread
    exact ⟨recs, hrecs.imp fun _ _ h => h.later htr', rfl⟩
  | succ rounds ih =>
    have hall := @FollowsTask.promiseAll _ _ _ _ _ _ _ AnyRequest () (FetchedRecord tr)
      (fun _ _ _ => False) fetchRecord tr₁ (fun _ _ _ _ hle h => h.later hle)
      (fun _ _ _ _ _ h => h) (hashes.take 10) fun hash _ => fetchRecord_follows hash htr
    apply FollowsTask.bind
    refine FollowsTask.weaken hall (fun recs tr₂ htr₂ hrecs => ?_) fun err _ _ hrec => ?_
    · have hnext := ih (done ++ hashes.take 10) (hashes.drop 10)
        (allRecords ++ readRecords (hashes.take 10) recs) (htr.trans htr₂)
        (by rw [List.length_drop]; omega) ?_
      · rwa [List.append_assoc, List.take_append_drop] at hnext
      · obtain ⟨before, hbefore, rfl⟩ := hread
        refine ⟨before ++ recs, ?_, (readRecords_append hbefore.length_eq).symm⟩
        exact List.rel_append (hbefore.imp fun _ _ h => h.later htr₂) hrecs
    · obtain ⟨_, _, h⟩ := hrec
      exact h.elim

section Read

variable {hashes : List Bytes} {recs : List (Option R)} {f : Bytes → R}

lemma readRecords_cons (hash : Bytes) (r : Option R) : readRecords (hash :: hashes) (r :: recs) =
    (r.map fun rec => (hash, rec)).toList ++ readRecords hashes recs := by
  cases r <;> simp [readRecords]

lemma readRecords_sublist {Q : Bytes → Option R → Prop} (h : List.Forall₂ Q hashes recs)
    (hQ : ∀ hash ∈ hashes, ∀ rec, Q hash (some rec) → rec = f hash) :
    (readRecords hashes recs).Sublist (hashes.map fun hash => (hash, f hash)) := by
  induction h with
  | nil => exact List.Sublist.refl []
  | @cons hash r _ _ hr _ ih =>
    rw [readRecords_cons, List.map_cons]
    have hrest := ih fun x hx => hQ x (List.mem_cons_of_mem _ hx)
    cases r with
    | none => exact hrest.cons _
    | some rec =>
      obtain rfl := hQ hash (List.mem_cons_self ..) rec hr
      exact hrest.cons_cons _

lemma exists_mem_readRecords {Q : Bytes → Option R → Prop} (h : List.Forall₂ Q hashes recs)
    {hash : Bytes} (hash_mem : hash ∈ hashes) :
    ∃ r, Q hash r ∧ ∀ rec ∈ r, (hash, rec) ∈ readRecords hashes recs := by
  induction h with
  | nil => cases hash_mem
  | @cons _ r _ _ hr _ ih =>
    rw [readRecords_cons]
    rcases List.mem_cons.mp hash_mem with rfl | hmem
    · refine ⟨r, hr, fun rec hrec => List.mem_append_left _ ?_⟩
      cases hrec
      exact List.mem_cons_self ..
    · obtain ⟨r', hr', hread⟩ := ih hmem
      exact ⟨r', hr', fun rec hrec => List.mem_append_right _ (hread rec hrec)⟩

end Read

/-- A record that has been read is the one that is kept. -/
lemma Genuine.record (hg : Genuine m sha tr tr') (hle : past <+: tr') {hash : Bytes} {rec : R}
    (hash_mem : hash ∈ (storeAt m sha past).ordered)
    (h : AnsweredSince tr tr' (.getRecord hash) (.ok rec)) :
    rec = (storeAt m sha past).records hash := by
  obtain ⟨pre, hpre, hcall⟩ := h
  have hprele : pre <+: tr' := (List.prefix_append _ _).trans hcall
  have hanswer : (storeAt m sha pre).getRecord m.contract hash = some rec :=
    hg.answers pre _ _ hpre hcall
  rw [ContractStore.getRecord] at hanswer
  split at hanswer
  · next hex =>
    have hholds := holds_storeAt m sha (hg.before hprele).stamped
    rw [hholds.exists_iff, ← hholds.ordered] at hex
    rw [← Option.some.inj hanswer, ← records_eq hg.stamped hprele hex,
      records_eq hg.stamped hle hash_mem]
  · cases hanswer

/-- All records there were when the keys had been read, but for those that could not be read. -/
lemma FetchedRecords.fetched {allRecords : List (Bytes × R)} (hg : Genuine m sha tr tr')
    (hpast : tr <+: past) (hle : past <+: tr')
    (h : FetchedRecords tr (storeAt m sha past).ordered allRecords tr') :
    Fetched m sha tr past tr' allRecords := by
  obtain ⟨recs, hrecs, rfl⟩ := h
  refine ⟨hpast, hle, readRecords_sublist hrecs ?_, ?_⟩
  · exact fun hash hmem rec hrec => hg.record hle hmem hrec
  · intro p hp hnot
    obtain ⟨hash, hmem, rfl⟩ := List.mem_map.mp hp
    obtain ⟨r, hr, hread⟩ := exists_mem_readRecords hrecs hmem
    cases r with
    | none => exact hr
    | some rec => exact absurd (hg.record hle hmem hr ▸ hread rec rfl) hnot

/-! ### The whole search -/

lemma search_follows (m : OnChainStore S A R) (sha : Sha256) (submitterOf : R → Bytes)
    (isAddress : JsString → Bool) (fuel : ℕ) (input : JsString) (tr : PageTrace A R) :
    FollowsTask AnyRequest ()
      (fun v tr' => Genuine m sha tr tr' → Shows m sha submitterOf isAddress fuel input tr tr' v)
      (fun _ _ => False) (search submitterOf isAddress fuel input) tr := by
  rw [search]
  split
  · next hinvalid => exact FollowsTask.pure fun _ _ _ => hinvalid
  apply FollowsTask.tryCatch
  apply FollowsTask.bind
  have hhashes := fetchHashes_follows m sha tr fuel 0 [] List.prefix_rfl
    fun _ => ⟨rfl, List.nil_prefix⟩
  rw [Nat.zero_add] at hhashes
  refine FollowsTask.weaken hhashes (fun r tr₁ htr₁ hr => ?_) fun err tr₁ _ herr => ?_
  · cases r with
    | none =>
      refine FollowsTask.pure fun tr' htr' hg => ?_
      exact (hr (hg.before htr')).trans (ordered_le hg.stamped htr' m sha).length_le
    | some allHashes =>
      apply FollowsTask.bind
      have hrecords := fetchRecords_follows tr ((allHashes.length + 9) / 10) [] allHashes [] htr₁
        (by omega) ⟨[], .nil, rfl⟩
      refine FollowsTask.weaken hrecords (fun allRecords tr₂ htr₂ hread => ?_) fun _ _ _ => False.elim
      have hfetched (tr' : PageTrace A R) (htr' : tr₂ <+: tr') (hg : Genuine m sha tr tr') :
          ∃ past, Fetched m sha tr past tr' allRecords := by
        obtain ⟨past, hpast, hle, rfl⟩ := hr (hg.before (htr₂.trans htr'))
        refine ⟨past, FetchedRecords.fetched hg hpast (hle.trans (htr₂.trans htr')) ?_⟩
        obtain ⟨recs, hrecs, rfl⟩ := hread
        exact ⟨recs, hrecs.imp fun _ _ h => h.later htr', rfl⟩
      dsimp only
      split
      · next hnone =>
        refine FollowsTask.pure fun tr' htr' hg => ⟨by simp, ?_⟩
        obtain ⟨past, hpast⟩ := hfetched tr' htr' hg
        exact ⟨past, allRecords, hpast, List.length_eq_zero_iff.mp hnone⟩
      · next hsome =>
        refine FollowsTask.pure fun tr' htr' hg => ⟨?_, ?_⟩
        · rwa [Ne, List.reverse_eq_nil_iff, ← List.length_eq_zero_iff]
        · obtain ⟨past, hpast⟩ := hfetched tr' htr' hg
          exact ⟨past, allRecords, hpast, rfl, by rw [List.length_reverse]⟩
  · refine FollowsTask.pure fun tr' htr' _ => ?_
    obtain ⟨offset, herr⟩ := herr
    exact ⟨offset, herr.later htr'⟩

/-! ### Runs of the search -/

lemma Truthful.refl : Truthful m sha tr tr := by
  intro pre e r hpre hcall
  have hlen := hcall.length_le.trans hpre.length_le
  rw [List.length_append] at hlen
  exact absurd hlen (Nat.not_succ_le_self pre.length)

lemma Truthful.calls (h : Truthful m sha tr past) (calls : List (StoreCall A)) :
    Truthful m sha tr (past ++ calls.map .ext) := by
  induction calls using List.reverseRecOn with
  | nil => simpa using h
  | append_singleton calls x ih =>
    intro pre e r hpre hcall
    rw [List.map_append, List.map_singleton, ← List.append_assoc, List.prefix_concat_iff] at hcall
    rcases hcall with heq | hcall
    · cases (List.append_inj' heq rfl).2
    · exact ih pre e r hpre hcall

lemma Truthful.call {e : PageReq} {r : e.Answer R} (h : Truthful m sha tr past)
    (hr : NodeAnswers m sha past e r) : Truthful m sha tr (past ++ [.call () e r]) := by
  intro pre e' r' hpre hcall
  rw [List.prefix_concat_iff] at hcall
  rcases hcall with heq | hcall
  · obtain ⟨rfl, hlast⟩ := List.append_inj' heq rfl
    cases hlast
    exact hr
  · exact h pre e' r' hpre hcall

/-- An answer is given in a later state. -/
lemma Interleaved.answered {e : PageReq} {r : e.Answer R} (h : Interleaved m sha tr e r tr') :
    ∃ pre, tr <+: pre ∧ tr' = pre ++ [.call () e r] := by
  obtain ⟨calls, -, rfl⟩ := h
  exact ⟨_, List.prefix_append _ _, rfl⟩

/-- Whatever is written meanwhile, by anybody, and whichever requests fail: a search that ends shows
the records of one moment since its start, without repetition and without omission but for those
that could not be read, newest first. -/
theorem search_shows (m : OnChainStore S A R) (sha : Sha256) (submitterOf : R → Bytes)
    (isAddress : JsString → Bool) (fuel : ℕ) (input : JsString) (tr tr' : PageTrace A R)
    (x : Except JsError (Option (ListView R)))
    (hstamped : OnChainStore.Stamped (pastCalls tr'))
    (hfits : (storeAt m sha tr').ordered.length + 50 < 2 ^ 256)
    (hrun : (search submitterOf isAddress fuel input).RunsTo (Interleaved m sha) tr x tr') :
    ∃ v, x = .ok v ∧ Shows m sha submitterOf isAddress fuel input tr tr' v := by
  have hend := (search_follows m sha submitterOf isAddress fuel input tr).runsTo_among
    (fun _ _ _ _ h => h.answered) hrun
  have htruthful : Truthful m sha tr tr' := by
    refine hrun.invariant (I := Truthful m sha tr) (fun past e r _ h hpast => ?_) .refl
    obtain ⟨calls, hr, rfl⟩ := h
    exact (hpast.calls calls).call hr
  cases x with
  | ok v => exact ⟨v, rfl, hend ⟨hstamped, hfits, htruthful⟩⟩
  | error err => exact hend.elim

end Among

/-! ### A search while others write -/

/-- The account `[k]` writes the key `[k]`. -/
def ownKeyCall (k : UInt8) : StoreCall StoreWrite := (⟨[k], 1, 1⟩, ⟨[k], 0, [], [], [], []⟩)

/-- The second key is written before the page is read. -/
def searchTrace : PageTrace StoreWrite StoreRecord :=
  [.ext (ownKeyCall 1), .ext (ownKeyCall 2), .call () (.getPage 0 50) (.ok [[1], [2]])]

/-- The record of the key `[k]`. -/
def ownRecord (k : UInt8) : StoreRecord := (storeAt logStore lengthSha searchTrace).records [k]

def searchEnd : PageTrace StoreWrite StoreRecord :=
  searchTrace ++ [.call () (.getRecord [1]) (.ok (ownRecord 1)),
    .call () (.getRecord [2]) (.ok (ownRecord 2))]

lemma search_runs : (search StoreRecord.submitter (fun _ => true) 1 []).RunsTo
    (Interleaved logStore lengthSha) [.ext (ownKeyCall 1)]
      (.ok (some (.cards "2" [([2], ownRecord 2), ([1], ownRecord 1)]))) searchEnd := by
  rw [search, if_neg (by simp)]
  apply Task.runsTo_tryCatch_ok
  refine Task.runsTo_bind_ok.mpr ⟨some [[1], [2]], searchTrace, ?_, ?_⟩
  · refine Task.runsTo_bind_ok.mpr ⟨[[1], [2]], searchTrace, ?_, ⟨rfl, rfl⟩⟩
    exact Task.runsTo_request.mpr ⟨.ok [[1], [2]], ⟨[ownKeyCall 2], rfl, rfl⟩, rfl⟩
  · refine Task.runsTo_bind_ok.mpr ⟨[([1], ownRecord 1), ([2], ownRecord 2)], searchEnd, ?_,
      ⟨rfl, rfl⟩⟩
    refine Task.runsTo_bind_ok.mpr ⟨[some (ownRecord 1), some (ownRecord 2)], searchEnd,
      RunInTurn.promiseAll ?_, ⟨rfl, rfl⟩⟩
    have hfetch (k : UInt8) (tr : PageTrace StoreWrite StoreRecord)
        (h : (storeAt logStore lengthSha tr).getRecord logStore.contract [k] =
          some (ownRecord k)) :
        (fetchRecord [k]).RunsTo (Interleaved logStore lengthSha) tr (.ok (some (ownRecord k)))
          (tr ++ [.call () (.getRecord [k]) (.ok (ownRecord k))]) := by
      refine Task.runsTo_request.mpr ⟨.ok (ownRecord k), ⟨[], ?_, by simp⟩, rfl⟩
      simpa [NodeAnswers] using h
    exact ⟨_, _, _, hfetch 1 searchTrace rfl, ⟨_, _, _, hfetch 2 _ rfl, ⟨rfl, rfl⟩, rfl⟩, rfl⟩

/-- The list shows both records, the newer one first. -/
theorem search_shows_both :
    ∃ v, (.ok (some (.cards "2" [([2], ownRecord 2), ([1], ownRecord 1)])) :
        Except JsError (Option (ListView StoreRecord))) = .ok v ∧
      Shows logStore lengthSha StoreRecord.submitter (fun _ => true) 1 [] [.ext (ownKeyCall 1)]
        searchEnd v :=
  search_shows logStore lengthSha StoreRecord.submitter (fun _ => true) 1 [] _ _ _
    (by simp [OnChainStore.Stamped, pastCalls, searchEnd, searchTrace, ownKeyCall])
    (by decide +kernel) search_runs

end HybridLog
