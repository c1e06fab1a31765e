import HybridLog.Anchor.Registry
import HybridLog.Storage.Keys

/-!
# Reading back what was written

A read returns the object that `writeLog` has registered last, so it is about the entry written last
as long as `writeBatch` hands over no other text under an id. What it cannot find there it takes
from the chain, where a batch has left a record of its own. The mark of an object says that the
transaction of the last call is on the chain, which for a batch is not that of the entry.
-/

namespace HybridLog

open Js Relation

/-! ### Calls and runs -/

inductive AnchorCall
  | writeLog (ref : ℕ) (opts : Option WriteOpts)
  | writeBatch (refs : List ℕ) (opts : Option WriteOpts)

namespace AnchorCall

/-- The objects that are handed over. -/
def refs : AnchorCall → List ℕ
  | writeLog ref _ => [ref]
  | writeBatch refs _ => refs

def opts : AnchorCall → Option WriteOpts
  | writeLog _ opts | writeBatch _ opts => opts

section

variable (A : AnchorClient) (sha : Sha256)

/-- The registries after the call. -/
def perform (a : Answers) (r : Registry) : AnchorCall → Registry
  | writeLog ref opts => (A.writeLog sha ref opts a r).2
  | writeBatch refs opts => (A.writeBatch sha refs opts a r).2

/-- The transaction that the call submits. -/
def tx (r : Registry) (ms : ℕ) : AnchorCall → Except JsError A.Tx
  | writeLog ref _ => A.logTx ((r.objects ref).entry.withHash sha) ms
  | writeBatch refs _ =>
    if refs = [] then .error "Empty batch" else A.batchTx ((r.hashAll sha refs).entries refs) ms

/-- What the chain does while the call runs. A submission that is answered with a hash has been
accepted, one that is not may have been; a transaction that is found is included. -/
structure Served (call : AnchorCall) (r : Registry) (a : Answers) (n n' : A.Node) : Prop where
  happens : ReflTransGen A.Happens n n'
  sent : ∀ tx h, call.tx A sha r a.ms = .ok tx → a.sent = .ok h → ∃ m m',
    ReflTransGen A.Happens n m ∧ A.submit m tx h = some m' ∧ ReflTransGen A.Happens m' n'
  waited : ∀ h, a.sent = .ok h → a.waited = .ok true → A.Included n' h

end

end AnchorCall

/-- A condition on a call: the chain and the registries before it, and the time. -/
abbrev CallCondition (A : AnchorClient) := A.Node → Registry → ℕ → AnchorCall → Prop

/-- From a new anchor and any objects on: calls, one after the other, each of which meets the
condition. -/
inductive AnchorRun (A : AnchorClient) (sha : Sha256) (P : CallCondition A) :
    List AnchorCall → A.Node → Registry → Prop
  | start (objects : ℕ → EntryObject) : AnchorRun A sha P [] A.genesis (.fresh objects)
  | chain {calls : List AnchorCall} {n n' : A.Node} {r : Registry}
    (h : AnchorRun A sha P calls n r) (hn : A.Happens n n') : AnchorRun A sha P calls n' r
  | call {calls : List AnchorCall} {n n' : A.Node} {r : Registry} {call : AnchorCall}
    {a : Answers} (h : AnchorRun A sha P calls n r) (hP : P n r a.ms call)
    (hs : call.Served A sha r a n n') :
    AnchorRun A sha P (calls ++ [call]) n' (call.perform A sha a r)

/-! ### What is asked of a read -/

structure LogEntry.SameContent (e e' : LogEntry) : Prop where
  level : e.level = e'.level
  source : e.source = e'.source
  message : e.message = e'.message
  metadata : e.metadata = e'.metadata

/-- The last of the objects that has the id. -/
def Registry.lastOf (r : Registry) (refs : List ℕ) (id : JsString) : Option ℕ :=
  refs.reverse.find? fun ref => (r.objects ref).entry.id = id

/-- The hash is on the chain, in the service or contract of the anchor. -/
def AnchorClient.OnChain (A : AnchorClient) (n : A.Node) (hash : JsString) : Prop :=
  A.Recorded n (bufferFromHex hash)

/-- Whatever is read under an id has the text of the entry that was handed over last under it, and
is marked only if its own hash is on the chain. -/
def ReadsBack (A : AnchorClient) (sha : Sha256) (calls : List AnchorCall) (n : A.Node)
    (r : Registry) : Prop :=
  ∀ id answers time o, A.readLog n answers time r id = some o →
    (∃ ref, r.lastOf (calls.flatMap AnchorCall.refs) id = some ref ∧
      o.entry.SameContent (r.objects ref).entry) ∧
    (o.blockchainConfirmed = true → A.OnChain n (sha.computeLogHash o.entry))

/-! ### Texts and marks -/

/-- What an entry keeps. -/
def LogEntry.unhashed (e : LogEntry) : LogEntry := { e with dataHash := [] }

lemma LogEntry.SameContent.refl (e : LogEntry) : e.SameContent e := ⟨rfl, rfl, rfl, rfl⟩

lemma LogEntry.SameContent.of_unhashed {e₁ e₂ e₁' e₂' : LogEntry} (h : e₁.SameContent e₂)
    (h₁ : e₁'.unhashed = e₁.unhashed) (h₂ : e₂'.unhashed = e₂.unhashed) : e₁'.SameContent e₂' := by
  simp only [LogEntry.unhashed, LogEntry.mk.injEq] at h₁ h₂
  obtain ⟨-, -, hlevel₁, hsource₁, hmessage₁, hmetadata₁, -⟩ := h₁
  obtain ⟨-, -, hlevel₂, hsource₂, hmessage₂, hmetadata₂, -⟩ := h₂
  constructor
  · rw [hlevel₁, hlevel₂, h.level]
  · rw [hsource₁, hsource₂, h.source]
  · rw [hmessage₁, hmessage₂, h.message]
  · rw [hmetadata₁, hmetadata₂, h.metadata]

lemma LogEntry.id_of_unhashed {e e' : LogEntry} (h : e'.unhashed = e.unhashed) : e'.id = e.id := by
  have hid := congrArg LogEntry.id h
  exact hid

lemma computeLogHash_of_unhashed {sha : Sha256} {e e' : LogEntry} (h : e'.unhashed = e.unhashed) :
    sha.computeLogHash e' = sha.computeLogHash e := by
  have hhash := congrArg sha.computeLogHash h
  exact hhash

/-- Texts stay, and marks are set on the given objects only, if a transaction was found. -/
structure Registry.Keeps (r r' : Registry) (refs : List ℕ) (found : Prop) : Prop where
  text : ∀ ref, (r'.objects ref).entry.unhashed = (r.objects ref).entry.unhashed
  marked : ∀ ref, (r'.objects ref).blockchainConfirmed = true →
    (r.objects ref).blockchainConfirmed = true ∨ ref ∈ refs ∧ found

namespace Registry

variable {r r' : Registry} {refs : List ℕ} {found : Prop} {sha : Sha256}

lemma Keeps.refl (r : Registry) (refs : List ℕ) (found : Prop) : Keeps r r refs found :=
  ⟨fun _ => rfl, fun _ h => .inl h⟩

lemma Keeps.trans {r'' : Registry} (h : Keeps r r' refs found) (h' : Keeps r' r'' refs found) :
    Keeps r r'' refs found := by
  constructor
  · intro ref
    rw [h'.text, h.text]
  · intro ref hmark
    rcases h'.marked ref hmark with hmark | hfound
    · exact h.marked ref hmark
    · exact .inr hfound

lemma Keeps.of_objects (h : r'.objects = r.objects) : Keeps r r' refs found := by
  constructor
  · intro ref
    rw [h]
  · intro ref hmark
    rw [h] at hmark
    exact .inl hmark

lemma keeps_hash (ref : ℕ) : Keeps r (r.hash sha ref) refs found := by
  have hobject (ref' : ℕ) : ((r.hash sha ref).objects ref').entry.unhashed =
      (r.objects ref').entry.unhashed ∧ ((r.hash sha ref).objects ref').blockchainConfirmed =
        (r.objects ref').blockchainConfirmed := by
    simp only [hash, assign]
    by_cases heq : ref' = ref
    · subst heq
      rw [Function.update_self]
      exact ⟨rfl, rfl⟩
    · rw [Function.update_of_ne heq]
      exact ⟨rfl, rfl⟩
  constructor
  · exact fun ref' => (hobject ref').1
  · intro ref' hmark
    rw [(hobject ref').2] at hmark
    exact .inl hmark

lemma keeps_mark {confirmed : Bool} {ref : ℕ} (href : ref ∈ refs)
    (hfound : confirmed = true → found) : Keeps r (r.mark confirmed ref) refs found := by
  constructor
  · intro ref'
    simp only [mark, assign]
    by_cases heq : ref' = ref
    · rw [heq, Function.update_self]
    · rw [Function.update_of_ne heq]
  · intro ref' hmark
    simp only [mark, assign] at hmark
    by_cases heq : ref' = ref
    · subst heq
      rw [Function.update_self] at hmark
      exact .inr ⟨href, hfound hmark⟩
    · rw [Function.update_of_ne heq] at hmark
      exact .inl hmark

lemma keeps_foldl {f : Registry → ℕ → Registry} :
    ∀ {l : List ℕ} {r : Registry}, (∀ r, ∀ ref ∈ l, Keeps r (f r ref) refs found) →
      Keeps r (l.foldl f r) refs found
  | [], r, _ => .refl r refs found
  | ref :: l, r, h => by
    rw [List.foldl_cons]
    apply Keeps.trans (h r ref (.head _))
    exact keeps_foldl fun r' ref' href' => h r' ref' (.tail _ href')

lemma foldl_congr {α : Type} {f : Registry → ℕ → Registry} (g : Registry → α)
    (h : ∀ r ref, g (f r ref) = g r) : ∀ (l : List ℕ) (r : Registry), g (l.foldl f r) = g r
  | [], _ => rfl
  | ref :: l, r => by rw [List.foldl_cons, foldl_congr g h, h]

@[simp] lemma hashAll_entryRegistry (r : Registry) (sha : Sha256) (refs : List ℕ) :
    (r.hashAll sha refs).entryRegistry = r.entryRegistry :=
  foldl_congr (f := fun r ref => r.hash sha ref) entryRegistry (fun _ _ => rfl) refs r

@[simp] lemma hashAll_hashRegistry (r : Registry) (sha : Sha256) (refs : List ℕ) :
    (r.hashAll sha refs).hashRegistry = r.hashRegistry :=
  foldl_congr (f := fun r ref => r.hash sha ref) hashRegistry (fun _ _ => rfl) refs r

@[simp] lemma markAll_entryRegistry (r : Registry) (confirmed : Bool) (refs : List ℕ) :
    (r.markAll confirmed refs).entryRegistry = r.entryRegistry :=
  foldl_congr (f := fun r ref => r.mark confirmed ref) entryRegistry (fun _ _ => rfl) refs r

@[simp] lemma markAll_hashRegistry (r : Registry) (confirmed : Bool) (refs : List ℕ) :
    (r.markAll confirmed refs).hashRegistry = r.hashRegistry :=
  foldl_congr (f := fun r ref => r.mark confirmed ref) hashRegistry (fun _ _ => rfl) refs r

@[simp] lemma setHashes_objects (r : Registry) (hash : JsString) (refs : List ℕ) :
    (r.setHashes hash refs).objects = r.objects :=
  foldl_congr (f := fun r ref => r.setHash (r.objects ref).entry.id hash) objects
    (fun _ _ => rfl) refs r

@[simp] lemma setHashes_entryRegistry (r : Registry) (hash : JsString) (refs : List ℕ) :
    (r.setHashes hash refs).entryRegistry = r.entryRegistry :=
  foldl_congr (f := fun r ref => r.setHash (r.objects ref).entry.id hash) entryRegistry
    (fun _ _ => rfl) refs r

/-- The hashes of a batch are registered under the ids of its entries. -/
lemma hashRegistry_setHashes {hash id : JsString} :
    ∀ {refs : List ℕ} {r : Registry}, ((r.setHashes hash refs).hashRegistry id).isSome = true →
      (r.hashRegistry id).isSome = true ∨ ∃ ref ∈ refs, (r.objects ref).entry.id = id
  | [], _, h => .inl h
  | ref :: refs, r, h => by
    rw [setHashes, List.foldl_cons] at h
    rcases hashRegistry_setHashes h with h | ⟨ref', href', hid⟩
    · by_cases hid : id = (r.objects ref).entry.id
      · exact .inr ⟨ref, .head _, hid.symm⟩
      · simp only [setHash, Function.update_of_ne hid] at h
        exact .inl h
    · exact .inr ⟨ref', .tail _ href', hid⟩

end Registry

/-! ### The condition -/

section

variable (A : AnchorClient) (sha : Sha256)

/-- If the transaction of the call is found, the hash is on the chain. -/
def AnchorCall.Records (call : AnchorCall) (n : A.Node) (r : Registry) (ms : ℕ)
    (hash : JsString) : Prop :=
  submitOnly call.opts = true ∨ A.OnChain n hash ∨
    ∀ tx, call.tx A sha r ms = .ok tx → A.writes tx = some (bufferFromHex hash)

/-- A log is handed over without a mark that its hash does not bear out, and the call does not wait
for a transaction that records something else. A batch has the registered text for each id that is
registered, which are all ids in mode `full`; and no registered object is in a batch whose
transaction is waited for, unless the hash of the object is on the chain. -/
def Consistent : CallCondition A
  | n, r, ms, .writeLog ref opts =>
    ((r.objects ref).blockchainConfirmed = true →
      A.OnChain n (sha.computeLogHash (r.objects ref).entry)) ∧
    (AnchorCall.writeLog ref opts).Records A sha n r ms (sha.computeLogHash (r.objects ref).entry)
  | n, r, ms, .writeBatch refs opts =>
    (∀ id last ref, r.lastOf refs id = some last → r.entryRegistry id = some ref →
      (r.objects ref).entry.SameContent (r.objects last).entry) ∧
    (A.mode = .full → ∀ ref ∈ refs, (r.entryRegistry (r.objects ref).entry.id).isSome = true) ∧
    ∀ ref ∈ refs, r.entryRegistry (r.objects ref).entry.id = some ref →
      (AnchorCall.writeBatch refs opts).Records A sha n r ms
        (sha.computeLogHash (r.objects ref).entry)

end

/-! ### What a call does to the registries -/

variable {A : AnchorClient} {sha : Sha256}

/-- The call has found its transaction on the chain. -/
def AnchorCall.Found (A : AnchorClient) (sha : Sha256) (call : AnchorCall) (r : Registry)
    (a : Answers) : Prop :=
  submitOnly call.opts = false ∧ (∃ tx, call.tx A sha r a.ms = .ok tx) ∧ (∃ h, a.sent = .ok h) ∧
    a.waited = .ok true

lemma Registry.object_hash (r : Registry) (ref : ℕ) :
    ((r.hash sha ref).objects ref).entry = (r.objects ref).entry.withHash sha := by
  simp only [hash, assign, Function.update_self]

variable (A sha) in
lemma writeLog_effect (ref : ℕ) (opts : Option WriteOpts) (a : Answers) (r : Registry) :
    let call := AnchorCall.writeLog ref opts
    Registry.Keeps r (call.perform A sha a r) call.refs (call.Found A sha r a) ∧
      (call.perform A sha a r).entryRegistry =
        Function.update r.entryRegistry (r.objects ref).entry.id (some ref) ∧
      (call.perform A sha a r).hashRegistry = Function.update r.hashRegistry
        (r.objects ref).entry.id (some (sha.leafHash (r.objects ref).entry)) := by
  intro call
  have hkeep (found : Prop) {entry : LogEntry} : Registry.Keeps r
      (((r.hash sha ref).setHash entry.id entry.dataHash).setEntry entry.id ref) call.refs found :=
    (Registry.keeps_hash ref).trans (.of_objects rfl)
  show Registry.Keeps r (A.writeLog sha ref opts a r).2 call.refs _ ∧
    (A.writeLog sha ref opts a r).2.entryRegistry = _ ∧
    (A.writeLog sha ref opts a r).2.hashRegistry = _
  rw [AnchorClient.writeLog]
  simp only [Registry.object_hash]
  split
  · exact ⟨hkeep _, rfl, rfl⟩
  next tx htx =>
  split
  · exact ⟨hkeep _, rfl, rfl⟩
  next txHash hsent =>
  split
  · exact ⟨(hkeep _).trans (Registry.keeps_mark (.head _) nofun), rfl, rfl⟩
  next hwait =>
  split
  · exact ⟨hkeep _, rfl, rfl⟩
  next confirmed hwaited =>
  refine ⟨(hkeep _).trans (Registry.keeps_mark (.head _) ?_), rfl, rfl⟩
  rintro rfl
  exact ⟨Bool.not_eq_true _ ▸ hwait, ⟨tx, htx⟩, ⟨txHash, hsent⟩, hwaited⟩

variable (A sha) in
lemma writeBatch_effect (refs : List ℕ) (opts : Option WriteOpts) (a : Answers) (r : Registry) :
    let call := AnchorCall.writeBatch refs opts
    Registry.Keeps r (call.perform A sha a r) call.refs (call.Found A sha r a) ∧
      (call.perform A sha a r).entryRegistry = r.entryRegistry ∧
      ∀ id, ((call.perform A sha a r).hashRegistry id).isSome = true →
        (r.hashRegistry id).isSome = true ∨ ∃ ref ∈ refs, (r.objects ref).entry.id = id := by
  intro call
  show Registry.Keeps r (A.writeBatch sha refs opts a r).2 refs _ ∧
    (A.writeBatch sha refs opts a r).2.entryRegistry = _ ∧
    ∀ id, ((A.writeBatch sha refs opts a r).2.hashRegistry id).isSome = true → _
  rw [AnchorClient.writeBatch]
  split
  · exact ⟨.refl _ _ _, rfl, fun _ h => .inl h⟩
  next hne =>
  have hhashed (found : Prop) : Registry.Keeps r (r.hashAll sha refs) refs found :=
    Registry.keeps_foldl fun r ref _ => Registry.keeps_hash ref
  have hset (found : Prop) (hash : JsString) :
      Registry.Keeps r ((r.hashAll sha refs).setHashes hash refs) refs found :=
    (hhashed _).trans (.of_objects (Registry.setHashes_objects ..))
  have hmark {found : Prop} {hash : JsString} {confirmed : Bool} (h : confirmed = true → found) :
      Registry.Keeps r (((r.hashAll sha refs).setHashes hash refs).markAll confirmed refs) refs
        found :=
    (hset _ _).trans (Registry.keeps_foldl fun r ref href => Registry.keeps_mark href h)
  have hregistered {hash id : JsString}
      (h : (((r.hashAll sha refs).setHashes hash refs).hashRegistry id).isSome = true) :
      (r.hashRegistry id).isSome = true ∨ ∃ ref ∈ refs, (r.objects ref).entry.id = id := by
    rcases Registry.hashRegistry_setHashes h with h | ⟨ref, href, hid⟩
    · rw [Registry.hashAll_hashRegistry] at h
      exact .inl h
    · exact .inr ⟨ref, href, (LogEntry.id_of_unhashed ((hhashed True).text ref)).symm.trans hid⟩
  dsimp only
  split
  · exact ⟨hhashed _, by simp, fun id h => .inl (by simpa using h)⟩
  next tx htx =>
  split
  · exact ⟨hhashed _, by simp, fun id h => .inl (by simpa using h)⟩
  next txHash hsent =>
  split
  · exact ⟨hmark nofun, by simp, fun id h => hregistered (by simpa using h)⟩
  next hwait =>
  split
  · exact ⟨hset _ _, by simp, fun id h => hregistered h⟩
  next confirmed hwaited =>
  refine ⟨hmark ?_, by simp, fun id h => hregistered (by simpa using h)⟩
  rintro rfl
  refine ⟨Bool.not_eq_true _ ▸ hwait, ⟨tx, ?_⟩, ⟨txHash, hsent⟩, hwaited⟩
  show (if refs = [] then _ else _) = _
  rw [if_neg hne]
  exact htx

/-! ### The last object -/

lemma Registry.lastOf_append (r : Registry) (l l' : List ℕ) (id : JsString) :
    r.lastOf (l ++ l') id = (r.lastOf l' id).or (r.lastOf l id) := by
  rw [lastOf, List.reverse_append, List.find?_append]
  rfl

lemma Registry.Keeps.lastOf {r r' : Registry} {refs : List ℕ} {found : Prop}
    (h : Keeps r r' refs found) (l : List ℕ) (id : JsString) : r'.lastOf l id = r.lastOf l id := by
  have hid (ref : ℕ) : (r'.objects ref).entry.id = (r.objects ref).entry.id :=
    LogEntry.id_of_unhashed (h.text ref)
  simp only [Registry.lastOf, hid]

/-! ### What the chain says -/

lemma AnchorRun.reach {P : CallCondition A} {calls : List AnchorCall} {n : A.Node} {r : Registry}
    (h : AnchorRun A sha P calls n r) : ReflTransGen A.Happens A.genesis n := by
  induction h with
  | start objects => exact .refl
  | chain h hn ih => exact ih.tail hn
  | call h hP hs ih => exact ih.trans hs.happens

lemma AnchorClient.OnChain.later {n n' : A.Node} {hash : JsString} (h : A.OnChain n hash)
    (hn : ReflTransGen A.Happens n n') : A.OnChain n' hash := by
  induction hn with
  | refl => exact h
  | tail _ hstep ih => exact A.recorded_of_happens hstep ih

/-- A transaction that is found has left its record. -/
lemma onChain_of_found {call : AnchorCall} {n n' : A.Node} {r : Registry} {a : Answers}
    {hash : JsString} (hn : ReflTransGen A.Happens A.genesis n) (hs : call.Served A sha r a n n')
    (hfound : call.Found A sha r a) (h : call.Records A sha n r a.ms hash) :
    A.OnChain n' hash := by
  obtain ⟨hwait, ⟨tx, htx⟩, ⟨txHash, hsent⟩, hwaited⟩ := hfound
  rcases h with hsubmit | hold | hwrites
  · rw [hwait] at hsubmit
    cases hsubmit
  · exact hold.later hs.happens
  · obtain ⟨m, m', hm, hsubmit, hm'⟩ := hs.sent tx txHash htx hsent
    exact A.recorded_of_included (hn.trans hm) hsubmit hm' (hs.waited txHash hsent hwaited)
      (hwrites tx htx)

/-! ### The invariant -/

/-- A registered object has the text that was handed over last under its id, and is marked only if
its hash is on the chain. In mode `full` each registered hash has an object. -/
structure RegistriesAgree (A : AnchorClient) (sha : Sha256) (calls : List AnchorCall) (n : A.Node)
    (r : Registry) : Prop where
  last : ∀ id ref, r.entryRegistry id = some ref → (r.objects ref).entry.id = id ∧
    ∃ last, r.lastOf (calls.flatMap AnchorCall.refs) id = some last ∧
      (r.objects ref).entry.SameContent (r.objects last).entry
  marked : ∀ id ref, r.entryRegistry id = some ref → (r.objects ref).blockchainConfirmed = true →
    A.OnChain n (sha.computeLogHash (r.objects ref).entry)
  full : A.mode = .full → ∀ id, (r.hashRegistry id).isSome = true →
    (r.entryRegistry id).isSome = true

section Steps

variable {calls : List AnchorCall} {n n' : A.Node} {r : Registry} {a : Answers}

/-- An id that the call does not hand over keeps its last object. -/
lemma Registry.Keeps.last_of_old {r' : Registry} {call : AnchorCall} {found : Prop} {id : JsString}
    {ref last : ℕ} (h : Keeps r r' call.refs found) (hnone : r.lastOf call.refs id = none)
    (hlast : r.lastOf (calls.flatMap AnchorCall.refs) id = some last)
    (hsame : (r.objects ref).entry.SameContent (r.objects last).entry) :
    ∃ last, r'.lastOf ((calls ++ [call]).flatMap AnchorCall.refs) id = some last ∧
      (r'.objects ref).entry.SameContent (r'.objects last).entry := by
  refine ⟨last, ?_, hsame.of_unhashed (h.text _) (h.text _)⟩
  rw [List.flatMap_append, List.flatMap_singleton, h.lastOf, Registry.lastOf_append, hnone,
    Option.none_or, hlast]

lemma Registry.Keeps.last_of_new {r' : Registry} {call : AnchorCall} {found : Prop} {id : JsString}
    {ref last : ℕ} (h : Keeps r r' call.refs found) (hlast : r.lastOf call.refs id = some last)
    (hsame : (r.objects ref).entry.SameContent (r.objects last).entry) :
    ∃ last, r'.lastOf ((calls ++ [call]).flatMap AnchorCall.refs) id = some last ∧
      (r'.objects ref).entry.SameContent (r'.objects last).entry := by
  refine ⟨last, ?_, hsame.of_unhashed (h.text _) (h.text _)⟩
  rw [List.flatMap_append, List.flatMap_singleton, h.lastOf, Registry.lastOf_append, hlast,
    Option.some_or]

lemma RegistriesAgree.chain (h : RegistriesAgree A sha calls n r) (hn : A.Happens n n') :
    RegistriesAgree A sha calls n' r :=
  ⟨h.last, fun id ref href hmark => (h.marked id ref href hmark).later (.single hn), h.full⟩

lemma RegistriesAgree.writeLog {ref : ℕ} {opts : Option WriteOpts}
    (h : RegistriesAgree A sha calls n r) (hn : ReflTransGen A.Happens A.genesis n)
    (hP : Consistent A sha n r a.ms (.writeLog ref opts))
    (hs : (AnchorCall.writeLog ref opts).Served A sha r a n n') :
    RegistriesAgree A sha (calls ++ [.writeLog ref opts]) n'
      ((AnchorCall.writeLog ref opts).perform A sha a r) := by
  obtain ⟨hmarked, hrecords⟩ := hP
  obtain ⟨hkeeps, hentries, hhashes⟩ := writeLog_effect A sha ref opts a r
  constructor
  · intro id ref' href
    rw [hentries] at href
    by_cases hid : id = (r.objects ref).entry.id
    · subst hid
      rw [Function.update_self] at href
      cases href
      refine ⟨LogEntry.id_of_unhashed (hkeeps.text ref), hkeeps.last_of_new ?_
        (.refl (r.objects ref).entry)⟩
      simp [Registry.lastOf, AnchorCall.refs]
    · rw [Function.update_of_ne hid] at href
      obtain ⟨hrefid, last, hlast, hsame⟩ := h.last id ref' href
      refine ⟨(LogEntry.id_of_unhashed (hkeeps.text ref')).trans hrefid,
        hkeeps.last_of_old ?_ hlast hsame⟩
      simpa [Registry.lastOf, AnchorCall.refs] using Ne.symm hid
  · intro id ref' href hmark
    rw [computeLogHash_of_unhashed (hkeeps.text ref')]
    rcases hkeeps.marked ref' hmark with hold | ⟨hmem, hfound⟩
    · rw [hentries] at href
      by_cases hid : id = (r.objects ref).entry.id
      · subst hid
        rw [Function.update_self] at href
        cases href
        exact (hmarked hold).later hs.happens
      · rw [Function.update_of_ne hid] at href
        exact (h.marked id ref' href hold).later hs.happens
    · cases List.mem_singleton.mp hmem
      exact onChain_of_found hn hs hfound hrecords
  · intro hmode id hid
    rw [hhashes] at hid
    rw [hentries]
    by_cases heq : id = (r.objects ref).entry.id
    · rw [heq, Function.update_self]
      rfl
    · rw [Function.update_of_ne heq] at hid ⊢
      exact h.full hmode id hid

lemma RegistriesAgree.writeBatch {refs : List ℕ} {opts : Option WriteOpts}
    (h : RegistriesAgree A sha calls n r) (hn : ReflTransGen A.Happens A.genesis n)
    (hP : Consistent A sha n r a.ms (.writeBatch refs opts))
    (hs : (AnchorCall.writeBatch refs opts).Served A sha r a n n') :
    RegistriesAgree A sha (calls ++ [.writeBatch refs opts]) n'
      ((AnchorCall.writeBatch refs opts).perform A sha a r) := by
  obtain ⟨htexts, hfull, hrecords⟩ := hP
  obtain ⟨hkeeps, hentries, hhashes⟩ := writeBatch_effect A sha refs opts a r
  constructor
  · intro id ref href
    rw [hentries] at href
    obtain ⟨hrefid, last, hlast, hsame⟩ := h.last id ref href
    refine ⟨(LogEntry.id_of_unhashed (hkeeps.text ref)).trans hrefid, ?_⟩
    cases hnew : r.lastOf refs id with
    | none => exact hkeeps.last_of_old hnew hlast hsame
    | some new => exact hkeeps.last_of_new hnew (htexts id new ref hnew href)
  · intro id ref href hmark
    rw [hentries] at href
    rw [computeLogHash_of_unhashed (hkeeps.text ref)]
    rcases hkeeps.marked ref hmark with hold | ⟨hmem, hfound⟩
    · exact (h.marked id ref href hold).later hs.happens
    · have hcached := href
      rw [← (h.last id ref href).1] at hcached
      exact onChain_of_found hn hs hfound (hrecords ref hmem hcached)
  · intro hmode id hid
    rw [hentries]
    rcases hhashes id hid with hold | ⟨ref, href, heq⟩
    · exact h.full hmode id hold
    · rw [← heq]
      exact hfull hmode ref href

end Steps

lemma AnchorRun.agree {calls : List AnchorCall} {n : A.Node} {r : Registry}
    (h : AnchorRun A sha (Consistent A sha) calls n r) : RegistriesAgree A sha calls n r := by
  induction h with
  | start objects =>
    constructor
    · intro id ref href
      cases href
    · intro id ref href
      cases href
    · intro _ id hid
      cases hid
  | chain h hn ih => exact ih.chain hn
  | @call calls n n' r call a h hP hs ih =>
    cases call with
    | writeLog ref opts => exact ih.writeLog h.reach hP hs
    | writeBatch refs opts => exact ih.writeBatch h.reach hP hs

/-- Where the registries agree, a read finds a registered object or nothing. -/
lemma RegistriesAgree.readsBack {calls : List AnchorCall} {n : A.Node} {r : Registry}
    (h : RegistriesAgree A sha calls n r) : ReadsBack A sha calls n r := by
  intro id answers time o ho
  rw [AnchorClient.readLog] at ho
  split at ho
  · next ref href =>
    cases ho
    exact ⟨(h.last id ref href).2, h.marked id ref href⟩
  next hnone =>
  split at ho
  · cases ho
  next hmode =>
  have hhash : r.hashRegistry id = none := by
    rw [← Option.not_isSome_iff_eq_none]
    intro hsome
    have hcached := h.full (not_not.mp hmode) id hsome
    rw [hnone] at hcached
    cases hcached
  rw [hhash] at ho
  cases ho

/-! ### Main result -/

/-- After any calls that are consistent with what is registered, the anchors read back what was
written. -/
theorem anchors_read_back (cfg : ServerConfig) (objectHash : ObjectHash) (mode : AnchorMode) :
    (∀ calls n r, AnchorRun (ExonumAnchor.client cfg objectHash mode) cfg.sha
        (Consistent (ExonumAnchor.client cfg objectHash mode) cfg.sha) calls n r →
      ReadsBack (ExonumAnchor.client cfg objectHash mode) cfg.sha calls n r) ∧
      ∀ calls n r, AnchorRun (EthereumAnchor.client cfg mode) cfg.sha
          (Consistent (EthereumAnchor.client cfg mode) cfg.sha) calls n r →
        ReadsBack (EthereumAnchor.client cfg mode) cfg.sha calls n r := by
  constructor
  · intro calls n r h
    exact h.agree.readsBack
  · intro calls n r h
    exact h.agree.readsBack

/-- Two logs, to try statements on, which nobody has marked. -/
def startedObjects : ℕ → EntryObject
  | 0 => ⟨startedEntry, false⟩
  | _ => ⟨{ startedEntry with id := ofString "b", message := ofString "stopped early" }, false⟩

/-- The anchor of the server. -/
abbrev serverAnchor : AnchorClient := EthereumAnchor.client connectedConfig .full

/-- The transaction of a call is included. -/
def includedChain (c : ContractChain LogStore StoreWrite) (txHash : TxHash) (call : AnchorCall)
    (r : Registry) : Option (ContractChain LogStore StoreWrite) :=
  match call.tx serverAnchor connectedConfig.sha r 0 with
  | .error _ => none
  | .ok w => (c.send ⟨w, []⟩ txHash).bind fun c =>
      c.mine logStore connectedConfig.sha txHash true

/-- The calls of the example wait, and find their transaction. -/
def foundAnswers (txHash : TxHash) : Answers := ⟨0, .ok txHash, .ok true⟩

section Included

variable {c n : ContractChain LogStore StoreWrite} {txHash : TxHash} {call : AnchorCall}
  {r : Registry}

lemma included_steps (hn : includedChain c txHash call r = some n) : ∃ w c',
    call.tx serverAnchor connectedConfig.sha r 0 = .ok w ∧
      c.send ⟨w, []⟩ txHash = some c' ∧
      c'.mine logStore connectedConfig.sha txHash true = some n := by
  rw [includedChain] at hn
  split at hn
  · cases hn
  · next w hw =>
    obtain ⟨c', hsend, hmine⟩ := Option.bind_eq_some_iff.mp hn
    exact ⟨w, c', hw, hsend, hmine⟩

lemma served_of_included (hn : includedChain c txHash call r = some n) :
    call.Served serverAnchor connectedConfig.sha r (foundAnswers txHash) c n := by
  obtain ⟨w, c', hw, hsend, hmine⟩ := included_steps hn
  have hpath : ReflTransGen serverAnchor.Happens c' n := .single (.mine hmine)
  constructor
  · exact .head (.send hsend) hpath
  · intro tx h htx hsent
    rw [show call.tx serverAnchor connectedConfig.sha r (foundAnswers txHash).ms = .ok w from hw]
      at htx
    cases htx
    cases hsent
    exact ⟨_, c', .refl, hsend, hpath⟩
  · intro h hsent _
    cases hsent
    exact ContractChain.succeeded_of_mine hmine

lemma found_of_included (hn : includedChain c txHash call r = some n)
    (hwait : submitOnly call.opts = false) :
    call.Found serverAnchor connectedConfig.sha r (foundAnswers txHash) := by
  obtain ⟨w, c', hw, -⟩ := included_steps hn
  exact ⟨hwait, ⟨w, hw⟩, ⟨txHash, rfl⟩, rfl⟩

/-- The transaction of a log without a hash writes the hash of its text. -/
lemma writes_writeLog {ref : ℕ} (hfresh : (r.objects ref).entry.dataHash = []) (tx : StoreWrite)
    (htx : (AnchorCall.writeLog ref none).tx serverAnchor connectedConfig.sha r 0 = .ok tx) :
    serverAnchor.writes tx =
      some (bufferFromHex (connectedConfig.sha.computeLogHash (r.objects ref).entry)) := by
  have hhash : ((r.objects ref).entry.withHash connectedConfig.sha).dataHash =
      connectedConfig.sha.computeLogHash (r.objects ref).entry := if_pos hfresh
  have hdigest : IsDigest ((r.objects ref).entry.withHash connectedConfig.sha).dataHash :=
    hhash ▸ Sha256.isDigest_computeLogHash (r.objects ref).entry
  have hkey := EthereumAnchor.contentHash_logCall hdigest htx
  rw [hhash] at hkey
  exact congrArg some hkey

/-- A log without a hash or a mark is written, and is on the chain then. -/
lemma AnchorRun.writeLog_included {calls : List AnchorCall} {ref : ℕ}
    (h : AnchorRun serverAnchor connectedConfig.sha (Consistent serverAnchor connectedConfig.sha)
      calls c r) (hfresh : (r.objects ref).entry.dataHash = [])
    (hmark : (r.objects ref).blockchainConfirmed = false)
    (hn : includedChain c txHash (.writeLog ref none) r = some n) :
    AnchorRun serverAnchor connectedConfig.sha (Consistent serverAnchor connectedConfig.sha)
        (calls ++ [.writeLog ref none]) n
        ((AnchorCall.writeLog ref none).perform serverAnchor connectedConfig.sha
          (foundAnswers txHash) r) ∧
      serverAnchor.OnChain n (connectedConfig.sha.computeLogHash (r.objects ref).entry) := by
  have hrecords : (AnchorCall.writeLog ref none).Records serverAnchor connectedConfig.sha c r 0
      (connectedConfig.sha.computeLogHash (r.objects ref).entry) :=
    .inr (.inr (writes_writeLog hfresh))
  have hconsistent : Consistent serverAnchor connectedConfig.sha c r 0 (.writeLog ref none) := by
    refine ⟨fun hmarked => ?_, hrecords⟩
    rw [hmark] at hmarked
    cases hmarked
  have hserved := served_of_included hn
  exact ⟨h.call hconsistent hserved,
    onChain_of_found h.reach hserved (found_of_included hn rfl) hrecords⟩

end Included

/-- The registries after the first log, and after both. -/
def firstRegistry : Registry :=
  (AnchorCall.writeLog 0 none).perform serverAnchor connectedConfig.sha (foundAnswers "t")
    (.fresh startedObjects)

def secondRegistry : Registry :=
  (AnchorCall.writeLog 1 none).perform serverAnchor connectedConfig.sha (foundAnswers "u")
    firstRegistry

def batchedRegistry : Registry :=
  (AnchorCall.writeBatch [0, 1] none).perform serverAnchor connectedConfig.sha (foundAnswers "v")
    secondRegistry

/-- The transactions of the logs and of their batch are included one after the other. -/
def batchedChain : Option (ContractChain LogStore StoreWrite) :=
  (includedChain (.genesis logStore) "t" (.writeLog 0 none) (.fresh startedObjects)).bind fun c =>
    (includedChain c "u" (.writeLog 1 none) firstRegistry).bind fun c =>
      includedChain c "v" (.writeBatch [0, 1] none) secondRegistry

lemma AnchorClient.readLog_registered (A : AnchorClient) {n : A.Node} {r : Registry} {id : JsString}
    {ref : ℕ} (h : r.entryRegistry id = some ref) (answers : Bool) (time : JsDate) :
    A.readLog n answers time r id = some (r.objects ref) := by
  rw [AnchorClient.readLog, h]

/-- The batch of two logs that are registered and on the chain meets the condition. -/
lemma consistent_batch {c : ContractChain LogStore StoreWrite}
    (h : ∀ ref ∈ [0, 1], serverAnchor.OnChain c
      (connectedConfig.sha.computeLogHash (secondRegistry.objects ref).entry)) :
    Consistent serverAnchor connectedConfig.sha c secondRegistry 0 (.writeBatch [0, 1] none) := by
  have hregistered : ∀ ref ∈ [0, 1],
      secondRegistry.entryRegistry (secondRegistry.objects ref).entry.id = some ref := by
    decide +kernel
  refine ⟨fun id last ref hlast href => ?_, fun _ ref href => ?_, fun ref href _ => ?_⟩
  · obtain rfl : (secondRegistry.objects last).entry.id = id := by simpa using List.find?_some hlast
    have hmem : last ∈ [0, 1] := List.mem_reverse.mp (List.mem_of_find?_eq_some hlast)
    obtain rfl : last = ref := Option.some.inj ((hregistered last hmem).symm.trans href)
    exact ⟨rfl, rfl, rfl, rfl⟩
  · rw [hregistered ref href]
    rfl
  · exact .inr (.inl (h ref href))

/-- The logs are written, then the batch of the two. -/
theorem written_logs_read_back : ∃ n, ∀ ref ∈ [0, 1], ∃ o,
    serverAnchor.readLog n true .epoch batchedRegistry (startedObjects ref).entry.id = some o ∧
      o.blockchainConfirmed = true ∧
      serverAnchor.OnChain n (connectedConfig.sha.computeLogHash o.entry) := by
  have hsome : batchedChain.isSome = true := by decide +kernel
  obtain ⟨n, hn⟩ := Option.isSome_iff_exists.mp hsome
  obtain ⟨c₁, hc₁, hn⟩ := Option.bind_eq_some_iff.mp hn
  obtain ⟨c₂, hc₂, hn⟩ := Option.bind_eq_some_iff.mp hn
  obtain ⟨hrun₁, hchain₁⟩ := (AnchorRun.start startedObjects).writeLog_included rfl rfl hc₁
  change AnchorRun serverAnchor _ _ _ _ firstRegistry at hrun₁
  have hfresh : (firstRegistry.objects 1).entry.dataHash = [] := by decide +kernel
  have hmark : (firstRegistry.objects 1).blockchainConfirmed = false := by decide +kernel
  obtain ⟨hrun₂, hchain₂⟩ :=
    AnchorRun.writeLog_included (r := firstRegistry) hrun₁ hfresh hmark hc₂
  change AnchorRun serverAnchor _ _ _ _ secondRegistry at hrun₂
  have hchain : ∀ ref ∈ [0, 1], serverAnchor.OnChain c₂
      (connectedConfig.sha.computeLogHash (secondRegistry.objects ref).entry) := by
    have htext₁ : connectedConfig.sha.computeLogHash (secondRegistry.objects 0).entry =
        connectedConfig.sha.computeLogHash ((Registry.fresh startedObjects).objects 0).entry := by
      decide +kernel
    have htext₂ : connectedConfig.sha.computeLogHash (secondRegistry.objects 1).entry =
        connectedConfig.sha.computeLogHash (firstRegistry.objects 1).entry := by
      decide +kernel
    intro ref href
    obtain rfl | href := List.mem_cons.mp href
    · rw [htext₁]
      exact hchain₁.later (served_of_included hc₂).happens
    · rw [List.mem_singleton.mp href, htext₂]
      exact hchain₂
  have hrun := hrun₂.call (consistent_batch hchain) (served_of_included hn)
  have hreads := (anchors_read_back connectedConfig (fun _ => []) .full).2 _ _ _ hrun
  have hregistered : ∀ ref ∈ [0, 1],
      batchedRegistry.entryRegistry (startedObjects ref).entry.id = some ref ∧
        (batchedRegistry.objects ref).blockchainConfirmed = true := by
    decide +kernel
  refine ⟨n, fun ref href => ?_⟩
  obtain ⟨hentry, hmarked⟩ := hregistered ref href
  have ho := serverAnchor.readLog_registered (n := n) hentry true .epoch
  exact ⟨_, ho, hmarked, (hreads _ _ _ _ ho).2 hmarked⟩

/-- The batch of the log is written and its transaction found: what is read under the id of the log
has no message. -/
theorem batched_log_without_message : ¬∀ mode,
    (∀ calls n r, AnchorRun (ExonumAnchor.client connectedConfig (fun _ => []) mode)
        connectedConfig.sha (fun _ _ _ _ => True) calls n r →
      ReadsBack (ExonumAnchor.client connectedConfig (fun _ => []) mode) connectedConfig.sha
        calls n r) ∧
      ∀ calls n r, AnchorRun (EthereumAnchor.client connectedConfig mode) connectedConfig.sha
          (fun _ _ _ _ => True) calls n r →
        ReadsBack (EthereumAnchor.client connectedConfig mode) connectedConfig.sha calls n r := by
  intro hall
  obtain ⟨n, hn⟩ : ∃ n, includedChain (.genesis logStore) "t" (.writeBatch [0] none)
      (.fresh startedObjects) = some n := Option.isSome_iff_exists.mp (by decide +kernel)
  have hrun : AnchorRun serverAnchor connectedConfig.sha (fun _ _ _ _ => True)
      [.writeBatch [0] none] n _ := .call (.start startedObjects) trivial (served_of_included hn)
  have hread : (includedChain (.genesis logStore) "t" (.writeBatch [0] none)
      (.fresh startedObjects)).map (fun n =>
        (serverAnchor.readLog n true .epoch ((AnchorCall.writeBatch [0] none).perform serverAnchor
          connectedConfig.sha (foundAnswers "t") (.fresh startedObjects)) startedEntry.id).map
            fun o => o.entry.message) = some (some []) := by
    decide +kernel
  rw [hn] at hread
  obtain ⟨o, ho, hmessage⟩ := Option.map_eq_some_iff.mp (Option.some.inj hread)
  obtain ⟨ref, hlast, hcontent⟩ := ((hall .full).2 _ _ _ hrun _ _ _ o ho).1
  obtain rfl : ref = 0 := List.mem_singleton.mp (List.mem_of_find?_eq_some hlast)
  have hkeeps := (writeBatch_effect serverAnchor connectedConfig.sha [0] none (foundAnswers "t")
    (.fresh startedObjects)).1
  have hstarted : o.entry.SameContent ((Registry.fresh startedObjects).objects 0).entry :=
    hcontent.of_unhashed rfl (hkeeps.text 0).symm
  have hempty : startedEntry.message = [] := hstarted.message.symm.trans hmessage
  exact absurd hempty (by decide)

end HybridLog
