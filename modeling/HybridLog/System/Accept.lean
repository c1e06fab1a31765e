import HybridLog.System.Machine

/-!
# What an outside event does

One inversion of `State.accept`: when an outside event can happen, how it changes the shared state,
and which program it starts.
-/

namespace HybridLog

open Js Async

variable {cfg : ServerConfig} {objectHash : ObjectHash}

variable (cfg) in
/-- Event `x` takes the state `s` to another one and starts programs. -/
inductive Arrival (s : State) :
    External → State → List (Tag × Prog Req Req.Answer Unit) → Prop
  | post {req : PostRequest} {id : JsString} {timestamp : JsDate} (hid : id ∉ s.usedIds)
    (hlen : id.length = 36) (hfits : req.Fits) :
    Arrival s (.post req id timestamp) { s with usedIds := id :: s.usedIds }
      [(.post req (req.entry id timestamp), (postLog cfg req (req.entry id timestamp)).run.detach)]
  | enqueue {msg : SubmitMessage} (h : msg.strategy.hasQueue = true) :
    Arrival s (.enqueue msg) (s.publishSubmit msg) []
  /-- The timer of a writer that holds nothing. -/
  | expire {key : WriterKey} (h : (s.writers key).armed = true)
    (hempty : (s.writers key).buffer = []) :
    Arrival s (.expire key []) { s with writers := Function.update s.writers key .empty } []
  | flush {key : WriterKey} (h : (s.writers key).armed = true)
    (hne : (s.writers key).buffer ≠ []) :
    Arrival s (.expire key (s.writers key).buffer)
      { s with writers := Function.update s.writers key .empty }
      [(.flush key (s.writers key).buffer, (flushBatch cfg key (s.writers key).buffer).run.detach)]
  | deliverSubmit {seq : ℕ} {msg : SubmitMessage} (h : (seq, msg) ∈ s.submitQueue) :
    Arrival s (.deliverSubmit seq msg)
      { s with
        submitQueue := s.submitQueue.erase (seq, msg)
        submitUnacked := (seq, msg) :: s.submitUnacked }
      [(.submit seq msg, (consume (submitHandler cfg msg.strategy msg)).run.detach)]
  | deliverConfirm {seq : ℕ} {msg : ConfirmMessage} (h : (seq, msg) ∈ s.confirmQueue) :
    Arrival s (.deliverConfirm seq msg)
      { s with
        confirmQueue := s.confirmQueue.erase (seq, msg)
        confirmUnacked := (seq, msg) :: s.confirmUnacked }
      [(.confirm seq msg, (consume (confirmHandler cfg msg.strategy msg)).run.detach)]
  | chain {x : ChainEvent} {n : Exonum} {c : Ethereum} :
    Arrival s (.chain x) { s with exonum := n, ethereum := c } []

theorem State.accept_eq_some {s s' : State} {x : External}
    {ps : List (Tag × Prog Req Req.Answer Unit)}
    (h : s.accept cfg objectHash x = some (s', ps)) : Arrival cfg s x s' ps := by
  cases x with
  | post req id timestamp =>
    simp only [accept] at h
    split at h
    · next hpost =>
      cases h
      exact .post hpost.1 hpost.2.1 hpost.2.2
    · cases h
  | enqueue msg =>
    simp only [accept] at h
    split at h
    · next hqueue =>
      cases h
      exact .enqueue hqueue
    · cases h
  | expire key batch =>
    simp only [accept] at h
    split at h
    · next hkey =>
      obtain ⟨harmed, rfl⟩ := hkey
      cases h
      split
      · next hempty =>
        rw [hempty]
        exact .expire harmed hempty
      · next hne => exact .flush harmed hne
    · cases h
  | deliverSubmit seq msg =>
    simp only [accept] at h
    split at h
    · next hmem =>
      cases h
      exact .deliverSubmit hmem
    · cases h
  | deliverConfirm seq msg =>
    simp only [accept] at h
    split at h
    · next hmem =>
      cases h
      exact .deliverConfirm hmem
    · cases h
  | chain x =>
    obtain ⟨s₁, hs₁, heq⟩ := Option.map_eq_some_iff.mp h
    cases heq
    cases x with
    | commit txHash =>
      obtain ⟨n, -, rfl⟩ := Option.map_eq_some_iff.mp hs₁
      exact .chain (c := s.ethereum)
    | nextBlock timestamp =>
      obtain ⟨c, -, rfl⟩ := Option.map_eq_some_iff.mp hs₁
      exact .chain (n := s.exonum)
    | mine txHash status =>
      obtain ⟨c, -, rfl⟩ := Option.map_eq_some_iff.mp hs₁
      exact .chain (n := s.exonum)

end HybridLog
