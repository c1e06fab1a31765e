import HybridLog.Core.LogEntry
import HybridLog.Merkle.Tree

/-!
# Content hashes and batch roots

SHA-256 is given by its digest function; that digests do not collide is assumed where it is used,
and only for the byte strings that are hashed there.
-/

namespace HybridLog

open Js

abbrev Bytes := List UInt8

structure Sha256 where
  digest : Bytes → Bytes
  length_digest : ∀ d, (digest d).length = 32

/-! ### Hexadecimal text -/

def hexByte (b : UInt8) : JsString := [hexUnit (b.toNat / 16), hexUnit (b.toNat % 16)]

/-- `buffer.toString('hex')` -/
def toHex (b : Bytes) : JsString := b.flatMap hexByte

/-- `Buffer.from(s, 'hex')`, which stops at the first pair that is not hexadecimal. -/
def bufferFromHex : JsString → Bytes
  | c :: d :: rest => match hexValue? c, hexValue? d with
    | some x, some y => UInt8.ofNat (x * 16 + y) :: bufferFromHex rest
    | _, _ => []
  | _ => []

/-- A lower-case SHA-256 digest in hexadecimal. -/
def IsDigest (s : JsString) : Prop := ∃ b : Bytes, b.length = 32 ∧ s = toHex b

@[simp] lemma bufferFromHex_toHex (b : Bytes) : bufferFromHex (toHex b) = b := by
  induction b with
  | nil => rfl
  | cons c cs ih =>
    have hc := c.toNat_lt
    have hval : c.toNat / 16 * 16 + c.toNat % 16 = c.toNat := by omega
    rw [toHex, List.flatMap_cons, hexByte, List.cons_append, List.cons_append, List.nil_append,
      bufferFromHex, hexValue?_hexUnit (by omega), hexValue?_hexUnit (by omega)]
    simp only [hval, UInt8.ofNat_toNat]
    exact congrArg _ ih

lemma toHex_injective {b b' : Bytes} (h : toHex b = toHex b') : b = b' := by
  rw [← bufferFromHex_toHex b, h, bufferFromHex_toHex]

@[simp] lemma toHex_length (b : Bytes) : (toHex b).length = 2 * b.length := by
  induction b with
  | nil => rfl
  | cons c cs ih =>
    rw [toHex, List.flatMap_cons, List.length_append]
    rw [toHex] at ih
    simp only [hexByte, List.length_cons, List.length_nil, ih]
    omega

lemma IsDigest.length {s : JsString} (h : IsDigest s) : s.length = 64 := by
  obtain ⟨b, hb, rfl⟩ := h
  rw [toHex_length, hb]

lemma IsDigest.toHex_bufferFromHex {s : JsString} (h : IsDigest s) :
    toHex (bufferFromHex s) = s := by
  obtain ⟨b, _, rfl⟩ := h
  rw [bufferFromHex_toHex]

lemma IsDigest.length_buffer {s : JsString} (h : IsDigest s) : (bufferFromHex s).length = 32 := by
  obtain ⟨b, hb, rfl⟩ := h
  rw [bufferFromHex_toHex, hb]

lemma IsDigest.ne_nil {s : JsString} (h : IsDigest s) : s ≠ [] := by
  rintro rfl
  exact absurd h.length (by decide)

lemma IsDigest.injective {s s' : JsString} (hs : IsDigest s) (hs' : IsDigest s')
    (h : bufferFromHex s = bufferFromHex s') : s = s' := by
  rw [← hs.toHex_bufferFromHex, h, hs'.toHex_bufferFromHex]

/-! ### The hash service -/

namespace Sha256

variable (sha : Sha256)

/-- `HashService.sha256` -/
def sha256 (data : JsString) : JsString := toHex (sha.digest (utf8 data))

def computeLogHash (log : LogEntry) : JsString := sha.sha256 log.toHashableString

/-- The node over two nodes. -/
def node (left right : Bytes) : Bytes := sha.digest (left ++ right)

/-- The hash an entry enters a batch with: `e.dataHash || computeLogHash(e)`. -/
def leafHash (e : LogEntry) : JsString :=
  if e.dataHash = [] then sha.computeLogHash e else e.dataHash

/-- The root over the given leaves in hexadecimal. -/
def rootOf (leaves : List Bytes) : JsString :=
  if leaves = [] then sha.sha256 []
  else toHex ((Merkle.climb sha.node leaves.length leaves).headD [])

def computeBatchHash (entries : List LogEntry) : JsString :=
  sha.rootOf (entries.map fun e => bufferFromHex (sha.leafHash e))

variable {sha}

lemma isDigest_sha256 (data : JsString) : IsDigest (sha.sha256 data) :=
  ⟨_, sha.length_digest _, rfl⟩

lemma isDigest_computeLogHash (log : LogEntry) : IsDigest (sha.computeLogHash log) :=
  isDigest_sha256 _

lemma rootOf_eq {leaves : List Bytes} {r : Bytes} (h : Merkle.root sha.node leaves = some r) :
    sha.rootOf leaves = toHex r := by
  have hne : leaves ≠ [] := by
    rintro rfl
    cases h
  rw [rootOf, if_neg hne, List.headD_eq_head?_getD, ← Merkle.root, h, Option.getD_some]

lemma exists_root (sha : Sha256) {leaves : List Bytes} (h : leaves ≠ []) :
    ∃ r, Merkle.root sha.node leaves = some r := by
  cases hr : Merkle.root sha.node leaves with
  | none => exact absurd (Merkle.root_eq_none.mp hr) h
  | some r => exact ⟨r, rfl⟩

lemma length_root {leaves : List Bytes} {r : Bytes} (h32 : ∀ b ∈ leaves, b.length = 32)
    (h : Merkle.root sha.node leaves = some r) : r.length = 32 := by
  by_cases hr : [r] = leaves
  · exact h32 r (by simp [← hr])
  · obtain ⟨p, _, rfl⟩ := (Merkle.above_root h).mem_of_ne hr (List.mem_singleton_self r)
    exact sha.length_digest _

lemma isDigest_rootOf {leaves : List Bytes} (h32 : ∀ b ∈ leaves, b.length = 32) :
    IsDigest (sha.rootOf leaves) := by
  by_cases hne : leaves = []
  · rw [hne, rootOf, if_pos rfl]
    exact isDigest_sha256 _
  · obtain ⟨r, hr⟩ := exists_root sha hne
    exact ⟨r, length_root h32 hr, rootOf_eq hr⟩

/-- Lists of leaves with the same root in hexadecimal have the same root. -/
lemma root_eq_of_rootOf_eq {l l' : List Bytes} (hl : l ≠ []) (hl' : l' ≠ [])
    (h : sha.rootOf l = sha.rootOf l') : Merkle.root sha.node l = Merkle.root sha.node l' := by
  obtain ⟨r, hr⟩ := exists_root sha hl
  obtain ⟨r', hr'⟩ := exists_root sha hl'
  rw [rootOf_eq hr, rootOf_eq hr'] at h
  rw [hr, hr', toHex_injective h]

end Sha256

/-! ### Stand-ins for SHA-256 -/

/-- The `w` lowest bytes of `n`. -/
def leBytes : ℕ → ℕ → Bytes
  | 0, _ => []
  | w + 1, n => UInt8.ofNat n :: leBytes w (n / 256)

@[simp] lemma leBytes_length : ∀ w n : ℕ, (leBytes w n).length = w
  | 0, _ => rfl
  | w + 1, n => by simp [leBytes, leBytes_length w]

lemma leBytes_injective : ∀ (w : ℕ) {n m : ℕ}, n < 256 ^ w → m < 256 ^ w →
    leBytes w n = leBytes w m → n = m
  | 0, n, m, hn, hm, _ => by omega
  | w + 1, n, m, hn, hm, h => by
    rw [pow_succ] at hn hm
    obtain ⟨hlow, hhigh⟩ := List.cons.inj h
    have hdiv := leBytes_injective w (by omega) (by omega) hhigh
    have hmod := congrArg UInt8.toNat hlow
    simp only [UInt8.toNat_ofNat'] at hmod
    omega

/-- A digest that tells byte strings apart by their length only, to try statements on an input. -/
def lengthSha : Sha256 where
  digest d := leBytes 32 d.length
  length_digest _ := leBytes_length 32 _

end HybridLog
