import Aff4.Reader

/-!
# The integrity audit

The audit recomputes every digest it can over the ImageStream content, compares
it with the stored one, and reports the regions the acquisition could not read.
-/

namespace Aff4

open Rust

/-- The digests this build can compute. -/
inductive Algorithm
  | md5
  | sha1
  | sha256
  | sha512
  | blake2b
  deriving DecidableEq, Repr

/-- A digest crate.  Hashing is streaming: feeding `first` and then `second`
gives the digest of `first ++ second`, and feeding nothing changes nothing. -/
structure Digest where
  State : Type
  new : State
  update : State → Bytes → State
  finalize : State → Bytes
  finalize_update_update : ∀ state first second,
    finalize (update (update state first) second) =
      finalize (update state (first ++ second))
  finalize_update_nil : ∀ state, finalize (update state []) = finalize state

/-- The digest of a byte string. -/
def Digest.digest (digest : Digest) (content : Bytes) : Bytes :=
  digest.finalize (digest.update digest.new content)

/-- Feeding a content piece by piece gives its digest. -/
theorem Digest.finalize_foldl_update
    (digest : Digest) (state : digest.State) (pieces : List Bytes) :
    digest.finalize (pieces.foldl digest.update state) =
      digest.finalize (digest.update state pieces.flatten) := by
  induction pieces generalizing state with
  | nil => exact (digest.finalize_update_nil state).symm
  | cons piece pieces inductionHypothesis =>
      rw [List.foldl_cons, inductionHypothesis, List.flatten_cons,
        digest.finalize_update_update]

/-- The digest crates, one for each algorithm. -/
abbrev DigestCrates := Algorithm → Digest

/-- One hexadecimal digit. -/
def hexDigit (n : Nat) : Char :=
  if n < 10 then Char.ofNat ('0'.toNat + n) else Char.ofNat ('a'.toNat + (n - 10))

/-- Lowercase hex encoding of a digest. -/
def toHex (bytes : Bytes) : Text :=
  bytes.flatMap fun b => [hexDigit (b.toNat / 16), hexDigit (b.toNat % 16)]

/-- Map an `aff4:hash` datatype to its algorithm, if this build has it. -/
def Algorithm.forAlgorithm (algorithm : Text) : Option Algorithm :=
  let upper := Str.toAsciiUppercase algorithm
  if upper = "MD5".toList then some .md5
  else if upper = "SHA1".toList then some .sha1
  else if upper = "SHA256".toList then some .sha256
  else if upper = "SHA512".toList then some .sha512
  else if upper = "BLAKE2B".toList then some .blake2b
  else none

/-- A hasher in the middle of its input. -/
structure Hasher (digests : DigestCrates) where
  algorithm : Algorithm
  state : (digests algorithm).State

namespace Hasher

variable {digests : DigestCrates}

/-- A fresh hasher for a datatype. -/
def forAlgorithm (algorithm : Text) : Option (Hasher digests) :=
  (Algorithm.forAlgorithm algorithm).map fun algorithm =>
    { algorithm, state := (digests algorithm).new }

/-- Feed a slice of the content. -/
def update (hasher : Hasher digests) (data : Bytes) : Hasher digests :=
  { hasher with state := (digests hasher.algorithm).update hasher.state data }

/-- The digest in lowercase hex. -/
def finalizeHex (hasher : Hasher digests) : Text :=
  toHex ((digests hasher.algorithm).finalize hasher.state)

end Hasher

/-- Integrity anomalies the audit can surface. -/
inductive Aff4Anomaly
  /-- A stored digest differs from the recomputed one. -/
  | hashMismatch (algorithm stored computed : Text)
  /-- A virtual region the acquisition could not read. -/
  | hashUnreadable (offset length : UInt64)
  deriving DecidableEq, Repr

/-- A stored digest and the hasher that recomputes it. -/
abbrev HashJob (digests : DigestCrates) := StoredHash × Hasher digests

section

variable (platform : Platform) (crates : Crates) (digests : DigestCrates)

/-- The digests that can be recomputed, each with a fresh hasher. -/
def hashJobs (stored : List StoredHash) : List (HashJob digests) :=
  stored.filterMap fun hash =>
    (Hasher.forAlgorithm hash.algorithm).map fun hasher => (hash, hasher)

/-- Feed a slice of the content to every hasher. -/
def updateJobs (jobs : List (HashJob digests)) (chunk : Bytes) :
    List (HashJob digests) :=
  jobs.map fun (stored, hasher) => (stored, hasher.update chunk)

/-- The finding of one finished job, if its digest does not reconcile. -/
def jobAnomaly (job : HashJob digests) : Option Aff4Anomaly :=
  let computed := job.2.finalizeHex
  if computed = job.1.hex then none
  else some (.hashMismatch job.1.algorithm job.1.hex computed)

/-- Recompute the declared digests over the ImageStream content in one streaming
pass and report every divergence, after the unreadable regions. -/
def verifyImageHashes (reader : Aff4Reader) :
    Outcome Aff4Error (List Aff4Anomaly) :=
  let unreadable := reader.unreadableRegions.map fun (offset, length) =>
    Aff4Anomaly.hashUnreadable offset length
  let jobs := hashJobs digests reader.imageHashes
  if jobs.isEmpty then .ok unreadable
  else do
    let run := reader.readImageStreamContent platform crates
    run.result
    let jobs := run.fed.foldl (updateJobs digests) jobs
    return unreadable ++ jobs.filterMap (jobAnomaly digests)

/-- Audit an image: open it, verify its digests and turn each anomaly into a
finding of the shared report model. -/
def auditImage (toFinding : Aff4Anomaly → φ) (backing : Bytes) :
    Outcome Aff4Error (List φ) := do
  let reader ← .ofExcept (openReader crates backing)
  let anomalies ← verifyImageHashes platform crates digests reader
  return anomalies.map toFinding

end
end Aff4
