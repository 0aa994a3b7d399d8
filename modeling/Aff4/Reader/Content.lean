import Aff4.Reader
import Aff4.Storage.Blocks

/-!
# The content of the ImageStream

The content pass decodes the chunks one after another and cuts what they hold
at the declared size.  It ends well exactly when every chunk decodes, whatever
the lengths of the chunks.
-/

namespace Aff4

open Rust Storage

namespace Aff4Reader

/-- How many chunks the declared size takes. -/
def chunkCount (reader : Aff4Reader) : Nat :=
  (reader.imageStreamSize.toNat + reader.chunkSize.toNat - 1) /
    reader.chunkSize.toNat

variable (platform : Platform) (crates : Crates) (reader : Aff4Reader)

/-- What chunk `index` decodes to; nothing if it does not. -/
def decodedChunk (index : Nat) : Bytes :=
  match reader.readChunk platform crates (UInt64.ofNat index) with
  | .ok chunk => chunk
  | _ => []

/-- The decoded chunks, one after another, cut at the declared size. -/
def streamContent : Bytes :=
  (joined (reader.decodedChunk platform crates) reader.chunkCount).take
    reader.imageStreamSize.toNat

/-- The slices a pass over `count` chunks feeds to the sink. -/
def fedSlices (count : Nat) : List Bytes :=
  (List.range count).map fun index =>
    (reader.decodedChunk platform crates index).take
      (reader.imageStreamSize.toNat -
        (joined (reader.decodedChunk platform crates) index).length)

variable {platform crates reader}

theorem chunkSize_pos (chunkSize_ne_zero : reader.chunkSize ≠ 0) :
    0 < reader.chunkSize.toNat := by
  rw [Ne, ← UInt64.toNat_inj] at chunkSize_ne_zero
  exact Nat.pos_of_ne_zero chunkSize_ne_zero

theorem lt_chunkCount_iff
    (chunkSize_ne_zero : reader.chunkSize ≠ 0) (index : Nat) :
    index < reader.chunkCount ↔
      index * reader.chunkSize.toNat < reader.imageStreamSize.toNat := by
  have positive := chunkSize_pos chunkSize_ne_zero
  rw [chunkCount, Nat.lt_div_iff_mul_lt positive]
  omega

/-- Chunk indices are 64-bit numbers. -/
theorem chunkCount_lt
    (chunkSize_ne_zero : reader.chunkSize ≠ 0) {index : Nat}
    (below : index < reader.chunkCount) : index < 2 ^ 64 := by
  have inside := (lt_chunkCount_iff chunkSize_ne_zero index).mp below
  have bound := reader.imageStreamSize.toNat_lt
  have atLeast := Nat.le_mul_of_pos_right index (chunkSize_pos chunkSize_ne_zero)
  omega

theorem decodedChunk_of_readChunk {index : Nat} {chunk : Bytes}
    (read : reader.readChunk platform crates (UInt64.ofNat index) = .ok chunk) :
    reader.decodedChunk platform crates index = chunk := by
  rw [decodedChunk, read]

/-- One pass of the content loop over a chunk that decodes. -/
theorem contentPass_of_readChunk
    (wide : platform.Is64Bit)
    {index : Nat} {produced : UInt64} {chunk : Bytes}
    (read : reader.readChunk platform crates (UInt64.ofNat index) = .ok chunk)
    (within : produced ≤ reader.imageStreamSize) :
    ∃ next : UInt64,
      reader.contentPass platform crates index produced =
        .ok (chunk.take (reader.imageStreamSize.toNat - produced.toNat), next) ∧
      next.toNat =
        min reader.imageStreamSize.toNat (produced.toNat + chunk.length) := by
  have bound := reader.imageStreamSize.toNat_lt
  have withinNat := UInt64.le_iff_toNat_le.mp within
  have narrow := toNat_ofNat_of_lt
    (n := min chunk.length (reader.imageStreamSize.toNat - produced.toNat))
    (by omega)
  refine ⟨produced + UInt64.ofNat
      (min chunk.length (reader.imageStreamSize.toNat - produced.toNat)), ?_, ?_⟩
  · simp only [contentPass, read, Outcome.ok_bind, subU64_of_le within,
      UInt64.toNat_sub_of_le _ _ within, asUsize_of_is64Bit wide, narrow]
    rw [slice_zero_of_le (by omega), Outcome.ok_bind, addU64_of_lt (by omega),
      Outcome.ok_bind, Outcome.pure_eq, Outcome.ok.injEq, Prod.mk.injEq,
      List.take_eq_take_iff]
    exact ⟨by omega, rfl⟩
  · rw [toNat_add_of_lt (by omega), narrow]
    omega

/-- The content loop ends as the decoding of its chunks does, and while they
decode it feeds each of them, cut at the declared size. -/
theorem contentLoop_spec
    (wide : platform.Is64Bit) (passes start : Nat) {produced : UInt64}
    (count : produced.toNat = min reader.imageStreamSize.toNat
      (joined (reader.decodedChunk platform crates) start).length) :
    let run := reader.contentLoop platform crates passes start produced
    run.result =
        (Outcome.collect
          (fun index => reader.readChunk platform crates (UInt64.ofNat index))
          start passes >>= fun _ => .ok ()) ∧
      (run.result = .ok () →
        run.fed = (List.range' start passes).map fun index =>
          (reader.decodedChunk platform crates index).take
            (reader.imageStreamSize.toNat -
              (joined (reader.decodedChunk platform crates) index).length)) := by
  induction passes generalizing start produced with
  | zero => exact ⟨rfl, fun _ => rfl⟩
  | succ passes inductionHypothesis =>
      cases read : reader.readChunk platform crates (UInt64.ofNat start) with
      | ok chunk =>
          have within : produced ≤ reader.imageStreamSize := by
            rw [UInt64.le_iff_toNat_le]
            omega
          obtain ⟨next, pass, nextCount⟩ :=
            contentPass_of_readChunk wide read within
          have decoded := decodedChunk_of_readChunk read
          have nextCount : next.toNat = min reader.imageStreamSize.toNat
              (joined (reader.decodedChunk platform crates) (start + 1)).length := by
            rw [joined_succ, List.length_append, decoded]
            omega
          obtain ⟨result, fed⟩ := inductionHypothesis (start + 1) nextCount
          simp only [contentLoop, pass, Outcome.collect, read, Outcome.ok_bind]
          refine ⟨?_, fun returns => ?_⟩
          · rw [result]
            cases Outcome.collect (fun index =>
              reader.readChunk platform crates (UInt64.ofNat index))
              (start + 1) passes <;> rfl
          · rw [fed returns, List.range'_succ, List.map_cons, decoded]
            congr 1
            rw [List.take_eq_take_iff]
            omega
      | err error =>
          have pass : reader.contentPass platform crates start produced =
              .err error := by
            simp only [contentPass, read, Outcome.err_bind]
          simp only [contentLoop, pass, Outcome.collect, read, Outcome.err_bind]
          exact ⟨trivial, fun impossible => by cases impossible⟩
      | panic reason =>
          have pass : reader.contentPass platform crates start produced =
              .panic reason := by
            simp only [contentPass, read, Outcome.panic_bind]
          simp only [contentLoop, pass, Outcome.collect, read, Outcome.panic_bind]
          exact ⟨trivial, fun impossible => by cases impossible⟩

/-- The slices of a whole pass join to the content. -/
theorem flatten_fedSlices (count : Nat) :
    (reader.fedSlices platform crates count).flatten =
      (joined (reader.decodedChunk platform crates) count).take
        reader.imageStreamSize.toNat := by
  induction count with
  | zero => simp [fedSlices]
  | succ count inductionHypothesis =>
      rw [take_joined_succ, ← inductionHypothesis]
      simp [fedSlices, List.range_succ]

/-- How the content pass ends: as the decoding of the chunks does. -/
theorem readImageStreamContent_result
    (wide : platform.Is64Bit) (chunkSize_ne_zero : reader.chunkSize ≠ 0) :
    (reader.readImageStreamContent platform crates).result =
      (Outcome.collect
        (fun index => reader.readChunk platform crates (UInt64.ofNat index))
        0 reader.chunkCount >>= fun _ => .ok ()) := by
  rw [readImageStreamContent, if_neg chunkSize_ne_zero, divCeilU64,
    if_neg chunkSize_ne_zero]
  exact (contentLoop_spec wide _ 0 (by simp)).1

/-- What a content pass that ends well feeds to the sink: the content. -/
theorem readImageStreamContent_fed
    (wide : platform.Is64Bit) (chunkSize_ne_zero : reader.chunkSize ≠ 0)
    (returns : (reader.readImageStreamContent platform crates).result = .ok ()) :
    (reader.readImageStreamContent platform crates).fed.flatten =
      reader.streamContent platform crates := by
  rw [streamContent, ← flatten_fedSlices, fedSlices, List.range_eq_range']
  rw [readImageStreamContent, if_neg chunkSize_ne_zero, divCeilU64,
    if_neg chunkSize_ne_zero] at returns ⊢
  rw [(contentLoop_spec wide _ 0 (by simp)).2 returns, chunkCount]

end Aff4Reader
end Aff4
