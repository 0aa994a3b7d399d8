import Aff4.Reader.Chunks
import Aff4.Reader.Delivery

/-!
# Numbers of 64 bits as `usize`

The reader narrows positions, sizes and offsets to `usize` in several places.  On a
platform with pointers of 64 bits nothing is lost.  With 32 bits a narrowed number
can be taken for the exact one.  On either, a number that is not lost can still be too
large for the sum or the buffer that is made of it.
-/

namespace Aff4

open Rust

/-- A number of 64 bits is one of `usize`. -/
def FitsUsize (platform : Platform) (n : UInt64) : Prop :=
  n.toNat < 2 ^ platform.usizeBits

instance (platform : Platform) (n : UInt64) : Decidable (FitsUsize platform n) :=
  inferInstanceAs (Decidable (_ < _))

theorem FitsUsize.asUsize_eq {platform : Platform} {n : UInt64}
    (fits : FitsUsize platform n) : asUsize platform n = n.toNat :=
  (asUsize_eq_iff platform).mpr fits

/-- A call returns an exact value, or it returns an error. -/
def ExactOrErr (result : Outcome ε α) (exact : α → Prop) : Prop :=
  (∃ value, result = .ok value ∧ exact value) ∨ ∃ error, result = .err error

theorem exactOrErr_iff {result : Outcome ε α} {exact : α → Prop} :
    ExactOrErr result exact ↔
      (∀ value, result = .ok value → exact value) ∧ ¬∃ reason, result = .panic reason := by
  unfold ExactOrErr
  cases result <;> simp

/-! ## Index entries -/

/-- The number of an entry, and the offset it holds, are numbers of `usize`. -/
structure EntryFits
    (platform : Platform) (index : Bytes) (chunkInSeg : UInt64) : Prop where
  number : FitsUsize platform chunkInSeg
  offset : FitsUsize platform (entryOffset (indexEntryAt index chunkInSeg.toNat))

/-- The end of an entry overflows where its beginning does not, in a build that
checks sums. -/
structure EndOverflows (platform : Platform) (chunkInSeg : UInt64) : Prop where
  checked : platform.overflowChecks = true
  begins : asUsize platform chunkInSeg * 12 < 2 ^ platform.usizeBits
  ends : 2 ^ platform.usizeBits ≤ asUsize platform chunkInSeg * 12 + 12

/-- Decoding uses the number and the offset as they are, or returns an error. -/
def BoundsUnchanged
    (platform : Platform) (index : Bytes) (chunkInSeg : UInt64) : Prop :=
  ExactOrErr (chunkBoundsFromIndex platform index chunkInSeg) fun bounds =>
    exactBounds index chunkInSeg.toNat = some bounds

section Bounds

variable {platform : Platform} {index : Bytes} {chunkInSeg : UInt64}

/-- The number of an entry inside the index is a number of `usize`. -/
theorem fitsUsize_of_exactBounds
    (short : index.length ≤ platform.isizeMax) {bounds : Nat × Nat}
    (exact : exactBounds index chunkInSeg.toNat = some bounds) :
    FitsUsize platform chunkInSeg := by
  have small := isizeMax_lt platform
  have inside := (exactBounds_eq_some.mp exact).1
  unfold FitsUsize
  omega

/-- The entry at a number of `usize` is the exact one. -/
theorem takenEntry_eq (number : FitsUsize platform chunkInSeg) :
    takenEntry platform index chunkInSeg = indexEntryAt index chunkInSeg.toNat := by
  rw [takenEntry, number.asUsize_eq]

/-- Where number and offset fit, the bounds that are taken are exact. -/
theorem exactBounds_of_entryFits
    (found : EntryFound platform index chunkInSeg)
    (fits : EntryFits platform index chunkInSeg) :
    exactBounds index chunkInSeg.toNat = some (takenBounds platform index chunkInSeg) := by
  have width := two_pow_usizeBits_le platform
  obtain ⟨listed, ends⟩ := found
  unfold takenBounds at ends ⊢
  rw [takenEntry_eq fits.number] at ends ⊢
  dsimp only at ends ⊢
  rw [fits.offset.asUsize_eq] at ends ⊢
  rw [fits.number.asUsize_eq] at listed
  exact exactBounds_eq_some.mpr ⟨listed, by omega, rfl⟩

/-- The bounds that are taken are exact only if number and offset fit. -/
theorem entryFits_of_exactBounds
    (short : index.length ≤ platform.isizeMax)
    (exact : exactBounds index chunkInSeg.toNat =
      some (takenBounds platform index chunkInSeg)) :
    EntryFits platform index chunkInSeg := by
  have number := fitsUsize_of_exactBounds short exact
  refine ⟨number, (asUsize_eq_iff platform).mp ?_⟩
  have start := congrArg Prod.fst (exactBounds_eq_some.mp exact).2.2
  unfold takenBounds at start
  rw [takenEntry_eq number] at start
  exact start

/-- An entry without length is taken to be one if its number fits. -/
theorem takenBounds_empty_iff
    (short : index.length ≤ platform.isizeMax) {exact : Nat × Nat}
    (isExact : exactBounds index chunkInSeg.toNat = some exact) :
    (takenBounds platform index chunkInSeg).1 =
        (takenBounds platform index chunkInSeg).2 ↔
      exact.1 = exact.2 := by
  obtain ⟨-, -, rfl⟩ := exactBounds_eq_some.mp isExact
  unfold takenBounds
  rw [takenEntry_eq (fitsUsize_of_exactBounds short isExact)]
  dsimp only
  omega

/-- Decoding panics where the end of the entry overflows, and nowhere else. -/
theorem chunkBoundsFromIndex_panics_iff :
    (∃ reason, chunkBoundsFromIndex platform index chunkInSeg = .panic reason) ↔
      EndOverflows platform chunkInSeg := by
  have rest (stop : Nat) : ¬∃ reason,
      (Outcome.okOr (.badFormat s!"bevy index too small for chunk {toString chunkInSeg}")
          (getRange index (asUsize platform chunkInSeg * 12) stop) >>= fun entry =>
        Outcome.okOr (.badFormat "bevy chunk bounds overflow")
            (checkedAddUsize platform (asUsize platform (entryOffset entry))
              (entryLength entry).toNat) >>= fun stop =>
          (.ok (asUsize platform (entryOffset entry), stop) :
            Outcome Aff4Error (Nat × Nat))) = .panic reason := by
    rintro ⟨reason, panics⟩
    rcases Outcome.bind_eq_panic.mp panics with impossible | ⟨entry, -, panics⟩
    · exact Outcome.okOr_ne_panic impossible
    rcases Outcome.bind_eq_panic.mp panics with impossible | ⟨_, -, impossible⟩
    · exact Outcome.okOr_ne_panic impossible
    · cases impossible
  unfold chunkBoundsFromIndex checkedMulUsize
  by_cases begins : asUsize platform chunkInSeg * 12 < 2 ^ platform.usizeBits
  case neg =>
    rw [if_neg begins, Outcome.okOr_none, Outcome.err_bind]
    refine iff_of_false ?_ fun overflows => begins overflows.begins
    rintro ⟨_, impossible⟩
    cases impossible
  rw [if_pos begins, Outcome.okOr_some, Outcome.ok_bind, addUsize]
  by_cases ends : asUsize platform chunkInSeg * 12 + 12 < 2 ^ platform.usizeBits
  · rw [if_pos ends, Outcome.ok_bind]
    exact iff_of_false (rest _) fun overflows => absurd ends (Nat.not_lt.mpr overflows.ends)
  · rw [if_neg ends]
    cases checked : platform.overflowChecks with
    | true => exact iff_of_true ⟨_, rfl⟩ ⟨checked, begins, Nat.not_lt.mp ends⟩
    | false =>
        rw [if_neg Bool.false_ne_true, Outcome.ok_bind]
        refine iff_of_false (rest _) fun overflows => ?_
        rw [overflows.checked] at checked
        cases checked

/-- The bounds are unchanged if and only if the entry that is found, if any, has a
number and an offset of `usize`, and its end does not overflow. -/
theorem boundsUnchanged_iff (short : index.length ≤ platform.isizeMax) :
    BoundsUnchanged platform index chunkInSeg ↔
      (EntryFound platform index chunkInSeg →
        EntryFits platform index chunkInSeg) ∧
      ¬EndOverflows platform chunkInSeg := by
  rw [BoundsUnchanged, exactOrErr_iff, chunkBoundsFromIndex_panics_iff]
  apply and_congr_left'
  constructor
  · intro unchanged found
    apply entryFits_of_exactBounds short
    exact unchanged _ ((chunkBoundsFromIndex_eq_ok_iff short).mpr ⟨found, rfl⟩)
  · intro fits bounds decoded
    obtain ⟨found, rfl⟩ := (chunkBoundsFromIndex_eq_ok_iff short).mp decoded
    exact exactBounds_of_entryFits found (fits found)

end Bounds

/-! ## Chunks -/

namespace Aff4Reader

variable {platform : Platform} {crates : Crates} {reader : Aff4Reader}

/-- Reading a chunk uses its number, its offset and the chunk size as they are, or
returns an error. -/
def ChunkUnchanged
    (platform : Platform) (crates : Crates) (reader : Aff4Reader)
    (chunkIdx : UInt64) : Prop :=
  ExactOrErr (reader.readChunk platform crates chunkIdx) fun bytes =>
    reader.ExactChunk crates chunkIdx bytes

/-- The chunk between some bounds goes into a buffer of the chunk size: it was left
out, or it is stored for a codec that asks for one. -/
def BuffersChunk
    (platform : Platform) (reader : Aff4Reader) (segmentIdx : UInt64)
    (bounds : Nat × Nat) : Prop :=
  bounds.1 = bounds.2 ∨
    ∃ stored, reader.Stores segmentIdx bounds stored ∧
      stored.length ≠ asUsize platform reader.chunkSize ∧
      BuffersOutput reader.compression

/-- The index of a chunk is read, and then the end of its entry overflows, or the
chunk needs a buffer that is too large. -/
def ChunkPanics
    (platform : Platform) (reader : Aff4Reader) (chunkIdx : UInt64) : Prop :=
  ∃ index,
    reader.archive.readEntry (indexName reader.zipBase
        (chunkIdx / reader.chunksPerSegment)) = .ok index ∧
      (EndOverflows platform (chunkIdx % reader.chunksPerSegment) ∨
        EntryFound platform index (chunkIdx % reader.chunksPerSegment) ∧
          BuffersChunk platform reader (chunkIdx / reader.chunksPerSegment)
            (takenBounds platform index (chunkIdx % reader.chunksPerSegment)) ∧
          platform.isizeMax < asUsize platform reader.chunkSize)

/-- The decoders themselves do not panic. -/
theorem decompress_panics_iff (stored : Bytes) :
    (∃ reason, reader.decompress platform crates stored = .panic reason) ↔
      BuffersOutput reader.compression ∧
        platform.isizeMax < asUsize platform reader.chunkSize := by
  have request (rest : Except Aff4Error Bytes) :
      (∃ reason, (withCapacity platform (asUsize platform reader.chunkSize) >>= fun _ =>
          Outcome.ofExcept rest) = .panic reason) ↔
        platform.isizeMax < asUsize platform reader.chunkSize := by
    by_cases fits : asUsize platform reader.chunkSize ≤ platform.isizeMax
    · rw [withCapacity_of_le fits, Outcome.ok_bind]
      refine iff_of_false ?_ (Nat.not_lt.mpr fits)
      rintro ⟨_, panics⟩
      exact Outcome.ofExcept_ne_panic panics
    · rw [withCapacity, if_neg fits, Outcome.panic_bind]
      exact iff_of_true ⟨_, rfl⟩ (Nat.lt_of_not_le fits)
  unfold decompress BuffersOutput
  cases reader.compression with
  | null => simp
  | deflate =>
      dsimp only
      rw [request]
      simp
  | snappy => simp
  | lz4 =>
      dsimp only
      rw [request]
      simp

theorem chunkWithin_panics_iff
    {segmentIdx : UInt64} {bounds : Nat × Nat} (ordered : bounds.1 ≤ bounds.2) :
    (∃ reason, reader.chunkWithin platform crates segmentIdx bounds = .panic reason) ↔
      BuffersChunk platform reader segmentIdx bounds ∧
        platform.isizeMax < asUsize platform reader.chunkSize := by
  by_cases empty : bounds.1 = bounds.2
  · have zeros : reader.chunkWithin platform crates segmentIdx bounds =
        vecZeroed platform (asUsize platform reader.chunkSize) := by
      unfold chunkWithin
      dsimp only
      rw [if_pos empty]
    rw [zeros, vecZeroed, and_iff_right (.inl empty)]
    split
    · next fits =>
        refine iff_of_false ?_ (Nat.not_lt.mpr fits)
        rintro ⟨_, impossible⟩
        cases impossible
    · next large => exact iff_of_true ⟨_, rfl⟩ (Nat.lt_of_not_le large)
  by_cases isStored : ∃ stored, reader.Stores segmentIdx bounds stored
  · obtain ⟨stored, stores⟩ := isStored
    have buffers : BuffersChunk platform reader segmentIdx bounds ↔
        stored.length ≠ asUsize platform reader.chunkSize ∧
          BuffersOutput reader.compression := by
      unfold BuffersChunk
      rw [or_iff_right empty]
      constructor
      · rintro ⟨other, others, needs⟩
        cases stores.unique others
        exact needs
      · exact fun needs => ⟨stored, stores, needs⟩
    rw [chunkWithin_of_stores ordered stores, buffers, and_assoc]
    split
    · next same =>
        refine iff_of_false ?_ fun needs => needs.1 same
        rintro ⟨_, impossible⟩
        cases impossible
    · next differs => rw [decompress_panics_iff, and_iff_right differs]
  · refine iff_of_false ?_ ?_
    · rintro ⟨reason, panics⟩
      unfold chunkWithin at panics
      dsimp only at panics
      rw [if_neg empty] at panics
      rcases Outcome.bind_eq_panic.mp panics with impossible | ⟨bevyData, read, panics⟩
      · exact Outcome.ofExcept_ne_panic impossible
      rw [Outcome.ofExcept_eq_ok] at read
      split at panics
      · cases panics
      · next within =>
          exact isStored ⟨_, empty, bevyData, read, Nat.not_lt.mp within, rfl⟩
    · rintro ⟨impossible | ⟨stored, stores, -⟩, -⟩
      · exact empty impossible
      · exact isStored ⟨stored, stores⟩

/-- Reading a chunk panics for an overflow of the end of its entry, or for want of
memory. -/
theorem readChunk_panics_iff
    (chunksPerSegment_ne_zero : reader.chunksPerSegment ≠ 0)
    (entriesFit : reader.EntriesFit platform) {chunkIdx : UInt64} :
    (∃ reason, reader.readChunk platform crates chunkIdx = .panic reason) ↔
      ChunkPanics platform reader chunkIdx := by
  have ordered (index : Bytes) (chunkInSeg : UInt64) :
      (takenBounds platform index chunkInSeg).1 ≤
        (takenBounds platform index chunkInSeg).2 :=
    Nat.le_add_right _ _
  rw [readChunk_eq chunksPerSegment_ne_zero]
  constructor
  · rintro ⟨reason, panics⟩
    rcases Outcome.bind_eq_panic.mp panics with impossible | ⟨index, read, panics⟩
    · exact absurd impossible Outcome.ofExcept_ne_panic
    rw [Outcome.ofExcept_eq_ok] at read
    refine ⟨index, read, ?_⟩
    rcases Outcome.bind_eq_panic.mp panics with overflows | ⟨bounds, decoded, panics⟩
    · exact .inl (chunkBoundsFromIndex_panics_iff.mp ⟨reason, overflows⟩)
    · obtain ⟨found, rfl⟩ :=
        (chunkBoundsFromIndex_eq_ok_iff (entriesFit _ _ read)).mp decoded
      exact .inr ⟨found, (chunkWithin_panics_iff (ordered _ _)).mp ⟨reason, panics⟩⟩
  · rintro ⟨index, read, panics⟩
    rw [read, Outcome.ofExcept_ok, Outcome.ok_bind]
    rcases panics with overflows | ⟨found, needs⟩
    · obtain ⟨reason, overflow⟩ := chunkBoundsFromIndex_panics_iff.mpr overflows
      exact ⟨reason, by rw [overflow, Outcome.panic_bind]⟩
    · rw [(chunkBoundsFromIndex_eq_ok_iff (entriesFit _ _ read)).mpr ⟨found, rfl⟩,
        Outcome.ok_bind]
      exact (chunkWithin_panics_iff (ordered _ _)).mpr needs

/-- What makes a chunk that is served another one: zeros of a narrowed size or for a
narrowed number, stored bytes found by a narrowed number or offset, and stored bytes
that are taken to be of the full size for a narrowed one. -/
inductive ServesNarrowed
    (platform : Platform) (crates : Crates) (reader : Aff4Reader)
    (segmentIdx : UInt64) (index : Bytes) (chunkInSeg : UInt64) : Prop
  | zeros :
      (takenBounds platform index chunkInSeg).1 =
        (takenBounds platform index chunkInSeg).2 →
      ¬(FitsUsize platform chunkInSeg ∧ FitsUsize platform reader.chunkSize) →
      ServesNarrowed platform crates reader segmentIdx index chunkInSeg
  | place {stored : Bytes} :
      reader.Stores segmentIdx (takenBounds platform index chunkInSeg) stored →
      ¬EntryFits platform index chunkInSeg →
      (stored.length = asUsize platform reader.chunkSize ∨
        (reader.decode crates stored).isSome) →
      ServesNarrowed platform crates reader segmentIdx index chunkInSeg
  | size {stored : Bytes} :
      reader.Stores segmentIdx (takenBounds platform index chunkInSeg) stored →
      ¬FitsUsize platform reader.chunkSize →
      stored.length = asUsize platform reader.chunkSize →
      reader.decode crates stored ≠ some stored →
      ServesNarrowed platform crates reader segmentIdx index chunkInSeg

/-- The entry taken for a chunk is found and its buffer is allocated, and the chunk
that is served for it is another one. -/
def TakesNarrowed
    (platform : Platform) (crates : Crates) (reader : Aff4Reader)
    (chunkIdx : UInt64) : Prop :=
  ∃ index,
    reader.archive.readEntry (indexName reader.zipBase
        (chunkIdx / reader.chunksPerSegment)) = .ok index ∧
      EntryFound platform index (chunkIdx % reader.chunksPerSegment) ∧
      reader.Allocates platform
        (takenBounds platform index (chunkIdx % reader.chunksPerSegment)) ∧
      ServesNarrowed platform crates reader (chunkIdx / reader.chunksPerSegment) index
        (chunkIdx % reader.chunksPerSegment)

section Unchanged

variable (entriesFit : reader.EntriesFit platform)
variable {segmentIdx chunkInSeg : UInt64} {index : Bytes} {bounds : Nat × Nat}

include entriesFit

theorem Stores.length_lt {stored : Bytes}
    (stores : reader.Stores segmentIdx bounds stored) :
    bounds.2 < 2 ^ platform.usizeBits ∧ stored.length < 2 ^ platform.usizeBits := by
  have small := isizeMax_lt platform
  obtain ⟨bevyData, read, inside, rfl⟩ := stores.bevy
  have fits := entriesFit _ _ read
  rw [List.length_drop, List.length_take]
  omega

/-- Stored bytes of exact bounds lie at an offset of `usize`. -/
theorem entryFits_of_stores
    (short : index.length ≤ platform.isizeMax) {stored : Bytes}
    (stores : reader.Stores segmentIdx bounds stored)
    (exact : exactBounds index chunkInSeg.toNat = some bounds) :
    EntryFits platform index chunkInSeg := by
  refine ⟨fitsUsize_of_exactBounds short exact, ?_⟩
  have ends := (stores.length_lt entriesFit).1
  obtain ⟨-, -, rfl⟩ := exactBounds_eq_some.mp exact
  unfold FitsUsize
  omega

/-- Stored bytes are the chunk of a size that is no number of `usize` if and only if
they are decoded to it. -/
theorem chunkIs_of_not_fitsUsize
    (large : ¬FitsUsize platform reader.chunkSize) {stored : Bytes}
    (stores : reader.Stores segmentIdx bounds stored) {bytes : Bytes} :
    reader.ChunkIs crates reader.chunkSize.toNat segmentIdx bounds bytes ↔
      reader.decode crates stored = some bytes := by
  have short := (stores.length_lt entriesFit).2
  have differs : stored.length ≠ reader.chunkSize.toNat := by
    unfold FitsUsize at large
    omega
  constructor
  · intro chunk
    cases chunk with
    | sparse empty => exact absurd empty stores.nonempty
    | verbatim others same =>
        cases others.unique stores
        exact absurd same differs
    | decoded others _ decodes =>
        cases others.unique stores
        exact decodes
  · exact .decoded stores differs

/-- A chunk of the bounds that are taken and of the narrowed size is the exact one,
unless it is served from something narrowed. -/
theorem chunkIs_of_not_servesNarrowed
    (found : EntryFound platform index chunkInSeg)
    (usual : ¬ServesNarrowed platform crates reader segmentIdx index chunkInSeg)
    {bytes : Bytes}
    (chunk : reader.ChunkIs crates (asUsize platform reader.chunkSize) segmentIdx
      (takenBounds platform index chunkInSeg) bytes) :
    ∃ exact, exactBounds index chunkInSeg.toNat = some exact ∧
      reader.ChunkIs crates reader.chunkSize.toNat segmentIdx exact bytes := by
  cases chunk with
  | sparse empty =>
      obtain ⟨number, size⟩ := by_contra fun unfit => usual (.zeros empty unfit)
      have listed := found.listed
      rw [number.asUsize_eq] at listed
      have noLength : (entryLength (indexEntryAt index chunkInSeg.toNat)).toNat = 0 := by
        unfold takenBounds at empty
        rw [takenEntry_eq number] at empty
        exact Nat.left_eq_add.mp empty
      have offset :=
        (entryOffset (indexEntryAt index chunkInSeg.toNat)).toNat_lt
      refine ⟨_, exactBounds_eq_some.mpr ⟨listed, by omega, rfl⟩, ?_⟩
      rw [size.asUsize_eq]
      apply ChunkIs.sparse
      rw [noLength]
      rfl
  | @verbatim stored stores same =>
      have fits := by_contra fun unfit => usual (.place stores unfit (.inl same))
      refine ⟨_, exactBounds_of_entryFits found fits, ?_⟩
      by_cases size : FitsUsize platform reader.chunkSize
      · rw [← size.asUsize_eq]
        exact .verbatim stores same
      · rw [chunkIs_of_not_fitsUsize entriesFit size stores]
        exact by_contra fun differs => usual (.size stores size same differs)
  | @decoded stored bytes stores differs decodes =>
      have isSome : (reader.decode crates stored).isSome :=
        Option.isSome_iff_exists.mpr ⟨bytes, decodes⟩
      have fits := by_contra fun unfit => usual (.place stores unfit (.inr isSome))
      refine ⟨_, exactBounds_of_entryFits found fits, ?_⟩
      by_cases size : FitsUsize platform reader.chunkSize
      · rw [← size.asUsize_eq]
        exact .decoded stores differs decodes
      · exact (chunkIs_of_not_fitsUsize entriesFit size stores).mpr decodes

section Exact

variable (short : index.length ≤ platform.isizeMax)
variable (found : EntryFound platform index chunkInSeg)

include short found

/-- The exact bounds of a chunk that is served from stored bytes are those that are
taken for it. -/
theorem entryFits_of_chunkIs
    (nonempty : (takenBounds platform index chunkInSeg).1 ≠
      (takenBounds platform index chunkInSeg).2)
    {exact : Nat × Nat}
    (isExact : exactBounds index chunkInSeg.toNat = some exact) {bytes : Bytes}
    (chunk : reader.ChunkIs crates reader.chunkSize.toNat segmentIdx exact bytes) :
    EntryFits platform index chunkInSeg ∧
      exact = takenBounds platform index chunkInSeg := by
  have exactNonempty := (takenBounds_empty_iff short isExact).not.mp nonempty
  obtain ⟨stored, stores⟩ := chunk.exists_stores exactNonempty
  have fits := entryFits_of_stores entriesFit short stores isExact
  refine ⟨fits, ?_⟩
  have same := exactBounds_of_entryFits found fits
  rw [isExact] at same
  exact Option.some.inj same

/-- What is served from something narrowed is no exact chunk. -/
theorem exists_chunkIs_of_servesNarrowed
    (serves : ServesNarrowed platform crates reader segmentIdx index chunkInSeg) :
    ∃ bytes,
      reader.ChunkIs crates (asUsize platform reader.chunkSize) segmentIdx
          (takenBounds platform index chunkInSeg) bytes ∧
        ∀ exact, exactBounds index chunkInSeg.toNat = some exact →
          ¬reader.ChunkIs crates reader.chunkSize.toNat segmentIdx exact bytes := by
  cases serves with
  | zeros empty unfit =>
      refine ⟨_, .sparse empty, fun exact isExact chunk => unfit ?_⟩
      refine ⟨fitsUsize_of_exactBounds short isExact, (asUsize_eq_iff platform).mp ?_⟩
      have exactEmpty := (takenBounds_empty_iff short isExact).mp empty
      rw [← chunk.length_of_empty exactEmpty, List.length_replicate]
  | @place stored stores unfit served =>
      have chunk : ∃ bytes, reader.ChunkIs crates (asUsize platform reader.chunkSize)
          segmentIdx (takenBounds platform index chunkInSeg) bytes := by
        by_cases same : stored.length = asUsize platform reader.chunkSize
        · exact ⟨stored, .verbatim stores same⟩
        · obtain ⟨bytes, decodes⟩ :=
            Option.isSome_iff_exists.mp (served.resolve_left same)
          exact ⟨bytes, .decoded stores same decodes⟩
      obtain ⟨bytes, chunk⟩ := chunk
      refine ⟨bytes, chunk, fun exact isExact exactChunk => unfit ?_⟩
      exact (entryFits_of_chunkIs entriesFit short found stores.nonempty isExact
        exactChunk).1
  | @size stored stores unfit same differs =>
      refine ⟨stored, .verbatim stores same, fun exact isExact chunk => differs ?_⟩
      obtain ⟨-, rfl⟩ := entryFits_of_chunkIs entriesFit short found stores.nonempty
        isExact chunk
      exact (chunkIs_of_not_fitsUsize entriesFit unfit stores).mp chunk

end Exact

/-- A chunk is unchanged if and only if it is not served from something narrowed, and
reading it does not panic. -/
theorem chunkUnchanged_iff
    (chunksPerSegment_ne_zero : reader.chunksPerSegment ≠ 0) {chunkIdx : UInt64} :
    ChunkUnchanged platform crates reader chunkIdx ↔
      ¬TakesNarrowed platform crates reader chunkIdx ∧
        ¬ChunkPanics platform reader chunkIdx := by
  rw [ChunkUnchanged, exactOrErr_iff,
    readChunk_panics_iff chunksPerSegment_ne_zero entriesFit]
  apply and_congr_left'
  constructor
  · rintro unchanged ⟨index, read, found, allocates, serves⟩
    have short := entriesFit _ _ read
    obtain ⟨bytes, chunk, other⟩ :=
      exists_chunkIs_of_servesNarrowed entriesFit short found serves
    have returns := (readChunk_eq_ok chunksPerSegment_ne_zero entriesFit).mpr
      ⟨index, read, found, allocates, chunk⟩
    obtain ⟨sameIndex, exact, sameRead, isExact, exactChunk⟩ := unchanged bytes returns
    rw [read] at sameRead
    cases sameRead
    exact other exact isExact exactChunk
  · intro usual bytes returns
    obtain ⟨index, read, found, allocates, chunk⟩ :=
      (readChunk_eq_ok chunksPerSegment_ne_zero entriesFit).mp returns
    obtain ⟨exact, isExact, exactChunk⟩ := chunkIs_of_not_servesNarrowed entriesFit
      found (fun serves => usual ⟨index, read, found, allocates, serves⟩) chunk
    exact ⟨index, exact, read, isExact, exactChunk⟩

end Unchanged

/-! ## Reads -/

/-- How many bytes a read of a region may copy, as it is computed. -/
def clamp (platform : Platform) (reader : Aff4Reader) (bufLen : Nat)
    (region : ResolvedRegion) : Nat :=
  min (min bufLen (asUsize platform (reader.virtualSize - reader.pos)))
    (asUsize platform region.bytesInRegion)

/-- The exact number. -/
def exactClamp (reader : Aff4Reader) (bufLen : Nat) (region : ResolvedRegion) : Nat :=
  min bufLen
    (min (reader.virtualSize.toNat - reader.pos.toNat) region.bytesInRegion.toNat)

/-- The position in its chunk from which a read of the image stream copies. -/
def offsetInChunk (reader : Aff4Reader) (region : ResolvedRegion) : UInt64 :=
  region.targetOffset % reader.chunkSize

/-- What a read copies from a region, given how many bytes it may copy and where it
begins in a chunk. -/
def Copies
    (platform : Platform) (crates : Crates) (reader : Aff4Reader)
    (region : ResolvedRegion) (count offset : Nat) (bytes : Bytes) : Prop :=
  if region.kind = .imageStream then
    ∃ chunk, reader.readChunk platform crates
        (region.targetOffset / reader.chunkSize) = .ok chunk ∧
      bytes = (chunk.drop offset).take count
  else bytes.length = count

/-- A read copies as many bytes as are clamped. -/
theorem copies_of_readTarget
    (chunkSize_ne_zero : reader.chunkSize ≠ 0)
    {bufLen : Nat} {region : ResolvedRegion} {bytes : Bytes}
    (copied : reader.readTarget platform crates region
      (min bufLen (asUsize platform (reader.virtualSize - reader.pos))) = .ok bytes) :
    Copies platform crates reader region (clamp platform reader bufLen region)
      (asUsize platform (offsetInChunk reader region)) bytes := by
  unfold Copies clamp offsetInChunk
  cases kind : region.kind with
  | unknown =>
      rw [readTarget, kind] at copied
      cases copied
      exact List.length_replicate
  | fill byte =>
      rw [readTarget, kind] at copied
      cases copied
      exact List.length_replicate
  | tile tile =>
      rw [readTarget, kind] at copied
      exact Outcome.length_of_collect_eq_ok copied
  | imageStream =>
      rw [if_pos rfl]
      cases read : reader.readChunk platform crates
          (region.targetOffset / reader.chunkSize) with
      | ok chunk =>
          rw [readTarget_of_readChunk_ok kind chunkSize_ne_zero read] at copied
          cases copied
          exact ⟨chunk, rfl, rfl⟩
      | err error =>
          rw [readTarget_of_readChunk_err kind chunkSize_ne_zero read] at copied
          cases copied
      | panic reason =>
          rw [readTarget_of_readChunk_panic kind chunkSize_ne_zero read] at copied
          cases copied

theorem clamp_eq_exactClamp_iff
    (below : reader.pos < reader.virtualSize) {bufLen : Nat} {region : ResolvedRegion} :
    clamp platform reader bufLen region = exactClamp reader bufLen region ↔
      exactClamp reader bufLen region ≤
          asUsize platform (reader.virtualSize - reader.pos) ∧
        exactClamp reader bufLen region ≤ asUsize platform region.bytesInRegion := by
  have remaining := asUsize_le platform (reader.virtualSize - reader.pos)
  have inRegion := asUsize_le platform region.bytesInRegion
  rw [UInt64.toNat_sub_of_le _ _ (UInt64.le_of_lt below)] at remaining
  unfold clamp exactClamp
  omega

/-- A read that returns copies from the region its position resolves to, as many bytes
as are clamped. -/
theorem copies_of_readStep
    (chunkSize_ne_zero : reader.chunkSize ≠ 0) {bufLen : Nat} {bytes : Bytes}
    {pos : UInt64}
    (returns : reader.readStep platform crates bufLen = .ok (bytes, pos)) :
    ∃ region, reader.target platform = .ok region ∧
      Copies platform crates reader region (clamp platform reader bufLen region)
        (asUsize platform (offsetInChunk reader region)) bytes := by
  obtain ⟨remaining, subtracted, returns⟩ := Outcome.bind_eq_ok.mp returns
  obtain ⟨region, resolved, returns⟩ := Outcome.bind_eq_ok.mp returns
  obtain ⟨copiedBytes, copied, returns⟩ := Outcome.bind_eq_ok.mp returns
  obtain ⟨newPos, -, returns⟩ := Outcome.bind_eq_ok.mp returns
  cases returns
  unfold subU64 at subtracted
  split at subtracted
  · cases subtracted
  · cases subtracted
    exact ⟨region, resolved, copies_of_readTarget chunkSize_ne_zero copied⟩

/-- The clamp of a read, and its position in a chunk, are the exact numbers. -/
structure ClampUnchanged
    (platform : Platform) (reader : Aff4Reader) (bufLen : Nat)
    (region : ResolvedRegion) : Prop where
  clamp : clamp platform reader bufLen region = exactClamp reader bufLen region
  offset : region.kind = .imageStream →
    asUsize platform (offsetInChunk reader region) =
      (offsetInChunk reader region).toNat

/-- The exact clamp is no greater than what is left of the narrowed numbers. -/
structure ClampFits
    (platform : Platform) (reader : Aff4Reader) (bufLen : Nat)
    (region : ResolvedRegion) : Prop where
  remaining : exactClamp reader bufLen region ≤
    asUsize platform (reader.virtualSize - reader.pos)
  inRegion : exactClamp reader bufLen region ≤ asUsize platform region.bytesInRegion
  offset : region.kind = .imageStream →
    FitsUsize platform (offsetInChunk reader region)

theorem clampUnchanged_iff
    (below : reader.pos < reader.virtualSize) {bufLen : Nat} {region : ResolvedRegion} :
    ClampUnchanged platform reader bufLen region ↔
      ClampFits platform reader bufLen region := by
  constructor
  · rintro ⟨same, offset⟩
    obtain ⟨remaining, inRegion⟩ := (clamp_eq_exactClamp_iff below).mp same
    exact ⟨remaining, inRegion, fun kind => (asUsize_eq_iff platform).mp (offset kind)⟩
  · rintro ⟨remaining, inRegion, offset⟩
    exact ⟨(clamp_eq_exactClamp_iff below).mpr ⟨remaining, inRegion⟩,
      fun kind => (offset kind).asUsize_eq⟩

end Aff4Reader

/-- A minimum of 64 bits is narrowed to the number of bytes that are asked for: the
clamp of a positioned read is exact. -/
theorem asUsize_min
    {platform : Platform} {bufLen : Nat} (fits : bufLen ≤ platform.isizeMax)
    (avail : Nat) :
    asUsize platform (UInt64.ofNat (min bufLen avail)) = min bufLen avail := by
  have small := isizeMax_lt platform
  have width := two_pow_usizeBits_le platform
  have toNat := toNat_ofNat_of_lt (show min bufLen avail < 2 ^ 64 by omega)
  rw [(asUsize_eq_iff platform).mpr, toNat]
  rw [toNat]
  omega

/-- When the numbers that a reader narrows are used as they are, on a platform of
either width. -/
theorem Aff4Reader.narrowing_iff
    {platform : Platform} {crates : Crates} {reader : Aff4Reader}
    (opened : reader.Opened crates) (entriesFit : reader.EntriesFit platform)
    (below : reader.pos < reader.virtualSize)
    {bufLen : Nat} (bufFits : bufLen ≤ platform.isizeMax) (region : ResolvedRegion)
    {index : Bytes} (short : index.length ≤ platform.isizeMax)
    (chunkInSeg chunkIdx : UInt64) :
    (∀ bytes pos, reader.readStep platform crates bufLen = .ok (bytes, pos) →
        ∃ region, reader.target platform = .ok region ∧
          Copies platform crates reader region (clamp platform reader bufLen region)
            (asUsize platform (offsetInChunk reader region)) bytes) ∧
      (ClampUnchanged platform reader bufLen region ↔
        ClampFits platform reader bufLen region) ∧
      (∀ avail,
        asUsize platform (UInt64.ofNat (min bufLen avail)) = min bufLen avail) ∧
      (BoundsUnchanged platform index chunkInSeg ↔
        (EntryFound platform index chunkInSeg →
          EntryFits platform index chunkInSeg) ∧
        ¬EndOverflows platform chunkInSeg) ∧
      (ChunkUnchanged platform crates reader chunkIdx ↔
        ¬TakesNarrowed platform crates reader chunkIdx ∧
          ¬ChunkPanics platform reader chunkIdx) :=
  ⟨fun _ _ returns => copies_of_readStep opened.wellFormed.1 returns,
    clampUnchanged_iff below, asUsize_min bufFits, boundsUnchanged_iff short,
    chunkUnchanged_iff entriesFit opened.wellFormed.2⟩

/-! ## Pointers of 64 bits -/

theorem fitsUsize_of_is64Bit
    {platform : Platform} (wide : platform.Is64Bit) (n : UInt64) :
    FitsUsize platform n := by
  unfold FitsUsize
  rw [wide.usizeBits]
  exact n.toNat_lt

/-- With 64 bits nothing is served from something narrowed. -/
theorem Aff4Reader.not_takesNarrowed_of_is64Bit
    {platform : Platform} (wide : platform.Is64Bit) (crates : Crates)
    (reader : Aff4Reader) (chunkIdx : UInt64) :
    ¬TakesNarrowed platform crates reader chunkIdx := by
  have fits := fitsUsize_of_is64Bit wide
  rintro ⟨index, -, -, -, serves⟩
  cases serves with
  | zeros _ unfit => exact unfit ⟨fits _, fits _⟩
  | place _ unfit _ => exact unfit ⟨fits _, fits _⟩
  | size _ unfit _ _ => exact unfit (fits _)

/-! A disk of 4 GiB whose only chunk is said to be stored at an offset of 4 GiB. -/

namespace FourGiBSample

def debug32 : Platform where
  pointerWidth := .bits32
  overflowChecks := true

def turtle : Text :=
  "<i> a aff4:ImageStream ; aff4:chunkSize 2 ; ".toList ++
    "aff4:chunksInSegment 1 ; aff4:size 4294967296 . ".toList

def metadata : StreamMeta where
  streamArn := "i".toList
  virtualSize := 4294967296
  imageStreamSize := 4294967296
  chunkSize := 2
  chunksPerSegment := 1
  compression := .null
  imageHashes := []
  mapMeta := none

theorem parseTurtle_turtle : parseTurtle turtle = .ok metadata := by
  -- The kernel compares lists of characters faster than it unfolds string literals.
  unfold turtle
  simp only [String.reduceToList]
  decide +kernel

def index : Bytes := indexEntry 4294967296 1

theorem entries_short :
    ∀ entry ∈ OneSegment.entries turtle index [7], entry.2.length < 2 ^ 31 :=
  OneSegment.entries_short (by decide +kernel) (by decide) (by decide)

theorem entries_lt :
    ∀ entry ∈ OneSegment.entries turtle index [7], entry.2.length < 2 ^ 63 :=
  fun entry member => (entries_short entry member).trans (by decide)

def archive : ZipArchive := OneSegment.archive turtle index [7] entries_lt

def container : DirectContainer (.opening archive) [] :=
  OneSegment.container _ _ _ _ parseTurtle_turtle rfl

/-- The region of the first byte. -/
def region : ResolvedRegion where
  kind := .imageStream
  targetOffset := 0
  bytesInRegion := 18446744073709551615

theorem entriesFit : container.reader.EntriesFit debug32 := by
  intro name data read
  have inArchive : archive.readEntry name = .ok data := read
  unfold archive OneSegment.archive at inArchive
  obtain ⟨entry, member, rfl⟩ := ZipArchive.mem_of_readEntry_ofEntries inArchive
  exact Nat.le_of_lt_succ (entries_short entry member)

/-- The disk is read as empty, and its chunk is served from the offset zero. -/
theorem not_unchanged_fourGiB :
    openReader (.opening container.archive) [] = .ok container.reader ∧
      (container.reader.read debug32 (.opening container.archive) [0]).result = .ok 0 ∧
      ¬container.reader.ClampUnchanged debug32 1 region ∧
      ¬BoundsUnchanged debug32 index 0 ∧
      ¬container.reader.ChunkUnchanged debug32 (.opening container.archive) 0 := by
  have exact : exactBounds index 0 = some (4294967296, 4294967297) := by
    decide +kernel
  refine ⟨container.openReader_eq, by decide +kernel, ?_, ?_, ?_⟩
  · rintro ⟨same, -⟩
    have nothing : container.reader.clamp debug32 1 region = 0 := by
      decide +kernel
    have one : container.reader.exactClamp 1 region = 1 := by
      decide +kernel
    rw [nothing, one] at same
    cases same
  · intro unchanged
    have decoded := (exactOrErr_iff.mp unchanged).1 (0, 1) (by decide +kernel)
    have zero : (0 : UInt64).toNat = 0 := rfl
    rw [zero, exact] at decoded
    cases decoded
  · intro unchanged
    obtain ⟨indexData, bounds, read, isExact, chunk⟩ :=
      (exactOrErr_iff.mp unchanged).1 [7] (by decide +kernel)
    have sameIndex : container.reader.archive.readEntry (indexName
        container.reader.zipBase (0 / container.reader.chunksPerSegment)) =
          .ok index :=
      @ZipArchive.readEntry_ofEntries _ entries_lt _ _ rfl
    rw [sameIndex] at read
    cases read
    have zero : (0 % container.reader.chunksPerSegment).toNat = 0 := rfl
    rw [zero, exact] at isExact
    cases isExact
    obtain ⟨stored, stores⟩ := chunk.exists_stores (by decide)
    have ends := (stores.length_lt entriesFit).1
    exact absurd ends (by decide)

theorem narrowing_iff_fourGiB :
    (∀ bytes pos, container.reader.readStep debug32 (.opening container.archive) 1 =
        .ok (bytes, pos) →
        ∃ region, container.reader.target debug32 = .ok region ∧
          container.reader.Copies debug32 (.opening container.archive) region
            (container.reader.clamp debug32 1 region)
            (asUsize debug32 (container.reader.offsetInChunk region)) bytes) ∧
      (container.reader.ClampUnchanged debug32 1 region ↔
        container.reader.ClampFits debug32 1 region) ∧
      (∀ avail, asUsize debug32 (UInt64.ofNat (min 1 avail)) = min 1 avail) ∧
      (BoundsUnchanged debug32 index 0 ↔
        (EntryFound debug32 index 0 → EntryFits debug32 index 0) ∧
        ¬EndOverflows debug32 0) ∧
      (container.reader.ChunkUnchanged debug32 (.opening container.archive) 0 ↔
        ¬container.reader.TakesNarrowed debug32 (.opening container.archive) 0 ∧
          ¬container.reader.ChunkPanics debug32 0) :=
  container.reader.narrowing_iff
    (.of_openReader container.openReader_eq) entriesFit (by decide) (by decide) region
    (by decide) 0 0

end FourGiBSample

end Aff4
