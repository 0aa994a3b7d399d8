import Aff4.Reader.IndexEntries

/-!
# Chunks and the bounds of their entries

A chunk lies between the bounds that its index entry holds, and is left out, stored as
it is or compressed.  This is stated for any bounds and any size of a chunk, and for a
platform of either width: there the bounds and the size that are used may be narrowed.
-/

namespace Aff4

open Rust

/-! ## Index entries -/

section Entries

variable (platform : Platform) (index : Bytes) (chunkInSeg : UInt64)

/-- The entry at the narrowed number. -/
def takenEntry : Bytes := indexEntryAt index (asUsize platform chunkInSeg)

/-- The bounds that entry is taken to hold: its offset is narrowed too. -/
def takenBounds : Nat × Nat :=
  let entry := takenEntry platform index chunkInSeg
  (asUsize platform (entryOffset entry),
    asUsize platform (entryOffset entry) + (entryLength entry).toNat)

/-- The index has that entry, and its end is a number of `usize`. -/
structure EntryFound : Prop where
  listed : 12 * (asUsize platform chunkInSeg + 1) ≤ index.length
  ends : (takenBounds platform index chunkInSeg).2 < 2 ^ platform.usizeBits

end Entries

section Entries

variable {platform : Platform} {index : Bytes} {chunkInSeg : UInt64}
variable (short : index.length ≤ platform.isizeMax)

include short

/-- What decoding returns is read off the narrowed entry. -/
theorem chunkBoundsFromIndex_eq_ok_iff {bounds : Nat × Nat} :
    chunkBoundsFromIndex platform index chunkInSeg = .ok bounds ↔
      EntryFound platform index chunkInSeg ∧
        bounds = takenBounds platform index chunkInSeg := by
  by_cases inside : asUsize platform chunkInSeg * 12 + 12 ≤ index.length
  · have listed : 12 * (asUsize platform chunkInSeg + 1) ≤ index.length := by omega
    have decoded : chunkBoundsFromIndex platform index chunkInSeg =
        if (takenBounds platform index chunkInSeg).2 < 2 ^ platform.usizeBits then
          .ok (takenBounds platform index chunkInSeg)
        else .err (.badFormat "bevy chunk bounds overflow") :=
      chunkBoundsFromIndex_of_inside short inside
    rw [decoded]
    split
    · next ends =>
        rw [Outcome.ok.injEq]
        exact ⟨fun same => ⟨⟨listed, ends⟩, same.symm⟩, fun both => both.2.symm⟩
    · next wraps =>
        exact iff_of_false (fun impossible => by cases impossible)
          fun both => wraps both.1.ends
  · apply iff_of_false
    · exact fun decoded => inside (inside_of_chunkBoundsFromIndex_eq_ok decoded)
    · rintro ⟨found, -⟩
      have listed := found.listed
      omega

end Entries

/-! ## Chunks -/

namespace Aff4Reader

variable (platform : Platform) (crates : Crates) (reader : Aff4Reader)

/-- The codec decodes into a buffer of the chunk size. -/
def BuffersOutput (compression : Compression) : Prop :=
  compression = .deflate ∨ compression = .lz4

/-- What the codec makes of a stored chunk. -/
def decode (stored : Bytes) : Option Bytes :=
  match reader.compression with
  | .null => some stored
  | .deflate => (crates.zlibDecode stored).toOption
  | .snappy => (crates.snappyDecode stored).toOption
  | .lz4 => (crates.lz4Decode stored).toOption

/-- A bevy holds these bytes between some bounds. -/
structure Stores (segmentIdx : UInt64) (bounds : Nat × Nat) (stored : Bytes) : Prop where
  nonempty : bounds.1 ≠ bounds.2
  bevy : ∃ bevyData,
    reader.archive.readEntry (segmentName reader.zipBase segmentIdx) = .ok bevyData ∧
      bounds.2 ≤ bevyData.length ∧
      stored = (bevyData.take bounds.2).drop bounds.1

/-- The chunk between some bounds, for chunks of a size: zeros if it was left out,
the stored bytes if they are of that size, and else what they are decoded to. -/
inductive ChunkIs (chunkSize : Nat) (segmentIdx : UInt64) (bounds : Nat × Nat) :
    Bytes → Prop
  | sparse : bounds.1 = bounds.2 →
      ChunkIs chunkSize segmentIdx bounds (List.replicate chunkSize 0)
  | verbatim {stored : Bytes} : reader.Stores segmentIdx bounds stored →
      stored.length = chunkSize → ChunkIs chunkSize segmentIdx bounds stored
  | decoded {stored bytes : Bytes} : reader.Stores segmentIdx bounds stored →
      stored.length ≠ chunkSize → reader.decode crates stored = some bytes →
      ChunkIs chunkSize segmentIdx bounds bytes

/-- A chunk by its exact number, offset and size. -/
def ExactChunk (chunkIdx : UInt64) (bytes : Bytes) : Prop :=
  ∃ index bounds,
    reader.archive.readEntry (indexName reader.zipBase
        (chunkIdx / reader.chunksPerSegment)) = .ok index ∧
      exactBounds index (chunkIdx % reader.chunksPerSegment).toNat = some bounds ∧
      reader.ChunkIs crates reader.chunkSize.toNat
        (chunkIdx / reader.chunksPerSegment) bounds bytes

/-- The buffer of the chunk, where it needs one, can be allocated. -/
def Allocates (bounds : Nat × Nat) : Prop :=
  bounds.1 = bounds.2 ∨
      bounds.2 - bounds.1 ≠ asUsize platform reader.chunkSize ∧
        BuffersOutput reader.compression →
    asUsize platform reader.chunkSize ≤ platform.isizeMax

variable {platform crates reader}

theorem Stores.length {segmentIdx : UInt64} {bounds : Nat × Nat} {stored : Bytes}
    (stores : reader.Stores segmentIdx bounds stored) :
    stored.length = bounds.2 - bounds.1 := by
  obtain ⟨bevyData, -, inside, rfl⟩ := stores.bevy
  rw [List.length_drop, List.length_take, Nat.min_eq_left inside]

theorem Stores.unique {segmentIdx : UInt64} {bounds : Nat × Nat}
    {stored other : Bytes} (stores : reader.Stores segmentIdx bounds stored)
    (others : reader.Stores segmentIdx bounds other) : stored = other := by
  obtain ⟨bevyData, read, -, rfl⟩ := stores.bevy
  obtain ⟨otherData, otherRead, -, rfl⟩ := others.bevy
  rw [read] at otherRead
  cases otherRead
  rfl

theorem decompress_eq_ok {stored bytes : Bytes} :
    reader.decompress platform crates stored = .ok bytes ↔
      (BuffersOutput reader.compression →
        asUsize platform reader.chunkSize ≤ platform.isizeMax) ∧
      reader.decode crates stored = some bytes := by
  have decodes (result : Except String Bytes) (describe : String → Aff4Error) :
      Outcome.ofExcept (result.mapError describe) = .ok bytes ↔
        result.toOption = some bytes := by
    rw [Outcome.ofExcept_eq_ok, mapError_eq_ok]
    cases result <;> simp [Except.toOption]
  have buffered (result : Except String Bytes) (describe : String → Aff4Error) :
      (withCapacity platform (asUsize platform reader.chunkSize) >>= fun _ =>
          Outcome.ofExcept (result.mapError describe)) = .ok bytes ↔
        asUsize platform reader.chunkSize ≤ platform.isizeMax ∧
          result.toOption = some bytes := by
    rw [Outcome.bind_eq_ok, ← decodes result describe]
    unfold withCapacity
    split
    · next fits =>
        exact ⟨fun ⟨_, _, returns⟩ => ⟨fits, returns⟩,
          fun ⟨_, returns⟩ => ⟨(), rfl, returns⟩⟩
    · next large =>
        exact iff_of_false (fun ⟨_, impossible, _⟩ => by cases impossible)
          fun ⟨fits, _⟩ => large fits
  unfold decompress decode BuffersOutput
  cases reader.compression with
  | null => simp
  | deflate =>
      dsimp only
      rw [buffered]
      simp
  | snappy =>
      dsimp only
      rw [decodes]
      simp
  | lz4 =>
      dsimp only
      rw [buffered]
      simp

/-- A stored chunk is verbatim or is decoded. -/
theorem chunkWithin_of_stores
    {segmentIdx : UInt64} {bounds : Nat × Nat} (ordered : bounds.1 ≤ bounds.2)
    {stored : Bytes} (stores : reader.Stores segmentIdx bounds stored) :
    reader.chunkWithin platform crates segmentIdx bounds =
      if stored.length = asUsize platform reader.chunkSize then .ok stored
      else reader.decompress platform crates stored := by
  obtain ⟨bevyData, read, inside, rfl⟩ := stores.bevy
  unfold chunkWithin
  dsimp only
  rw [if_neg stores.nonempty, read, Outcome.ofExcept_ok, Outcome.ok_bind,
    if_neg (Nat.not_lt.mpr inside), slice_of_le ordered inside, Outcome.ok_bind]
  rfl

/-- What is read between bounds that differ is stored. -/
theorem exists_stores_of_chunkWithin
    {segmentIdx : UInt64} {bounds : Nat × Nat} (nonempty : bounds.1 ≠ bounds.2)
    {bytes : Bytes}
    (returns : reader.chunkWithin platform crates segmentIdx bounds = .ok bytes) :
    ∃ stored, reader.Stores segmentIdx bounds stored := by
  unfold chunkWithin at returns
  dsimp only at returns
  rw [if_neg nonempty] at returns
  obtain ⟨bevyData, read, returns⟩ := Outcome.bind_eq_ok.mp returns
  rw [Outcome.ofExcept_eq_ok] at read
  split at returns
  · cases returns
  · next within =>
      exact ⟨_, nonempty, bevyData, read, Nat.not_lt.mp within, rfl⟩

/-- What is read between some bounds is the chunk of the narrowed size. -/
theorem chunkWithin_eq_ok {segmentIdx : UInt64} {bounds : Nat × Nat}
    (ordered : bounds.1 ≤ bounds.2) {bytes : Bytes} :
    reader.chunkWithin platform crates segmentIdx bounds = .ok bytes ↔
      reader.Allocates platform bounds ∧
        reader.ChunkIs crates (asUsize platform reader.chunkSize) segmentIdx bounds
          bytes := by
  by_cases empty : bounds.1 = bounds.2
  · have zeros : reader.chunkWithin platform crates segmentIdx bounds =
        vecZeroed platform (asUsize platform reader.chunkSize) := by
      unfold chunkWithin
      dsimp only
      rw [if_pos empty]
    rw [zeros, vecZeroed]
    constructor
    · intro returns
      split at returns
      · next fits =>
          cases returns
          exact ⟨fun _ => fits, .sparse empty⟩
      · cases returns
    · rintro ⟨allocates, chunk⟩
      rw [if_pos (allocates (.inl empty))]
      cases chunk with
      | sparse => rfl
      | verbatim stores => exact absurd empty stores.nonempty
      | decoded stores => exact absurd empty stores.nonempty
  · constructor
    · intro returns
      obtain ⟨stored, stores⟩ := exists_stores_of_chunkWithin empty returns
      rw [chunkWithin_of_stores ordered stores] at returns
      unfold Allocates
      rw [← stores.length]
      split at returns
      · next same =>
          cases returns
          refine ⟨?_, .verbatim stores same⟩
          rintro (impossible | ⟨differs, -⟩)
          · exact absurd impossible empty
          · exact absurd same differs
      · next differs =>
          obtain ⟨allocates, decodes⟩ := decompress_eq_ok.mp returns
          refine ⟨?_, .decoded stores differs decodes⟩
          rintro (impossible | ⟨-, buffers⟩)
          · exact absurd impossible empty
          · exact allocates buffers
    · rintro ⟨allocates, chunk⟩
      cases chunk with
      | sparse impossible => exact absurd impossible empty
      | verbatim stores same => rw [chunkWithin_of_stores ordered stores, if_pos same]
      | @decoded stored _ stores differs decodes =>
          rw [chunkWithin_of_stores ordered stores, if_neg differs, decompress_eq_ok]
          refine ⟨fun buffers => allocates (.inr ⟨?_, buffers⟩), decodes⟩
          rw [← stores.length]
          exact differs

/-- Whatever is read from the archive fits into the memory of the platform. -/
def EntriesFit (platform : Platform) (reader : Aff4Reader) : Prop :=
  ∀ name data, reader.archive.readEntry name = .ok data →
    data.length ≤ platform.isizeMax

theorem ChunkIs.length_of_empty
    {chunkSize : Nat} {segmentIdx : UInt64} {bounds : Nat × Nat} {bytes : Bytes}
    (chunk : reader.ChunkIs crates chunkSize segmentIdx bounds bytes)
    (empty : bounds.1 = bounds.2) : bytes.length = chunkSize := by
  cases chunk with
  | sparse => exact List.length_replicate
  | verbatim stores => exact absurd empty stores.nonempty
  | decoded stores => exact absurd empty stores.nonempty

theorem ChunkIs.exists_stores
    {chunkSize : Nat} {segmentIdx : UInt64} {bounds : Nat × Nat} {bytes : Bytes}
    (chunk : reader.ChunkIs crates chunkSize segmentIdx bounds bytes)
    (nonempty : bounds.1 ≠ bounds.2) :
    ∃ stored, reader.Stores segmentIdx bounds stored := by
  cases chunk with
  | sparse empty => exact absurd empty nonempty
  | verbatim stores => exact ⟨_, stores⟩
  | decoded stores => exact ⟨_, stores⟩

/-- A chunk is what the bounds that are taken for it and the narrowed size make of
it. -/
theorem readChunk_eq_ok
    (chunksPerSegment_ne_zero : reader.chunksPerSegment ≠ 0)
    (entriesFit : reader.EntriesFit platform) {chunkIdx : UInt64} {bytes : Bytes} :
    reader.readChunk platform crates chunkIdx = .ok bytes ↔
      ∃ index,
        reader.archive.readEntry (indexName reader.zipBase
            (chunkIdx / reader.chunksPerSegment)) = .ok index ∧
          let bounds := takenBounds platform index (chunkIdx % reader.chunksPerSegment)
          EntryFound platform index (chunkIdx % reader.chunksPerSegment) ∧
            reader.Allocates platform bounds ∧
            reader.ChunkIs crates (asUsize platform reader.chunkSize)
              (chunkIdx / reader.chunksPerSegment) bounds bytes := by
  have ordered (index : Bytes) (chunkInSeg : UInt64) :
      (takenBounds platform index chunkInSeg).1 ≤
        (takenBounds platform index chunkInSeg).2 :=
    Nat.le_add_right _ _
  rw [readChunk_eq chunksPerSegment_ne_zero, Outcome.bind_eq_ok]
  apply exists_congr
  intro index
  rw [Outcome.ofExcept_eq_ok]
  apply and_congr_right
  intro read
  rw [Outcome.bind_eq_ok]
  constructor
  · rintro ⟨bounds, decoded, returns⟩
    obtain ⟨found, rfl⟩ :=
      (chunkBoundsFromIndex_eq_ok_iff (entriesFit _ _ read)).mp decoded
    exact ⟨found, (chunkWithin_eq_ok (ordered _ _)).mp returns⟩
  · rintro ⟨found, served⟩
    exact ⟨_, (chunkBoundsFromIndex_eq_ok_iff (entriesFit _ _ read)).mpr ⟨found, rfl⟩,
      (chunkWithin_eq_ok (ordered _ _)).mpr served⟩

/-- With 64 bits nothing is narrowed. -/
theorem readChunk_eq_ok_of_is64Bit
    (wide : platform.Is64Bit)
    (chunksPerSegment_ne_zero : reader.chunksPerSegment ≠ 0)
    {chunkIdx : UInt64} {bytes : Bytes} :
    reader.readChunk platform crates chunkIdx = .ok bytes ↔
      ∃ index bounds,
        reader.archive.readEntry (indexName reader.zipBase
            (chunkIdx / reader.chunksPerSegment)) = .ok index ∧
          exactBounds index (chunkIdx % reader.chunksPerSegment).toNat = some bounds ∧
          reader.Allocates platform bounds ∧
          reader.ChunkIs crates reader.chunkSize.toNat
            (chunkIdx / reader.chunksPerSegment) bounds bytes := by
  rw [readChunk_eq chunksPerSegment_ne_zero, Outcome.bind_eq_ok,
    ← asUsize_of_is64Bit wide reader.chunkSize]
  apply exists_congr
  intro index
  rw [Outcome.ofExcept_eq_ok, exists_and_left, Outcome.bind_eq_ok]
  apply and_congr_right
  intro read
  apply exists_congr
  intro bounds
  have short := ZipArchive.length_lt_of_readEntry_eq_ok read
  rw [chunkBoundsFromIndex_eq_ok wide short]
  apply and_congr_right
  intro exact
  apply chunkWithin_eq_ok
  obtain ⟨-, -, rfl⟩ := exactBounds_eq_some.mp exact
  exact Nat.le_add_right _ _

theorem exactChunk_of_readChunk
    (wide : platform.Is64Bit)
    (chunksPerSegment_ne_zero : reader.chunksPerSegment ≠ 0)
    {chunkIdx : UInt64} {bytes : Bytes}
    (read : reader.readChunk platform crates chunkIdx = .ok bytes) :
    reader.ExactChunk crates chunkIdx bytes := by
  obtain ⟨index, bounds, indexRead, exact, -, isChunk⟩ :=
    (readChunk_eq_ok_of_is64Bit wide chunksPerSegment_ne_zero).mp read
  exact ⟨index, bounds, indexRead, exact, isChunk⟩

end Aff4Reader
end Aff4
