import Aff4.Bevy
import Aff4.Storage.Blocks

/-!
# The layout of a stored stream

A writer packs chunk `i` of a stream into entry `i % k` of segment `i / k`, with
the stored bytes anywhere in the bevy of the segment.  This file is what such a
writer leaves in the archive, and what the index entries of it read as.
-/

namespace Aff4

open Rust Storage

/-- The index file of a segment that begins with chunk `first`. -/
def segmentIndex
    (stored : Nat → Bytes) (offset : Nat → UInt64) (first entries : Nat) : Bytes :=
  joined
    (fun entry =>
      indexEntry (offset (first + entry))
        (UInt32.ofNat (stored (first + entry)).length))
    entries

theorem length_segmentIndex
    (stored : Nat → Bytes) (offset : Nat → UInt64) (first entries : Nat) :
    (segmentIndex stored offset first entries).length = entries * 12 :=
  length_joined fun _ _ => length_indexEntry _ _

theorem indexEntryAt_segmentIndex
    (stored : Nat → Bytes) (offset : Nat → UInt64) (first : Nat)
    {entries entry : Nat} (below : entry < entries) :
    indexEntryAt (segmentIndex stored offset first entries) entry =
      indexEntry (offset (first + entry))
        (UInt32.ofNat (stored (first + entry)).length) := by
  obtain ⟨rest, split⟩ := block_prefix_drop
    (fun entry => indexEntry (offset (first + entry))
      (UInt32.ofNat (stored (first + entry)).length))
    below fun _ _ => length_indexEntry _ _
  rw [indexEntryAt, segmentIndex, ← split,
    List.take_left' (length_indexEntry _ _)]

/-- A stream of `count` stored chunks under a base of an archive, `perSegment`
of them to a segment.  A chunk that is stored in no bytes needs no bevy. -/
structure StoredStream
    (archive : ZipArchive) (base : Text) (count perSegment : Nat) where
  stored : Nat → Bytes
  offset : Nat → UInt64
  bevy : Nat → Bytes
  short : ∀ index, index < count → (stored index).length < 2 ^ 32
  indexFile : ∀ segment, segment * perSegment < count →
    archive.readEntry (indexName base (UInt64.ofNat segment)) =
      .ok (segmentIndex stored offset (segment * perSegment)
        (min perSegment (count - segment * perSegment)))
  bevyFile : ∀ index, index < count → stored index ≠ [] →
    archive.readEntry (segmentName base (UInt64.ofNat (index / perSegment))) =
      .ok (bevy (index / perSegment))
  inside : ∀ index, index < count → stored index ≠ [] →
    (offset index).toNat + (stored index).length ≤
      (bevy (index / perSegment)).length
  placed : ∀ index, index < count → stored index ≠ [] →
    ((bevy (index / perSegment)).drop (offset index).toNat).take
      (stored index).length = stored index

/-- No entry but those of the stream lies under another spelling of its ARN. -/
def NoRivals (archive : ZipArchive) (arn base : Text) : Prop :=
  ∀ name ∈ archive.fileNames,
    (∃ segment, name = segmentName base segment ∨ name = indexName base segment) ∨
      ∀ other ∈ baseSpellings arn, Under other name → other = base

namespace StoredStream

variable {archive : ZipArchive} {base : Text} {count perSegment : Nat}
variable (stream : StoredStream archive base count perSegment)

include stream in
/-- The base of a stored stream is detected. -/
theorem detectZipBase_eq
    {arn : Text}
    (nonempty : 0 < count)
    (spelling : base ∈ baseSpellings arn)
    (noRivals : NoRivals archive arn base) :
    detectZipBase archive arn = base := by
  have found := stream.indexFile 0 (by omega)
  refine Aff4.detectZipBase_eq spelling
    ⟨_, ZipArchive.mem_fileNames_of_readEntry_eq_ok found, ?_⟩ ?_
  · simp only [Under, indexName, segmentName, List.append_assoc]
    exact (List.prefix_append_right_inj _).mpr (List.prefix_append _ _)
  · intro name member
    rcases noRivals name member with ⟨segment, rfl | rfl⟩ | exclusive
    · exact .inl ⟨_, not_mem_segmentLeaf segment, rfl⟩
    · exact .inl ⟨_, not_mem_indexLeaf segment, by
        simp [indexName, segmentName, List.append_assoc]⟩
    · exact .inr exclusive

/-- The index entry of a chunk holds its place and its stored size. -/
theorem indexEntryAt_eq
    (perSegment_pos : 0 < perSegment) {index : Nat} (below : index < count) :
    indexEntryAt
        (segmentIndex stream.stored stream.offset (index / perSegment * perSegment)
          (min perSegment (count - index / perSegment * perSegment)))
        (index % perSegment) =
      indexEntry (stream.offset index)
        (UInt32.ofNat (stream.stored index).length) := by
  have position := Nat.div_add_mod' index perSegment
  have inside := Nat.mod_lt index perSegment_pos
  rw [indexEntryAt_segmentIndex _ _ _ (by omega), position]

/-- The bounds of a chunk are decoded from its index. -/
theorem chunkBounds
    {platform : Platform} (wide : platform.Is64Bit)
    (perSegment_pos : 0 < perSegment) {index : Nat} (below : index < count)
    {chunkInSeg : UInt64} (entry : chunkInSeg.toNat = index % perSegment)
    (fits : (stream.offset index).toNat + (stream.stored index).length < 2 ^ 64) :
    chunkBoundsFromIndex platform
        (segmentIndex stream.stored stream.offset (index / perSegment * perSegment)
          (min perSegment (count - index / perSegment * perSegment)))
        chunkInSeg =
      .ok ((stream.offset index).toNat,
        (stream.offset index).toNat + (stream.stored index).length) := by
  have position := Nat.div_add_mod' index perSegment
  have inside := Nat.mod_lt index perSegment_pos
  have memory := ZipArchive.length_lt_of_readEntry_eq_ok
    (stream.indexFile (index / perSegment) (by omega))
  have length := length_segmentIndex stream.stored stream.offset
    (index / perSegment * perSegment)
    (min perSegment (count - index / perSegment * perSegment))
  have narrow : (UInt32.ofNat (stream.stored index).length).toNat =
      (stream.stored index).length := by
    rw [UInt32.toNat_ofNat', Nat.mod_eq_of_lt (stream.short index below)]
  rw [chunkBoundsFromIndex_of_le wide memory (by omega), entry,
    stream.indexEntryAt_eq perSegment_pos below]
  simp only [entryOffset_indexEntry, entryLength_indexEntry, narrow, if_pos fits]

end StoredStream
end Aff4
