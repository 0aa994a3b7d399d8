import Aff4.Map.Lookup
import Aff4.Reader.Content
import Aff4.Reader.Open
import Aff4.Reader.Session

/-!
# The disk a map-backed image stands for

The reference disk of a map-backed container is read off its files record by
record, with no sorting and no searching.  A reader over a conforming container
presents exactly this disk.
-/

namespace Aff4

open Rust Storage

namespace Aff4Reader

variable {platform : Platform} {crates : Crates} {reader : Aff4Reader}

/-- Every chunk of the stream decodes to a full chunk, except that the last one
may hold just the remainder. -/
def DecodesInFull
    (platform : Platform) (crates : Crates) (reader : Aff4Reader) : Prop :=
  ∀ index, index < reader.chunkCount →
    ∃ chunk,
      reader.readChunk platform crates (UInt64.ofNat index) = .ok chunk ∧
      (chunk.length = reader.chunkSize.toNat ∨
        index + 1 = reader.chunkCount ∧
          chunk.length =
            reader.imageStreamSize.toNat - index * reader.chunkSize.toNat)

namespace DecodesInFull

variable (decodes : reader.DecodesInFull platform crates)

include decodes in
theorem length_decodedChunk_of_succ_lt {index : Nat}
    (inner : index + 1 < reader.chunkCount) :
    (reader.decodedChunk platform crates index).length =
      reader.chunkSize.toNat := by
  obtain ⟨chunk, read, length⟩ := decodes index (by omega)
  rw [decodedChunk_of_readChunk read]
  omega

include decodes in
/-- The decoded chunks hold all that was declared. -/
theorem length_streamContent (chunkSize_ne_zero : reader.chunkSize ≠ 0) :
    (reader.streamContent platform crates).length =
      reader.imageStreamSize.toNat := by
  rw [streamContent, List.length_take, Nat.min_eq_left]
  have positive := chunkSize_pos chunkSize_ne_zero
  cases count : reader.chunkCount with
  | zero =>
      have outside := (lt_chunkCount_iff chunkSize_ne_zero 0).not.mp
        (by omega)
      simp at outside
      simp [outside]
  | succ last =>
      obtain ⟨chunk, read, length⟩ := decodes last (by omega)
      have uniform := length_joined
        fun index (below : index < last) =>
          decodes.length_decodedChunk_of_succ_lt (show index + 1 < _ by omega)
      have covered := (lt_chunkCount_iff
        chunkSize_ne_zero (last + 1)).not.mp (by omega)
      rw [joined_succ, List.length_append, uniform,
        decodedChunk_of_readChunk read]
      rw [Nat.succ_mul] at covered
      omega

include decodes in
/-- A reader whose chunks decode in full holds the stream they join to. -/
theorem holdsStream (chunkSize_ne_zero : reader.chunkSize ≠ 0) :
    reader.HoldsStream platform crates
      (reader.streamContent platform crates) where
  chunkSize_ne_zero := chunkSize_ne_zero
  readChunk := by
    intro chunkIdx inside
    rw [decodes.length_streamContent chunkSize_ne_zero] at inside
    have below := (lt_chunkCount_iff chunkSize_ne_zero _).mpr inside
    obtain ⟨chunk, read, length⟩ := decodes chunkIdx.toNat below
    have decoded := decodedChunk_of_readChunk read
    rw [UInt64.ofNat_toNat] at read
    refine ⟨chunk, read, ?_, ?_⟩
    · obtain ⟨rest, split⟩ := block_prefix_drop
        (reader.decodedChunk platform crates) below fun before earlier =>
          decodes.length_decodedChunk_of_succ_lt (show before + 1 < _ by omega)
      rw [cut, streamContent, List.drop_take, List.take_take, ← split, decoded,
        List.take_append_of_le_length (by omega)]
      exact List.take_prefix _ _
    · rcases length with full | ⟨last, remainder⟩
      · omega
      · have covered := (lt_chunkCount_iff
          chunkSize_ne_zero (chunkIdx.toNat + 1)).not.mp (by omega)
        rw [Nat.succ_mul] at covered
        omega

end DecodesInFull
end Aff4Reader

namespace MapContainer

variable {crates : Crates} {backing : Bytes}
variable (container : MapContainer crates backing)

/-- The records of the map file, in file order. -/
def records : List MapEntry :=
  mapRecords crates.safeRead container.mapData

/-- The target a record names in the `/idx` file. -/
def recordKind (entry : MapEntry) : TargetKind :=
  match (Str.lines container.idxData)[entry.targetId.toNat]? with
  | some line => classifyTarget (Str.trim line) container.mapMeta.imageStreamArn
  | none => .unknown

/-- The byte outside every record. -/
def gapByte : UInt8 :=
  if container.mapMeta.gapIsSymbolicFf then 0xFF else 0x00

/-- The content of the ImageStream under the map. -/
def content (platform : Platform) : Bytes :=
  container.reader.streamContent platform crates

/-- The flat disk the container stands for. -/
def referenceDisk (platform : Platform) : Disk UInt8 where
  size := container.metadata.virtualSize.toNat
  byteAt := fun position =>
    match coveringRecord container.records position with
    | some entry =>
        (container.recordKind entry).byteAt (container.content platform)
          (entry.targetOffset.toNat + (position - entry.mapOffset.toNat))
    | none => container.gapByte

/-- The flat disk that the records make of any content of the stream. -/
def diskOver (content : Bytes) : Disk UInt8 where
  size := container.metadata.virtualSize.toNat
  byteAt := fun position =>
    match coveringRecord container.records position with
    | some entry =>
        (container.recordKind entry).byteAt content
          (entry.targetOffset.toNat + (position - entry.mapOffset.toNat))
    | none => container.gapByte

/-- Records that place a content on a disk. -/
structure Placed (content : Bytes) : Prop where
  disjoint : container.records.Pairwise MapEntry.Disjoint
  inside : ∀ entry ∈ container.records, 0 < entry.length →
    entry.mapOffset.toNat + entry.length.toNat ≤
      container.metadata.virtualSize.toNat
  targetFits : ∀ entry ∈ container.records, 0 < entry.length →
    entry.targetOffset.toNat + entry.length.toNat ≤ 2 ^ 64
  inStream : ∀ entry ∈ container.records, 0 < entry.length →
    container.recordKind entry = .imageStream →
    entry.targetOffset.toNat + entry.length.toNat ≤ content.length
  noBlankLines : ∀ line ∈ Str.lines container.idxData, Str.trim line ≠ []

/-- What a conforming container satisfies.  Records may be empty and come in any
order; a record whose target is missing counts as unknown. -/
structure Conforming (platform : Platform) : Prop where
  disjoint : container.records.Pairwise MapEntry.Disjoint
  inside : ∀ entry ∈ container.records, 0 < entry.length →
    entry.mapOffset.toNat + entry.length.toNat ≤
      container.metadata.virtualSize.toNat
  targetFits : ∀ entry ∈ container.records, 0 < entry.length →
    entry.targetOffset.toNat + entry.length.toNat ≤ 2 ^ 64
  inStream : ∀ entry ∈ container.records, 0 < entry.length →
    container.recordKind entry = .imageStream →
    entry.targetOffset.toNat + entry.length.toNat ≤
      container.metadata.imageStreamSize.toNat
  decodes : container.reader.DecodesInFull platform crates
  noBlankLines : ∀ line ∈ Str.lines container.idxData, Str.trim line ≠ []

variable {container}

theorem gapDefault_eq (container : MapContainer crates backing) :
    container.gapDefault = .fill container.gapByte := by
  unfold gapDefault gapByte
  split <;> rfl

/-- Without blank lines, a record's target is the one of the loaded map. -/
theorem targetKind_loadedMap
    (noBlankLines : ∀ line ∈ Str.lines container.idxData, Str.trim line ≠ [])
    (entry : MapEntry) :
    container.loadedMap.targetKind entry = container.recordKind entry := by
  have allKept : ((Str.lines container.idxData).filter
      fun line => !(Str.trim line).isEmpty) = Str.lines container.idxData := by
    rw [List.filter_eq_self]
    intro line member
    simpa using noBlankLines line member
  rw [LoadedMap.targetKind, recordKind]
  change (parseIdx container.idxData container.mapMeta.imageStreamArn)[_]?.getD _ = _
  rw [parseIdx, allKept, List.getElem?_map]
  cases (Str.lines container.idxData)[entry.targetId.toNat]? <;> rfl

theorem mem_entries {entry : MapEntry} :
    entry ∈ container.loadedMap.entries ↔
      entry ∈ container.records ∧ 0 < entry.length :=
  mem_parseMapEntries

theorem length_pos_of_covers {entry : MapEntry} {position : Nat}
    (covers : entry.Covers position) : 0 < entry.length := by
  rw [UInt64.lt_iff_toNat_lt, UInt64.toNat_zero]
  have := covers.1
  have := covers.2
  omega

namespace Placed

variable {content : Bytes} (placed : container.Placed content)

include placed in
theorem mapFits {entry : MapEntry} (member : entry ∈ container.loadedMap.entries) :
    entry.mapOffset.toNat + entry.length.toNat < 2 ^ 64 := by
  obtain ⟨inRecords, nonempty⟩ := mem_entries.mp member
  have inside := placed.inside entry inRecords nonempty
  have bound := container.metadata.virtualSize.toNat_lt
  omega

include placed in
/-- A position inside a record resolves to a region of the disk. -/
theorem describes_of_covers
    (platform : Platform) {pos : UInt64} {entry : MapEntry}
    (member : entry ∈ container.records) (covers : entry.Covers pos.toNat) :
    ∃ region,
      (container.loadedMap.resolve platform pos container.metadata.virtualSize :
        Outcome IoError ResolvedRegion) = .ok region ∧
      region.Describes platform content (container.diskOver content) pos.toNat := by
  have nonempty := length_pos_of_covers covers
  have inMap := mem_entries.mpr ⟨member, nonempty⟩
  have targetFits := placed.targetFits entry member nonempty
  obtain ⟨region, resolved, kind, offset, bytes⟩ :=
    LoadedMap.resolve_of_covers IoError platform
      container.metadata.virtualSize
      (pairwise_disjoint_parseMapEntries placed.disjoint) inMap covers
      (placed.mapFits inMap) targetFits
  rw [targetKind_loadedMap placed.noBlankLines] at kind
  obtain ⟨begins, ends⟩ := covers
  refine ⟨region, resolved, by omega, fun distance within _ => ?_,
    fun _ distance within _ => by omega, fun stream distance within _ => ?_⟩
  · have here : entry.Covers (pos.toNat + distance) := ⟨by omega, by omega⟩
    have place : entry.targetOffset.toNat +
        (pos.toNat + distance - entry.mapOffset.toNat) =
          region.targetOffset.toNat + distance := by omega
    simp only [diskOver,
      coveringRecord_eq_some placed.disjoint member here, kind, place]
  · have inStream := placed.inStream entry member nonempty (kind ▸ stream)
    omega

include placed in
/-- A position outside every record resolves to a gap of the disk. -/
theorem describes_of_uncovered
    (platform : Platform) {pos : UInt64}
    (below : pos < container.metadata.virtualSize)
    (uncovered : ∀ entry ∈ container.records, ¬entry.Covers pos.toNat) :
    ∃ region,
      (container.loadedMap.resolve platform pos container.metadata.virtualSize :
        Outcome IoError ResolvedRegion) = .ok region ∧
      region.Describes platform content (container.diskOver content) pos.toNat := by
  obtain ⟨region, resolved, kind, offset, nonempty, gap⟩ :=
    LoadedMap.resolve_of_uncovered IoError platform
      (fun entry (member : entry ∈ container.loadedMap.entries) => placed.mapFits member) below
      (fun entry member => uncovered entry (mem_entries.mp member).1)
  have filled : region.kind = .fill container.gapByte :=
    kind.trans container.gapDefault_eq
  have limit := region.bytesInRegion.toNat_lt
  refine ⟨region, resolved, nonempty, fun distance within _ => ?_,
    fun _ distance within _ => ?_, fun stream => ?_⟩
  · have outside :
        coveringRecord container.records (pos.toNat + distance) = none :=
      coveringRecord_eq_none fun entry member covers =>
        gap _ (by omega) (by omega) entry
          (mem_entries.mpr ⟨member, length_pos_of_covers covers⟩) covers
    simp only [diskOver, outside, filled, TargetKind.byteAt]
  · rw [offset, UInt64.toNat_zero]
    omega
  · rw [filled] at stream
    cases stream

include placed in
/-- A reader that holds a content presents the disk made of it. -/
theorem presents
    {platform : Platform}
    (holds : container.reader.HoldsStream platform crates content) :
    container.reader.Presents platform crates content
      (container.diskOver content) where
  size := rfl
  holds := holds
  target := by
    intro pos below
    cases found : coveringRecord container.records pos.toNat with
    | some entry =>
        exact placed.describes_of_covers platform (List.mem_of_find?_eq_some found)
          (by simpa using List.find?_some found)
    | none =>
        refine placed.describes_of_uncovered platform
          (UInt64.lt_iff_toNat_lt.mpr below) fun entry member => ?_
        simpa using List.find?_eq_none.mp found entry member

end Placed

namespace Conforming

variable {platform : Platform} (conforming : container.Conforming platform)

include conforming in
theorem placed : container.Placed (container.content platform) where
  disjoint := conforming.disjoint
  inside := conforming.inside
  targetFits := conforming.targetFits
  inStream := by
    rw [content, conforming.decodes.length_streamContent
      (parseTurtle_wellFormed container.metadata_eq).chunkSize_ne_zero]
    exact conforming.inStream
  noBlankLines := conforming.noBlankLines

include conforming in
/-- The reader of a conforming container presents its reference disk. -/
theorem presents :
    container.reader.Presents platform crates (container.content platform)
      (container.referenceDisk platform) :=
  conforming.placed.presents (conforming.decodes.holdsStream
    (parseTurtle_wellFormed container.metadata_eq).chunkSize_ne_zero)

end Conforming

/-- Every session of reads and seeks on a map-backed reader over a conforming
container reads the reference disk. -/
theorem session_reads_referenceDisk
    {platform : Platform}
    (wide : platform.Is64Bit)
    (conforming : container.Conforming platform)
    {reader : Aff4Reader}
    (opened : openReader crates backing = .ok reader)
    (operations : List Operation) :
    ∀ event ∈ run (Aff4Reader.perform platform crates) reader operations,
      Aff4Reader.Obeys (container.referenceDisk platform) event := by
  rw [container.openReader_eq] at opened
  cases opened
  exact conforming.presents.session_obeys wide operations

/-! A conforming container: records of the stream, of zeros and of a tile across its
seam, out of order, an empty one, a trailing byte, and a last chunk that is short. -/

def sampleMap : Bytes :=
  Small.mapFile [⟨3, 2, 1, 0⟩, ⟨1, 2, 1048575, 2⟩, ⟨0, 1, 0, 1⟩, ⟨5, 0, 9, 7⟩] ++ [0xFF]

def sampleIndex : Bytes :=
  indexEntry 0 2 ++ indexEntry 2 1

def sample : MapContainer
    (.opening (Small.archive sampleMap sampleIndex [0x41, 0x42, 0x43]
      (Small.entries_short (by decide) (by decide) (by decide)))) [] :=
  Small.container _ _ _ _

theorem conforming_sample : sample.Conforming .debug64 := by
  have records : sample.records =
      [⟨3, 2, 1, 0⟩, ⟨1, 2, 1048575, 2⟩, ⟨0, 1, 0, 1⟩, ⟨5, 0, 9, 7⟩] := by
    decide +kernel
  have count : sample.reader.chunkCount = 2 := by decide
  refine ⟨?_, ?_, ?_, ?_, fun index below => ?_, by decide⟩
  · rw [records]
    exact List.Pairwise.imp MapEntry.disjoint_of_apart (by decide)
  · rw [records]
    decide
  · rw [records]
    decide
  · rw [records]
    decide
  · rw [count] at below ⊢
    match index, below with
    | 0, _ => exact ⟨[0x41, 0x42], by decide, .inl rfl⟩
    | 1, _ => exact ⟨[0x43], by decide, .inr ⟨rfl, rfl⟩⟩

theorem session_reads_referenceDisk_sample :
    openReader (.opening sample.archive) [] = .ok sample.reader ∧
      ∀ event ∈ run
        (Aff4Reader.perform .debug64 (.opening sample.archive)) sample.reader
        [.read [0, 0], .read [0, 0], .seek (.start 4), .read [0, 0, 0],
          .seek (.fromEnd (-7))],
        Aff4Reader.Obeys (sample.referenceDisk .debug64) event :=
  ⟨sample.openReader_eq,
    session_reads_referenceDisk Platform.is64Bit_debug64 conforming_sample
      sample.openReader_eq _⟩

end MapContainer
end Aff4
