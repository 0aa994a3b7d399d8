import Aff4.Layout
import Aff4.Reader.Content
import Aff4.Reader.Open
import Aff4.Reader.Session

/-!
# The ImageStream round trip

A conforming writer chooses for each chunk whether to leave it out, to store it
verbatim or to encode it.  Whatever it chooses, the content pass feeds the
content that was written, and reads from any position deliver it up to its end.
-/

namespace Aff4

open Rust Storage

/-- The decoder a codec's chunks are read with. -/
def Crates.decode (crates : Crates) : Compression → Bytes → Except String Bytes
  | .null, stored => .ok stored
  | .deflate, stored => crates.zlibDecode stored
  | .snappy, stored => crates.snappyDecode stored
  | .lz4, stored => crates.lz4Decode stored

/-- An encoder for the chunks of a size: decoding inverts it on what fits into a
chunk, and it makes something of everything. -/
structure Codec (crates : Crates) (compression : Compression) (chunkSize : Nat) where
  encode : Bytes → Bytes
  decode_encode : ∀ chunk, chunk.length ≤ chunkSize →
    crates.decode compression (encode chunk) = .ok chunk
  encode_ne_nil : ∀ chunk, chunk ≠ [] → encode chunk ≠ []

/-- The ways a conforming writer stores a block of the content.  A last block
that is short may be padded behind its end. -/
inductive StoresChunk
    {crates : Crates} {compression : Compression} {chunkSize : Nat}
    (codec : Codec crates compression chunkSize) (block : Bytes) :
    Bytes → Prop
  | sparse (zeros : ∀ byte ∈ block, byte = 0) : StoresChunk codec block []
  | verbatim {stored : Bytes} (begins : block <+: stored)
      (full : stored.length = chunkSize) : StoresChunk codec block stored
  | encoded {chunk : Bytes} (begins : block <+: chunk)
      (fits : chunk.length ≤ chunkSize)
      (differs : (codec.encode chunk).length ≠ chunkSize) :
      StoresChunk codec block (codec.encode chunk)

namespace Aff4Reader

variable {platform : Platform} {crates : Crates} {reader : Aff4Reader}

/-- What decodes is decompressed. -/
theorem decompress_of_decode
    (wide : platform.Is64Bit)
    (small : reader.chunkSize.toNat < 2 ^ 63)
    {stored chunk : Bytes}
    (decoded : crates.decode reader.compression stored = .ok chunk) :
    reader.decompress platform crates stored = .ok chunk := by
  have allocated : (withCapacity platform (asUsize platform reader.chunkSize) :
      Outcome Aff4Error Unit) = .ok () := by
    rw [asUsize_of_is64Bit wide]
    exact withCapacity_of_le (by rw [wide.isizeMax]; omega)
  unfold decompress
  cases compression : reader.compression
  all_goals
    rw [compression] at decoded
    simp only [Crates.decode, Except.ok.injEq] at decoded
    simp only [allocated, Outcome.ok_bind, decoded, Except.mapError,
      Outcome.ofExcept_ok]

section Stored

variable {count : Nat}
variable
  (stream : StoredStream reader.archive reader.zipBase count
    reader.chunksPerSegment.toNat)

include stream in
/-- Reading the index entry of a stored chunk. -/
theorem readChunk_of_stored
    (wide : platform.Is64Bit)
    (chunksPerSegment_ne_zero : reader.chunksPerSegment ≠ 0)
    {chunkIdx : UInt64} (below : chunkIdx.toNat < count) :
    reader.readChunk platform crates chunkIdx =
      if stream.stored chunkIdx.toNat = [] then
        vecZeroed platform reader.chunkSize.toNat
      else if (stream.stored chunkIdx.toNat).length = reader.chunkSize.toNat then
        .ok (stream.stored chunkIdx.toNat)
      else
        reader.decompress platform crates (stream.stored chunkIdx.toNat) := by
  have perSegment_pos : 0 < reader.chunksPerSegment.toNat := by
    rw [Ne, ← UInt64.toNat_inj] at chunksPerSegment_ne_zero
    exact Nat.pos_of_ne_zero chunksPerSegment_ne_zero
  have segment : chunkIdx / reader.chunksPerSegment =
      UInt64.ofNat (chunkIdx.toNat / reader.chunksPerSegment.toNat) := by
    rw [← UInt64.toNat_div, UInt64.ofNat_toNat]
  have position :=
    Nat.div_mul_le_self chunkIdx.toNat reader.chunksPerSegment.toNat
  have indexFile := stream.indexFile
    (chunkIdx.toNat / reader.chunksPerSegment.toNat) (by omega)
  have bounds := stream.chunkBounds wide perSegment_pos below
    (UInt64.toNat_mod chunkIdx reader.chunksPerSegment)
  simp only [readChunk, divU64_of_ne_zero chunksPerSegment_ne_zero,
    remU64_of_ne_zero chunksPerSegment_ne_zero, Outcome.ok_bind, segment,
    indexFile, Outcome.ofExcept_ok, asUsize_of_is64Bit wide]
  by_cases empty : stream.stored chunkIdx.toNat = []
  · have offsetFits := (stream.offset chunkIdx.toNat).toNat_lt
    have length : (stream.stored chunkIdx.toNat).length = 0 := by
      rw [empty, List.length_nil]
    rw [bounds (by omega), if_pos empty]
    simp only [Outcome.ok_bind, length, Nat.add_zero, if_pos]
  · have nonempty := List.length_pos_of_ne_nil empty
    have bevyFile := stream.bevyFile _ below empty
    have inside := stream.inside _ below empty
    have placed := stream.placed _ below empty
    have memory := ZipArchive.length_lt_of_readEntry_eq_ok bevyFile
    rw [bounds (by omega), if_neg empty, Outcome.ok_bind]
    simp only [bevyFile, Outcome.ofExcept_ok, Outcome.ok_bind]
    rw [if_neg (by omega), if_neg (by omega),
      slice_of_le (by omega) inside, drop_take_add, placed]
    rfl

include stream in
/-- A reader over a stream that a conforming writer stored holds the content. -/
theorem holdsStream_of_stored
    (wide : platform.Is64Bit)
    (chunkSize_ne_zero : reader.chunkSize ≠ 0)
    (chunksPerSegment_ne_zero : reader.chunksPerSegment ≠ 0)
    (small : reader.chunkSize.toNat < 2 ^ 63)
    {content : Bytes}
    (covers : ∀ index, index * reader.chunkSize.toNat < content.length →
      index < count)
    (codec : Codec crates reader.compression reader.chunkSize.toNat)
    (stores : ∀ index, index * reader.chunkSize.toNat < content.length →
      StoresChunk codec
        (cut reader.chunkSize.toNat content index) (stream.stored index)) :
    reader.HoldsStream platform crates content where
  chunkSize_ne_zero := chunkSize_ne_zero
  readChunk := by
    intro chunkIdx inside
    have positive := chunkSize_pos chunkSize_ne_zero
    have blockLength := length_cut reader.chunkSize.toNat content
      chunkIdx.toNat
    rw [readChunk_of_stored stream wide chunksPerSegment_ne_zero
      (covers _ inside)]
    generalize stored_eq : stream.stored chunkIdx.toNat = stored
    have stores := stores _ inside
    rw [stored_eq] at stores
    cases stores with
    | sparse zeros =>
        refine ⟨List.replicate reader.chunkSize.toNat 0, ?_, ?_, by simp⟩
        · rw [if_pos rfl]
          exact vecZeroed_of_le (by rw [wide.isizeMax]; omega)
        · rw [List.eq_replicate_iff.mpr ⟨rfl, zeros⟩, blockLength]
          refine ⟨List.replicate (reader.chunkSize.toNat -
            min reader.chunkSize.toNat (content.length -
              chunkIdx.toNat * reader.chunkSize.toNat)) 0, ?_⟩
          rw [List.replicate_append_replicate]
          congr 1
          omega
    | verbatim begins full =>
        have nonempty := begins.length_le
        refine ⟨stored, ?_, begins, by omega⟩
        rw [if_neg (List.ne_nil_of_length_pos (by omega)), if_pos full]
    | encoded begins fits differs =>
        next chunk =>
        have nonempty := begins.length_le
        refine ⟨chunk, ?_, begins, fits⟩
        rw [if_neg (codec.encode_ne_nil chunk
            (List.ne_nil_of_length_pos (by omega))), if_neg differs]
        exact decompress_of_decode wide small (codec.decode_encode chunk fits)

end Stored

/-! ## Reading a stream that is held -/

section Held

variable {content : Bytes}
variable (holds : reader.HoldsStream platform crates content)
variable (size : reader.imageStreamSize.toNat = content.length)

include holds size in
theorem HoldsStream.decodedChunk {index : Nat} (below : index < reader.chunkCount) :
    cut reader.chunkSize.toNat content index <+:
        reader.decodedChunk platform crates index ∧
      (reader.decodedChunk platform crates index).length ≤
        reader.chunkSize.toNat ∧
      reader.readChunk platform crates (UInt64.ofNat index) =
        .ok (reader.decodedChunk platform crates index) := by
  have narrow := toNat_ofNat_of_lt (chunkCount_lt holds.chunkSize_ne_zero below)
  have inside := (lt_chunkCount_iff holds.chunkSize_ne_zero index).mp below
  obtain ⟨chunk, read, begins, short⟩ :=
    holds.readChunk (UInt64.ofNat index) (by rw [narrow]; omega)
  rw [narrow] at begins
  have decoded := decodedChunk_of_readChunk read
  rw [decoded]
  exact ⟨begins, short, read⟩

include holds size in
/-- The first chunks of a held stream, cut at the declared size, are the
beginning of the content. -/
theorem HoldsStream.take_joined {count : Nat} (le : count ≤ reader.chunkCount) :
    (joined (reader.decodedChunk platform crates) count).take
        reader.imageStreamSize.toNat =
      content.take (count * reader.chunkSize.toNat) := by
  induction count with
  | zero => simp
  | succ count inductionHypothesis =>
      have uniform : (joined (reader.decodedChunk platform crates) count).length =
          count * reader.chunkSize.toNat := by
        refine length_joined fun index earlier => ?_
        obtain ⟨begins, short, -⟩ := holds.decodedChunk size
          (show index < reader.chunkCount by omega)
        have long := begins.length_le
        rw [length_cut] at long
        have next := (lt_chunkCount_iff
          holds.chunkSize_ne_zero (index + 1)).mp (by omega)
        rw [Nat.succ_mul] at next
        omega
      obtain ⟨begins, short, -⟩ := holds.decodedChunk size
        (show count < reader.chunkCount by omega)
      rw [take_joined_succ, inductionHypothesis (by omega), uniform, Nat.succ_mul,
        List.take_add, size, take_of_cut_prefix begins short, cut]

include holds size in
/-- The content pass over a held stream feeds exactly the content. -/
theorem HoldsStream.readImageStreamContent (wide : platform.Is64Bit) :
    (reader.readImageStreamContent platform crates).result = .ok () ∧
      (reader.readImageStreamContent platform crates).fed.flatten = content := by
  have nonzero := holds.chunkSize_ne_zero
  have collected := Outcome.collect_eq_ok
    (fun index => reader.readChunk platform crates (UInt64.ofNat index))
    (reader.decodedChunk platform crates) 0 reader.chunkCount
    fun index below => by
      rw [Nat.zero_add]
      exact (holds.decodedChunk size below).2.2
  have returns : (reader.readImageStreamContent platform crates).result = .ok () := by
    rw [readImageStreamContent_result wide nonzero, collected, Outcome.ok_bind]
  refine ⟨returns, ?_⟩
  rw [readImageStreamContent_fed wide nonzero returns, streamContent,
    holds.take_joined size le_rfl, List.take_of_length_le]
  have covered := (lt_chunkCount_iff nonzero reader.chunkCount).not.mp
    (lt_irrefl _)
  omega

include holds in
/-- A direct reader over a held stream presents the content as its disk. -/
theorem HoldsStream.presents
    (direct : reader.loadedMap = none)
    (virtualSize : reader.virtualSize.toNat = content.length) :
    reader.Presents platform crates content (Disk.ofList content) where
  size := virtualSize
  holds := holds
  target := by
    intro pos below
    have bound := reader.virtualSize.toNat_lt
    have limit : (UInt64.ofNat (2 ^ 64 - 1)).toNat = 2 ^ 64 - 1 := by decide
    rw [Disk.size_ofList] at below
    refine ⟨_, by rw [target, direct], by rw [limit]; omega,
      fun distance _ inside => ?_, fun _ distance _ inside => ?_,
      fun _ distance _ inside => inside⟩
    · rfl
    · rw [Disk.size_ofList] at inside
      change pos.toNat + distance < 2 ^ 64
      omega

end Held
end Aff4Reader

/-- What a conforming writer stored as a direct image is what is read back: the
content pass feeds it, and reading on from any position into any buffers
delivers it from there up to its end. -/
theorem DirectContainer.storedContent_roundTrip
    {platform : Platform} {crates : Crates} {backing : Bytes}
    (wide : platform.Is64Bit)
    (container : DirectContainer crates backing)
    {content : Bytes} {base : Text}
    (size : container.metadata.imageStreamSize.toNat = content.length)
    (contentSmall : content.length < 2 ^ 63)
    (chunkSmall : container.metadata.chunkSize.toNat < 2 ^ 32)
    (spelling : base ∈ baseSpellings container.metadata.streamArn)
    (noRivals : NoRivals container.archive container.metadata.streamArn base)
    (codec : Codec crates container.metadata.compression
      container.metadata.chunkSize.toNat)
    (stream : StoredStream container.archive base container.reader.chunkCount
      container.metadata.chunksPerSegment.toNat)
    (stores : ∀ index, index < container.reader.chunkCount →
      StoresChunk codec
        (cut container.metadata.chunkSize.toNat content index)
        (stream.stored index))
    {reader : Aff4Reader}
    (opened : openReader crates backing = .ok reader) :
    (reader.readImageStreamContent platform crates).result = .ok () ∧
    (reader.readImageStreamContent platform crates).fed.flatten = content ∧
    ∀ position : UInt64, position.toNat < content.length →
      ∀ bufs : List Bytes, (∀ buf ∈ bufs, buf ≠ []) →
        ∃ count,
          (reader.seek platform (.start position)).2.readAll platform crates bufs =
            .ok ((content.drop position.toNat).take count) ∧
          min bufs.length (content.length - position.toNat) ≤ count := by
  rw [container.openReader_eq] at opened
  cases opened
  obtain ⟨chunkSize_ne_zero, chunksPerSegment_ne_zero, direct⟩ :=
    parseTurtle_wellFormed container.metadata_eq
  have covers (index : Nat)
      (inside : index * container.metadata.chunkSize.toNat < content.length) :
      index < container.reader.chunkCount :=
    (Aff4Reader.lt_chunkCount_iff chunkSize_ne_zero index).mpr (size ▸ inside)
  have holds : container.reader.HoldsStream platform crates content := by
    by_cases nonempty : 0 < container.reader.chunkCount
    · have detected : container.reader.zipBase = base :=
        stream.detectZipBase_eq nonempty spelling noRivals
      subst detected
      exact @Aff4Reader.holdsStream_of_stored platform crates container.reader _ stream
        wide chunkSize_ne_zero chunksPerSegment_ne_zero
        (lt_of_lt_of_le chunkSmall (by decide)) content covers codec
        fun index inside => stores index (covers index inside)
    · exact ⟨chunkSize_ne_zero, fun chunkIdx inside =>
        absurd (Nat.zero_lt_of_lt (covers _ inside)) nonempty⟩
  obtain ⟨returns, fed⟩ := holds.readImageStreamContent size wide
  refine ⟨returns, fed, fun position below bufs asked => ?_⟩
  have presents := holds.presents rfl
    ((congrArg UInt64.toNat (direct container.direct)).trans size)
  rw [Aff4Reader.seek_start, if_pos (by omega)]
  obtain ⟨bytes, readAll, reads⟩ := (presents.withPos position).readAll wide asked
  have inside : bytes.length ≤ content.length - position.toNat := reads.inside
  have progress := reads.progress fun request member => by
    obtain ⟨buf, inBufs, rfl⟩ := List.mem_map.mp member
    exact List.length_pos_of_ne_nil (asked buf inBufs)
  rw [List.length_map, Disk.size_ofList] at progress
  refine ⟨bytes.length, ?_, progress⟩
  rw [readAll, reads.exact, Disk.length_extent, Disk.extent_ofList (by
    change position.toNat + bytes.length ≤ content.length
    omega)]

/-! A stored stream of five bytes in chunks of two: a verbatim chunk, a chunk of
zeros that is left out, and a last chunk that holds just the remainder. -/

namespace StoredSample

def turtle : Text :=
  "<aff4://i> a aff4:ImageStream ; aff4:chunkSize 2 ; ".toList ++
    "aff4:chunksInSegment 2 ; aff4:size 5 . ".toList

def metadata : StreamMeta where
  streamArn := "aff4://i".toList
  virtualSize := 5
  imageStreamSize := 5
  chunkSize := 2
  chunksPerSegment := 2
  compression := .null
  imageHashes := []
  mapMeta := none

def content : Bytes := [0x41, 0x42, 0, 0, 0x43]

def entries : List (Text × Bytes) :=
  [("information.turtle".toList, Str.asBytes turtle),
    ("aff4://i/00000000.index".toList, indexEntry 1 2 ++ indexEntry 0 0),
    ("aff4://i/00000000".toList, [0xFF, 0x41, 0x42]),
    ("aff4://i/00000001.index".toList, indexEntry 0 1),
    ("aff4://i/00000001".toList, [0x43])]

def archive : ZipArchive :=
  .ofEntries entries (by decide +kernel)

def container : DirectContainer (.opening archive) [] where
  archive := archive
  turtle := turtle
  metadata := metadata
  archive_eq := rfl
  turtle_eq := ZipArchive.readEntryToString_of_asBytes turtle
    (ZipArchive.readEntry_ofEntries rfl)
  metadata_eq := by decide +kernel
  direct := rfl

def codec : Codec (.opening archive) .null 2 where
  encode := id
  decode_encode := fun _ _ => rfl
  encode_ne_nil := fun _ nonempty => nonempty

def stream : StoredStream archive "aff4://i".toList 3 2 where
  stored := fun index => [[0x41, 0x42], [], [0x43]].getD index []
  offset := fun index => [1, 0, 0].getD index 0
  bevy := fun segment => [[0xFF, 0x41, 0x42], [0x43]].getD segment []
  short := by
    intro index below
    match index, below with
    | 0, _ => decide
    | 1, _ => decide
    | 2, _ => decide
  indexFile := by
    intro segment inside
    have below : segment * 2 < 2 * 2 := inside.trans (Nat.lt_succ_self 3)
    match segment, Nat.lt_of_mul_lt_mul_right below with
    | 0, _ => exact ZipArchive.readEntry_ofEntries rfl
    | 1, _ => exact ZipArchive.readEntry_ofEntries rfl
  bevyFile := by
    intro index below nonempty
    match index, below with
    | 0, _ => exact ZipArchive.readEntry_ofEntries rfl
    | 1, _ => exact absurd rfl nonempty
    | 2, _ => exact ZipArchive.readEntry_ofEntries rfl
  inside := by
    intro index below nonempty
    match index, below with
    | 0, _ => decide
    | 1, _ => exact absurd rfl nonempty
    | 2, _ => decide
  placed := by
    intro index below nonempty
    match index, below with
    | 0, _ => rfl
    | 1, _ => exact absurd rfl nonempty
    | 2, _ => rfl

theorem stores (index : Nat) (below : index < 3) :
    StoresChunk codec (cut 2 content index) (stream.stored index) := by
  match index, below with
  | 0, _ => exact .verbatim (List.prefix_rfl) rfl
  | 1, _ => exact .sparse (by decide +kernel)
  | 2, _ =>
      exact .encoded (show _ <+: [0x43] from List.prefix_rfl) (by decide)
        (by decide)

theorem noRivals : NoRivals archive "aff4://i".toList "aff4://i".toList := by
  intro name member
  have names : archive.fileNames =
      ["information.turtle".toList, indexName "aff4://i".toList 0,
        segmentName "aff4://i".toList 0, indexName "aff4://i".toList 1,
        segmentName "aff4://i".toList 1] := by decide
  simp only [names, List.mem_cons, List.not_mem_nil, or_false] at member
  rcases member with rfl | rfl | rfl | rfl | rfl
  · exact .inr (by decide)
  · exact .inl ⟨0, .inr rfl⟩
  · exact .inl ⟨0, .inl rfl⟩
  · exact .inl ⟨1, .inr rfl⟩
  · exact .inl ⟨1, .inl rfl⟩

theorem storedContent_roundTrip_sample :
    (container.reader.readImageStreamContent .debug64 (.opening archive)).result =
      .ok () ∧
    (container.reader.readImageStreamContent .debug64
      (.opening archive)).fed.flatten = content ∧
    ∀ position : UInt64, position.toNat < content.length →
      ∀ bufs : List Bytes, (∀ buf ∈ bufs, buf ≠ []) →
        ∃ count,
          (container.reader.seek .debug64 (.start position)).2.readAll .debug64
            (.opening archive) bufs =
            .ok ((content.drop position.toNat).take count) ∧
          min bufs.length (content.length - position.toNat) ≤ count :=
  container.storedContent_roundTrip Platform.is64Bit_debug64 (by decide)
    (by decide) (by decide) (by decide) noRivals codec stream stores
    container.openReader_eq

end StoredSample

end Aff4
