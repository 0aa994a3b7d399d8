import Aff4.Reader.Exactness
import Aff4.Reader.Progress

/-!
# Whether the digests cover what is read

Reads find the bytes of the ImageStream by random access through the map, the
digests by a pass over all chunks.  The two agree exactly when what a read can
reach lies inside the content and the chunks before it are full.
-/

namespace Aff4

open Rust Storage

namespace Aff4Reader

/-- Every byte of the ImageStream that is read is covered by the content pass: if
the pass succeeds, the bytes of every read that resolves to the ImageStream are
the bytes of the pass from the same offset on. -/
def ReadsCovered
    (platform : Platform) (crates : Crates) (reader : Aff4Reader) : Prop :=
  let content := (reader.readImageStreamContent platform crates).fed.flatten
  (reader.readImageStreamContent platform crates).result = .ok () →
  ∀ pos : UInt64, pos.toNat < reader.virtualSize.toNat →
  ∀ region, target platform { reader with pos } = .ok region →
    region.kind = .imageStream →
  ∀ buf n,
    (Aff4Reader.read platform crates { reader with pos } buf).result = .ok n →
    region.targetOffset.toNat + n ≤ content.length ∧
      (Aff4Reader.read platform crates { reader with pos } buf).buf.take n =
        (content.drop region.targetOffset.toNat).take n

/-- The longest a read of a chunk can be. -/
def reach (reader : Aff4Reader) (region : ResolvedRegion) (left : Nat)
    (chunk : Bytes) : Nat :=
  min (min left region.bytesInRegion.toNat)
    (chunk.length - (region.targetOffset % reader.chunkSize).toNat)

/-- A region of the ImageStream begins inside the content; if its chunk decodes,
all that a read can reach of it lies inside the content too, and the chunk is at
its place there, since the chunks before it are full, or by chance holds the
same bytes. -/
def RegionCovered
    (platform : Platform) (crates : Crates) (reader : Aff4Reader)
    (region : ResolvedRegion) (left : Nat) : Prop :=
  let content := reader.streamContent platform crates
  let chunkIdx := (region.targetOffset / reader.chunkSize).toNat
  region.targetOffset.toNat ≤ content.length ∧
  ∀ chunk,
    reader.readChunk platform crates
      (region.targetOffset / reader.chunkSize) = .ok chunk →
    region.targetOffset.toNat + reader.reach region left chunk ≤ content.length ∧
    ((joined (reader.decodedChunk platform crates) chunkIdx).length =
        chunkIdx * reader.chunkSize.toNat ∨
      (content.drop region.targetOffset.toNat).take
          (reader.reach region left chunk) =
        (chunk.drop (region.targetOffset % reader.chunkSize).toNat).take
          (reader.reach region left chunk))

variable {platform : Platform} {crates : Crates} {reader : Aff4Reader}

/-- A read from the ImageStream returns exactly when its chunk decodes, with the
rest of the chunk as far as it was asked for. -/
theorem read_imageStream
    (reader : Aff4Reader) (wide : platform.Is64Bit) (chunkSize_ne_zero : reader.chunkSize ≠ 0)
    (below : reader.pos.toNat < reader.virtualSize.toNat)
    {region : ResolvedRegion} (resolved : reader.target platform = .ok region)
    (kind : region.kind = .imageStream) {buf : Bytes} {n : Nat}
    (returns : (reader.read platform crates buf).result = .ok n) :
    buf = [] ∧ n = 0 ∨
      ∃ chunk, reader.readChunk platform crates
          (region.targetOffset / reader.chunkSize) = .ok chunk ∧
        n ≤ reader.reach region
          (reader.virtualSize.toNat - reader.pos.toNat) chunk ∧
        (reader.read platform crates buf).buf.take n =
          (chunk.drop (region.targetOffset % reader.chunkSize).toNat).take n := by
  by_cases asked : buf = []
  · rw [read_of_nothing_asked platform crates (.inl asked)] at returns
    cases returns
    exact .inl ⟨asked, rfl⟩
  · right
    obtain ⟨found, copied, same, target, rfl, -, call⟩ :=
      read_of_returns reader wide asked below returns
    rw [resolved] at same
    cases same
    cases read : reader.readChunk platform crates
        (region.targetOffset / reader.chunkSize) with
    | ok chunk =>
        rw [readTarget_imageStream wide kind chunkSize_ne_zero read _] at target
        cases target
        refine ⟨chunk, rfl, ?_, ?_⟩
        · rw [reach, List.length_take, List.length_drop]
          omega
        · rw [call, List.take_left, List.take_eq_take_iff, List.length_take]
          omega
    | err error =>
        rw [readTarget_of_readChunk_err kind chunkSize_ne_zero read] at target
        cases target
    | panic reason =>
        rw [readTarget_of_readChunk_panic kind chunkSize_ne_zero read _] at target
        cases target

/-- A read that asks for all that is left reaches as far as any read. -/
theorem read_imageStream_longest
    (reader : Aff4Reader) (wide : platform.Is64Bit) (chunkSize_ne_zero : reader.chunkSize ≠ 0)
    (below : reader.pos.toNat < reader.virtualSize.toNat)
    {region : ResolvedRegion} (resolved : reader.target platform = .ok region)
    (kind : region.kind = .imageStream) {chunk : Bytes}
    (read : reader.readChunk platform crates
      (region.targetOffset / reader.chunkSize) = .ok chunk) :
    let left := reader.virtualSize.toNat - reader.pos.toNat
    let call := reader.read platform crates (List.replicate left 0)
    call.result = .ok (reader.reach region left chunk) ∧
      call.buf.take (reader.reach region left chunk) =
        (chunk.drop (region.targetOffset % reader.chunkSize).toNat).take
          (reader.reach region left chunk) := by
  intro left call
  have asked : List.replicate left (0 : UInt8) ≠ [] :=
    List.ne_nil_of_length_pos (by rw [List.length_replicate]; omega)
  have copied := readTarget_imageStream wide kind chunkSize_ne_zero read left
  have returns : call.result = .ok (reader.reach region left chunk) := by
    rw [result_read platform crates asked below, readStep_eq wide below, resolved,
      Outcome.ok_bind, List.length_replicate, Nat.min_self, copied, Outcome.ok_bind]
    simp only [Outcome.pure_eq, Outcome.ok_bind, List.length_take, List.length_drop,
      reach]
  refine ⟨returns, ?_⟩
  rcases read_imageStream reader wide chunkSize_ne_zero below resolved kind returns with
    ⟨empty, _⟩ | ⟨_, same, _, delivered⟩
  · exact absurd empty asked
  · rw [read] at same
    cases same
    exact delivered

/-- A chunk behind full chunks is at its place in the content. -/
theorem drop_streamContent_of_full
    (chunkSize_ne_zero : reader.chunkSize ≠ 0)
    {offset : UInt64} {chunk : Bytes} {n : Nat}
    (read : reader.readChunk platform crates (offset / reader.chunkSize) = .ok chunk)
    (full : (joined (reader.decodedChunk platform crates)
        (offset / reader.chunkSize).toNat).length =
      (offset / reader.chunkSize).toNat * reader.chunkSize.toNat)
    (inContent : offset.toNat + n ≤ (reader.streamContent platform crates).length)
    (inChunk : n ≤ chunk.length - (offset % reader.chunkSize).toNat) :
    ((reader.streamContent platform crates).drop offset.toNat).take n =
      (chunk.drop (offset % reader.chunkSize).toNat).take n := by
  rcases Nat.eq_zero_or_pos n with rfl | positive
  · simp
  · have place := Nat.div_add_mod' offset.toNat reader.chunkSize.toNat
    rw [UInt64.toNat_div] at full
    simp only [UInt64.toNat_mod] at inChunk ⊢
    have contentLength := inContent
    rw [streamContent, List.length_take] at contentLength
    have below := lt_chunkCount_of_lt chunkSize_ne_zero
      (show offset.toNat < _ by omega)
    have decoded : reader.decodedChunk platform crates
        (offset.toNat / reader.chunkSize.toNat) = chunk := by
      apply decodedChunk_of_readChunk
      rw [← UInt64.toNat_div, UInt64.ofNat_toNat, read]
    obtain ⟨rest, split⟩ := block_prefix_drop_joined
      (reader.decodedChunk platform crates) below
    rw [full, decoded] at split
    rw [streamContent, List.drop_take, List.take_take, Nat.min_eq_left (by omega)]
    rw [← place, ← List.drop_drop, ← split, List.drop_append_of_le_length (by omega),
      List.take_append_of_le_length (by rw [List.length_drop]; omega)]
    rw [place]

/-- What is read is covered by the digests if and only if some chunk of the pass
does not decode, or every position over the ImageStream has a covered region. -/
theorem readsCovered_iff
    (wide : platform.Is64Bit) {backing : Bytes}
    (opened : openReader crates backing = .ok reader) :
    reader.ReadsCovered platform crates ↔
      ((∀ index, index < reader.chunkCount → ∃ chunk,
        reader.readChunk platform crates (UInt64.ofNat index) = .ok chunk) →
      ∀ pos : UInt64, pos.toNat < reader.virtualSize.toNat →
      ∀ region, target platform { reader with pos } = .ok region →
        region.kind = .imageStream →
        reader.RegionCovered platform crates region
          (reader.virtualSize.toNat - pos.toNat)) := by
  have nonzero := (openReader_wellFormed opened).1
  rw [← readImageStreamContent_eq_ok wide nonzero]
  refine forall_congr' fun returns => ?_
  rw [readImageStreamContent_fed wide nonzero returns]
  refine forall_congr' fun pos => forall_congr' fun below =>
    forall_congr' fun region => forall_congr' fun resolved =>
    forall_congr' fun kind => ?_
  constructor
  · intro covered
    refine ⟨(covered [] 0 ?_).1, fun chunk read => ?_⟩
    · rw [read_of_nothing_asked platform crates (.inl rfl)]
    · obtain ⟨longest, delivered⟩ := read_imageStream_longest
        { reader with pos } wide nonzero below resolved kind read
      obtain ⟨inside, same⟩ := covered _ _ longest
      exact ⟨inside, .inr (same.symm.trans delivered)⟩
  · rintro ⟨begins, chunkCovered⟩ buf n called
    rcases read_imageStream { reader with pos } wide nonzero below
      resolved kind called with ⟨_, rfl⟩ | ⟨chunk, read, within, delivered⟩
    · exact ⟨begins, by simp⟩
    · change n ≤ reader.reach region (reader.virtualSize.toNat - pos.toNat) chunk
        at within
      obtain ⟨inside, full | same⟩ := chunkCovered chunk read
      · refine ⟨by omega, delivered.trans ?_⟩
        have inChunk : reader.reach region
            (reader.virtualSize.toNat - pos.toNat) chunk ≤
              chunk.length - (region.targetOffset % reader.chunkSize).toNat :=
          Nat.min_le_right _ _
        exact (drop_streamContent_of_full nonzero read full (by omega)
          (by omega)).symm
      · refine ⟨by omega, delivered.trans ?_⟩
        have shorter := congrArg (List.take n) same
        rw [List.take_take, List.take_take, Nat.min_eq_left within] at shorter
        exact shorter.symm

/-! A last chunk that is stored in full where one byte of it is declared: a read
of the chunk serves a second byte that no digest covers. -/

def paddedChunk : MapContainer
    (.opening (Small.archive (Small.mapFile [⟨0, 6, 0, 0⟩])
      (indexEntry 0 2 ++ indexEntry 2 2) [0x41, 0x42, 0x43, 0x44]
      (Small.entries_short (by decide) (by decide) (by decide)))) [] :=
  Small.container _ _ _ _

theorem not_readsCovered_paddedChunk :
    openReader (.opening paddedChunk.archive) [] = .ok paddedChunk.reader ∧
      ¬paddedChunk.reader.ReadsCovered .debug64 (.opening paddedChunk.archive) := by
  refine ⟨paddedChunk.openReader_eq, fun covered => ?_⟩
  have inside := (covered (by decide) 2 (by decide)
    ⟨.imageStream, 2, 4⟩ (by decide +kernel) rfl [0, 0] 2 (by decide +kernel)).1
  revert inside
  decide +kernel

theorem readsCovered_iff_paddedChunk :
    paddedChunk.reader.ReadsCovered .debug64 (.opening paddedChunk.archive) ↔
      ((∀ index, index < paddedChunk.reader.chunkCount → ∃ chunk,
        paddedChunk.reader.readChunk .debug64 (.opening paddedChunk.archive)
          (UInt64.ofNat index) = .ok chunk) →
      ∀ pos : UInt64, pos.toNat < paddedChunk.reader.virtualSize.toNat →
      ∀ region,
        target .debug64 { paddedChunk.reader with pos } = .ok region →
        region.kind = .imageStream →
        paddedChunk.reader.RegionCovered .debug64 (.opening paddedChunk.archive)
          region (paddedChunk.reader.virtualSize.toNat - pos.toNat)) :=
  readsCovered_iff Platform.is64Bit_debug64 paddedChunk.openReader_eq

end Aff4Reader
end Aff4
