import Aff4.Reader
import Aff4.Storage.Blocks
import Aff4.Storage.Disk

/-!
# What a read serves

A reader presents a flat disk when every position below its size resolves to a
region that agrees with the disk.  One read of such a reader delivers bytes of
the disk and moves the cursor behind them.
-/

namespace Aff4

open Rust Storage

/-- A seed that is repeated, and starts again at every 1 MiB. -/
def tiled (seed : Bytes) (position : Nat) : UInt8 :=
  seed.getD (position % 1048576 % seed.length) 0

/-- The byte that stands at a position of a target, given the content of the
ImageStream.  The two seeds are `UNKNOWN` and `UNREADABLEDATA`. -/
def TargetKind.byteAt (content : Bytes) : TargetKind → Nat → UInt8
  | .imageStream, position => content.getD position 0
  | .fill byte, _ => byte
  | .tile .unknown, position =>
      tiled [0x55, 0x4E, 0x4B, 0x4E, 0x4F, 0x57, 0x4E] position
  | .tile .unreadable, position =>
      tiled [0x55, 0x4E, 0x52, 0x45, 0x41, 0x44, 0x41, 0x42, 0x4C, 0x45, 0x44, 0x41,
        0x54, 0x41] position
  | .unknown, _ => 0

/-- A tile of the reader is its seed repeated. -/
theorem Tile.byteAt_eq_tiled (pattern : Tile) (position : Nat) :
    pattern.byteAt position = tiled pattern.seed position :=
  (List.getD_eq_getElem _ _ (Nat.mod_lt _ pattern.seed_length_pos)).symm

/-- The tiles of the reader are the documented ones. -/
@[simp] theorem TargetKind.byteAt_tile
    (content : Bytes) (pattern : Tile) (position : Nat) :
    (TargetKind.tile pattern).byteAt content position = pattern.byteAt position := by
  rw [pattern.byteAt_eq_tiled]
  cases pattern with
  | unknown => exact congrArg (tiled · position) (by decide)
  | unreadable => exact congrArg (tiled · position) (by decide)

/-- Sums of 64 bits that wrap do not disturb a tile, which starts again at every
1 MiB. -/
theorem Tile.byteAt_mod (pattern : Tile) (position : Nat) :
    pattern.byteAt (position % 2 ^ 64) = pattern.byteAt position := by
  have seam : position % 2 ^ 64 % 1048576 = position % 1048576 :=
    Nat.mod_mod_of_dvd position (by decide)
  rw [Tile.byteAt_eq_tiled, Tile.byteAt_eq_tiled, tiled, tiled, seam]

/-- A region agrees with a disk from a position on, as far as both reach, and no
position in its target overflows where the build would stop at that. -/
structure ResolvedRegion.Describes
    (platform : Platform) (region : ResolvedRegion) (content : Bytes)
    (disk : Disk UInt8) (position : Nat) : Prop where
  nonempty : 0 < region.bytesInRegion.toNat
  byteAt : ∀ distance, distance < region.bytesInRegion.toNat →
    position + distance < disk.size →
    disk.byteAt (position + distance) =
      region.kind.byteAt content (region.targetOffset.toNat + distance)
  fits : platform.overflowChecks = true →
    ∀ distance, distance < region.bytesInRegion.toNat →
      position + distance < disk.size →
      region.targetOffset.toNat + distance < 2 ^ 64
  inStream : region.kind = .imageStream →
    ∀ distance, distance < region.bytesInRegion.toNat →
      position + distance < disk.size →
      region.targetOffset.toNat + distance < content.length

/-- Bytes that a described region's target produces are delivered from the
disk. -/
theorem ResolvedRegion.Describes.delivers
    {platform : Platform} {region : ResolvedRegion} {content : Bytes}
    {disk : Disk UInt8} {position toRead : Nat} {bytes : Bytes}
    (describes : region.Describes platform content disk position)
    (left : toRead ≤ disk.size - position)
    (asked : bytes.length ≤ toRead)
    (inRegion : bytes.length ≤ region.bytesInRegion.toNat)
    (nonempty : 0 < bytes.length)
    (produced : ∀ index (inside : index < bytes.length),
      bytes[index] =
        region.kind.byteAt content (region.targetOffset.toNat + index)) :
    disk.Delivers position toRead bytes where
  exact := Disk.eq_extent_of_getElem fun index inside => by
    rw [produced index inside, describes.byteAt index (by omega) (by omega)]
  fits := asked
  inside := by omega
  progress := fun _ _ => nonempty

namespace Aff4Reader

variable {platform : Platform} {crates : Crates} {reader : Aff4Reader}
variable {content : Bytes} {disk : Disk UInt8}

/-- The chunks of a reader decode to a content: each one to its block of the
content, perhaps with padding behind a short last block. -/
structure HoldsStream
    (platform : Platform) (crates : Crates) (reader : Aff4Reader)
    (content : Bytes) : Prop where
  chunkSize_ne_zero : reader.chunkSize ≠ 0
  readChunk : ∀ chunkIdx : UInt64,
    chunkIdx.toNat * reader.chunkSize.toNat < content.length →
    ∃ chunk, reader.readChunk platform crates chunkIdx = .ok chunk ∧
      cut reader.chunkSize.toNat content chunkIdx.toNat <+: chunk ∧
      chunk.length ≤ reader.chunkSize.toNat

/-- Every position of a disk resolves to a region that describes the disk. -/
structure Presents
    (platform : Platform) (crates : Crates) (reader : Aff4Reader)
    (content : Bytes) (disk : Disk UInt8) : Prop where
  size : reader.virtualSize.toNat = disk.size
  holds : reader.HoldsStream platform crates content
  target : ∀ pos : UInt64, pos.toNat < disk.size →
    ∃ region, target platform { reader with pos } = .ok region ∧
      region.Describes platform content disk pos.toNat

/-- The cursor is no part of what a reader presents. -/
theorem Presents.withPos
    (presents : reader.Presents platform crates content disk) (pos : UInt64) :
    Presents platform crates { reader with pos } content disk :=
  ⟨presents.size,
    ⟨presents.holds.chunkSize_ne_zero, presents.holds.readChunk⟩,
    presents.target⟩

/-- The place of a stream position inside its chunk. -/
theorem HoldsStream.chunkAt
    (holds : reader.HoldsStream platform crates content)
    {offset : UInt64} (inside : offset.toNat < content.length) :
    ∃ chunk,
      reader.readChunk platform crates (offset / reader.chunkSize) = .ok chunk ∧
      (offset % reader.chunkSize).toNat < chunk.length ∧
      ∀ distance,
        (offset % reader.chunkSize).toNat + distance < chunk.length →
        offset.toNat + distance < content.length →
        chunk[(offset % reader.chunkSize).toNat + distance]? =
          content[offset.toNat + distance]? := by
  have positive : 0 < reader.chunkSize.toNat := by
    have nonzero := holds.chunkSize_ne_zero
    rw [Ne, ← UInt64.toNat_inj] at nonzero
    exact Nat.pos_of_ne_zero nonzero
  have position := Nat.div_add_mod' offset.toNat reader.chunkSize.toNat
  have below := Nat.mod_lt offset.toNat positive
  obtain ⟨chunk, read, ⟨padding, split⟩, short⟩ :=
    holds.readChunk (offset / reader.chunkSize) (by
      rw [UInt64.toNat_div]
      omega)
  rw [UInt64.toNat_div] at split
  simp only [UInt64.toNat_mod]
  have blockLength := length_cut reader.chunkSize.toNat content
    (offset.toNat / reader.chunkSize.toNat)
  have chunkLength := congrArg List.length split
  rw [List.length_append] at chunkLength
  refine ⟨chunk, read, by omega, fun distance inChunk inContent => ?_⟩
  rw [← split, List.getElem?_append_left (by omega), cut,
    List.getElem?_take_of_lt (by omega), List.getElem?_drop]
  congr 1
  omega

/-! ## One read, by the kind of its target -/

theorem readTarget_unknown
    (wide : platform.Is64Bit) {region : ResolvedRegion} {toRead : Nat}
    (kind : region.kind = .unknown) :
    reader.readTarget platform crates region toRead =
      .ok (List.replicate (min toRead region.bytesInRegion.toNat) 0) := by
  rw [readTarget, kind, asUsize_of_is64Bit wide]

theorem readTarget_fill
    (wide : platform.Is64Bit) {region : ResolvedRegion} {toRead : Nat}
    {byte : UInt8} (kind : region.kind = .fill byte) :
    reader.readTarget platform crates region toRead =
      .ok (List.replicate (min toRead region.bytesInRegion.toNat) byte) := by
  rw [readTarget, kind, asUsize_of_is64Bit wide]

/-- A tile is read in full when no position in it overflows, or where the build
does not check that. -/
theorem readTarget_tile
    (wide : platform.Is64Bit) {region : ResolvedRegion} {toRead : Nat}
    {pattern : Tile} (kind : region.kind = .tile pattern)
    (fits : platform.overflowChecks = true →
      ∀ index, index < min toRead region.bytesInRegion.toNat →
        region.targetOffset.toNat + index < 2 ^ 64) :
    reader.readTarget platform crates region toRead =
      .ok ((List.range' 0 (min toRead region.bytesInRegion.toNat)).map
        fun index => pattern.byteAt (region.targetOffset.toNat + index)) := by
  rw [readTarget, kind, asUsize_of_is64Bit wide]
  refine Outcome.collect_eq_ok _
    (fun index => pattern.byteAt (region.targetOffset.toNat + index)) 0 _ ?_
  intro index inside
  have regionLt := region.bytesInRegion.toNat_lt
  have narrow := toNat_ofNat_of_lt (n := index) (by omega)
  have exact : (addU64 platform region.targetOffset (UInt64.ofNat index) :
      Outcome IoError UInt64) = .ok (region.targetOffset + UInt64.ofNat index) := by
    rw [addU64, if_neg]
    rintro ⟨checked, overflows⟩
    have inRange := fits checked index inside
    omega
  rw [Nat.zero_add, exact, Outcome.ok_bind, Outcome.pure_eq, UInt64.toNat_add, narrow,
    pattern.byteAt_mod]

/-- The ImageStream is read from the rest of one chunk, on every platform. -/
theorem readTarget_of_readChunk_ok
    {region : ResolvedRegion} (kind : region.kind = .imageStream)
    (chunkSize_ne_zero : reader.chunkSize ≠ 0)
    {chunk : Bytes}
    (read : reader.readChunk platform crates
      (region.targetOffset / reader.chunkSize) = .ok chunk)
    (toRead : Nat) :
    reader.readTarget platform crates region toRead =
      .ok ((chunk.drop
          (asUsize platform (region.targetOffset % reader.chunkSize))).take
        (min toRead (asUsize platform region.bytesInRegion))) := by
  rw [readTarget, kind]
  simp only [divU64_of_ne_zero chunkSize_ne_zero,
    remU64_of_ne_zero chunkSize_ne_zero, read, Outcome.ok_bind,
    Outcome.mapErr_ok]
  split
  next empty =>
    rw [Outcome.pure_eq, List.take_eq_nil_iff.mpr]
    rw [List.drop_eq_nil_iff]
    omega
  next positive =>
    rw [slice_of_le (by omega) (by omega), drop_take_add, Outcome.ok.injEq,
      List.take_eq_take_iff, List.length_drop]
    omega

theorem readTarget_imageStream
    (wide : platform.Is64Bit) {region : ResolvedRegion}
    (kind : region.kind = .imageStream)
    (chunkSize_ne_zero : reader.chunkSize ≠ 0)
    {chunk : Bytes}
    (read : reader.readChunk platform crates
      (region.targetOffset / reader.chunkSize) = .ok chunk)
    (toRead : Nat) :
    reader.readTarget platform crates region toRead =
      .ok ((chunk.drop (region.targetOffset % reader.chunkSize).toNat).take
        (min toRead region.bytesInRegion.toNat)) := by
  rw [readTarget_of_readChunk_ok kind chunkSize_ne_zero read, asUsize_of_is64Bit wide,
    asUsize_of_is64Bit wide]

/-- A region that describes the disk is read as the disk. -/
theorem readTarget_delivers
    (wide : platform.Is64Bit)
    (holds : reader.HoldsStream platform crates content)
    {region : ResolvedRegion} {position : Nat} (toRead : Nat)
    (describes : region.Describes platform content disk position)
    (asked : 0 < toRead)
    (left : toRead ≤ disk.size - position) :
    ∃ bytes, reader.readTarget platform crates region toRead = .ok bytes ∧
      disk.Delivers position toRead bytes ∧ 0 < bytes.length := by
  have someInRegion := describes.nonempty
  cases kind : region.kind with
  | unknown =>
      refine ⟨_, readTarget_unknown wide kind,
        describes.delivers left (by simp) (by simp) ?_ ?_, ?_⟩
      · rw [List.length_replicate]
        omega
      · intro index inside
        rw [List.getElem_replicate, kind, TargetKind.byteAt]
      · rw [List.length_replicate]
        omega
  | fill byte =>
      refine ⟨_, readTarget_fill wide kind,
        describes.delivers left (by simp) (by simp) ?_ ?_, ?_⟩
      · rw [List.length_replicate]
        omega
      · intro index inside
        rw [List.getElem_replicate, kind, TargetKind.byteAt]
      · rw [List.length_replicate]
        omega
  | tile pattern =>
      refine ⟨_, readTarget_tile wide kind ?_,
        describes.delivers left (by simp) (by simp) ?_ ?_, ?_⟩
      · exact fun checked index inside =>
          describes.fits checked index (by omega) (by omega)
      · rw [List.length_map, List.length_range']
        omega
      · intro index inside
        simp [kind]
      · rw [List.length_map, List.length_range']
        omega
  | imageStream =>
      have inContent := describes.inStream kind
      obtain ⟨chunk, read, inChunk, agrees⟩ :=
        holds.chunkAt (inContent 0 (by omega) (by omega))
      refine ⟨_, readTarget_imageStream wide kind holds.chunkSize_ne_zero read _,
        describes.delivers left ?_ ?_ ?_ ?_, ?_⟩
      · rw [List.length_take]
        omega
      · rw [List.length_take]
        omega
      · rw [List.length_take, List.length_drop]
        omega
      · intro index inside
        rw [List.length_take, List.length_drop] at inside
        have inContent := inContent index (by omega) (by omega)
        rw [kind, TargetKind.byteAt, List.getElem_take, List.getElem_drop,
          List.getD_eq_getElem _ _ inContent]
        obtain ⟨_, equal⟩ := List.getElem_of_getElem?
          ((agrees index (by omega) inContent).trans
            (List.getElem?_eq_getElem inContent))
        exact equal
      · rw [List.length_take, List.length_drop]
        omega

/-! ## Calls -/

/-- A seek from the start is refused where the position is a negative `i64`. -/
theorem seek_start (position : UInt64) :
    reader.seek platform (.start position) =
      if position.toNat < 2 ^ 63 then
        (.ok position, { reader with pos := position })
      else
        (.err
          { kind := .invalidInput, message := "seek before start of stream" },
          reader) := by
  have bound := position.toNat_lt
  have negative : position.toInt64 < 0 ↔ ¬position.toNat < 2 ^ 63 := by
    rw [Int64.lt_iff_toInt_lt, Int64.toInt_zero, toInt_toInt64]
    split <;> omega
  simp only [seek, seekTarget, negative, UInt64.toUInt64_toInt64]
  by_cases small : position.toNat < 2 ^ 63
  · rw [if_neg (not_not.mpr small), if_pos small]
  · rw [if_pos small, if_neg small]

/-- A read at or past the end of the disk, or into an empty buffer, does
nothing. -/
theorem read_of_nothing_asked
    (platform : Platform) (crates : Crates) {buf : Bytes} (nothing : buf = [] ∨ reader.virtualSize ≤ reader.pos) :
    reader.read platform crates buf = { result := .ok 0, reader, buf } :=
  if_pos nothing

/-- A read below the end is decided by its step. -/
theorem read_of_readStep
    {buf : Bytes} (asked : buf ≠ []) (below : reader.pos < reader.virtualSize)
    {bytes : Bytes} {pos : UInt64}
    (step : reader.readStep platform crates buf.length = .ok (bytes, pos)) :
    reader.read platform crates buf =
      { result := .ok bytes.length
        reader := { reader with pos }
        buf := bytes ++ buf.drop bytes.length } := by
  rw [read, if_neg (by
    rintro (empty | past)
    · exact asked empty
    · exact absurd below (UInt64.not_lt.mpr past)), step]

/-- The step of a read below the end of the disk, by what its target holds. -/
theorem readStep_of_target
    (wide : platform.Is64Bit) {bufLen : Nat}
    (below : reader.pos.toNat < reader.virtualSize.toNat)
    {region : ResolvedRegion} {bytes : Bytes}
    (resolved : reader.target platform = .ok region)
    (copied : reader.readTarget platform crates region
      (min bufLen (reader.virtualSize.toNat - reader.pos.toNat)) = .ok bytes)
    (inside : bytes.length ≤ reader.virtualSize.toNat - reader.pos.toNat) :
    reader.readStep platform crates bufLen =
      .ok (bytes, reader.pos + UInt64.ofNat bytes.length) := by
  have ordered : reader.pos ≤ reader.virtualSize := UInt64.le_iff_toNat_le.mpr below.le
  have bound := reader.virtualSize.toNat_lt
  have narrow := toNat_ofNat_of_lt (n := bytes.length) (by omega)
  rw [readStep, subU64_of_le ordered, Outcome.ok_bind, asUsize_of_is64Bit wide,
    UInt64.toNat_sub_of_le _ _ ordered]
  simp only [resolved, copied, Outcome.ok_bind]
  rw [addU64_of_lt (by omega)]
  rfl

/-- A read of a reader that presents a disk delivers bytes of the disk and leaves
the cursor behind them. -/
theorem Presents.read
    (presents : reader.Presents platform crates content disk)
    (wide : platform.Is64Bit) {buf : Bytes}
    (asked : buf ≠ []) (below : reader.pos.toNat < disk.size) :
    ∃ bytes, disk.Delivers reader.pos.toNat buf.length bytes ∧
      0 < bytes.length ∧
      (reader.pos + UInt64.ofNat bytes.length).toNat =
        reader.pos.toNat + bytes.length ∧
      reader.read platform crates buf =
        { result := .ok bytes.length
          reader := { reader with pos := reader.pos + UInt64.ofNat bytes.length }
          buf := bytes ++ buf.drop bytes.length } := by
  obtain ⟨region, resolved, describes⟩ := presents.target reader.pos below
  have askedLength := List.length_pos_of_ne_nil asked
  have size := presents.size
  have bound := reader.virtualSize.toNat_lt
  obtain ⟨bytes, copied, delivered, nonempty⟩ :=
    readTarget_delivers wide presents.holds
      (min buf.length (reader.virtualSize.toNat - reader.pos.toNat)) describes
      (by omega) (by omega)
  have inside := delivered.inside
  have fits := delivered.fits
  have narrow := toNat_ofNat_of_lt (n := bytes.length) (by omega)
  have moved := toNat_add_of_lt (a := reader.pos)
    (b := UInt64.ofNat bytes.length) (by omega)
  have step : reader.readStep platform crates buf.length =
      .ok (bytes, reader.pos + UInt64.ofNat bytes.length) :=
    readStep_of_target wide (by omega) resolved copied (by omega)
  refine ⟨bytes, ⟨delivered.exact, by omega, inside, fun _ _ => nonempty⟩,
    nonempty, by omega, ?_⟩
  exact read_of_readStep asked (UInt64.lt_iff_toNat_lt.mpr (by omega)) step

end Aff4Reader
end Aff4
