import Aff4.Bevy
import Aff4.Map
import Aff4.Meta

/-!
# The disk image reader

`Aff4Reader` is a cursor over the virtual disk of an AFF4 image: a direct
`aff4:ImageStream`, or an `aff4:Map` over one.  Reading an archive entry does
not depend on earlier reads, so only the cursor changes while a reader is used.
-/

namespace Aff4

open Rust

/-- A read-only AFF4 disk image reader. -/
structure Aff4Reader where
  archive : ZipArchive
  /-- ZIP entry prefix of the ImageStream's bevies. -/
  zipBase : Text
  virtualSize : UInt64
  /-- Decompressed length of the ImageStream content. -/
  imageStreamSize : UInt64
  chunkSize : UInt64
  chunksPerSegment : UInt64
  compression : Compression
  /-- Content digests declared on the ImageStream node. -/
  imageHashes : List StoredHash
  pos : UInt64
  /-- The map of a Map-backed image; `none` for a direct ImageStream. -/
  loadedMap : Option LoadedMap

/-! ## Opening -/

/-- Load the `/map` and `/idx` entries of a Map. -/
def loadMap
    (crates : Crates) (archive : ZipArchive) (mapMeta : MapMeta) :
    Except Aff4Error LoadedMap := do
  let mapZipBase := detectZipBase archive mapMeta.mapArn
  let mapData ← archive.readEntry (mapZipBase ++ "/map".toList)
  let idxData ← archive.readEntryToString (mapZipBase ++ "/idx".toList)
  let targets := parseIdx idxData mapMeta.imageStreamArn
  let gapDefault :=
    if mapMeta.gapIsSymbolicFf then TargetKind.fill 0xFF else .fill 0x00
  return LoadedMap.load crates.safeRead mapData targets gapDefault

/-- Open an AFF4 image from a byte source. -/
def openReader (crates : Crates) (backing : Bytes) :
    Except Aff4Error Aff4Reader := do
  let archive ← (crates.zipArchiveNew backing).mapError .zip
  let turtle ← archive.readEntryToString "information.turtle".toList
  let metadata ← parseTurtle turtle
  let zipBase := detectZipBase archive metadata.streamArn
  let loadedMap ←
    match metadata.mapMeta with
    | some mapMeta => some <$> loadMap crates archive mapMeta
    | none => pure none
  return {
    archive
    zipBase
    virtualSize := metadata.virtualSize
    imageStreamSize := metadata.imageStreamSize
    chunkSize := metadata.chunkSize
    chunksPerSegment := metadata.chunksPerSegment
    compression := metadata.compression
    imageHashes := metadata.imageHashes
    pos := 0
    loadedMap }

namespace Aff4Reader

variable (platform : Platform) (crates : Crates) (self : Aff4Reader)

/-- Virtual regions the acquisition could not read. -/
def unreadableRegions : List (UInt64 × UInt64) :=
  (self.loadedMap.map LoadedMap.unreadableRegions).getD []

/-! ## Chunks -/

/-- Decompress a chunk that was not stored verbatim. -/
def decompress (compressed : Bytes) : Outcome Aff4Error Bytes :=
  let capacity := asUsize platform self.chunkSize
  match self.compression with
  | .null => .ok compressed
  | .deflate => do
      withCapacity platform capacity
      .ofExcept ((crates.zlibDecode compressed).mapError
        fun e => .badFormat s!"deflate decode: {e}")
  | .snappy =>
      .ofExcept ((crates.snappyDecode compressed).mapError
        fun e => .badFormat s!"snappy decode: {e}")
  | .lz4 => do
      withCapacity platform capacity
      .ofExcept ((crates.lz4Decode compressed).mapError
        fun e => .badFormat s!"lz4 decode: {e}")

/-- Read a single chunk by its absolute index across all bevies.  An empty index
entry is a chunk of zeros, and a chunk stored in `chunk_size` bytes was written
uncompressed whatever the codec. -/
def readChunk (chunkIdx : UInt64) : Outcome Aff4Error Bytes := do
  let segmentIdx ← divU64 chunkIdx self.chunksPerSegment
  let chunkInSeg ← remU64 chunkIdx self.chunksPerSegment
  let indexData ← .ofExcept
    (self.archive.readEntry (indexName self.zipBase segmentIdx))
  let (chunkStart, chunkEnd) ←
    chunkBoundsFromIndex platform indexData chunkInSeg
  if chunkStart = chunkEnd then
    vecZeroed platform (asUsize platform self.chunkSize)
  else
    let bevyData ← .ofExcept
      (self.archive.readEntry (segmentName self.zipBase segmentIdx))
    let bevySize := bevyData.length
    if bevySize < chunkEnd then
      .err (.badFormat
        (s!"chunk bounds ({chunkStart}..{chunkEnd}) exceed bevy size " ++
          s!"({bevySize})"))
    else
      let compressed ← slice bevyData chunkStart chunkEnd
      if compressed.length = asUsize platform self.chunkSize then
        return compressed
      else
        self.decompress platform crates compressed

/-! ## The content pass -/

/-- What a run of `read_image_stream_content` did: the slices it fed to the sink
before it ended, and how it ended. -/
structure ContentRun where
  fed : List Bytes
  result : Outcome Aff4Error Unit

/-- One pass of the content loop: the slice fed to the sink and the new count of
bytes produced. -/
def contentPass (chunkIdx : Nat) (produced : UInt64) :
    Outcome Aff4Error (Bytes × UInt64) := do
  let chunk ← self.readChunk platform crates (UInt64.ofNat chunkIdx)
  let remaining ← subU64 platform self.imageStreamSize produced
  let take :=
    asUsize platform (UInt64.ofNat (min chunk.length remaining.toNat))
  let fed ← slice chunk 0 take
  let produced ← addU64 platform produced (UInt64.ofNat take)
  return (fed, produced)

/-- The remaining passes of the content loop. -/
def contentLoop : Nat → Nat → UInt64 → ContentRun
  | 0, _, _ => { fed := [], result := .ok () }
  | passes + 1, chunkIdx, produced =>
      match self.contentPass platform crates chunkIdx produced with
      | .ok (fed, produced) =>
          let rest := contentLoop passes (chunkIdx + 1) produced
          { rest with fed := fed :: rest.fed }
      | .err error => { fed := [], result := .err error }
      | .panic reason => { fed := [], result := .panic reason }

/-- Stream the decompressed ImageStream content, in chunk order, to a sink: the
byte sequence the `aff4:hash` digests cover. -/
def readImageStreamContent : ContentRun :=
  if self.chunkSize = 0 then
    { fed := [], result := .err (.badFormat "aff4:chunkSize must be > 0") }
  else
    match divCeilU64 self.imageStreamSize self.chunkSize with
    | .ok chunks => self.contentLoop platform crates chunks 0 0
    | .err error => { fed := [], result := .err error }
    | .panic reason => { fed := [], result := .panic reason }

/-! ## Reading and seeking -/

/-- Where the cursor points: through the map if there is one, else straight into
the ImageStream. -/
def target : Outcome IoError ResolvedRegion :=
  match self.loadedMap with
  | some map => map.resolve platform self.pos self.virtualSize
  | none =>
      .ok { kind := .imageStream
            targetOffset := self.pos
            bytesInRegion := UInt64.ofNat (2 ^ 64 - 1) }

/-- The bytes one read copies into the buffer, by the kind of its target. -/
def readTarget (region : ResolvedRegion) (toRead : Nat) :
    Outcome IoError Bytes :=
  let regionLimit := asUsize platform region.bytesInRegion
  match region.kind with
  | .unknown => .ok (List.replicate (min toRead regionLimit) 0)
  | .fill byte => .ok (List.replicate (min toRead regionLimit) byte)
  | .tile tile =>
      Outcome.collect
        (fun i => do
          let position ←
            addU64 platform region.targetOffset (UInt64.ofNat i)
          return tile.byteAt position.toNat)
        0 (min toRead regionLimit)
  | .imageStream => do
      let chunkIdx ← divU64 region.targetOffset self.chunkSize
      let offset ← remU64 region.targetOffset self.chunkSize
      let offsetInChunk := asUsize platform offset
      let chunk ← (self.readChunk platform crates chunkIdx).mapErr
        fun error => { kind := .other, message := error.toText }
      let available := min (chunk.length - offsetInChunk) regionLimit
      let n := min toRead available
      if n = 0 then
        -- marked unreachable in the source
        return []
      else
        slice chunk offsetInChunk (offsetInChunk + n)

/-- What a call of `read` did: its result, and the reader and the buffer it
left. -/
structure ReadCall where
  result : Outcome IoError Nat
  reader : Aff4Reader
  buf : Bytes

/-- The bytes a read with a nonempty buffer copies from below the end of the
disk, and the cursor it leaves. -/
def readStep (bufLen : Nat) : Outcome IoError (Bytes × UInt64) := do
  let remaining ← subU64 platform self.virtualSize self.pos
  let toRead := min bufLen (asUsize platform remaining)
  let region ← self.target platform
  let bytes ← self.readTarget platform crates region toRead
  let pos ← addU64 platform self.pos (UInt64.ofNat bytes.length)
  return (bytes, pos)

/-- `Read::read`. -/
def read (buf : Bytes) : ReadCall :=
  if buf = [] ∨ self.virtualSize ≤ self.pos then
    { result := .ok 0, reader := self, buf }
  else
    match self.readStep platform crates buf.length with
    | .ok (bytes, pos) =>
        { result := .ok bytes.length
          reader := { self with pos }
          buf := bytes ++ buf.drop bytes.length }
    | .err error => { result := .err error, reader := self, buf }
    | .panic reason => { result := .panic reason, reader := self, buf }

/-- The argument of a seek. -/
inductive SeekFrom
  | start (n : UInt64)
  | fromEnd (n : Int64)
  | current (n : Int64)
  deriving DecidableEq

/-- The position a seek asks for, before it is checked. -/
def seekTarget : SeekFrom → Outcome IoError Int64
  | .start n => .ok n.toInt64
  | .fromEnd n => addI64 platform self.virtualSize.toInt64 n
  | .current n => addI64 platform self.pos.toInt64 n

/-- `Seek::seek`: the result and the reader it leaves. -/
def seek (position : SeekFrom) : Outcome IoError UInt64 × Aff4Reader :=
  match self.seekTarget platform position with
  | .ok newPos =>
      if newPos < 0 then
        (.err { kind := .invalidInput, message := "seek before start of stream" },
          self)
      else
        (.ok newPos.toUInt64, { self with pos := newPos.toUInt64 })
  | .err error => (.err error, self)
  | .panic reason => (.panic reason, self)

end Aff4Reader
end Aff4
