import Aff4.Map.Files
import Aff4.Map.ReferenceDisk
import Aff4.Reader.RoundTrip
import Aff4.Turtle.Images

/-!
# Written images

A writer leaves a disk image in an archive as a document that describes it, the
stored chunks of its stream and the two files of its map.  What is opened is the
image that was written.
-/

namespace Aff4

open Rust Rust.Str Storage

/-- A content, as a conforming writer stores it under a stream. -/
structure WrittenStream
    (crates : Crates) (archive : ZipArchive) (stream : StreamDescription)
    (content : Bytes) where
  base : Text
  count : Nat
  stored : StoredStream archive base count stream.chunksPerSegment.toNat
  codec : Codec crates (.named stream.method.text) stream.chunkSize.toNat
  nondegenerate : stream.Nondegenerate
  chunkSmall : stream.chunkSize.toNat < 2 ^ 63
  size : stream.size.toNat = content.length
  spelling : base ∈ baseSpellings stream.arn
  noRivals : NoRivals archive stream.arn base
  covers : ∀ index, index * stream.chunkSize.toNat < content.length → index < count
  stores : ∀ index, index * stream.chunkSize.toNat < content.length →
    StoresChunk codec
      (cut stream.chunkSize.toNat content index) (stored.stored index)

/-- The files of a map over a content of a stream.  Records may be empty and come in
any order, part of one may follow them, and one may have no target. -/
structure MapFiles
    (archive : ZipArchive) (stream : StreamDescription) (map : MapDescription)
    (content : Bytes) where
  base : Text
  records : List MapEntry
  trailing : Bytes
  targets : List TargetKind
  lines : List Text
  spelling : base ∈ baseSpellings map.arn
  noRivals : ∀ name ∈ archive.fileNames,
    (∃ leaf, '/' ∉ leaf ∧ name = base ++ ['/'] ++ leaf) ∨
      ∀ other ∈ baseSpellings map.arn, Under other name → other = base
  storedMap :
    archive.readEntry (base ++ "/map".toList) = .ok (mapFile records ++ trailing)
  storedIdx :
    archive.readEntry (base ++ "/idx".toList) = .ok (asBytes (idxFile lines))
  partialRecord : trailing.length < 28
  isIri : IsStreamIri stream.arn
  named : List.Forall₂ (TargetKind.NamedBy stream.arn) targets lines
  disjoint : records.Pairwise MapEntry.Disjoint
  inside : ∀ entry ∈ records, 0 < entry.length →
    entry.mapOffset.toNat + entry.length.toNat ≤ map.size.toNat
  targetFits : ∀ entry ∈ records, 0 < entry.length →
    entry.targetOffset.toNat + entry.length.toNat ≤ 2 ^ 64
  inStream : ∀ entry ∈ records, 0 < entry.length →
    targets[entry.targetId.toNat]? = some .imageStream →
    entry.targetOffset.toNat + entry.length.toNat ≤ content.length

namespace MapFiles

variable {archive : ZipArchive} {stream : StreamDescription} {map : MapDescription}
variable {content : Bytes} (files : MapFiles archive stream map content)

/-- What a record reads from. -/
def kindOf (entry : MapEntry) : TargetKind :=
  files.targets[entry.targetId.toNat]?.getD .unknown

/-- The disk that was written. -/
def disk : Disk UInt8 where
  size := map.size.toNat
  byteAt := fun position =>
    match coveringRecord files.records position with
    | some entry =>
        (files.kindOf entry).byteAt content
          (entry.targetOffset.toNat + (position - entry.mapOffset.toNat))
    | none => if map.gapIsSymbolicFf then 0xFF else 0x00

theorem byteAt_disk_of_covered {position : Nat} {entry : MapEntry}
    (found : coveringRecord files.records position = some entry) :
    files.disk.byteAt position =
      (files.kindOf entry).byteAt content
        (entry.targetOffset.toNat + (position - entry.mapOffset.toNat)) := by
  simp only [disk, found]

theorem byteAt_disk_of_uncovered {position : Nat}
    (found : coveringRecord files.records position = none) :
    files.disk.byteAt position = if map.gapIsSymbolicFf then 0xFF else 0x00 := by
  simp only [disk, found]

/-- Every line names a target. -/
theorem named_of_mem {line : Text} (member : line ∈ files.lines) :
    ∃ kind : TargetKind, kind.NamedBy stream.arn line := by
  obtain ⟨place, below, rfl⟩ := List.getElem_of_mem member
  have same := files.named.length_eq
  exact ⟨_, (List.forall₂_iff_get.mp files.named).2 place (by omega) below⟩

theorem solid_of_mem {line : Text} (member : line ∈ files.lines) :
    line ≠ [] ∧ ∀ c ∈ line, isWhitespace c = false := by
  obtain ⟨kind, named⟩ := files.named_of_mem member
  exact (classifyTarget_of_namedBy files.isIri named).1

/-- The lines are classified as the targets they name. -/
theorem map_classifyTarget :
    files.lines.map (classifyTarget · stream.arn) = files.targets := by
  have classified : List.Forall₂ (fun kind line => kind = classifyTarget line stream.arn)
      files.targets files.lines :=
    files.named.imp fun _ _ named => (classifyTarget_of_namedBy files.isIri named).2.symm
  exact (List.forall₂_eq_eq_eq ▸ List.forall₂_map_right_iff.mpr classified).symm

/-- The lines of the file are read back, and none of them is trimmed. -/
theorem lines_idxFile : Str.lines (idxFile files.lines) = files.lines := by
  apply lines_flatMap
  intro line member
  obtain ⟨-, solid⟩ := files.solid_of_mem member
  constructor
  · intro lineBreak
    cases solid _ lineBreak
  · intro ending
    cases solid _ (List.mem_of_getLast? ending)

theorem trim_line {line : Text} (member : line ∈ files.lines) : trim line = line :=
  trim_of_solid (files.solid_of_mem member).2

include files in
theorem detectZipBase_eq : detectZipBase archive map.arn = files.base := by
  refine Aff4.detectZipBase_eq files.spelling ⟨_,
    ZipArchive.mem_fileNames_of_readEntry_eq_ok files.storedMap, ?_⟩ files.noRivals
  rw [Under]
  exact (List.prefix_append_right_inj _).mpr (List.prefix_append ['/'] "map".toList)

end MapFiles

/-- A disk image, as a conforming writer leaves it in an archive. -/
structure WrittenVolume
    (crates : Crates) (backing : Bytes) (image : ImageDescription)
    (content : Bytes) where
  archive : ZipArchive
  document : List DocumentNode
  ending : Ending
  turtle : Text
  archive_eq : crates.zipArchiveNew backing = .ok archive
  described : image.DescribedBy document
  renders : RendersDocument ending document turtle
  storedTurtle :
    archive.readEntry "information.turtle".toList = .ok (asBytes turtle)
  stream : WrittenStream crates archive image.stream content

namespace WrittenVolume

variable {platform : Platform} {crates : Crates} {backing : Bytes}
variable {image : ImageDescription} {content : Bytes}
variable (written : WrittenVolume crates backing image content)

/-- The parts of the container that is opened. -/
def container : Container crates backing where
  archive := written.archive
  turtle := written.turtle
  metadata := image.metadata
  archive_eq := written.archive_eq
  turtle_eq := ZipArchive.readEntryToString_of_asBytes _ written.storedTurtle
  metadata_eq :=
    written.described.parseTurtle_eq_ok written.stream.nondegenerate written.renders

/-- Whatever its map, the reader holds the content. -/
theorem holdsStream (wide : platform.Is64Bit) (loadedMap : Option LoadedMap) :
    (written.container.readerWith loadedMap).HoldsStream platform crates content := by
  obtain ⟨base, count, stored, codec, ⟨chunkSize_ne_zero, chunksPerSegment_ne_zero⟩,
    chunkSmall, -, spelling, noRivals, covers, stores⟩ := written.stream
  by_cases nonempty : 0 < count
  · have detected : (written.container.readerWith loadedMap).zipBase = base :=
      stored.detectZipBase_eq nonempty spelling noRivals
    subst detected
    exact @Aff4Reader.holdsStream_of_stored platform crates
      (written.container.readerWith loadedMap) count stored wide chunkSize_ne_zero
      chunksPerSegment_ne_zero chunkSmall content covers codec stores
  · exact ⟨chunkSize_ne_zero, fun chunkIdx inside =>
      absurd (Nat.zero_lt_of_lt (covers _ inside)) nonempty⟩

end WrittenVolume

/-- The map of a written image, if there is one. -/
inductive WrittenMap
    (archive : ZipArchive) (stream : StreamDescription) (content : Bytes) :
    Option MapDescription → Type
  | direct : WrittenMap archive stream content none
  | mapped {map : MapDescription} (files : MapFiles archive stream map content) :
      WrittenMap archive stream content (some map)

/-- The disk of a written image: the content itself if there is no map. -/
def WrittenMap.disk
    {archive : ZipArchive} {stream : StreamDescription} {content : Bytes}
    {map : Option MapDescription} :
    WrittenMap archive stream content map → Disk UInt8
  | .direct => Disk.ofList content
  | .mapped files => files.disk

/-- A disk image with its map, as a conforming writer leaves it in an archive. -/
structure WrittenImage
    (crates : Crates) (backing : Bytes) (image : ImageDescription)
    (content : Bytes) extends WrittenVolume crates backing image content where
  map : WrittenMap archive image.stream content image.map

namespace WrittenImage

variable {platform : Platform} {crates : Crates} {backing : Bytes}
variable {image : ImageDescription} {content : Bytes}

section Mapped

variable {stream : StreamDescription} {map : MapDescription}
variable (written : WrittenVolume crates backing ⟨stream, some map⟩ content)
variable (files : MapFiles written.archive stream map content)

/-- The parts of a container with a map. -/
def mapContainer : MapContainer crates backing where
  toContainer := written.container
  mapMeta := (map.override stream).1
  mapData := mapFile files.records ++ files.trailing
  idxData := idxFile files.lines
  mapMeta_eq := rfl
  mapData_eq := by
    have stored := files.storedMap
    rw [← files.detectZipBase_eq] at stored
    exact stored
  idxData_eq := by
    have stored := files.storedIdx
    rw [← files.detectZipBase_eq] at stored
    exact ZipArchive.readEntryToString_of_asBytes _ stored

theorem records_mapContainer : (mapContainer written files).records = files.records :=
  mapRecords_mapFile crates.safeRead files.records files.partialRecord

theorem recordKind_mapContainer (entry : MapEntry) :
    (mapContainer written files).recordKind entry = files.kindOf entry := by
  have lines : Str.lines (mapContainer written files).idxData = files.lines :=
    files.lines_idxFile
  unfold MapContainer.recordKind MapFiles.kindOf
  rw [lines, ← files.map_classifyTarget, List.getElem?_map]
  cases found : files.lines[entry.targetId.toNat]? with
  | none => rfl
  | some line =>
      dsimp only
      rw [files.trim_line (List.mem_of_getElem? found)]
      rfl

theorem diskOver_mapContainer :
    (mapContainer written files).diskOver content = files.disk := by
  unfold MapContainer.diskOver MapFiles.disk
  simp only [records_mapContainer, recordKind_mapContainer]
  rfl

/-- The records place the content on the disk. -/
theorem placed_mapContainer : (mapContainer written files).Placed content where
  disjoint := by
    rw [records_mapContainer]
    exact files.disjoint
  inside := by
    rw [records_mapContainer]
    exact files.inside
  targetFits := by
    rw [records_mapContainer]
    exact files.targetFits
  inStream := by
    rw [records_mapContainer]
    intro entry member nonempty kind
    rw [recordKind_mapContainer, MapFiles.kindOf] at kind
    apply files.inStream entry member nonempty
    cases found : files.targets[entry.targetId.toNat]? with
    | none =>
        rw [found] at kind
        cases kind
    | some target =>
        rw [found, Option.getD_some] at kind
        rw [kind]
  noBlankLines := by
    change ∀ line ∈ Str.lines (idxFile files.lines), trim line ≠ []
    rw [files.lines_idxFile]
    intro line member
    rw [files.trim_line member]
    exact (files.solid_of_mem member).1

end Mapped

/-- What is opened presents the disk that was written. -/
theorem exists_presents (wide : platform.Is64Bit)
    (written : WrittenImage crates backing image content) :
    ∃ loadedMap, openReader crates backing =
        .ok (written.container.readerWith loadedMap) ∧
      (written.container.readerWith loadedMap).Presents platform crates content
        written.map.disk := by
  obtain ⟨stream, map⟩ := image
  obtain ⟨volume, writtenMap⟩ := written
  cases writtenMap with
  | direct =>
      let container : DirectContainer crates backing := ⟨volume.container, rfl⟩
      exact ⟨none, container.openReader_eq,
        (volume.holdsStream wide none).presents rfl volume.stream.size⟩
  | mapped files =>
      have presents := (placed_mapContainer volume files).presents
        (volume.holdsStream wide (some (mapContainer volume files).loadedMap))
      rw [diskOver_mapContainer] at presents
      exact ⟨some (mapContainer volume files).loadedMap,
        (mapContainer volume files).openReader_eq, presents⟩

/-- An image that a conforming writer left is opened; its stream is the content that
was written, with the digests that were declared, and every session reads the disk
that was written. -/
theorem opened_session_obeys (wide : platform.Is64Bit)
    (written : WrittenImage crates backing image content) :
    ∃ reader, openReader crates backing = .ok reader ∧
      reader.imageHashes = image.stream.hashes.map DeclaredHash.hash ∧
      (reader.readImageStreamContent platform crates).result = .ok () ∧
      (reader.readImageStreamContent platform crates).fed.flatten = content ∧
      ∀ operations,
        ∀ event ∈ run (Aff4Reader.perform platform crates) reader operations,
          Aff4Reader.Obeys written.map.disk event := by
  obtain ⟨loadedMap, opened, presents⟩ := written.exists_presents wide
  obtain ⟨returns, fed⟩ :=
    presents.holds.readImageStreamContent written.stream.size wide
  exact ⟨_, opened, rfl, returns, fed, presents.session_obeys wide⟩

end WrittenImage

/-! The map over a stream with a digest, in an archive: records of three targets out of
order, an empty one without a target, and chunks of all three kinds. -/

namespace WrittenSample

open ImageSample

def content : Bytes := [0x51, 0x52, 0, 0, 0x53]

def records : List MapEntry :=
  [⟨3, 4, 1, 0⟩, ⟨7, 1, 1048575, 2⟩, ⟨0, 2, 6, 1⟩, ⟨8, 0, 5, 9⟩]

def targets : List TargetKind := [.imageStream, .fill 0, .tile .unreadable]

def lines : List Text :=
  ["aff4://s".toList, "aff4:Zero".toList, vocabulary ++ "UnreadableData".toList]

def entries : List (Text × Bytes) :=
  [("information.turtle".toList, asBytes turtle),
    ("s/00000000".toList, [0xEE, 0x51, 0x52]),
    ("s/00000000.index".toList, indexEntry 1 2 ++ indexEntry 0 0),
    ("s/00000001".toList, [0x53]),
    ("s/00000001.index".toList, indexEntry 0 1),
    ("n/map".toList, mapFile records ++ [0xFF]),
    ("n/idx".toList, asBytes (idxFile lines))]

def archive : ZipArchive := .ofEntries entries (by decide +kernel)

def codec : Codec (.opening archive) .null 2 where
  encode := id
  decode_encode := fun _ _ => rfl
  encode_ne_nil := fun _ nonempty => nonempty

def chunks (index : Nat) : Bytes := [[0x51, 0x52], [], [0x53]].getD index []

def offsets (index : Nat) : UInt64 := [1, 0, 0].getD index 0

def bevies (segment : Nat) : Bytes := [[0xEE, 0x51, 0x52], [0x53]].getD segment []

theorem readEntry_index (segment : Nat) (inside : segment * 2 < 3) :
    archive.readEntry (indexName "s".toList (UInt64.ofNat segment)) =
      .ok (segmentIndex chunks offsets (segment * 2) (min 2 (3 - segment * 2))) := by
  obtain rfl | rfl : segment = 0 ∨ segment = 1 := by omega
  · exact ZipArchive.readEntry_ofEntries rfl
  · exact ZipArchive.readEntry_ofEntries rfl

theorem readEntry_bevy (index : Nat) (below : index < 3) (nonempty : chunks index ≠ []) :
    archive.readEntry (segmentName "s".toList (UInt64.ofNat (index / 2))) =
      .ok (bevies (index / 2)) :=
  match index, below with
  | 0, _ => ZipArchive.readEntry_ofEntries rfl
  | 1, _ => absurd rfl nonempty
  | 2, _ => ZipArchive.readEntry_ofEntries rfl

def stored : StoredStream archive "s".toList 3 2 where
  stored := chunks
  offset := offsets
  bevy := bevies
  short := by
    intro index below
    match index, below with
    | 0, _ => decide
    | 1, _ => decide
    | 2, _ => decide
  indexFile := readEntry_index
  bevyFile := readEntry_bevy
  inside := by
    intro index below nonempty
    match index, below with
    | 0, _ => decide
    | 1, _ => exact absurd rfl nonempty
    | 2, _ => decide
  placed := by
    intro index below nonempty
    match index, below with
    | 0, _ => rfl
    | 1, _ => exact absurd rfl nonempty
    | 2, _ => rfl

theorem names : archive.fileNames =
    ["information.turtle".toList, segmentName "s".toList 0, indexName "s".toList 0,
      segmentName "s".toList 1, indexName "s".toList 1, "n/map".toList,
      "n/idx".toList] := by
  decide

theorem noRivals : NoRivals archive "aff4://s".toList "s".toList := by
  intro name member
  simp only [names, List.mem_cons, List.not_mem_nil, or_false] at member
  rcases member with rfl | rfl | rfl | rfl | rfl | rfl | rfl
  · exact .inr (by decide)
  · exact .inl ⟨0, .inl rfl⟩
  · exact .inl ⟨0, .inr rfl⟩
  · exact .inl ⟨1, .inl rfl⟩
  · exact .inl ⟨1, .inr rfl⟩
  · exact .inr (by decide)
  · exact .inr (by decide)

theorem noMapRivals (name : Text) (member : name ∈ archive.fileNames) :
    (∃ leaf, '/' ∉ leaf ∧ name = "n".toList ++ ['/'] ++ leaf) ∨
      ∀ other ∈ baseSpellings "aff4://n".toList, Under other name →
        other = "n".toList := by
  simp only [names, List.mem_cons, List.not_mem_nil, or_false] at member
  rcases member with rfl | rfl | rfl | rfl | rfl | rfl | rfl
  · exact .inr (by decide)
  · exact .inr (by decide)
  · exact .inr (by decide)
  · exact .inr (by decide)
  · exact .inr (by decide)
  · exact .inl ⟨"map".toList, by decide, rfl⟩
  · exact .inl ⟨"idx".toList, by decide, rfl⟩

theorem isIri : IsStreamIri "aff4://s".toList := by
  decide

theorem named : List.Forall₂ (TargetKind.NamedBy "aff4://s".toList) targets lines :=
  .cons (.name .imageStream) (.cons (.prefixedZero (by decide))
    (.cons (.name (.tile .unreadable)) .nil))

def writtenStream :
    WrittenStream (.opening archive) archive ImageSample.stream content where
  base := "s".toList
  count := 3
  stored := stored
  codec := codec
  nondegenerate := by decide
  chunkSmall := by decide
  size := rfl
  spelling := by decide
  noRivals := noRivals
  covers := by
    intro index inside
    change index * 2 < 5 at inside
    omega
  stores := by
    intro index inside
    change index * 2 < 5 at inside
    have below : index < 3 := by omega
    match index, below with
    | 0, _ => exact .verbatim (List.prefix_rfl) rfl
    | 1, _ => exact .sparse (by decide +kernel)
    | 2, _ =>
        exact .encoded (show _ <+: [0x53] from List.prefix_rfl) (by decide)
          (by decide)

def files : MapFiles archive ImageSample.stream ImageSample.map content where
  base := "n".toList
  records := records
  trailing := [0xFF]
  targets := targets
  lines := lines
  spelling := by decide
  noRivals := noMapRivals
  storedMap := ZipArchive.readEntry_ofEntries rfl
  storedIdx := ZipArchive.readEntry_ofEntries rfl
  partialRecord := by decide
  isIri := isIri
  named := named
  disjoint := List.Pairwise.imp MapEntry.disjoint_of_apart (by decide)
  inside := by decide
  targetFits := by decide
  inStream := by decide

def written : WrittenImage (.opening archive) [] image content where
  archive := archive
  document := ImageSample.document
  ending := .endOfText
  turtle := turtle
  archive_eq := rfl
  described := describedBy
  renders := renders
  storedTurtle := ZipArchive.readEntry_ofEntries rfl
  stream := writtenStream
  map := .mapped files

theorem opened_session_obeys_sample :
    ∃ reader, openReader (.opening archive) [] = .ok reader ∧
      reader.imageHashes = [hash.hash] ∧
      (reader.readImageStreamContent .debug64 (.opening archive)).result = .ok () ∧
      (reader.readImageStreamContent .debug64 (.opening archive)).fed.flatten =
        content ∧
      ∀ operations,
        ∀ event ∈ run (Aff4Reader.perform .debug64 (.opening archive)) reader
          operations,
          Aff4Reader.Obeys written.map.disk event :=
  written.opened_session_obeys Platform.is64Bit_debug64

end WrittenSample
end Aff4
