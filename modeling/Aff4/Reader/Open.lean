import Aff4.Reader

/-!
# Opening a container

What a container has to hold for it to be opened, and the reader it opens as.
-/

namespace Aff4

open Rust

/-- The parts every accepted disk image has. -/
structure Container (crates : Crates) (backing : Bytes) where
  archive : ZipArchive
  turtle : Text
  metadata : StreamMeta
  archive_eq : crates.zipArchiveNew backing = .ok archive
  turtle_eq : archive.readEntryToString "information.turtle".toList = .ok turtle
  metadata_eq : parseTurtle turtle = .ok metadata

/-- A container whose image is an ImageStream itself. -/
structure DirectContainer (crates : Crates) (backing : Bytes)
    extends Container crates backing where
  direct : metadata.mapMeta = none

/-- A container whose image is a Map over an ImageStream. -/
structure MapContainer (crates : Crates) (backing : Bytes)
    extends Container crates backing where
  mapMeta : MapMeta
  mapData : Bytes
  idxData : Text
  mapMeta_eq : metadata.mapMeta = some mapMeta
  mapData_eq : archive.readEntry
    (detectZipBase archive mapMeta.mapArn ++ "/map".toList) = .ok mapData
  idxData_eq : archive.readEntryToString
    (detectZipBase archive mapMeta.mapArn ++ "/idx".toList) = .ok idxData

variable {crates : Crates} {backing : Bytes}

/-- The reader a container opens as, given its map. -/
def Container.readerWith
    (container : Container crates backing) (loadedMap : Option LoadedMap) :
    Aff4Reader where
  archive := container.archive
  zipBase := detectZipBase container.archive container.metadata.streamArn
  virtualSize := container.metadata.virtualSize
  imageStreamSize := container.metadata.imageStreamSize
  chunkSize := container.metadata.chunkSize
  chunksPerSegment := container.metadata.chunksPerSegment
  compression := container.metadata.compression
  imageHashes := container.metadata.imageHashes
  pos := 0
  loadedMap := loadedMap

def DirectContainer.reader (container : DirectContainer crates backing) :
    Aff4Reader :=
  container.readerWith none

namespace MapContainer

variable (container : MapContainer crates backing)

/-- What bytes outside every record of the map are read as. -/
def gapDefault : TargetKind :=
  if container.mapMeta.gapIsSymbolicFf then .fill 0xFF else .fill 0x00

def loadedMap : LoadedMap :=
  LoadedMap.load crates.safeRead container.mapData
    (parseIdx container.idxData container.mapMeta.imageStreamArn)
    container.gapDefault

def reader : Aff4Reader :=
  container.readerWith (some container.loadedMap)

end MapContainer

theorem DirectContainer.openReader_eq
    (container : DirectContainer crates backing) :
    openReader crates backing = .ok container.reader := by
  simp only [openReader, container.archive_eq, Except.mapError, bind,
    Except.bind, container.turtle_eq, container.metadata_eq, container.direct]
  rfl

theorem MapContainer.loadMap_eq (container : MapContainer crates backing) :
    loadMap crates container.archive container.mapMeta =
      .ok container.loadedMap := by
  simp only [loadMap, container.mapData_eq, container.idxData_eq, bind,
    Except.bind]
  rfl

theorem MapContainer.openReader_eq (container : MapContainer crates backing) :
    openReader crates backing = .ok container.reader := by
  simp only [openReader, container.archive_eq, Except.mapError, bind,
    Except.bind, container.turtle_eq, container.metadata_eq,
    container.mapMeta_eq, container.loadMap_eq]
  rfl

/-- Every container that is opened is a direct or a map-backed one. -/
theorem openReader_cases {reader : Aff4Reader}
    (opened : openReader crates backing = .ok reader) :
    (∃ container : DirectContainer crates backing,
      reader = container.reader) ∨
    (∃ container : MapContainer crates backing,
      reader = container.reader) := by
  obtain ⟨archive, archive_eq, opened⟩ := except_bind_eq_ok.mp opened
  obtain ⟨turtle, turtle_eq, opened⟩ := except_bind_eq_ok.mp opened
  obtain ⟨metadata, metadata_eq, opened⟩ := except_bind_eq_ok.mp opened
  rw [mapError_eq_ok] at archive_eq
  cases mapped : metadata.mapMeta with
  | none =>
      simp only [mapped] at opened
      cases opened
      exact .inl
        ⟨{ archive, turtle, metadata, archive_eq, turtle_eq, metadata_eq
           direct := mapped }, rfl⟩
  | some mapMeta =>
      simp only [mapped] at opened
      obtain ⟨loaded, loaded_eq, opened⟩ := except_bind_eq_ok.mp opened
      cases loadMap_eq : loadMap crates archive mapMeta with
      | error error => rw [loadMap_eq] at loaded_eq; cases loaded_eq
      | ok loadedMap =>
          rw [loadMap_eq] at loaded_eq
          cases loaded_eq
          cases opened
          obtain ⟨mapData, mapData_eq, rest⟩ := except_bind_eq_ok.mp loadMap_eq
          obtain ⟨idxData, idxData_eq, rest⟩ := except_bind_eq_ok.mp rest
          cases rest
          exact .inr
            ⟨{ archive, turtle, metadata, archive_eq, turtle_eq, metadata_eq
               mapMeta, mapData, idxData, mapMeta_eq := mapped, mapData_eq
               idxData_eq }, rfl⟩

/-- The parts of a container are determined by its bytes. -/
theorem Container.eq (container other : Container crates backing) :
    container = other := by
  obtain ⟨archive, turtle, metadata, archive_eq, turtle_eq, metadata_eq⟩ :=
    container
  obtain ⟨archive', turtle', metadata', archive_eq', turtle_eq', metadata_eq'⟩ :=
    other
  cases archive_eq.symm.trans archive_eq'
  cases turtle_eq.symm.trans turtle_eq'
  cases metadata_eq.symm.trans metadata_eq'
  rfl

/-- The reader that was opened is the one of the container, whatever its map. -/
theorem Container.eq_readerWith
    (container : Container crates backing) {reader : Aff4Reader}
    (opened : openReader crates backing = .ok reader) :
    reader = container.readerWith reader.loadedMap := by
  rcases openReader_cases opened with ⟨other, rfl⟩ | ⟨other, rfl⟩
  · rw [Container.eq container other.toContainer]
    rfl
  · rw [Container.eq container other.toContainer]
    rfl

/-- Every opened reader has a chunk geometry without zeros. -/
theorem openReader_wellFormed {reader : Aff4Reader}
    (opened : openReader crates backing = .ok reader) :
    reader.chunkSize ≠ 0 ∧ reader.chunksPerSegment ≠ 0 := by
  rcases openReader_cases opened with ⟨container, rfl⟩ | ⟨container, rfl⟩
  all_goals
    have wellFormed := parseTurtle_wellFormed container.metadata_eq
    exact ⟨wellFormed.chunkSize_ne_zero, wellFormed.chunksPerSegment_ne_zero⟩

/-- A reader that was opened, wherever its cursor is now. -/
def Aff4Reader.Opened (crates : Crates) (reader : Aff4Reader) : Prop :=
  ∃ backing pos, openReader crates backing = .ok { reader with pos }

theorem Aff4Reader.Opened.of_openReader {reader : Aff4Reader}
    (opened : openReader crates backing = .ok reader) : reader.Opened crates :=
  ⟨backing, reader.pos, opened⟩

/-- Every reader that was opened has a chunk geometry without zeros. -/
theorem Aff4Reader.Opened.wellFormed {reader : Aff4Reader}
    (opened : reader.Opened crates) :
    reader.chunkSize ≠ 0 ∧ reader.chunksPerSegment ≠ 0 := by
  obtain ⟨backing, pos, opens⟩ := opened
  have nonzero := openReader_wellFormed opens
  exact nonzero

theorem Aff4Reader.Opened.withPos {reader : Aff4Reader}
    (opened : reader.Opened crates) (pos : UInt64) :
    Aff4Reader.Opened crates { reader with pos } :=
  opened

/-! ## A small container

A map of six bytes over a stream of three bytes in chunks of two, with any map
records and any stored chunks. -/

namespace Small

def turtle : Text :=
  "<m> a aff4:Map ; aff4:size 6 ; aff4:dependentStream <i> . ".toList ++
    "<i> a aff4:ImageStream ; aff4:chunkSize 2 ; ".toList ++
    "aff4:chunksInSegment 2 ; aff4:size 3 . ".toList

def mapMeta : MapMeta where
  mapArn := "m".toList
  imageStreamArn := "i".toList
  gapIsSymbolicFf := false

def metadata : StreamMeta where
  streamArn := "i".toList
  virtualSize := 6
  imageStreamSize := 3
  chunkSize := 2
  chunksPerSegment := 2
  compression := .null
  imageHashes := []
  mapMeta := some mapMeta

theorem parseTurtle_turtle : parseTurtle turtle = .ok metadata := by
  decide +kernel

/-- The targets of the map: the stream, zeros and the unreadable tile. -/
def idx : Text := "i\naff4:Zero\n#UnreadableData".toList

/-- The map file of a list of records. -/
def mapFile (records : List MapEntry) : Bytes :=
  records.flatMap fun entry =>
    u64ToLeBytes entry.mapOffset ++ u64ToLeBytes entry.length ++
      u64ToLeBytes entry.targetOffset ++ u32ToLeBytes entry.targetId

variable (mapData index bevy : Bytes)

def entries : List (Text × Bytes) :=
  [("information.turtle".toList, Str.asBytes turtle),
    ("m/map".toList, mapData),
    ("m/idx".toList, Str.asBytes idx),
    ("i/00000000.index".toList, index),
    ("i/00000000".toList, bevy)]

variable {mapData index bevy}

theorem entries_short
    (mapShort : mapData.length < 2 ^ 63)
    (indexShort : index.length < 2 ^ 63)
    (bevyShort : bevy.length < 2 ^ 63) :
    ∀ entry ∈ entries mapData index bevy, entry.2.length < 2 ^ 63 := by
  have turtleShort : (Str.asBytes turtle).length < 2 ^ 63 :=
    lt_of_le_of_lt (Str.length_asBytes_le turtle) (by decide +kernel)
  have idxShort : (Str.asBytes idx).length < 2 ^ 63 :=
    lt_of_le_of_lt (Str.length_asBytes_le idx) (by decide +kernel)
  simp only [entries, List.forall_mem_cons, List.not_mem_nil, false_implies,
    implies_true, and_true]
  exact ⟨turtleShort, mapShort, idxShort, indexShort, bevyShort⟩

variable (mapData index bevy)
variable (short : ∀ entry ∈ entries mapData index bevy, entry.2.length < 2 ^ 63)

def archive : ZipArchive :=
  .ofEntries (entries mapData index bevy) short

/-- The container of the small image. -/
def container : MapContainer (.opening (archive mapData index bevy short)) [] where
  archive := archive mapData index bevy short
  turtle := turtle
  metadata := metadata
  archive_eq := rfl
  turtle_eq := ZipArchive.readEntryToString_of_asBytes turtle
    (ZipArchive.readEntry_ofEntries rfl)
  metadata_eq := parseTurtle_turtle
  mapMeta := mapMeta
  mapData := mapData
  idxData := idx
  mapMeta_eq := rfl
  mapData_eq := rfl
  idxData_eq := ZipArchive.readEntryToString_of_asBytes idx
    (ZipArchive.readEntry_ofEntries rfl)

end Small
end Aff4
