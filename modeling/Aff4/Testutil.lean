import Aff4.Reader.Written

/-!
# Fixtures

The tests are run on containers that are written by functions of their own.  This
file models the entries of those containers, and shows what is opened from them
whatever data they were written with.
-/

namespace Aff4

open Rust Rust.Str Storage

/-- An archive of these entries. -/
structure ZipArchive.Holds
    (archive : ZipArchive) (entries : List (Text × Bytes)) : Prop where
  fileNames : archive.fileNames = entries.map Prod.fst
  readEntry : ∀ entry ∈ entries, archive.readEntry entry.1 = .ok entry.2

theorem ZipArchive.holds_ofEntries
    {entries : List (Text × Bytes)}
    (short : ∀ entry ∈ entries, entry.2.length < 2 ^ 63)
    (distinct : (entries.map Prod.fst).Nodup) :
    (ofEntries entries short).Holds entries where
  fileNames := rfl
  readEntry := by
    intro entry member
    apply readEntry_ofEntries
    cases found : entries.find? fun other => other.1 = entry.1 with
    | none => simpa using List.find?_eq_none.mp found entry member
    | some other =>
        have same : other.1 = entry.1 := by simpa using List.find?_some found
        rw [List.inj_on_of_nodup_map distinct (List.mem_of_find?_eq_some found) member same]

namespace Testutil

/-! ## The entries that are written -/

/-- `CHUNK_SIZE`. -/
def chunkSize : Nat := 512

/-- `STREAM_ARN`. -/
def streamArn : Text := "aff4://issen-test-stream".toList

/-- `MAP_ARN`. -/
def mapArn : Text := "aff4://issen-test-map".toList

/-- `IMAGE_STREAM_ARN`. -/
def imageStreamArn : Text := "aff4://issen-test-image-stream".toList

/-- `MAP_ZIP_BASE`. -/
def mapZipBase : Text := "issen-test-map".toList

/-- `IMAGE_ZIP_BASE`. -/
def imageZipBase : Text := "issen-test-image-stream".toList

/-- `ZIP_BASE`. -/
def zipBase : Text := "issen-test-stream".toList

/-- The declarations that every document begins with. -/
def prefixes : Text :=
  "@prefix rdf: <http://www.w3.org/1999/02/22-rdf-syntax-ns#> .\n".toList ++
    "@prefix aff4: <http://aff4.org/Schema#> .\n".toList

/-- The node of a stream. -/
def imageStreamStatement
    (arn : Text) (size chunkSize chunksPerSegment : Nat) (method : Text) : Text :=
  "<".toList ++ arn ++ "> rdf:type aff4:ImageStream ; aff4:size ".toList ++
    showNat size ++ " ; aff4:chunkSize ".toList ++ showNat chunkSize ++
    " ; aff4:chunksInSegment ".toList ++ showNat chunksPerSegment ++
    " ; aff4:compressionMethod ".toList ++ method ++ " .\n".toList

/-- The node of a map. -/
def mapStatement (arn : Text) (size : Nat) (dependent gapDefault : Text) : Text :=
  "<".toList ++ arn ++ "> rdf:type aff4:Map ; aff4:size ".toList ++
    showNat size ++ " ; aff4:dependentStream <".toList ++ dependent ++
    "> ; aff4:mapGapDefaultStream ".toList ++ gapDefault ++ " .\n".toList

/-- A document, and the only segment of a stream of one chunk. -/
def streamEntries (turtle base : Text) (chunk : Bytes) : List (Text × Bytes) :=
  [("information.turtle".toList, asBytes turtle),
    (base ++ "/00000000".toList, chunk),
    (base ++ "/00000000.index".toList, indexEntry 0 (UInt32.ofNat chunk.length))]

/-- The data, padded or truncated to a chunk. -/
def padded (data : Bytes) : Bytes :=
  data.take chunkSize ++ List.replicate (chunkSize - min data.length chunkSize) 0

/-- `test_aff4_with_geometry`. -/
def testAff4WithGeometry (chunkSize chunksPerSegment : UInt64) : List (Text × Bytes) :=
  streamEntries
    (prefixes ++ imageStreamStatement streamArn 512 chunkSize.toNat
      chunksPerSegment.toNat "aff4:NullCompressor".toList)
    zipBase (List.replicate 512 0)

/-- `test_aff4`. -/
def testAff4 (data : Bytes) : List (Text × Bytes) :=
  streamEntries
    (prefixes ++ imageStreamStatement streamArn chunkSize chunkSize 1
      "aff4:NullCompressor".toList)
    zipBase (padded data)

/-- `test_aff4_lz4`, with the encoder of LZ4 frames. -/
def testAff4Lz4 (encode : Bytes → Bytes) (data : Bytes) : List (Text × Bytes) :=
  streamEntries
    (prefixes ++ imageStreamStatement streamArn chunkSize chunkSize 1
      "<https://github.com/lz4/lz4>".toList)
    zipBase (encode (padded data))

/-- `test_aff4_map`. -/
def testAff4Map (data : Bytes) : List (Text × Bytes) :=
  streamEntries
    (prefixes ++ imageStreamStatement imageStreamArn chunkSize chunkSize 1
        "aff4:NullCompressor".toList ++
      mapStatement mapArn 1024 imageStreamArn "aff4:Zero".toList)
    imageZipBase (padded data) ++
  [(mapZipBase ++ "/map".toList,
      u64ToLeBytes 512 ++ u64ToLeBytes 512 ++ u64ToLeBytes 0 ++ u32ToLeBytes 0),
    (mapZipBase ++ "/idx".toList, asBytes (imageStreamArn ++ "\n".toList))]

/-! ## The images they describe -/

theorem length_padded (data : Bytes) : (padded data).length = 512 := by
  rw [padded, List.length_append, List.length_take, List.length_replicate, chunkSize]
  omega

def rdfPrefix : DocumentNode where
  tokens :=
    [.ofText "@prefix".toList (.refl true), .ofText "rdf:".toList (.refl true),
      .ofText "<http://www.w3.org/1999/02/22-rdf-syntax-ns#>".toList (.refl true)]
  ne_nil := List.cons_ne_nil _ _

def aff4Prefix : DocumentNode where
  tokens :=
    [.ofText "@prefix".toList (.refl true), .ofText "aff4:".toList (.refl true),
      .ofText "<http://aff4.org/Schema#>".toList (.refl true)]
  ne_nil := List.cons_ne_nil _ _

theorem isSeparator_semicolon : IsSeparator " ; ".toList :=
  ⟨List.cons_ne_nil _ _, by decide⟩

theorem isSeparator_lineBreak : IsSeparator ['\n'] :=
  ⟨List.cons_ne_nil _ _, by decide⟩

/-- A node that ends with a full stop at the end of its line. -/
theorem renders_cons
    {node : DocumentNode} {statement : Text} (renders : RendersTokens node.tokens statement)
    {nodes : List DocumentNode} {text : Text}
    (others : RendersDocument .separator nodes text) :
    RendersDocument .separator (node :: nodes) (statement ++ " .\n".toList ++ text) := by
  have document := RendersDocument.cons renders isSeparator_space isSeparator_lineBreak
    others
  rw [List.append_assoc]
  exact document

/-- The declarations are nodes of their own in front of any others. -/
theorem renders_prefixes {nodes : List DocumentNode} {text : Text}
    (others : RendersDocument .separator nodes text) :
    RendersDocument .separator (rdfPrefix :: aff4Prefix :: nodes) (prefixes ++ text) := by
  have document := renders_cons (rendersTokens_line rdfPrefix)
    (renders_cons (rendersTokens_line aff4Prefix) others)
  have lines : prefixes = rdfPrefix.line ++ " .\n".toList ++
      (aff4Prefix.line ++ " .\n".toList) := by
    unfold prefixes
    simp only [String.reduceToList]
    decide +kernel
  rw [lines, List.append_assoc]
  exact document

/-- The statement of a stream without digests renders its node. -/
theorem renders_imageStreamStatement
    {stream : StreamDescription} (noHashes : stream.hashes = [])
    {nodes : List DocumentNode} {text : Text}
    (others : RendersDocument .separator nodes text) :
    RendersDocument .separator (stream.node :: nodes)
      (imageStreamStatement stream.arn stream.size.toNat stream.chunkSize.toNat
        stream.chunksPerSegment.toNat stream.method.text ++ text) := by
  have noTokens : stream.hashTokens = [] := if_pos noHashes
  have rendered : RendersTokens stream.describingTokens _ :=
    .cons (arnToken stream.arn stream.isArn) isSeparator_space
      (.cons (.ofText "rdf:type".toList rfl) isSeparator_space
      (.cons (.ofText "aff4:ImageStream".toList rfl) isSeparator_semicolon
      (.cons (.ofText "aff4:size".toList rfl) isSeparator_space
      (.cons (numberToken stream.size) isSeparator_semicolon
      (.cons (.ofText "aff4:chunkSize".toList rfl) isSeparator_space
      (.cons (numberToken stream.chunkSize) isSeparator_semicolon
      (.cons (.ofText "aff4:chunksInSegment".toList rfl) isSeparator_space
      (.cons (numberToken stream.chunksPerSegment) isSeparator_semicolon
      (.cons (.ofText "aff4:compressionMethod".toList rfl) isSeparator_space
      (.single stream.method))))))))))
  have tokens : stream.node.tokens = stream.describingTokens :=
    (congrArg (stream.describingTokens ++ ·) noTokens).trans (List.append_nil _)
  rw [← tokens] at rendered
  have document := renders_cons rendered others
  simp only [arnToken, numberToken, DocumentToken.ofText, String.reduceToList,
    List.append_assoc, List.cons_append, List.nil_append] at document
  unfold imageStreamStatement
  simp only [String.reduceToList]
  simp only [List.append_assoc, List.cons_append, List.nil_append]
  exact document

/-- The statement of a map renders its node. -/
theorem renders_mapStatement
    (map : MapDescription) (stream : StreamDescription)
    {nodes : List DocumentNode} {text : Text}
    (others : RendersDocument .separator nodes text) :
    RendersDocument .separator (map.node stream :: nodes)
      (mapStatement map.arn map.size.toNat stream.arn map.gapToken.text ++ text) := by
  have rendered : RendersTokens (map.node stream).tokens _ :=
    .cons (arnToken map.arn map.isArn) isSeparator_space
      (.cons (.ofText "rdf:type".toList rfl) isSeparator_space
      (.cons (.ofText "aff4:Map".toList rfl) isSeparator_semicolon
      (.cons (.ofText "aff4:size".toList rfl) isSeparator_space
      (.cons (numberToken map.size) isSeparator_semicolon
      (.cons (.ofText "aff4:dependentStream".toList rfl) isSeparator_space
      (.cons (arnToken stream.arn stream.isArn) isSeparator_semicolon
      (.cons (.ofText "aff4:mapGapDefaultStream".toList rfl) isSeparator_space
      (.single map.gapToken))))))))
  have document := renders_cons rendered others
  simp only [arnToken, numberToken, DocumentToken.ofText, String.reduceToList,
    List.append_assoc, List.cons_append, List.nil_append] at document
  unfold mapStatement
  simp only [String.reduceToList]
  simp only [List.append_assoc, List.cons_append, List.nil_append]
  exact document

/-! ## One chunk -/

section Chunk

theorem segmentName_zero (base : Text) :
    segmentName base 0 = base ++ "/00000000".toList := by
  rw [segmentName, List.append_assoc]
  rfl

theorem indexName_zero (base : Text) :
    indexName base 0 = base ++ "/00000000.index".toList := by
  rw [indexName, segmentName, List.append_assoc, List.append_assoc]
  rfl

variable {archive : ZipArchive} {base : Text} {chunk : Bytes}

/-- The segment of a fixture is a stored stream of one chunk. -/
def storedChunk
    (indexFile : archive.readEntry (base ++ "/00000000.index".toList) =
      .ok (indexEntry 0 (UInt32.ofNat chunk.length)))
    (bevyFile : archive.readEntry (base ++ "/00000000".toList) = .ok chunk)
    (short : chunk.length < 2 ^ 32) : StoredStream archive base 1 1 where
  stored := fun _ => chunk
  offset := fun _ => 0
  bevy := fun _ => chunk
  short := fun _ _ => short
  indexFile := by
    intro segment inside
    obtain rfl : segment = 0 := by omega
    exact (congrArg archive.readEntry (indexName_zero base)).trans indexFile
  bevyFile := by
    intro index below _
    obtain rfl : index = 0 := by omega
    exact (congrArg archive.readEntry (segmentName_zero base)).trans bevyFile
  inside := fun _ _ _ => le_of_eq (Nat.zero_add _)
  placed := fun _ _ _ => List.take_length

/-- No other entry of a fixture lies under a spelling of the stream. -/
theorem noRivals {arn : Text} {others : List Text}
    (names : archive.fileNames =
      "information.turtle".toList :: (base ++ "/00000000".toList) ::
        (base ++ "/00000000.index".toList) :: others)
    (foreign : ∀ name ∈ "information.turtle".toList :: others,
      ∀ other ∈ baseSpellings arn, Under other name → other = base) :
    NoRivals archive arn base := by
  intro name member
  rw [names] at member
  simp only [List.mem_cons] at member
  rcases member with rfl | rfl | rfl | member
  · exact .inr (foreign _ (List.mem_cons_self ..))
  · exact .inl ⟨0, .inl (segmentName_zero base).symm⟩
  · exact .inl ⟨0, .inr (indexName_zero base).symm⟩
  · exact .inr (foreign _ (List.mem_cons_of_mem _ member))

end Chunk

/-! ## Streams -/

section Streams

variable {arn : Text} (isArn : IsArn arn) (plain : Plain arn)
variable (method : DocumentToken) (foreign : Foreign method.text)
variable (noHash : method.text ≠ "aff4:hash".toList)

/-- The stream of a fixture. -/
def stream (chunkSize chunksPerSegment : UInt64) : StreamDescription where
  arn
  size := 512
  chunkSize
  chunksPerSegment
  method
  hashes := []
  isArn
  plain
  foreign
  method_ne_hash := noHash

theorem nondegenerate_stream :
    (stream isArn plain method foreign noHash 512 1).Nondegenerate := by
  constructor
  · change (512 : UInt64) ≠ 0
    decide
  · change (1 : UInt64) ≠ 0
    decide

theorem chunkSmall_stream : (512 : UInt64).toNat < 2 ^ 63 := by
  decide

/-- A chunk that is stored as it is or encoded is the content of its stream. -/
def writtenStream
    {crates : Crates} {archive : ZipArchive} {base : Text} {content chunk : Bytes}
    (codec : Codec crates (.named method.text) 512)
    (indexFile : archive.readEntry (base ++ "/00000000.index".toList) =
      .ok (indexEntry 0 (UInt32.ofNat chunk.length)))
    (bevyFile : archive.readEntry (base ++ "/00000000".toList) = .ok chunk)
    (short : chunk.length < 2 ^ 32) (length : content.length = 512)
    (spelling : base ∈ baseSpellings arn) (noRivals : NoRivals archive arn base)
    (stores : StoresChunk codec content chunk) :
    WrittenStream crates archive (stream isArn plain method foreign noHash 512 1)
      content where
  base
  count := 1
  stored := storedChunk indexFile bevyFile short
  codec
  nondegenerate := nondegenerate_stream isArn plain method foreign noHash
  chunkSmall := chunkSmall_stream
  size := length.symm
  spelling
  noRivals
  covers := by
    intro index inside
    change index * 512 < content.length at inside
    omega
  stores := by
    intro index inside
    change index * 512 < content.length at inside
    obtain rfl : index = 0 := by omega
    have whole : cut 512 content 0 = content := by
      rw [cut, Nat.zero_mul, List.drop_zero, List.take_of_length_le (le_of_eq length)]
    change StoresChunk codec (cut 512 content 0) chunk
    rw [whole]
    exact stores

end Streams

/-- The nodes of an image describe it behind the declarations. -/
theorem describedBy (image : ImageDescription) :
    image.DescribedBy (rdfPrefix :: aff4Prefix :: image.nodes) where
  nodes := fun node member => List.mem_cons_of_mem _ (List.mem_cons_of_mem _ member)
  others := by
    have rdf : ∀ text ∈ rdfPrefix.texts, Foreign text := by decide
    have aff4 : ∀ text ∈ aff4Prefix.texts, Foreign text := by decide
    rw [List.forall_mem_cons, List.forall_mem_cons]
    exact ⟨.inr rdf, .inr aff4, fun node member => .inl member⟩

/-! ## Direct images -/

def nullCompressor : DocumentToken :=
  .ofText "aff4:NullCompressor".toList (.refl true)

def lz4Frame : DocumentToken :=
  .ofText "<https://github.com/lz4/lz4>".toList (.refl true)

theorem foreign_nullCompressor : Foreign nullCompressor.text := by
  decide

theorem nullCompressor_ne_hash : nullCompressor.text ≠ "aff4:hash".toList := by
  decide

theorem foreign_lz4Frame : Foreign lz4Frame.text := by
  decide

theorem lz4Frame_ne_hash : lz4Frame.text ≠ "aff4:hash".toList := by
  decide

/-- The codec of chunks that are stored as they are. -/
def nullCodec (crates : Crates) : Codec crates .null 512 where
  encode := id
  decode_encode := fun _ _ => rfl
  encode_ne_nil := fun _ nonempty => nonempty

section Direct

variable {method : DocumentToken} (foreign : Foreign method.text)
variable (noHash : method.text ≠ "aff4:hash".toList)

/-- The image of a fixture without a map. -/
def directImage (chunkSize chunksPerSegment : UInt64) : ImageDescription where
  stream := @stream streamArn (by decide) (by decide) method foreign noHash chunkSize
    chunksPerSegment
  map := none

theorem renders_directImage (chunkSize chunksPerSegment : UInt64) :
    RendersDocument .separator
      (rdfPrefix :: aff4Prefix ::
        (directImage foreign noHash chunkSize chunksPerSegment).nodes)
      (prefixes ++ imageStreamStatement streamArn 512 chunkSize.toNat
        chunksPerSegment.toNat method.text) := by
  have document := renders_imageStreamStatement
    (show (directImage foreign noHash chunkSize chunksPerSegment).stream.hashes = []
      from rfl) RendersDocument.nil
  rw [List.append_nil] at document
  exact renders_prefixes document

variable {crates : Crates} {backing : Bytes} {archive : ZipArchive}
variable {chunk content : Bytes}

/-- A fixture without a map is a written image. -/
def writtenDirect
    (opens : crates.zipArchiveNew backing = .ok archive)
    (holds : archive.Holds (streamEntries
      (prefixes ++ imageStreamStatement streamArn 512 512 1 method.text) zipBase chunk))
    (codec : Codec crates (.named method.text) 512)
    (short : chunk.length < 2 ^ 32) (length : content.length = 512)
    (stores : StoresChunk codec content chunk) :
    WrittenImage crates backing (directImage foreign noHash 512 1) content where
  archive
  document := rdfPrefix :: aff4Prefix :: (directImage foreign noHash 512 1).nodes
  ending := .separator
  turtle := prefixes ++ imageStreamStatement streamArn 512 512 1 method.text
  archive_eq := opens
  described := describedBy _
  renders := renders_directImage foreign noHash 512 1
  storedTurtle := holds.readEntry _ (List.mem_cons_self ..)
  stream :=
    writtenStream _ _ method foreign noHash codec
      (holds.readEntry _ (List.mem_cons_of_mem _ (List.mem_cons_of_mem _
        (List.mem_cons_self ..))))
      (holds.readEntry _ (List.mem_cons_of_mem _ (List.mem_cons_self ..)))
      short length (by decide)
      (noRivals holds.fileNames (by decide)) stores
  map := .direct

end Direct

/-! ## The image with a map -/

section Mapped

/-- The stream under the map of the fixture. -/
def mappedStream : StreamDescription :=
  @stream imageStreamArn (by decide) (by decide) nullCompressor foreign_nullCompressor
    nullCompressor_ne_hash 512 1

/-- The map of the fixture. -/
def map : MapDescription where
  arn := mapArn
  size := 1024
  gapIsSymbolicFf := false
  isArn := by decide
  plain := by decide

def mappedImage : ImageDescription where
  stream := mappedStream
  map := some map

theorem renders_mappedImage :
    RendersDocument .separator (rdfPrefix :: aff4Prefix :: mappedImage.nodes)
      (prefixes ++ imageStreamStatement imageStreamArn 512 512 1
          "aff4:NullCompressor".toList ++
        mapStatement mapArn 1024 imageStreamArn "aff4:Zero".toList) := by
  have mapped := renders_mapStatement map mappedStream RendersDocument.nil
  rw [List.append_nil] at mapped
  have document := renders_prefixes (renders_imageStreamStatement
    (show mappedStream.hashes = [] from rfl) mapped)
  rw [List.append_assoc]
  exact document

variable {crates : Crates} {backing : Bytes} {archive : ZipArchive} {data : Bytes}

/-- The record of the map: the second half of the disk is the stream. -/
def mapRecord : MapEntry := ⟨512, 512, 0, 0⟩

theorem isIri_imageStreamArn : IsStreamIri imageStreamArn := by
  decide

/-- The files of the map. -/
def mapFiles (holds : archive.Holds (testAff4Map data)) :
    MapFiles archive mappedStream map (padded data) where
  base := mapZipBase
  records := [mapRecord]
  trailing := []
  targets := [.imageStream]
  lines := [imageStreamArn]
  spelling := by decide
  noRivals := by
    rw [holds.fileNames]
    intro name member
    simp only [testAff4Map, streamEntries, List.map_cons, List.map_nil, List.cons_append,
      List.nil_append, List.mem_cons, List.not_mem_nil, or_false] at member
    rcases member with rfl | rfl | rfl | rfl | rfl
    · exact .inr (by decide)
    · exact .inr (by decide)
    · exact .inr (by decide)
    · exact .inl ⟨"map".toList, by decide, rfl⟩
    · exact .inl ⟨"idx".toList, by decide, rfl⟩
  storedMap := by
    have stored := holds.readEntry (mapZipBase ++ "/map".toList, _)
      (List.mem_append_right _ (List.mem_cons_self ..))
    rw [stored, List.append_nil, mapFile, List.flatMap_singleton]
    rfl
  storedIdx := holds.readEntry (mapZipBase ++ "/idx".toList, _)
    (List.mem_append_right _ (List.mem_cons_of_mem _ (List.mem_cons_self ..)))
  partialRecord := by decide
  isIri := isIri_imageStreamArn
  named := .cons (.name .imageStream) .nil
  disjoint := List.pairwise_singleton _ _
  inside := by decide
  targetFits := by decide
  inStream := by
    intro entry member _ _
    rw [List.mem_singleton] at member
    rw [member, length_padded]
    decide

/-- The disk of the fixture is a gap of zeros in front of the data. -/
theorem disk_mapFiles (holds : archive.Holds (testAff4Map data)) :
    (mapFiles holds).disk = Disk.ofList (List.replicate 512 0 ++ padded data) := by
  have length := length_padded data
  have stream : (mapFiles holds).kindOf mapRecord = .imageStream := rfl
  have size : (1024 : UInt64).toNat =
      (List.replicate 512 (0 : UInt8) ++ padded data).length := by
    rw [List.length_append, List.length_replicate, length]
    rfl
  have byteAt (position : Nat) : (mapFiles holds).disk.byteAt position =
      (List.replicate 512 (0 : UInt8) ++ padded data).getD position 0 := by
    by_cases covers : mapRecord.Covers position
    · have found : coveringRecord [mapRecord] position = some mapRecord :=
        List.find?_cons_of_pos (by simpa using covers)
      have begins : (List.replicate 512 (0 : UInt8)).length ≤ position := by
        rw [List.length_replicate]
        exact covers.1
      rw [(mapFiles holds).byteAt_disk_of_covered found, stream, TargetKind.byteAt,
        List.getD_append_right _ _ _ _ begins, List.length_replicate]
      exact congrArg ((padded data).getD · 0) (Nat.zero_add _)
    · have found : coveringRecord [mapRecord] position = none :=
        coveringRecord_eq_none (by simpa using covers)
      have outside : position < 512 ∨ 1024 ≤ position := by
        have edges : ¬(512 ≤ position ∧ position < 512 + 512) := covers
        omega
      rw [(mapFiles holds).byteAt_disk_of_uncovered found]
      refine (if_neg Bool.false_ne_true).trans ?_
      rcases outside with front | behind
      · rw [List.getD_append _ _ _ _ (by rwa [List.length_replicate]),
          List.getD_replicate _ front]
      · rw [List.getD_eq_default]
        rw [List.length_append, List.length_replicate, length]
        exact behind
  calc (mapFiles holds).disk
      = ⟨(1024 : UInt64).toNat, (mapFiles holds).disk.byteAt⟩ := rfl
    _ = Disk.ofList (List.replicate 512 0 ++ padded data) := by
        rw [funext byteAt, size]
        rfl

/-- The fixture with a map is a written image. -/
def writtenMapped
    (opens : crates.zipArchiveNew backing = .ok archive)
    (holds : archive.Holds (testAff4Map data)) :
    WrittenImage crates backing mappedImage (padded data) where
  archive
  document := rdfPrefix :: aff4Prefix :: mappedImage.nodes
  ending := .separator
  turtle := prefixes ++ imageStreamStatement imageStreamArn 512 512 1
      "aff4:NullCompressor".toList ++ mapStatement mapArn 1024 imageStreamArn
        "aff4:Zero".toList
  archive_eq := opens
  described := describedBy _
  renders := renders_mappedImage
  storedTurtle := holds.readEntry _ (List.mem_append_left _ (List.mem_cons_self ..))
  stream :=
    writtenStream _ _ nullCompressor _ _ (nullCodec crates)
      (holds.readEntry _ (List.mem_append_left _ (List.mem_cons_of_mem _
        (List.mem_cons_of_mem _ (List.mem_cons_self ..)))))
      (holds.readEntry _ (List.mem_append_left _ (List.mem_cons_of_mem _
        (List.mem_cons_self ..))))
      (by rw [length_padded]; decide) (length_padded data) (by decide)
      (noRivals holds.fileNames (by decide))
      (.verbatim List.prefix_rfl (length_padded data))
  map := .mapped (mapFiles holds)

end Mapped

section Sessions

variable {platform : Platform} {crates : Crates} {backing : Bytes}
variable {archive : ZipArchive} {data : Bytes}

/-- A written image is opened, and what is read is its content and its disk. -/
theorem opened_of_written
    {image : ImageDescription} {content : Bytes} (wide : platform.Is64Bit)
    (written : WrittenImage crates backing image content) :
    ∃ reader, openReader crates backing = .ok reader ∧
      (reader.readImageStreamContent platform crates).fed.flatten = content ∧
      ∀ operations,
        ∀ event ∈ run (Aff4Reader.perform platform crates) reader operations,
          Aff4Reader.Obeys written.map.disk event := by
  obtain ⟨loadedMap, opened, presents⟩ := written.exists_presents wide
  obtain ⟨-, fed⟩ := presents.holds.readImageStreamContent written.stream.size wide
  exact ⟨_, opened, fed, presents.session_obeys wide⟩

/-- The data of `test_aff4` is read back, padded or truncated. -/
theorem testAff4_session_obeys (wide : platform.Is64Bit)
    (opens : crates.zipArchiveNew backing = .ok archive)
    (holds : archive.Holds (testAff4 data)) :
    ∃ reader, openReader crates backing = .ok reader ∧
      (reader.readImageStreamContent platform crates).fed.flatten = padded data ∧
      ∀ operations,
        ∀ event ∈ run (Aff4Reader.perform platform crates) reader operations,
          Aff4Reader.Obeys (Disk.ofList (padded data)) event := by
  have length := length_padded data
  exact opened_of_written wide
    (@writtenDirect nullCompressor foreign_nullCompressor nullCompressor_ne_hash crates
      backing archive (padded data) (padded data) opens holds (nullCodec crates)
      (by omega) length (.verbatim List.prefix_rfl length))

/-- The data of `test_aff4_lz4` is read back too, unless its frame has the length of
a chunk: then the frame itself is read as the data. -/
theorem testAff4Lz4_session_obeys (wide : platform.Is64Bit)
    (codec : Codec crates .lz4 512)
    (opens : crates.zipArchiveNew backing = .ok archive)
    (holds : archive.Holds (testAff4Lz4 codec.encode data))
    (short : (codec.encode (padded data)).length < 2 ^ 32) :
    let content :=
      if (codec.encode (padded data)).length = chunkSize then codec.encode (padded data)
      else padded data
    ∃ reader, openReader crates backing = .ok reader ∧
      (reader.readImageStreamContent platform crates).fed.flatten = content ∧
      ∀ operations,
        ∀ event ∈ run (Aff4Reader.perform platform crates) reader operations,
          Aff4Reader.Obeys (Disk.ofList content) event := by
  have length := length_padded data
  by_cases full : (codec.encode (padded data)).length = chunkSize
  · rw [if_pos full]
    exact opened_of_written wide
      (@writtenDirect lz4Frame foreign_lz4Frame lz4Frame_ne_hash crates backing
        archive (codec.encode (padded data)) (codec.encode (padded data)) opens holds
        codec short full (.verbatim List.prefix_rfl full))
  · rw [if_neg full]
    exact opened_of_written wide
      (@writtenDirect lz4Frame foreign_lz4Frame lz4Frame_ne_hash crates backing
        archive (codec.encode (padded data)) (padded data) opens holds codec short
        length (.encoded List.prefix_rfl (le_of_eq length) full))

/-- The data of `test_aff4_map` is read back behind a gap of zeros. -/
theorem testAff4Map_session_obeys (wide : platform.Is64Bit)
    (opens : crates.zipArchiveNew backing = .ok archive)
    (holds : archive.Holds (testAff4Map data)) :
    ∃ reader, openReader crates backing = .ok reader ∧
      (reader.readImageStreamContent platform crates).fed.flatten = padded data ∧
      ∀ operations,
        ∀ event ∈ run (Aff4Reader.perform platform crates) reader operations,
          Aff4Reader.Obeys (Disk.ofList (List.replicate 512 0 ++ padded data))
            event := by
  rw [← disk_mapFiles holds]
  exact opened_of_written wide (writtenMapped opens holds)

/-- `test_aff4_with_geometry` is opened with its geometry, unless there are no chunks
or no segments of them: then it is refused as malformed. -/
theorem testAff4WithGeometry_cases {chunkSize chunksPerSegment : UInt64}
    (opens : crates.zipArchiveNew backing = .ok archive)
    (holds : archive.Holds (testAff4WithGeometry chunkSize chunksPerSegment)) :
    if chunkSize = 0 ∨ chunksPerSegment = 0 then
      ∃ message, openReader crates backing = .error (.badFormat message)
    else
      ∃ reader, openReader crates backing = .ok reader ∧
        reader.chunkSize = chunkSize ∧ reader.chunksPerSegment = chunksPerSegment := by
  have turtle := ZipArchive.readEntryToString_of_asBytes _
    (holds.readEntry _ (List.mem_cons_self ..))
  have renders : RendersDocument .separator _ (prefixes ++ imageStreamStatement streamArn
      512 chunkSize.toNat chunksPerSegment.toNat "aff4:NullCompressor".toList) :=
    renders_directImage foreign_nullCompressor nullCompressor_ne_hash chunkSize
      chunksPerSegment
  have parsed := (describedBy _).outcome_parseTurtle renders
  have degenerate :
      (@directImage nullCompressor foreign_nullCompressor nullCompressor_ne_hash chunkSize
        chunksPerSegment).stream.Nondegenerate ↔
        ¬(chunkSize = 0 ∨ chunksPerSegment = 0) :=
    not_or.symm
  by_cases zero : chunkSize = 0 ∨ chunksPerSegment = 0
  · rw [if_pos zero]
    rw [if_neg (degenerate.not.mpr (not_not.mpr zero))] at parsed
    obtain ⟨message, refused⟩ := exists_badFormat_of_outcome parsed
    refine ⟨message, ?_⟩
    simp only [openReader, opens, Except.mapError, bind, Except.bind, turtle, refused]
  · rw [if_neg zero]
    rw [if_pos (degenerate.mpr zero), outcome_eq_ok] at parsed
    let container : DirectContainer crates backing :=
      ⟨⟨archive, _, _, opens, turtle, parsed⟩, rfl⟩
    exact ⟨container.reader, container.openReader_eq, rfl, rfl⟩

end Sessions

/-! Fixtures of three bytes, one with a frame of one block that is not compressed. -/

section Samples

def mapArchive : ZipArchive :=
  .ofEntries (testAff4Map [0x61, 0x62, 0x63]) (by decide +kernel)

theorem holds_mapArchive : mapArchive.Holds (testAff4Map [0x61, 0x62, 0x63]) :=
  ZipArchive.holds_ofEntries _ (by decide +kernel)

theorem testAff4Map_session_obeys_sample :
    ∃ reader, openReader (.opening mapArchive) [] = .ok reader ∧
      (reader.readImageStreamContent .debug64 (.opening mapArchive)).fed.flatten =
        padded [0x61, 0x62, 0x63] ∧
      ∀ operations,
        ∀ event ∈ run (Aff4Reader.perform .debug64 (.opening mapArchive)) reader
          operations,
          Aff4Reader.Obeys
            (Disk.ofList (List.replicate 512 0 ++ padded [0x61, 0x62, 0x63])) event :=
  testAff4Map_session_obeys Platform.is64Bit_debug64 rfl holds_mapArchive

/-- The head of a frame with independent blocks, and of a block that is stored. -/
def frameHead (length : Nat) : Bytes :=
  [0x04, 0x22, 0x4D, 0x18, 0x60, 0x40, 0x82] ++
    u32ToLeBytes (UInt32.ofNat (2 ^ 31 + length))

/-- A frame of one stored block. -/
def storedFrame (chunk : Bytes) : Bytes :=
  frameHead chunk.length ++ chunk ++ [0, 0, 0, 0]

/-- What is between the head of a frame of one stored block and its end. -/
def frameBlock (frame : Bytes) : Except String Bytes :=
  let chunk := (frame.drop 11).take (frame.length - 15)
  if frame = storedFrame chunk then .ok chunk else .error "not a stored block"

theorem frameBlock_storedFrame (chunk : Bytes) :
    frameBlock (storedFrame chunk) = .ok chunk := by
  have head : (frameHead chunk.length).length = 11 := by simp [frameHead]
  have length : (storedFrame chunk).length - 15 = chunk.length := by
    simp only [storedFrame, List.length_append, head, List.length_cons, List.length_nil]
    omega
  have between : ((storedFrame chunk).drop 11).take ((storedFrame chunk).length - 15) =
      chunk := by
    rw [length, storedFrame, List.append_assoc, List.drop_left' head, List.take_left]
  rw [frameBlock, between, if_pos rfl]

def lz4Archive : ZipArchive :=
  .ofEntries (testAff4Lz4 storedFrame [0x61, 0x62, 0x63]) (by decide +kernel)

theorem holds_lz4Archive :
    lz4Archive.Holds (testAff4Lz4 storedFrame [0x61, 0x62, 0x63]) :=
  ZipArchive.holds_ofEntries _ (by decide +kernel)

def lz4Crates : Crates :=
  { Crates.opening lz4Archive with lz4Decode := frameBlock }

def lz4Codec : Codec lz4Crates .lz4 512 where
  encode := storedFrame
  decode_encode := fun chunk _ => frameBlock_storedFrame chunk
  encode_ne_nil := fun _ _ => List.append_ne_nil_of_right_ne_nil _ (List.cons_ne_nil _ _)

theorem testAff4Lz4_session_obeys_sample :
    let content :=
      if (storedFrame (padded [0x61, 0x62, 0x63])).length = chunkSize then
        storedFrame (padded [0x61, 0x62, 0x63])
      else padded [0x61, 0x62, 0x63]
    ∃ reader, openReader lz4Crates [] = .ok reader ∧
      (reader.readImageStreamContent .debug64 lz4Crates).fed.flatten = content ∧
      ∀ operations,
        ∀ event ∈ run (Aff4Reader.perform .debug64 lz4Crates) reader operations,
          Aff4Reader.Obeys (Disk.ofList content) event :=
  testAff4Lz4_session_obeys Platform.is64Bit_debug64 lz4Codec rfl holds_lz4Archive
    (by decide +kernel)

/-- The fixture with segments of some number of chunks. -/
def geometryArchive (chunksPerSegment : UInt64)
    (short : ∀ entry ∈ testAff4WithGeometry 4096 chunksPerSegment,
      entry.2.length < 2 ^ 63) : ZipArchive :=
  .ofEntries (testAff4WithGeometry 4096 chunksPerSegment) short

theorem short_degenerate :
    ∀ entry ∈ testAff4WithGeometry 4096 0, entry.2.length < 2 ^ 63 := by
  decide +kernel

theorem short_regular :
    ∀ entry ∈ testAff4WithGeometry 4096 8, entry.2.length < 2 ^ 63 := by
  decide +kernel

theorem testAff4WithGeometry_cases_sample :
    (∃ message, openReader (.opening (geometryArchive 0 short_degenerate)) [] =
      .error (.badFormat message)) ∧
    ∃ reader, openReader (.opening (geometryArchive 8 short_regular)) [] = .ok reader ∧
      reader.chunkSize = 4096 ∧ reader.chunksPerSegment = 8 := by
  have refused := @testAff4WithGeometry_cases
    (.opening (geometryArchive 0 short_degenerate)) [] _ 4096 0 rfl
    (ZipArchive.holds_ofEntries _ (by decide +kernel))
  have opened := @testAff4WithGeometry_cases
    (.opening (geometryArchive 8 short_regular)) [] _ 4096 8 rfl
    (ZipArchive.holds_ofEntries _ (by decide +kernel))
  rw [if_pos (.inr rfl)] at refused
  rw [if_neg (by decide)] at opened
  exact ⟨refused, opened⟩

end Samples

end Testutil
end Aff4
