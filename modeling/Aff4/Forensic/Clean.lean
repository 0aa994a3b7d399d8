import Aff4.Forensic
import Aff4.Map.ReferenceDisk
import Aff4.Map.Symbolic
import Aff4.Reader.Exactness
import Aff4.Turtle.Digests

/-!
# What a clean audit means

An audit without findings has recomputed every declared digest it knows the
algorithm of, over the whole content pass, and has met no unreadable region.
-/

namespace Aff4

open Rust Rust.Str

/-! ## Algorithms and digits -/

/-- The name of an algorithm. -/
def Algorithm.name : Algorithm → Text
  | .md5 => "MD5".toList
  | .sha1 => "SHA1".toList
  | .sha256 => "SHA256".toList
  | .sha512 => "SHA512".toList
  | .blake2b => "Blake2b".toList

/-- The algorithm that has a name, up to letter case. -/
def Algorithm.named (name : Text) : Option Algorithm :=
  [.md5, .sha1, .sha256, .sha512, .blake2b].find? fun algorithm =>
    toAsciiUppercase algorithm.name = toAsciiUppercase name

/-- A byte string in lowercase hexadecimal digits. -/
def hexText (bytes : Bytes) : Text :=
  bytes.flatMap fun byte =>
    [Nat.digitChar (byte.toNat / 16), Nat.digitChar (byte.toNat % 16)]

/-- The audit knows the algorithms by their names. -/
theorem Algorithm.forAlgorithm_eq_named (name : Text) :
    Algorithm.forAlgorithm name = Algorithm.named name := by
  have md5 : toAsciiUppercase Algorithm.md5.name = "MD5".toList := by decide
  have sha1 : toAsciiUppercase Algorithm.sha1.name = "SHA1".toList := by decide
  have sha256 : toAsciiUppercase Algorithm.sha256.name = "SHA256".toList := by decide
  have sha512 : toAsciiUppercase Algorithm.sha512.name = "SHA512".toList := by decide
  have blake2b : toAsciiUppercase Algorithm.blake2b.name = "BLAKE2B".toList := by decide
  simp only [forAlgorithm, named, List.find?_cons, List.find?_nil, md5, sha1, sha256,
    sha512, blake2b]
  -- Both sides compare one text with the five names, in the same order.
  generalize toAsciiUppercase name = upper, "MD5".toList = md5, "SHA1".toList = sha1,
    "SHA256".toList = sha256, "SHA512".toList = sha512, "BLAKE2B".toList = blake2b
  grind

theorem toHex_eq_hexText (bytes : Bytes) : toHex bytes = hexText bytes := by
  have digit : ∀ n : Fin 16, hexDigit n = Nat.digitChar n := by decide
  rw [toHex, hexText]
  refine List.flatMap_congr fun byte _ => ?_
  have below := byte.toNat_lt
  have high := digit ⟨byte.toNat / 16, by omega⟩
  have low := digit ⟨byte.toNat % 16, by omega⟩
  dsimp only at high low
  rw [high, low]

/-! ## Declared digests -/

/-- The node of the ImageStream that a disk image is read from. -/
def imageStreamNode (turtle : Text) : Option Text :=
  let blocks := turtleBlocks turtle
  match blocks.find? (contains · "aff4:Map".toList) with
  | some mapBlock => do
      let depArn ← extractPredIri mapBlock "aff4:dependentStream".toList
      blocks.find? fun block =>
        contains block "ImageStream".toList && contains block depArn
  | none => blocks.find? (contains · "ImageStream".toList)

theorem imageHashes_of_parseImageStreamBlock
    {block : Text} {mapOverride : Option (MapMeta × UInt64)}
    {metadata : StreamMeta}
    (parsed : parseImageStreamBlock block mapOverride = .ok metadata) :
    metadata.imageHashes = parseImageHashes block := by
  simp only [parseImageStreamBlock, bind, Except.bind, pure, Except.pure, throw,
    throwThe, MonadExceptOf.throw] at parsed
  repeat' split at parsed
  all_goals cases parsed
  · rfl
  · rfl

/-- The digests of an accepted disk image are those of its ImageStream node. -/
theorem imageHashes_of_parseTurtle
    {turtle : Text} {metadata : StreamMeta}
    (parsed : parseTurtle turtle = .ok metadata) :
    ∃ node, imageStreamNode turtle = some node ∧
      metadata.imageHashes = parseImageHashes node := by
  cases encrypted :
      (turtleBlocks turtle).find? (contains · "aff4:EncryptedStream".toList)
  case some =>
    simp only [parseTurtle, encrypted, bind, Except.bind, throw, throwThe,
      MonadExceptOf.throw] at parsed
    cases parsed
  cases found : (turtleBlocks turtle).find? (contains · "aff4:Map".toList) with
  | some mapBlock =>
      simp only [parseTurtle, encrypted, found, parseMapTurtle, bind, Except.bind,
        throw, throwThe, MonadExceptOf.throw] at parsed
      repeat' split at parsed
      all_goals first
        | cases parsed
        | skip
      next depArn dependent _ node selected =>
        refine ⟨node, ?_, imageHashes_of_parseImageStreamBlock parsed⟩
        simp only [imageStreamNode, found, dependent, Option.bind_eq_bind,
          Option.bind_some]
        exact selected
  | none =>
      simp only [parseTurtle, encrypted, found, throw, throwThe,
        MonadExceptOf.throw] at parsed
      split at parsed
      next node selected =>
        refine ⟨node, ?_, imageHashes_of_parseImageStreamBlock parsed⟩
        simpa only [imageStreamNode, found] using selected
      next => cases parsed

/-! ## Targets of a map -/

namespace MapContainer

variable {crates : Crates} {backing : Bytes} (container : MapContainer crates backing)

/-- The names of the targets: the lines of the `/idx` file that are not blank. -/
def targetNames : List Text :=
  ((Str.lines container.idxData).map trim).filter fun name => !name.isEmpty

theorem targets_eq :
    container.loadedMap.targets =
      container.targetNames.map (classifyTarget · container.mapMeta.imageStreamArn) := by
  change parseIdx container.idxData container.mapMeta.imageStreamArn = _
  rw [parseIdx, targetNames, List.filter_map, List.map_map]
  rfl

/-- A record targets data that could not be acquired, by a full name of it. -/
def TargetsUnreadable (entry : MapEntry) : Prop :=
  ∃ name, container.targetNames[entry.targetId.toNat]? = some name ∧
    name ≠ container.mapMeta.imageStreamArn ∧ "#UnreadableData".toList <:+ name

end MapContainer

theorem MapContainer.TargetsUnreadable.targets
    {crates : Crates} {backing : Bytes} {container : MapContainer crates backing}
    {entry : MapEntry} (unreadable : container.TargetsUnreadable entry) :
    container.loadedMap.targets[entry.targetId.toNat]? = some (.tile .unreadable) := by
  obtain ⟨name, found, foreign, ends⟩ := unreadable
  rw [container.targets_eq, List.getElem?_map, found, Option.map_some,
    classifyTarget_of_unreadableData foreign ends]

/-! ## The verdict -/

section

variable {platform : Platform} {crates : Crates} {digests : DigestCrates}

theorem foldl_update (hasher : Hasher digests) (pieces : List Bytes) :
    pieces.foldl Hasher.update hasher =
      { hasher with
        state := pieces.foldl (digests hasher.algorithm).update hasher.state } := by
  induction pieces generalizing hasher with
  | nil => rfl
  | cons piece pieces inductionHypothesis =>
      rw [List.foldl_cons, inductionHypothesis]
      rfl

/-- Every job is fed every slice. -/
theorem foldl_updateJobs (jobs : List (HashJob digests)) (pieces : List Bytes) :
    pieces.foldl (updateJobs digests) jobs =
      jobs.map fun job => (job.1, pieces.foldl Hasher.update job.2) := by
  induction pieces generalizing jobs with
  | nil => simp
  | cons piece pieces inductionHypothesis =>
      rw [List.foldl_cons, inductionHypothesis, updateJobs, List.map_map]
      rfl

/-- A fresh hasher fed piece by piece has the digest of the whole. -/
theorem finalizeHex_foldl_update
    {algorithm : Algorithm} (pieces : List Bytes) :
    (pieces.foldl Hasher.update
      ({ algorithm, state := (digests algorithm).new } : Hasher digests)).finalizeHex =
      toHex ((digests algorithm).digest pieces.flatten) := by
  rw [foldl_update, Hasher.finalizeHex, Digest.digest,
    Digest.finalize_foldl_update]

/-- A clean verification recomputed every stored digest whose algorithm it
knows, over the whole content, and found it equal. -/
theorem digest_of_verifyImageHashes
    {reader : Aff4Reader}
    (clean : verifyImageHashes platform crates digests reader = .ok [])
    {hash : StoredHash} (stored : hash ∈ reader.imageHashes)
    {algorithm : Algorithm}
    (known : Algorithm.forAlgorithm hash.algorithm = some algorithm) :
    (reader.readImageStreamContent platform crates).result = .ok () ∧
      toHex ((digests algorithm).digest
        (reader.readImageStreamContent platform crates).fed.flatten) =
        hash.hex := by
  have job : (hash, ({ algorithm, state := (digests algorithm).new } :
      Hasher digests)) ∈ hashJobs digests reader.imageHashes := by
    refine List.mem_filterMap.mpr ⟨hash, stored, ?_⟩
    simp [Hasher.forAlgorithm, known]
  have someJobs : (hashJobs digests reader.imageHashes).isEmpty = false := by
    cases jobs : hashJobs digests reader.imageHashes with
    | nil => rw [jobs] at job; cases job
    | cons => rfl
  simp only [verifyImageHashes, someJobs] at clean
  obtain ⟨_, returns, reported⟩ := Outcome.bind_eq_ok.mp clean
  refine ⟨returns, ?_⟩
  have noneReported := (List.append_eq_nil_iff.mp (Outcome.ok.inj reported)).2
  rw [foldl_updateJobs] at noneReported
  have reconciled := List.filterMap_eq_nil_iff.mp noneReported _
    (List.mem_map.mpr ⟨_, job, rfl⟩)
  rw [jobAnomaly] at reconciled
  rw [← finalizeHex_foldl_update]
  by_contra differs
  simp only [if_neg differs] at reconciled
  cases reconciled

/-- A clean verification met no unreadable region. -/
theorem unreadableRegions_of_verifyImageHashes
    {reader : Aff4Reader}
    (clean : verifyImageHashes platform crates digests reader = .ok []) :
    reader.unreadableRegions = [] := by
  unfold verifyImageHashes at clean
  simp only at clean
  split at clean
  next => simpa using clean
  next =>
    obtain ⟨_, _, reported⟩ := Outcome.bind_eq_ok.mp clean
    simpa using (List.append_eq_nil_iff.mp (Outcome.ok.inj reported)).1

/-- An audit reports what the verification of the opened image found. -/
theorem auditImage_of_verified
    (toFinding : Aff4Anomaly → φ) {backing : Bytes} {reader : Aff4Reader}
    (opened : openReader crates backing = .ok reader) {anomalies : List Aff4Anomaly}
    (verified : verifyImageHashes platform crates digests reader = .ok anomalies) :
    auditImage platform crates digests toFinding backing =
      .ok (anomalies.map toFinding) := by
  rw [auditImage, opened, Outcome.ofExcept_ok, Outcome.ok_bind, verified]
  rfl

/-- A clean audit verified the image it opened without findings. -/
theorem verifyImageHashes_of_clean
    {toFinding : Aff4Anomaly → φ} {backing : Bytes} {reader : Aff4Reader}
    (opened : openReader crates backing = .ok reader)
    (clean : auditImage platform crates digests toFinding backing = .ok []) :
    verifyImageHashes platform crates digests reader = .ok [] := by
  rw [auditImage, opened, Outcome.ofExcept_ok, Outcome.ok_bind] at clean
  obtain ⟨anomalies, verified, reported⟩ := Outcome.bind_eq_ok.mp clean
  rw [Outcome.pure_eq, Outcome.ok.injEq, List.map_eq_nil_iff] at reported
  rw [verified, reported]

/-- A clean audit means a reconciled image, as far as the audit can compute and its
parser reads lists: every digest that the ImageStream node declares under an
algorithm of this build was recomputed over the content pass and equals the stored
value, and no nonempty record of the map targets unreadable data. -/
theorem clean_reconciles
    (toFinding : Aff4Anomaly → φ) {backing : Bytes} {reader : Aff4Reader}
    (container : Container crates backing)
    (opened : openReader crates backing = .ok reader)
    (clean : verifyImageHashes platform crates digests reader = .ok [] ∨
      auditImage platform crates digests toFinding backing = .ok []) :
    (∃ node, imageStreamNode container.turtle = some node ∧
      ∀ digest algorithm, DeclaresDigest node digest →
        Algorithm.named digest.algorithm = some algorithm →
        (reader.readImageStreamContent platform crates).result = .ok () ∧
          hexText ((digests algorithm).digest
            (reader.readImageStreamContent platform crates).fed.flatten) =
            toAsciiLowercase digest.hex) ∧
    ∀ map : MapContainer crates backing, ∀ entry ∈ map.records,
      0 < entry.length → ¬map.TargetsUnreadable entry := by
  have verified : verifyImageHashes platform crates digests reader = .ok [] := by
    rcases clean with verified | audited
    · exact verified
    · exact verifyImageHashes_of_clean opened audited
  constructor
  · obtain ⟨node, selected, hashes⟩ :=
      imageHashes_of_parseTurtle container.metadata_eq
    refine ⟨node, selected, fun digest algorithm declared known => ?_⟩
    have stored : digest.hash ∈ reader.imageHashes := by
      rw [container.eq_readerWith opened]
      change digest.hash ∈ container.metadata.imageHashes
      rw [hashes]
      exact mem_parseImageHashes declared
    rw [← Algorithm.forAlgorithm_eq_named] at known
    rw [← toHex_eq_hexText]
    exact digest_of_verifyImageHashes verified stored known
  · intro map entry member nonempty unreadable
    have regions := unreadableRegions_of_verifyImageHashes verified
    rw [map.openReader_eq] at opened
    cases opened
    have region : (entry.mapOffset, entry.length) ∈
        map.reader.unreadableRegions :=
      List.mem_map.mpr ⟨entry,
        List.mem_filter.mpr ⟨MapContainer.mem_entries.mpr ⟨member, nonempty⟩,
          decide_eq_true unreadable.targets⟩, rfl⟩
    rw [regions] at region
    cases region

end

/-! A map over a stream of five bytes, of which two zeros are left out, with its MD5
and a Tiger digest that is wrong: the audit is clean, since it cannot compute
Tiger. -/

/-- A digest crate of which some digests are known. -/
def Digest.ofTable (table : List (Bytes × Bytes)) : Digest where
  State := Bytes
  new := []
  update := fun state data => state ++ data
  finalize := fun state => (table.lookup state).getD []
  finalize_update_update := fun state first second => by
    rw [List.append_assoc]
  finalize_update_nil := fun state => by
    rw [List.append_nil]

/-- The digest crates, of which the digests of one content are known. -/
def DigestCrates.ofContent (content : Bytes) (known : List (Algorithm × Bytes)) :
    DigestCrates :=
  fun algorithm => .ofTable [(content, (known.lookup algorithm).getD [])]

namespace CleanSample

def content : Bytes := [0x41, 0x42, 0x00, 0x00, 0x43]

def md5Bytes : Bytes :=
  [0xf7, 0x3e, 0x6e, 0xc1, 0x7e, 0x12, 0xe8, 0xc2, 0xb4, 0x57, 0x0e, 0x77, 0x18, 0xd4,
    0xf7, 0x52]

def sha1Bytes : Bytes :=
  [0x10, 0x15, 0x3e, 0x8b, 0x97, 0x6a, 0x09, 0x7f, 0x6a, 0x28, 0x9f, 0xbd, 0x95, 0x8e,
    0xfa, 0xd0, 0xb6, 0x4f, 0x34, 0x75]

def sha256Bytes : Bytes :=
  [0xb7, 0xa1, 0x90, 0xfc, 0x73, 0xfa, 0x80, 0x89, 0x3e, 0x4e, 0x99, 0x4e, 0x60, 0x5f,
    0xf4, 0xad, 0x07, 0x20, 0x09, 0xa8, 0xf8, 0x23, 0x79, 0xa7, 0xe5, 0x7a, 0x33, 0xb2,
    0x82, 0xde, 0xb1, 0x67]

def sha512Bytes : Bytes :=
  [0xda, 0xe8, 0xa3, 0x8e, 0x3f, 0x4d, 0x66, 0xa1, 0x0a, 0xd6, 0x0d, 0x6c, 0x09, 0x3b,
    0xb9, 0x5b, 0xdd, 0x9a, 0xed, 0x65, 0x49, 0x9a, 0xd2, 0xa6, 0x7d, 0x67, 0xa9, 0xa6,
    0x26, 0xb7, 0x5a, 0x14, 0x6e, 0x8d, 0xe0, 0x60, 0x41, 0xea, 0x39, 0x8f, 0xcf, 0xf0,
    0xd2, 0x1b, 0x17, 0xed, 0x99, 0x8f, 0x67, 0x7c, 0x91, 0xc8, 0x25, 0x97, 0x5f, 0x3b,
    0x1d, 0x32, 0x75, 0xbb, 0x84, 0x6a, 0x6a, 0xa7]

def blake2bBytes : Bytes :=
  [0x8a, 0x2a, 0x75, 0xcd, 0xcd, 0x75, 0x70, 0x25, 0x8d, 0x11, 0x21, 0x3b, 0xae, 0xa1,
    0x0b, 0x8a, 0x41, 0xa2, 0x48, 0x19, 0xc3, 0x4e, 0x44, 0xa7, 0xc7, 0xd9, 0xd7, 0x4e,
    0x5c, 0x24, 0x75, 0x36, 0x9c, 0x7f, 0x82, 0x50, 0x48, 0x54, 0x22, 0x6f, 0xf0, 0x47,
    0x14, 0x83, 0xd2, 0xda, 0x2d, 0xeb, 0x6d, 0x10, 0x04, 0xc0, 0xdc, 0xf5, 0xc9, 0xf3,
    0xf1, 0x85, 0xe5, 0x51, 0xd8, 0x85, 0x4d, 0xd9]

def digests : DigestCrates :=
  .ofContent content [(.md5, md5Bytes), (.sha1, sha1Bytes), (.sha256, sha256Bytes),
    (.sha512, sha512Bytes), (.blake2b, blake2bBytes)]

def turtle (chunkSize secondDigest : Text) : Text :=
  "<m> a aff4:Map ; aff4:size 6 ; aff4:dependentStream <i> . ".toList ++
    "<i> a aff4:ImageStream ; aff4:chunksInSegment 3 ; aff4:size 5 ; ".toList ++
    "aff4:chunkSize ".toList ++ chunkSize ++ " ; aff4:hash ".toList ++
    "\"f73e6ec17e12e8c2b4570e7718d4f752\"^^aff4:MD5 , ".toList ++ secondDigest ++
    " . ".toList

def md5 : DigestLiteral where
  hex := "f73e6ec17e12e8c2b4570e7718d4f752".toList
  algorithm := "MD5".toList
  hex_ne_nil := List.cons_ne_nil _ _
  hexdigits := forall_mem_of_all rfl
  algorithm_ne_nil := CommaSample.md5.algorithm_ne_nil
  alphanumeric := CommaSample.md5.alphanumeric

def tiger : DigestLiteral where
  hex := "00".toList
  algorithm := "Tiger".toList
  hex_ne_nil := List.cons_ne_nil _ _
  hexdigits := forall_mem_of_all rfl
  algorithm_ne_nil := List.cons_ne_nil _ _
  alphanumeric := forall_mem_of_all rfl

def mapMeta : MapMeta where
  mapArn := "m".toList
  imageStreamArn := "i".toList
  gapIsSymbolicFf := false

def metadata (chunkSize : UInt64) (second : StoredHash) : StreamMeta where
  streamArn := "i".toList
  virtualSize := 6
  imageStreamSize := 5
  chunkSize := chunkSize
  chunksPerSegment := 3
  compression := .null
  imageHashes := [md5.hash, second]
  mapMeta := some mapMeta

theorem parseTurtle_turtle :
    parseTurtle (turtle ['2'] tiger.term) = .ok (metadata 2 tiger.hash) := by
  -- The kernel compares lists of characters faster than it unfolds string literals.
  unfold turtle
  simp only [String.reduceToList]
  decide +kernel

def idx : Text := "i\nhttp://aff4.org/Schema#UnreadableData\n".toList

def entries : List (Text × Bytes) :=
  [("information.turtle".toList, Str.asBytes (turtle ['2'] tiger.term)),
    ("m/map".toList, Small.mapFile [⟨0, 5, 0, 0⟩]),
    ("m/idx".toList, Str.asBytes idx),
    ("i/00000000.index".toList, indexEntry 0 2 ++ indexEntry 0 0 ++ indexEntry 2 1),
    ("i/00000000".toList, [0x41, 0x42, 0x43])]

def archive : ZipArchive := .ofEntries entries (by decide +kernel)

def container : MapContainer (.opening archive) [] where
  archive := archive
  turtle := turtle ['2'] tiger.term
  metadata := metadata 2 tiger.hash
  archive_eq := rfl
  turtle_eq := ZipArchive.readEntryToString_of_asBytes _
    (ZipArchive.readEntry_ofEntries rfl)
  metadata_eq := parseTurtle_turtle
  mapMeta := mapMeta
  mapData := Small.mapFile [⟨0, 5, 0, 0⟩]
  idxData := idx
  mapMeta_eq := rfl
  mapData_eq := rfl
  idxData_eq := ZipArchive.readEntryToString_of_asBytes idx
    (ZipArchive.readEntry_ofEntries rfl)

theorem verifyImageHashes_eq :
    verifyImageHashes .debug64 (.opening archive) digests container.reader = .ok [] := by
  decide +kernel

def node : Text :=
  "<i> a aff4:ImageStream   aff4:chunksInSegment 3   aff4:size 5   ".toList ++
    "aff4:chunkSize 2   aff4:hash ".toList ++ md5.term ++ " , ".toList ++ tiger.term

theorem imageStreamNode_turtle :
    imageStreamNode (turtle ['2'] tiger.term) = some node := by
  unfold turtle node
  simp only [String.reduceToList]
  decide +kernel

theorem space : ∀ c ∈ [' '], isWhitespace c = true := by decide

def comma : CommaGap where
  left := [' ']
  right := [' ']
  left_spaces := space
  right_spaces := space

theorem declaresDigest_tiger : DeclaresDigest node tiger :=
  ⟨{ before := "<i> a aff4:ImageStream   aff4:chunksInSegment 3   aff4:size 5   ".toList ++
        "aff4:chunkSize 2   ".toList
     gap := [' ']
     first := md5
     rest := [(comma, tiger)]
     after := []
     before_ends := .inr ⟨_, ' ', (List.dropLast_append_getLast? ' ' rfl).symm, rfl⟩
     gap_ne_nil := List.cons_ne_nil _ _
     gap_spaces := space
     after_begins := .inl rfl
     apart := by decide },
    rfl, List.mem_cons_of_mem _ (List.mem_cons_self ..)⟩

/-- A clean audit does not mean that every declared digest was recomputed. -/
theorem clean_without_recomputation :
    openReader (.opening archive) [] = .ok container.reader ∧
    verifyImageHashes .debug64 (.opening archive) digests container.reader = .ok [] ∧
    imageStreamNode (turtle ['2'] tiger.term) = some node ∧
    DeclaresDigest node tiger ∧
    ∀ algorithm, hexText ((digests algorithm).digest
        (container.reader.readImageStreamContent .debug64
          (.opening archive)).fed.flatten) ≠ tiger.hex := by
  refine ⟨container.openReader_eq, verifyImageHashes_eq, imageStreamNode_turtle,
    declaresDigest_tiger, fun algorithm => ?_⟩
  cases algorithm with
  | md5 => decide +kernel
  | sha1 => decide +kernel
  | sha256 => decide +kernel
  | sha512 => decide +kernel
  | blake2b => decide +kernel

theorem clean_reconciles_sample :
    (∃ node, imageStreamNode container.turtle = some node ∧
      ∀ digest algorithm, DeclaresDigest node digest →
        Algorithm.named digest.algorithm = some algorithm →
        (container.reader.readImageStreamContent .debug64
          (.opening archive)).result = .ok () ∧
          hexText ((digests algorithm).digest
            (container.reader.readImageStreamContent .debug64
              (.opening archive)).fed.flatten) = toAsciiLowercase digest.hex) ∧
    ∀ map : MapContainer (.opening archive) [], ∀ entry ∈ map.records,
      0 < entry.length → ¬map.TargetsUnreadable entry :=
  clean_reconciles id container.toContainer container.openReader_eq (.inl verifyImageHashes_eq)

end CleanSample
end Aff4
