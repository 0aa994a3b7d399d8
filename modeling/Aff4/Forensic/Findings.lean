import Aff4.Forensic.Clean

/-!
# What an audit finds

The findings about an image follow from its unreadable regions, its declared
digests and its content alone, however the content is stored.
-/

namespace Aff4

open Rust Rust.Str

section

variable (digests : DigestCrates)

/-- The finding about a stored digest of a content: none if no algorithm of this
build has its name, or if it is the digest of the content in lowercase hex. -/
def digestFinding (content : Bytes) (stored : StoredHash) : Option Aff4Anomaly := do
  let algorithm ← Algorithm.named stored.algorithm
  let computed := hexText ((digests algorithm).digest content)
  if toAsciiLowercase stored.hex = computed then none
  else some (.hashMismatch stored.algorithm stored.hex computed)

/-- The findings about an image: one for each unreadable region, and then one for
each stored digest that the content does not have. -/
def findings
    (unreadable : List (UInt64 × UInt64)) (stored : List StoredHash)
    (content : Bytes) : List Aff4Anomaly :=
  unreadable.map (fun (offset, length) => .hashUnreadable offset length) ++
    stored.filterMap (digestFinding digests content)

end

theorem digestFinding_eq
    (digests : DigestCrates) (content : Bytes) (stored : StoredHash) :
    digestFinding digests content stored =
      (Algorithm.forAlgorithm stored.algorithm).bind fun algorithm =>
        if toAsciiLowercase stored.hex = toHex ((digests algorithm).digest content) then
          none
        else
          some (.hashMismatch stored.algorithm stored.hex
            (toHex ((digests algorithm).digest content))) := by
  simp only [Algorithm.forAlgorithm_eq_named, toHex_eq_hexText]
  rfl

/-! ## Stored digests -/

/-- A digest that was parsed is in lowercase. -/
theorem lowercase_of_parseHashTerm {token : Text} {hash : StoredHash}
    (parsed : parseHashTerm token = some hash) :
    toAsciiLowercase hash.hex = hash.hex := by
  simp only [parseHashTerm, Option.bind_eq_bind, Option.bind_eq_some_iff] at parsed
  obtain ⟨rest, -, ⟨hex, dtype⟩, -, parsed⟩ := parsed
  split at parsed
  · cases parsed
  · split at parsed
    · cases parsed
    · cases parsed
      exact toAsciiLowercase_toAsciiLowercase hex

/-- What a scan collects was parsed. -/
theorem exists_parseHashTerm_of_mem_scanImageHashes
    {inList : Bool} {tokens : List Text} {hash : StoredHash}
    (collected : hash ∈ scanImageHashes inList tokens) :
    ∃ token ∈ tokens, parseHashTerm token = some hash := by
  induction tokens generalizing inList with
  | nil => cases inList <;> cases collected
  | cons token rest inductionHypothesis =>
      have later {flag : Bool} (inRest : hash ∈ scanImageHashes flag rest) :
          ∃ token' ∈ token :: rest, parseHashTerm token' = some hash := by
        obtain ⟨token', member, parsed⟩ := inductionHypothesis inRest
        exact ⟨token', List.mem_cons_of_mem _ member, parsed⟩
      cases inList with
      | false => exact later collected
      | true =>
          rw [scanImageHashes] at collected
          split at collected
          · exact later collected
          · split at collected
            next first parsed =>
              rcases List.mem_cons.mp collected with rfl | inRest
              · exact ⟨token, List.mem_cons_self .., parsed⟩
              · exact later inRest
            next => exact later collected

/-- The stored digests of an opened reader were parsed. -/
theorem exists_parseHashTerm_of_opened
    {crates : Crates} {reader : Aff4Reader} (opened : reader.Opened crates) :
    ∀ hash ∈ reader.imageHashes, ∃ token, parseHashTerm token = some hash := by
  obtain ⟨turtle, metadata, parsed, hashes⟩ : ∃ turtle metadata,
      parseTurtle turtle = .ok metadata ∧
        reader.imageHashes = metadata.imageHashes := by
    obtain ⟨backing, pos, opens⟩ := opened
    rcases openReader_cases opens with ⟨container, same⟩ | ⟨container, same⟩
    · exact ⟨_, _, container.metadata_eq, congrArg Aff4Reader.imageHashes same⟩
    · exact ⟨_, _, container.metadata_eq, congrArg Aff4Reader.imageHashes same⟩
  intro hash member
  obtain ⟨node, -, declared⟩ := imageHashes_of_parseTurtle parsed
  rw [hashes, declared, parseImageHashes] at member
  obtain ⟨token, -, term⟩ := exists_parseHashTerm_of_mem_scanImageHashes member
  exact ⟨token, term⟩

/-- The stored digests of an opened reader are in lowercase. -/
theorem lowercase_of_opened
    {crates : Crates} {reader : Aff4Reader} (opened : reader.Opened crates) :
    ∀ hash ∈ reader.imageHashes, toAsciiLowercase hash.hex = hash.hex := by
  intro hash member
  obtain ⟨token, term⟩ := exists_parseHashTerm_of_opened opened hash member
  exact lowercase_of_parseHashTerm term

/-! ## The verdict -/

section

variable {platform : Platform} {crates : Crates} {digests : DigestCrates}

/-- The findings of jobs that were fed a content piece by piece are those about
the content. -/
theorem filterMap_jobAnomaly
    {stored : List StoredHash}
    (lowercase : ∀ hash ∈ stored, toAsciiLowercase hash.hex = hash.hex)
    (pieces : List Bytes) :
    (pieces.foldl (updateJobs digests) (hashJobs digests stored)).filterMap
        (jobAnomaly digests) =
      stored.filterMap (digestFinding digests pieces.flatten) := by
  rw [foldl_updateJobs, hashJobs, List.map_filterMap, List.filterMap_filterMap]
  apply List.filterMap_congr
  intro hash member
  rw [digestFinding_eq, lowercase hash member]
  cases known : Algorithm.forAlgorithm hash.algorithm with
  | none => simp [Hasher.forAlgorithm, known]
  | some algorithm =>
      have computed := @finalizeHex_foldl_update digests algorithm pieces
      simp only [Hasher.forAlgorithm, known, Option.map_some, Option.bind_some,
        jobAnomaly, computed]
      simp only [eq_comm]

/-- A verification whose content pass ends well finds what there is to find about
the content. -/
theorem verifyImageHashes_of_lowercase
    {reader : Aff4Reader}
    (lowercase : ∀ hash ∈ reader.imageHashes, toAsciiLowercase hash.hex = hash.hex)
    (returns : (reader.readImageStreamContent platform crates).result = .ok ()) :
    verifyImageHashes platform crates digests reader =
      .ok (findings digests reader.unreadableRegions reader.imageHashes
        (reader.readImageStreamContent platform crates).fed.flatten) := by
  have reported := @filterMap_jobAnomaly digests reader.imageHashes lowercase
    (reader.readImageStreamContent platform crates).fed
  rw [verifyImageHashes]
  cases jobs : hashJobs digests reader.imageHashes with
  | nil =>
      rw [jobs, foldl_updateJobs, List.map_nil, List.filterMap_nil] at reported
      rw [findings, ← reported, List.append_nil]
      rfl
  | cons job rest =>
      rw [jobs] at reported
      simp only [List.isEmpty_cons, Bool.false_eq_true, if_false, returns,
        Outcome.ok_bind, reported, Outcome.pure_eq]
      rfl

theorem verifyImageHashes_of_content
    {reader : Aff4Reader} (opened : reader.Opened crates)
    (returns : (reader.readImageStreamContent platform crates).result = .ok ()) :
    verifyImageHashes platform crates digests reader =
      .ok (findings digests reader.unreadableRegions reader.imageHashes
        (reader.readImageStreamContent platform crates).fed.flatten) :=
  verifyImageHashes_of_lowercase (lowercase_of_opened opened) returns

/-- Whenever the content pass of an opened reader ends well, a verification finds
what there is to find about its unreadable regions, its stored digests and its
content; two readers that share these and their map are told the same. -/
theorem verifyImageHashes_eq_findings
    {reader : Aff4Reader} (opened : reader.Opened crates)
    (returns : (reader.readImageStreamContent platform crates).result = .ok ()) :
    verifyImageHashes platform crates digests reader =
        .ok (findings digests reader.unreadableRegions reader.imageHashes
          (reader.readImageStreamContent platform crates).fed.flatten) ∧
      ∀ otherPlatform otherCrates (other : Aff4Reader),
        other.Opened otherCrates →
        (other.readImageStreamContent otherPlatform otherCrates).result =
          .ok () →
        other.loadedMap = reader.loadedMap →
        other.imageHashes = reader.imageHashes →
        (other.readImageStreamContent otherPlatform otherCrates).fed.flatten =
          (reader.readImageStreamContent platform crates).fed.flatten →
        verifyImageHashes otherPlatform otherCrates digests other =
          verifyImageHashes platform crates digests reader := by
  refine ⟨verifyImageHashes_of_content opened returns, ?_⟩
  intro otherPlatform otherCrates other otherOpened otherReturns sameMap
    sameHashes sameContent
  have sameRegions : other.unreadableRegions = reader.unreadableRegions := by
    rw [Aff4Reader.unreadableRegions, sameMap, Aff4Reader.unreadableRegions]
  rw [verifyImageHashes_of_content otherOpened otherReturns,
    verifyImageHashes_of_content opened returns, sameRegions, sameHashes,
    sameContent]

end

/-! One content in two containers, in chunks of two bytes of which one is left out,
or in one chunk.  The map ends with a byte that could not be acquired, and of the two
declared digests the second is wrong. -/

namespace FindingsSample

open CleanSample (content digests)

def sha1 : DigestLiteral where
  hex := "00".toList
  algorithm := "SHA1".toList
  hex_ne_nil := CleanSample.tiger.hex_ne_nil
  hexdigits := CleanSample.tiger.hexdigits
  algorithm_ne_nil := CommaSample.sha1.algorithm_ne_nil
  alphanumeric := CommaSample.sha1.alphanumeric

def turtle (chunked : Bool) : Text :=
  CleanSample.turtle (if chunked then ['2'] else ['5']) sha1.term

def metadata (chunked : Bool) : StreamMeta :=
  CleanSample.metadata (if chunked then 2 else 5) sha1.hash

theorem parseTurtle_turtle (chunked : Bool) :
    parseTurtle (turtle chunked) = .ok (metadata chunked) := by
  revert chunked
  unfold turtle CleanSample.turtle
  simp only [String.reduceToList]
  decide +kernel

def records : List MapEntry := [⟨0, 5, 0, 0⟩, ⟨5, 1, 0, 1⟩]

def entries (chunked : Bool) : List (Text × Bytes) :=
  [("information.turtle".toList, Str.asBytes (turtle chunked)),
    ("m/map".toList, Small.mapFile records),
    ("m/idx".toList, Str.asBytes CleanSample.idx),
    ("i/00000000.index".toList,
      if chunked then indexEntry 0 2 ++ indexEntry 0 0 ++ indexEntry 2 1
      else indexEntry 0 5),
    ("i/00000000".toList, if chunked then [0x41, 0x42, 0x43] else content)]

def archive (chunked : Bool) : ZipArchive :=
  .ofEntries (entries chunked) (by revert chunked; decide +kernel)

def container (chunked : Bool) : MapContainer (.opening (archive chunked)) [] where
  archive := archive chunked
  turtle := turtle chunked
  metadata := metadata chunked
  archive_eq := rfl
  turtle_eq := ZipArchive.readEntryToString_of_asBytes _
    (ZipArchive.readEntry_ofEntries rfl)
  metadata_eq := parseTurtle_turtle chunked
  mapMeta := CleanSample.mapMeta
  mapData := Small.mapFile records
  idxData := CleanSample.idx
  mapMeta_eq := rfl
  mapData_eq := rfl
  idxData_eq := ZipArchive.readEntryToString_of_asBytes CleanSample.idx
    (ZipArchive.readEntry_ofEntries rfl)

/-- Both containers have the same map, whatever their chunks. -/
theorem loadedMap_container (chunked : Bool) :
    (container chunked).reader.loadedMap =
      some (.load .zeroOutside (Small.mapFile records)
        (parseIdx CleanSample.idx CleanSample.mapMeta.imageStreamArn) (.fill 0x00)) :=
  rfl

theorem imageHashes_container (chunked : Bool) :
    (container chunked).reader.imageHashes = [CleanSample.md5.hash, sha1.hash] := rfl

theorem returns_container (chunked : Bool) :
    ((container chunked).reader.readImageStreamContent .debug64
      (.opening (archive chunked))).result = .ok () := by
  revert chunked
  decide +kernel

theorem fed_container (chunked : Bool) :
    ((container chunked).reader.readImageStreamContent .debug64
      (.opening (archive chunked))).fed.flatten = content := by
  revert chunked
  decide +kernel

theorem verifyImageHashes_eq_findings_sample :
    verifyImageHashes .debug64 (.opening (archive true)) digests (container true).reader =
        .ok [.hashUnreadable 5 1,
          .hashMismatch "SHA1".toList "00".toList
            "10153e8b976a097f6a289fbd958efad0b64f3475".toList] ∧
      verifyImageHashes .debug64 (.opening (archive false)) digests
          (container false).reader =
        verifyImageHashes .debug64 (.opening (archive true)) digests
          (container true).reader := by
  obtain ⟨found, same⟩ := @verifyImageHashes_eq_findings .debug64 _ digests _
    (.of_openReader (container true).openReader_eq) (returns_container true)
  refine ⟨found.trans (congrArg Outcome.ok (by decide +kernel)), ?_⟩
  exact same .debug64 _ (container false).reader
    (.of_openReader (container false).openReader_eq) (returns_container false)
    ((loadedMap_container false).trans (loadedMap_container true).symm)
    ((imageHashes_container false).trans (imageHashes_container true).symm)
    ((fed_container false).trans (fed_container true).symm)

end FindingsSample
end Aff4
