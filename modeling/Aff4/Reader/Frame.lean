import Mathlib.Tactic.Simps.Basic
import Aff4.Reader.IndexEntries
import Aff4.Safety

/-!
# What an answer depends on

A reader looks at few of the bytes of its archive: at the index entry of a chunk
that it needs and at the part of the bevy that the entry points to.  Whatever is
stored elsewhere, a session is answered as before.
-/

namespace Rust

/-- A part of a list is determined by the values in it. -/
theorem take_drop_congr {values others : List α} {start stop : Nat}
    (same : ∀ position, start ≤ position → position < stop →
      values[position]? = others[position]?) :
    (values.take stop).drop start = (others.take stop).drop start := by
  apply List.ext_getElem?
  intro position
  rw [List.getElem?_drop, List.getElem?_drop, List.getElem?_take,
    List.getElem?_take]
  split
  next inside => exact same _ (Nat.le_add_right _ _) inside
  · rfl

theorem slice_congr {values others : List α} {start stop : Nat}
    (sameLength : values.length = others.length)
    (same : ∀ position, start ≤ position → position < stop →
      values[position]? = others[position]?) :
    (slice values start stop : Outcome ε (List α)) = slice others start stop := by
  rw [slice, slice, sameLength, take_drop_congr same]

theorem getRange_congr {values others : List α} {start stop : Nat}
    (sameLength : values.length = others.length)
    (same : ∀ position, start ≤ position → position < stop →
      values[position]? = others[position]?) :
    getRange values start stop = getRange others start stop := by
  rw [getRange, getRange, sameLength, take_drop_congr same]

/-- A returned sum is at most the exact one. -/
theorem le_add_of_addUsize_eq_ok {platform : Platform} {a b sum : Nat}
    (added : (addUsize platform a b : Outcome ε Nat) = .ok sum) : sum ≤ a + b := by
  unfold addUsize at added
  split at added
  · cases added
    exact le_rfl
  · split at added
    · cases added
    · cases added
      exact Nat.mod_le _ _

end Rust

namespace Aff4

open Rust Storage

namespace ZipArchive

/-- Two archives hold the same entries, up to the bytes stored in them: an entry
is read from neither of them, for the same reason, or with the same length from
both. -/
def SameShape (archive other : ZipArchive) : Prop :=
  ∀ name, archive.readEntry name = other.readEntry name ∨
    ∃ data altered, archive.readEntry name = .ok data ∧
      other.readEntry name = .ok altered ∧ data.length = altered.length

/-- A byte of an entry is not stored alike in two archives. -/
def Altered (archive other : ZipArchive) (name : Text) (position : Nat) : Prop :=
  ∃ data altered, archive.readEntry name = .ok data ∧
    other.readEntry name = .ok altered ∧ data[position]? ≠ altered[position]?

/-- Two archives hold what opening a container looks at alike: the names of the
entries, the document, and the files of every map. -/
structure SameMetadata (archive other : ZipArchive) : Prop where
  fileNames : other.fileNames = archive.fileNames
  document : other.readEntry "information.turtle".toList =
    archive.readEntry "information.turtle".toList
  mapFile : ∀ base, other.readEntry (base ++ "/map".toList) =
    archive.readEntry (base ++ "/map".toList)
  idxFile : ∀ base, other.readEntry (base ++ "/idx".toList) =
    archive.readEntry (base ++ "/idx".toList)

variable {archive other : ZipArchive}

/-- Where the entries of a stream are found depends on the names alone. -/
theorem detectZipBase_eq_of_fileNames_eq
    (sameNames : other.fileNames = archive.fileNames) (arn : Text) :
    detectZipBase other arn = detectZipBase archive arn := by
  have bases : other.hasBase = archive.hasBase := by
    funext base
    rw [hasBase, hasBase, sameNames]
  rw [detectZipBase, detectZipBase, bases]

/-- What two archives of one shape find under a name. -/
theorem SameShape.cases (shape : archive.SameShape other) (name : Text) :
    (∃ error, archive.readEntry name = .error error ∧
      other.readEntry name = .error error) ∨
    ∃ data altered, archive.readEntry name = .ok data ∧
      other.readEntry name = .ok altered ∧ data.length = altered.length := by
  rcases shape name with same | found
  · cases read : other.readEntry name with
    | error error => exact .inl ⟨error, same.trans read, rfl⟩
    | ok data => exact .inr ⟨data, data, same.trans read, rfl, rfl⟩
  · exact .inr found

theorem getElem?_eq_of_not_altered
    {name : Text} {position : Nat} {data altered : Bytes}
    (read : archive.readEntry name = .ok data)
    (readOther : other.readEntry name = .ok altered)
    (unaltered : ¬archive.Altered other name position) :
    data[position]? = altered[position]? := by
  by_contra differ
  exact unaltered ⟨data, altered, read, readOther, differ⟩

/-- An archive with one entry overwritten: under every name both archives find the
same, or they find the old and the new content of that entry. -/
theorem readEntry_overwritten
    {before after : List (Text × Bytes)} {name : Text} {data altered : Bytes}
    (short : ∀ entry ∈ before ++ (name, data) :: after, entry.2.length < 2 ^ 63)
    (shortAltered : ∀ entry ∈ before ++ (name, altered) :: after,
      entry.2.length < 2 ^ 63) (wanted : Text) :
    (ofEntries _ short).readEntry wanted =
        (ofEntries _ shortAltered).readEntry wanted ∨
      wanted = name ∧ (ofEntries _ short).readEntry wanted = .ok data ∧
        (ofEntries _ shortAltered).readEntry wanted = .ok altered := by
  simp only [readEntry, ofEntries, List.find?_append]
  cases earlier : before.find? fun entry => entry.1 = wanted with
  | some entry => exact .inl rfl
  | none =>
      by_cases same : name = wanted
      · subst same
        simp
      · simp [same]

theorem sameShape_overwritten
    {before after : List (Text × Bytes)} {name : Text} {data altered : Bytes}
    (sameLength : data.length = altered.length)
    (short : ∀ entry ∈ before ++ (name, data) :: after, entry.2.length < 2 ^ 63)
    (shortAltered : ∀ entry ∈ before ++ (name, altered) :: after,
      entry.2.length < 2 ^ 63) :
    (ofEntries _ short).SameShape (ofEntries _ shortAltered) := by
  intro wanted
  rcases readEntry_overwritten short shortAltered wanted with
    same | ⟨-, read, readAltered⟩
  · exact .inl same
  · exact .inr ⟨data, altered, read, readAltered, sameLength⟩

/-- Only bytes of an overwritten entry are altered. -/
theorem altered_overwritten
    {before after : List (Text × Bytes)} {name : Text} {data altered : Bytes}
    {short : ∀ entry ∈ before ++ (name, data) :: after, entry.2.length < 2 ^ 63}
    {shortAltered : ∀ entry ∈ before ++ (name, altered) :: after,
      entry.2.length < 2 ^ 63} {wanted : Text} {position : Nat}
    (differ : (ofEntries _ short).Altered (ofEntries _ shortAltered) wanted
      position) :
    wanted = name ∧ data[position]? ≠ altered[position]? := by
  obtain ⟨old, new, readOld, readNew, differ⟩ := differ
  rcases readEntry_overwritten short shortAltered wanted with
    same | ⟨rfl, read, readAltered⟩
  · cases readOld.symm.trans (same.trans readNew)
    exact absurd rfl differ
  · cases readOld.symm.trans read
    cases readNew.symm.trans readAltered
    exact ⟨rfl, differ⟩

/-- Overwriting an entry that is neither the document nor a file of a map keeps the
metadata. -/
theorem sameMetadata_overwritten
    {before after : List (Text × Bytes)} {name : Text} {data altered : Bytes}
    (noDocument : name ≠ "information.turtle".toList)
    (noMapFile : ¬"/map".toList <:+ name) (noIdxFile : ¬"/idx".toList <:+ name)
    (short : ∀ entry ∈ before ++ (name, data) :: after, entry.2.length < 2 ^ 63)
    (shortAltered : ∀ entry ∈ before ++ (name, altered) :: after,
      entry.2.length < 2 ^ 63) :
    (ofEntries _ short).SameMetadata (ofEntries _ shortAltered) := by
  have kept {wanted : Text} (other : wanted ≠ name) :
      (ofEntries _ shortAltered).readEntry wanted =
        (ofEntries _ short).readEntry wanted := by
    rcases readEntry_overwritten short shortAltered wanted with same | ⟨equal, -, -⟩
    · exact same.symm
    · exact absurd equal other
  refine ⟨?_, kept noDocument.symm, fun base => kept ?_, fun base => kept ?_⟩
  · simp [ofEntries]
  · rintro rfl
    exact noMapFile (List.suffix_append ..)
  · rintro rfl
    exact noIdxFile (List.suffix_append ..)

end ZipArchive

/-- The bounds of a chunk depend on the twelve bytes of its index entry. -/
theorem chunkBoundsFromIndex_congr
    (platform : Platform) {index other : Bytes} {chunkInSeg : UInt64}
    (sameLength : index.length = other.length)
    (same : ∀ position, asUsize platform chunkInSeg * 12 ≤ position →
      position < asUsize platform chunkInSeg * 12 + 12 →
      index[position]? = other[position]?) :
    chunkBoundsFromIndex platform index chunkInSeg =
      chunkBoundsFromIndex platform other chunkInSeg := by
  refine Outcome.bind_congr fun base multiplied => ?_
  refine Outcome.bind_congr fun stop added => ?_
  rw [Outcome.okOr_eq_ok, checkedMulUsize] at multiplied
  split at multiplied
  case isFalse => cases multiplied
  cases multiplied
  have le := le_add_of_addUsize_eq_ok added
  rw [getRange_congr sameLength fun position atLeast below =>
    same position atLeast (by omega)]

namespace Aff4Reader

/-- The same reader over another archive. -/
@[simps]
def withArchive (reader : Aff4Reader) (archive : ZipArchive) : Aff4Reader :=
  { reader with archive }

/-- To read a chunk, the reader looks at a byte of an entry of its archive: one of
the chunk's index entry, or one of the bevy between the bounds found there. -/
inductive LooksAt (platform : Platform) (reader : Aff4Reader) (chunkIdx : UInt64) :
    Text → Nat → Prop
  | index (position : Nat)
      (atLeast : asUsize platform (chunkIdx % reader.chunksPerSegment) * 12 ≤
        position)
      (below : position <
        asUsize platform (chunkIdx % reader.chunksPerSegment) * 12 + 12) :
      LooksAt platform reader chunkIdx
        (indexName reader.zipBase (chunkIdx / reader.chunksPerSegment)) position
  | bevy (position : Nat) (index : Bytes) (bounds : Nat × Nat)
      (read : reader.archive.readEntry (indexName reader.zipBase
        (chunkIdx / reader.chunksPerSegment)) = .ok index)
      (decoded : chunkBoundsFromIndex platform index
        (chunkIdx % reader.chunksPerSegment) = .ok bounds)
      (atLeast : bounds.1 ≤ position) (below : position < bounds.2) :
      LooksAt platform reader chunkIdx
        (segmentName reader.zipBase (chunkIdx / reader.chunksPerSegment)) position

variable {platform : Platform} {crates : Crates} {reader : Aff4Reader}
variable {other : ZipArchive}

theorem loadMap_of_sameMetadata {archive : ZipArchive}
    (same : archive.SameMetadata other) (mapMeta : MapMeta) :
    loadMap crates other mapMeta = loadMap crates archive mapMeta := by
  simp only [loadMap, ZipArchive.detectZipBase_eq_of_fileNames_eq same.fileNames,
    same.mapFile, ZipArchive.readEntryToString, same.idxFile]

/-- Another file with the same metadata is opened as the same reader over its own
archive. -/
theorem openReader_of_sameMetadata {backing altered : Bytes}
    (opened : openReader crates backing = .ok reader)
    (opens : crates.zipArchiveNew altered = .ok other)
    (same : reader.archive.SameMetadata other) :
    openReader crates altered = .ok (reader.withArchive other) := by
  have document (container : Container crates backing)
      (same : container.archive.SameMetadata other) :
      other.readEntryToString "information.turtle".toList = .ok container.turtle := by
    rw [ZipArchive.readEntryToString, same.document]
    exact container.turtle_eq
  rcases openReader_cases opened with ⟨container, rfl⟩ | ⟨container, rfl⟩
  · simp only [openReader, opens, Except.mapError, bind, Except.bind,
      document container.toContainer same, container.metadata_eq, container.direct,
      ZipArchive.detectZipBase_eq_of_fileNames_eq same.fileNames]
    rfl
  · have loaded : loadMap crates container.reader.archive container.mapMeta =
        .ok container.loadedMap := container.loadMap_eq
    simp only [openReader, opens, Except.mapError, bind, Except.bind,
      document container.toContainer same, container.metadata_eq, container.mapMeta_eq,
      loadMap_of_sameMetadata same,
      ZipArchive.detectZipBase_eq_of_fileNames_eq same.fileNames, loaded]
    rfl

/-- Between given bounds a chunk depends on the bytes of its bevy there. -/
theorem chunkWithin_withArchive
    (shape : reader.archive.SameShape other) {segmentIdx : UInt64}
    {bounds : Nat × Nat}
    (unaltered : ∀ position, bounds.1 ≤ position → position < bounds.2 →
      ¬reader.archive.Altered other (segmentName reader.zipBase segmentIdx)
        position) :
    (reader.withArchive other).chunkWithin platform crates segmentIdx bounds =
      reader.chunkWithin platform crates segmentIdx bounds := by
  simp only [chunkWithin, withArchive]
  split
  · rfl
  · rcases shape.cases (segmentName reader.zipBase segmentIdx) with
      ⟨error, fails, failsToo⟩ | ⟨data, altered, read, readOther, sameLength⟩
    · rw [fails, failsToo]
      rfl
    · rw [read, readOther, Outcome.ofExcept_ok, Outcome.ofExcept_ok,
        Outcome.ok_bind, Outcome.ok_bind, ← sameLength,
        slice_congr sameLength fun position atLeast below =>
          ZipArchive.getElem?_eq_of_not_altered read readOther
            (unaltered position atLeast below)]
      rfl

/-- A chunk is read alike from an archive that stores the bytes it looks at
alike. -/
theorem readChunk_withArchive
    (chunksPerSegment_ne_zero : reader.chunksPerSegment ≠ 0)
    (shape : reader.archive.SameShape other) {chunkIdx : UInt64}
    (unaltered : ∀ name position, reader.LooksAt platform chunkIdx name position →
      ¬reader.archive.Altered other name position) :
    (reader.withArchive other).readChunk platform crates chunkIdx =
      reader.readChunk platform crates chunkIdx := by
  rw [readChunk_eq chunksPerSegment_ne_zero,
    @readChunk_eq platform crates (reader.withArchive other)
      chunksPerSegment_ne_zero]
  simp only [withArchive_archive, withArchive_zipBase,
    withArchive_chunksPerSegment]
  rcases shape.cases (indexName reader.zipBase
    (chunkIdx / reader.chunksPerSegment)) with
    ⟨error, fails, failsToo⟩ | ⟨index, altered, read, readOther, sameLength⟩
  · rw [fails, failsToo]
    rfl
  rw [read, readOther, Outcome.ofExcept_ok, Outcome.ofExcept_ok, Outcome.ok_bind,
    Outcome.ok_bind, ← chunkBoundsFromIndex_congr platform sameLength
      fun position atLeast below =>
        ZipArchive.getElem?_eq_of_not_altered read readOther
          (unaltered _ _ (.index position atLeast below))]
  exact Outcome.bind_congr fun bounds decoded =>
    chunkWithin_withArchive shape fun position atLeast below =>
      unaltered _ _ (.bevy position index bounds read decoded atLeast below)

/-! ## Calls -/

/-- A chunk that a call reads: the one the cursor is mapped to, or for a content
pass each chunk of the stream. -/
def Needs (platform : Platform) (reader : Aff4Reader) :
    Call → UInt64 → Prop
  | .operate (.read buf), chunkIdx =>
      buf ≠ [] ∧ reader.pos < reader.virtualSize ∧
        ∃ region, reader.target platform = .ok region ∧
          region.kind = .imageStream ∧
          chunkIdx = region.targetOffset / reader.chunkSize
  | .readImageStreamContent, chunkIdx =>
      ∃ count index,
        (divCeilU64 reader.imageStreamSize reader.chunkSize :
          Outcome Aff4Error Nat) = .ok count ∧
        index < count ∧ chunkIdx = UInt64.ofNat index
  | _, _ => False

theorem readTarget_withArchive
    (chunkSize_ne_zero : reader.chunkSize ≠ 0) {region : ResolvedRegion}
    (same : region.kind = .imageStream →
      (reader.withArchive other).readChunk platform crates
          (region.targetOffset / reader.chunkSize) =
        reader.readChunk platform crates (region.targetOffset / reader.chunkSize))
    (toRead : Nat) :
    (reader.withArchive other).readTarget platform crates region toRead =
      reader.readTarget platform crates region toRead := by
  unfold readTarget
  cases kind : region.kind with
  | unknown => rfl
  | fill byte => rfl
  | tile pattern => rfl
  | imageStream =>
      simp only [withArchive_chunkSize, divU64_of_ne_zero chunkSize_ne_zero,
        Outcome.ok_bind, same kind]

theorem readStep_withArchive
    (chunkSize_ne_zero : reader.chunkSize ≠ 0)
    (same : ∀ region, reader.target platform = .ok region →
      region.kind = .imageStream →
      (reader.withArchive other).readChunk platform crates
          (region.targetOffset / reader.chunkSize) =
        reader.readChunk platform crates (region.targetOffset / reader.chunkSize))
    (bufLen : Nat) :
    (reader.withArchive other).readStep platform crates bufLen =
      reader.readStep platform crates bufLen := by
  refine Outcome.bind_congr fun remaining _ => ?_
  refine Outcome.bind_congr fun region targeted => ?_
  rw [readTarget_withArchive chunkSize_ne_zero (same region targeted)]
  rfl

theorem read_withArchive
    (chunkSize_ne_zero : reader.chunkSize ≠ 0) (buf : Bytes)
    (same : ∀ chunkIdx, reader.Needs platform (.operate (.read buf)) chunkIdx →
      (reader.withArchive other).readChunk platform crates chunkIdx =
        reader.readChunk platform crates chunkIdx) :
    ((reader.withArchive other).read platform crates buf).result =
        (reader.read platform crates buf).result ∧
      ((reader.withArchive other).read platform crates buf).buf =
        (reader.read platform crates buf).buf ∧
      ((reader.withArchive other).read platform crates buf).reader =
        (reader.read platform crates buf).reader.withArchive other := by
  unfold read
  simp only [withArchive_virtualSize, withArchive_pos]
  split
  · exact ⟨rfl, rfl, rfl⟩
  next asked =>
    rw [not_or, UInt64.not_le] at asked
    rw [readStep_withArchive chunkSize_ne_zero fun region targeted stream =>
      same _ ⟨asked.1, asked.2, region, targeted, stream, rfl⟩]
    cases reader.readStep platform crates buf.length with
    | ok bytesPos => exact ⟨rfl, rfl, rfl⟩
    | err error => exact ⟨rfl, rfl, rfl⟩
    | panic reason => exact ⟨rfl, rfl, rfl⟩

theorem contentLoop_withArchive
    (passes chunkIdx : Nat) (produced : UInt64)
    (same : ∀ index, chunkIdx ≤ index → index < chunkIdx + passes →
      (reader.withArchive other).readChunk platform crates (UInt64.ofNat index) =
        reader.readChunk platform crates (UInt64.ofNat index)) :
    (reader.withArchive other).contentLoop platform crates passes chunkIdx
        produced =
      reader.contentLoop platform crates passes chunkIdx produced := by
  induction passes generalizing chunkIdx produced with
  | zero => rfl
  | succ passes inductionHypothesis =>
      have pass : (reader.withArchive other).contentPass platform crates chunkIdx
          produced = reader.contentPass platform crates chunkIdx produced := by
        rw [contentPass, same chunkIdx le_rfl (by omega)]
        rfl
      rw [contentLoop, contentLoop, pass]
      cases reader.contentPass platform crates chunkIdx produced with
      | ok fedNext =>
          dsimp only
          rw [inductionHypothesis (chunkIdx + 1) fedNext.2 fun index atLeast below =>
            same index (by omega) (by omega)]
      | err error => rfl
      | panic reason => rfl

theorem readImageStreamContent_withArchive
    (same : ∀ chunkIdx, reader.Needs platform .readImageStreamContent chunkIdx →
      (reader.withArchive other).readChunk platform crates chunkIdx =
        reader.readChunk platform crates chunkIdx) :
    (reader.withArchive other).readImageStreamContent platform crates =
      reader.readImageStreamContent platform crates := by
  unfold readImageStreamContent
  simp only [withArchive_chunkSize, withArchive_imageStreamSize]
  split
  · rfl
  · cases counted : (divCeilU64 reader.imageStreamSize reader.chunkSize :
      Outcome Aff4Error Nat) with
    | ok count =>
        exact contentLoop_withArchive count 0 0 fun index _ below =>
          same _ ⟨count, index, counted, by omega, rfl⟩
    | err error => rfl
    | panic reason => rfl

/-- One call is answered alike over two archives that agree on the chunks it
needs, and leaves readers that still differ in the archive only. -/
theorem answer_withArchive
    (chunkSize_ne_zero : reader.chunkSize ≠ 0) (call : Call)
    (same : ∀ chunkIdx, reader.Needs platform call chunkIdx →
      (reader.withArchive other).readChunk platform crates chunkIdx =
        reader.readChunk platform crates chunkIdx) :
    (reader.withArchive other).answer platform crates call =
      ((reader.answer platform crates call).1,
        (reader.answer platform crates call).2.withArchive other) := by
  cases call with
  | operate operation =>
      cases operation with
      | read buf =>
          obtain ⟨result, after, moved⟩ := read_withArchive chunkSize_ne_zero buf same
          simp only [answer, perform, result, after, moved]
      | seek position =>
          have sought : (reader.withArchive other).seek platform position =
              ((reader.seek platform position).1,
                (reader.seek platform position).2.withArchive other) := by
            rw [seek, show (reader.withArchive other).seekTarget platform position =
              reader.seekTarget platform position from rfl, seek]
            cases reader.seekTarget platform position with
            | ok newPos =>
                dsimp only
                split <;> rfl
            | err error => rfl
            | panic reason => rfl
          simp only [answer, perform, sought]
  | readImageStreamContent =>
      simp only [answer, readImageStreamContent_withArchive same]
  | storedImageHashes => rfl
  | unreadableRegions => rfl

/-- A session is answered as before by an archive in which bytes were altered
that none of its calls looks at. -/
theorem session_outside_alterations
    {reader : Aff4Reader} (opened : reader.Opened crates)
    (shape : reader.archive.SameShape other) (calls : List Call)
    (unaltered : ∀ event ∈ run (answer platform crates) reader calls,
      ∀ chunkIdx, event.before.Needs platform event.input chunkIdx →
        ∀ name position, event.before.LooksAt platform chunkIdx name position →
          ¬reader.archive.Altered other name position) :
    (run (answer platform crates) (reader.withArchive other) calls).map
        Event.output =
      (run (answer platform crates) reader calls).map Event.output := by
  obtain ⟨chunkSize_ne_zero, chunksPerSegment_ne_zero⟩ := opened.wellFormed
  apply map_output_run_of_related _ _
    (fun state twin => (∃ pos, state = { reader with pos }) ∧
      twin = state.withArchive other)
    (fun event => ¬∀ chunkIdx, event.before.Needs platform event.input chunkIdx →
      ∀ name position, event.before.LooksAt platform chunkIdx name position →
        ¬reader.archive.Altered other name position)
  · rintro _ _ call ⟨⟨pos, rfl⟩, rfl⟩ together
    have same := @answer_withArchive platform crates { reader with pos } other
      chunkSize_ne_zero call fun chunkIdx needs =>
        @readChunk_withArchive platform crates { reader with pos } other
          chunksPerSegment_ne_zero shape chunkIdx
          (not_not.mp together chunkIdx needs)
    rw [same]
    obtain ⟨moved, after⟩ :=
      answer_reader platform crates { reader with pos } call
    exact ⟨rfl, ⟨moved, after⟩, rfl⟩
  · exact ⟨⟨reader.pos, rfl⟩, rfl⟩
  · exact fun event member => not_not.mpr (unaltered event member)

end Aff4Reader

/-! A stream whose second chunk was altered, and a session that reads the first
one. -/

namespace FrameSample

theorem entries_short (last : UInt8) :
    ∀ entry ∈ Small.entries (Small.mapFile [⟨0, 6, 0, 0⟩])
      (indexEntry 0 2 ++ indexEntry 2 1) [0x41, 0x42, last],
      entry.2.length < 2 ^ 63 :=
  Small.entries_short (by decide) (by decide) (by simp)

def archive (last : UInt8) : ZipArchive :=
  Small.archive (Small.mapFile [⟨0, 6, 0, 0⟩])
    (indexEntry 0 2 ++ indexEntry 2 1) [0x41, 0x42, last] (entries_short last)

def container : MapContainer (.opening (archive 0x44)) [] :=
  Small.container (Small.mapFile [⟨0, 6, 0, 0⟩])
    (indexEntry 0 2 ++ indexEntry 2 1) [0x41, 0x42, 0x44] (entries_short 0x44)

theorem sameShape_archive : (archive 0x44).SameShape (archive 0x5A) :=
  @ZipArchive.sameShape_overwritten
    [("information.turtle".toList, Str.asBytes Small.turtle),
      ("m/map".toList, Small.mapFile [⟨0, 6, 0, 0⟩]),
      ("m/idx".toList, Str.asBytes Small.idx),
      ("i/00000000.index".toList, indexEntry 0 2 ++ indexEntry 2 1)]
    [] "i/00000000".toList [0x41, 0x42, 0x44] [0x41, 0x42, 0x5A] rfl
    (entries_short 0x44) (entries_short 0x5A)

theorem altered_archive {name : Text} {position : Nat}
    (altered : (archive 0x44).Altered (archive 0x5A) name position) :
    name = "i/00000000".toList ∧
      ([0x41, 0x42, 0x44] : Bytes)[position]? ≠ ([0x41, 0x42, 0x5A] : Bytes)[position]? :=
  @ZipArchive.altered_overwritten
    [("information.turtle".toList, Str.asBytes Small.turtle),
      ("m/map".toList, Small.mapFile [⟨0, 6, 0, 0⟩]),
      ("m/idx".toList, Str.asBytes Small.idx),
      ("i/00000000.index".toList, indexEntry 0 2 ++ indexEntry 2 1)]
    [] "i/00000000".toList [0x41, 0x42, 0x44] [0x41, 0x42, 0x5A]
    (entries_short 0x44) (entries_short 0x5A) name position altered

theorem target_eq :
    container.reader.target .debug64 =
      .ok { kind := .imageStream, targetOffset := 0, bytesInRegion := 6 } := by
  decide +kernel

theorem readIndex_eq :
    container.reader.archive.readEntry (indexName container.reader.zipBase
        (0 / container.reader.chunksPerSegment)) =
      .ok (indexEntry 0 2 ++ indexEntry 2 1) := by
  decide +kernel

theorem bounds_eq :
    chunkBoundsFromIndex .debug64 (indexEntry 0 2 ++ indexEntry 2 1)
      (0 % container.reader.chunksPerSegment) = .ok (0, 2) := by
  decide +kernel

/-- No byte of the first chunk was altered. -/
theorem unaltered_firstChunk {name : Text} {position : Nat}
    (looks : container.reader.LooksAt .debug64 0 name position) :
    ¬(archive 0x44).Altered (archive 0x5A) name position := by
  intro altered
  obtain ⟨bevy, differ⟩ := altered_archive altered
  cases looks with
  | index position atLeast below => exact absurd bevy (by decide +kernel)
  | bevy position index bounds read decoded atLeast below =>
      cases readIndex_eq.symm.trans read
      cases bounds_eq.symm.trans decoded
      rcases Nat.lt_or_eq_of_le (Nat.lt_succ_iff.mp below) with first | rfl
      · cases Nat.lt_one_iff.mp first
        exact differ rfl
      · exact differ rfl

theorem session_outside_alterations_sample :
    (run (Aff4Reader.answer .debug64 (.opening (archive 0x44)))
        (container.reader.withArchive (archive 0x5A))
        [.operate (.read [0, 0])]).map Event.output =
      (run (Aff4Reader.answer .debug64 (.opening (archive 0x44))) container.reader
        [.operate (.read [0, 0])]).map Event.output := by
  apply Aff4Reader.session_outside_alterations
    (.of_openReader container.openReader_eq) sameShape_archive
  rw [run_cons, run_nil, List.forall_mem_singleton]
  rintro chunkIdx ⟨-, -, region, targeted, -, rfl⟩ name position looks
  cases target_eq.symm.trans targeted
  exact unaltered_firstChunk looks

end FrameSample
end Aff4
