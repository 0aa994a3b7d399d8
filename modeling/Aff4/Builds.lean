import Aff4.Forensic
import Aff4.Map.ReferenceDisk
import Aff4.Map.Search
import Aff4.Safety
import Aff4.Vfs.History

/-!
# Release builds

A release build has no overflow checks: its sums wrap.  Nothing an image holds
makes it panic once the image was opened, and a map whose numbers are too large
still stands for a disk, of which every record says its part in sums of 64 bits.
-/

namespace Rust

/-- The same platform, in a build whose overflows wrap. -/
def Platform.unchecked (platform : Platform) : Platform :=
  { platform with overflowChecks := false }

theorem Platform.Is64Bit.unchecked {platform : Platform} (wide : platform.Is64Bit) :
    platform.unchecked.Is64Bit := wide

end Rust

namespace Aff4

open Rust Storage

variable (platform : Platform) (crates : Crates)

/-- Nothing can make a release build panic if the chunk size can be allocated. -/
theorem allows_unchecked {chunkSize : UInt64}
    (fits : asUsize platform chunkSize ≤ platform.isizeMax) :
    Allows platform.unchecked chunkSize (fun _ => False) :=
  ⟨fun impossible => (by cases impossible), fun exceeds =>
    absurd exceeds (Nat.not_lt.mpr fits)⟩

theorem Aff4Source.panicsOnly_fill {reasons : Panic → Prop} {reader : Aff4Reader}
    (reads : ∀ pos buf, Outcome.PanicsOnly reasons
      (Aff4Reader.read platform crates { reader with pos } buf).result)
    (want passes : Nat) (pos : UInt64) (buf : Bytes) (total : Nat) :
    Outcome.PanicsOnly reasons
      (fill platform crates want passes { reader with pos } buf total).result := by
  induction passes generalizing pos buf total with
  | zero => exact .ok _
  | succ passes inductionHypothesis =>
      rw [fill]
      split
      · exact .ok _
      · split
        · exact .ok _
        next slot _ =>
          have only := reads pos slot
          obtain ⟨moved, same⟩ :=
            Aff4Reader.read_reader platform crates { reader with pos } slot
          dsimp only
          split
          · exact .ok _
          · rw [same]
            exact inductionHypothesis moved _ _
          · exact .err _
          next reason panics => exact .panic (only reason panics)

/-- Nothing done with a reader panics: no call of a session, no positioned read and
no audit. -/
structure Aff4Reader.NeverPanics
    (platform : Platform) (crates : Crates) (reader : Aff4Reader) : Prop where
  sessions : ∀ calls : List Call,
    ∀ event ∈ run (Aff4Reader.answer platform crates) reader calls,
      ∀ reason, ¬event.output.Panicked reason
  reads : ∀ (κ : Type) (requests : List (Aff4Source.Request κ)),
    ∀ event ∈ run (Aff4Source.serve platform crates) (Aff4Source.new reader)
        requests,
      ∀ reason, event.output.result ≠ .panic reason
  audits : ∀ (digests : DigestCrates) (reason : Panic),
    verifyImageHashes platform crates digests reader ≠ .panic reason

/-- A release build never panics on an image that was opened and whose chunk size
can be allocated, whatever else the image holds. -/
theorem neverPanics_unchecked
    {reader : Aff4Reader} (opened : reader.Opened crates)
    (fits : asUsize platform reader.chunkSize ≤ platform.isizeMax) :
    reader.NeverPanics platform.unchecked crates := by
  obtain ⟨chunkSize_ne_zero, chunksPerSegment_ne_zero⟩ := opened.wellFormed
  have allows := allows_unchecked platform fits
  refine ⟨fun calls => ?_, fun κ requests => ?_, fun digests reason => ?_⟩
  · apply forall_mem_run (Aff4Reader.answer platform.unchecked crates)
      (fun state => ∃ pos, state = { reader with pos })
      (fun event => ∀ reason, ¬event.output.Panicked reason)
    · rintro _ call ⟨pos, rfl⟩
      exact Aff4Reader.answer_reader platform.unchecked crates _ call
    · rintro _ call ⟨pos, rfl⟩ reason panicked
      exact @Aff4Reader.allowed_of_panicked platform.unchecked crates
        { reader with pos } _ allows chunkSize_ne_zero chunksPerSegment_ne_zero
        call reason panicked
    · exact ⟨reader.pos, rfl⟩
  · apply forall_mem_run (Aff4Source.serve platform.unchecked crates)
      (fun source => ∃ pos, source = Aff4Source.new { reader with pos })
      (fun event => ∀ reason, event.output.result ≠ .panic reason)
    · rintro _ request ⟨pos, rfl⟩
      exact (Aff4Source.serve_withPos platform.unchecked crates reader pos
        request).2
    · rintro _ request ⟨pos, rfl⟩ reason panics
      simp only [Aff4Source.serve, Aff4Source.readAt_new] at panics
      split at panics
      · cases panics
      · split at panics
        · exact Aff4Source.panicsOnly_fill platform.unchecked crates
            (fun pos buf => @Aff4Reader.panicsOnly_read platform.unchecked crates
              { reader with pos } _ allows chunkSize_ne_zero
              chunksPerSegment_ne_zero buf) _ _ _ _ _ reason panics
        · cases panics
    · exact ⟨reader.pos, rfl⟩
  · unfold verifyImageHashes
    dsimp only
    split
    · exact fun impossible => by cases impossible
    · intro panics
      rcases Outcome.bind_eq_panic.mp panics with content | ⟨_, -, impossible⟩
      · exact (Aff4Reader.panicsOnly_readImageStreamContent platform.unchecked
          crates allows chunksPerSegment_ne_zero).1 reason content
      · cases impossible

/-! ## Maps whose sums wrap -/

namespace LoadedMap

/-- What a record holds from a position on, where sums wrap. -/
def wrappingRegion
    (map : LoadedMap) (entry : MapEntry) (virtualPos : UInt64) : ResolvedRegion where
  kind := map.targetKind entry
  targetOffset := entry.targetOffset + (virtualPos - entry.mapOffset)
  bytesInRegion := entry.length - (virtualPos - entry.mapOffset)

/-- A lookup of a release build answers from the record it inspects, if that one's
wrapped end lies behind the position. -/
theorem resolve_release
    (ε : Type) {platform : Platform} (release : platform.overflowChecks = false)
    (map : LoadedMap) (virtualPos virtualSize : UInt64) :
    (map.resolve platform virtualPos virtualSize : Outcome ε ResolvedRegion) =
      .ok (match (lastBeginning map.entries virtualPos.toNat).filter fun entry =>
          virtualPos.toNat <
            (entry.mapOffset.toNat + entry.length.toNat) % 2 ^ 64 with
        | some entry => map.wrappingRegion entry virtualPos
        | none => map.gapAt virtualPos virtualSize) := by
  rw [resolve_eq]
  cases found : lastBeginning map.entries virtualPos.toNat with
  | none =>
      rw [search, found]
      rfl
  | some entry =>
      obtain ⟨-, begins, -⟩ := greatest_of_lastBeginning found
      have startLt := entry.mapOffset.toNat_lt
      have lengthLt := entry.length.toNat_lt
      rw [search_of_lastBeginning ε platform found, Option.filter_some]
      by_cases wraps : 2 ^ 64 ≤ entry.mapOffset.toNat + entry.length.toNat
      · have ended : ¬virtualPos.toNat <
            (entry.mapOffset.toNat + entry.length.toNat) % 2 ^ 64 := by
          omega
        simp only [if_pos wraps, release, Bool.false_eq_true, if_false,
          Outcome.ok_bind, decide_eq_false ended]
      · have wrapped : (entry.mapOffset.toNat + entry.length.toNat) % 2 ^ 64 =
            entry.mapOffset.toNat + entry.length.toNat :=
          Nat.mod_eq_of_lt (by omega)
        rw [if_neg wraps, Outcome.ok_bind, wrapped]
        by_cases ends : virtualPos.toNat <
            entry.mapOffset.toNat + entry.length.toNat
        · have covers : entry.Covers virtualPos.toNat := ⟨begins, ends⟩
          have added : (addU64 platform entry.targetOffset
              (virtualPos - entry.mapOffset) : Outcome ε UInt64) =
                .ok (entry.targetOffset + (virtualPos - entry.mapOffset)) := by
            rw [addU64, release, if_neg (by simp)]
          simp only [if_pos covers, decide_eq_true ends, if_true,
            regionOf_of_covers ε platform map covers, added, Outcome.ok_bind]
          rfl
        · have uncovered : ¬entry.Covers virtualPos.toNat := fun covers =>
            ends covers.2
          simp only [if_neg uncovered, decide_eq_false ends, Bool.false_eq_true,
            if_false]

end LoadedMap

namespace MapContainer

variable {platform : Platform} {crates : Crates} {backing : Bytes}
variable (container : MapContainer crates backing)

/-- The record that is read at a position: the one the search inspects, if its end,
a sum of 64 bits, lies behind the position. -/
def wrappingRecord (position : Nat) : Option MapEntry :=
  (lastBeginning (container.records.filter fun entry => 0 < entry.length)
    position).filter fun entry =>
      position < (entry.mapOffset.toNat + entry.length.toNat) % 2 ^ 64

/-- The disk of a release build.  A position in a target is a sum of 64 bits too. -/
def wrappingDisk (platform : Platform) : Disk UInt8 where
  size := container.metadata.virtualSize.toNat
  byteAt := fun position =>
    match container.wrappingRecord position with
    | some entry =>
        (container.recordKind entry).byteAt (container.content platform)
          ((entry.targetOffset.toNat + (position - entry.mapOffset.toNat)) % 2 ^ 64)
    | none => container.gapByte

/-- What a container has to satisfy for its sums to be read as they wrap: no record
begins inside another one whose end does not wrap, and what is read of the stream is
part of it. -/
structure Wrapping (platform : Platform) : Prop where
  apart : ∀ entry ∈ container.records, ∀ other ∈ container.records,
    0 < entry.length → 0 < other.length →
    entry.mapOffset.toNat + entry.length.toNat < 2 ^ 64 →
    ¬(entry.mapOffset.toNat < other.mapOffset.toNat ∧
      entry.Covers other.mapOffset.toNat)
  inStream : ∀ position, position < container.metadata.virtualSize.toNat →
    ∀ entry, container.wrappingRecord position = some entry →
    container.recordKind entry = .imageStream →
    (entry.targetOffset.toNat + (position - entry.mapOffset.toNat)) % 2 ^ 64 <
      container.metadata.imageStreamSize.toNat
  decodes : container.reader.DecodesInFull platform crates
  noBlankLines : ∀ line ∈ Str.lines container.idxData, Str.trim line ≠ []

variable {container}

theorem wrappingRecord_eq (position : Nat) :
    container.wrappingRecord position =
      (lastBeginning container.loadedMap.entries position).filter fun entry =>
        position < (entry.mapOffset.toNat + entry.length.toNat) % 2 ^ 64 :=
  congrArg (Option.filter _) (lastBeginning_parseMapEntries _ _ position).symm

/-- A gap of the map is a gap of the disk: what is not read where it begins is not
read up to its end. -/
theorem wrappingRecord_eq_none_of_gap
    {pos : UInt64} (below : pos < container.metadata.virtualSize)
    (gap : container.wrappingRecord pos.toNat = none)
    {distance : Nat}
    (within : distance < (container.loadedMap.gapAt pos
      container.metadata.virtualSize).bytesInRegion.toNat) :
    container.wrappingRecord (pos.toNat + distance) = none := by
  obtain ⟨-, -, length, -⟩ := container.loadedMap.gapAt_eq below
  have same : lastBeginning container.loadedMap.entries (pos.toNat + distance) =
      lastBeginning container.loadedMap.entries pos.toNat := by
    refine lastBeginning_of_none_between (Nat.le_add_right _ _)
      fun other member begins => ?_
    by_contra later
    cases next : nextBeginning container.loadedMap.entries pos.toNat with
    | none =>
        have before := nextBeginning_eq_none_iff.mp next other member
        omega
    | some start =>
        have least := (nextBeginning_eq_some_iff.mp next).2 other member (by omega)
        rw [next, Option.getD_some] at length
        omega
  rw [wrappingRecord_eq] at gap ⊢
  rw [same, Option.filter_eq_none_iff]
  intro entry found reaches
  rw [Option.filter_eq_none_iff] at gap
  have ended := gap entry found
  simp only [decide_eq_true_eq] at reaches ended
  omega

/-- The gaps of a release build describe the wrapping disk. -/
theorem describes_gapAt
    (release : platform.overflowChecks = false) {pos : UInt64}
    (below : pos < container.metadata.virtualSize)
    (gap : container.wrappingRecord pos.toNat = none) :
    (container.loadedMap.gapAt pos container.metadata.virtualSize).Describes platform
      (container.content platform) (container.wrappingDisk platform) pos.toNat := by
  obtain ⟨kind, -, -, nonempty⟩ := container.loadedMap.gapAt_eq below
  have filled : (container.loadedMap.gapAt pos
      container.metadata.virtualSize).kind = .fill container.gapByte :=
    kind.trans container.gapDefault_eq
  refine ⟨nonempty, fun distance within _ => ?_,
    fun checked => absurd (release.symm.trans checked) Bool.false_ne_true,
    fun stream => ?_⟩
  · have later := wrappingRecord_eq_none_of_gap below gap within
    simp only [wrappingDisk, later, filled, TargetKind.byteAt]
  · rw [filled] at stream
    cases stream

namespace Wrapping

variable (wrapping : container.Wrapping platform)

include wrapping in
/-- Behind a position of a record the same record is read, up to its end. -/
theorem wrappingRecord_later
    {pos : Nat} {entry : MapEntry}
    (found : container.wrappingRecord pos = some entry) {distance : Nat}
    (within : pos + distance < entry.mapOffset.toNat + entry.length.toNat) :
    container.wrappingRecord (pos + distance) = some entry := by
  rw [wrappingRecord_eq, Option.filter_eq_some_iff] at found ⊢
  obtain ⟨last, ends⟩ := found
  obtain ⟨member, begins, greatest⟩ := greatest_of_lastBeginning last
  rw [decide_eq_true_eq] at ends ⊢
  obtain ⟨inRecords, nonempty⟩ := mem_entries.mp member
  have startLt := entry.mapOffset.toNat_lt
  have lengthLt := entry.length.toNat_lt
  have fits : entry.mapOffset.toNat + entry.length.toNat < 2 ^ 64 := by omega
  refine ⟨?_, by rwa [Nat.mod_eq_of_lt fits]⟩
  rw [← last]
  refine lastBeginning_of_none_between (Nat.le_add_right _ _)
    fun other otherMember otherBegins => ?_
  by_contra later
  obtain ⟨otherInRecords, otherNonempty⟩ := mem_entries.mp otherMember
  exact wrapping.apart entry inRecords other otherInRecords nonempty otherNonempty
    fits ⟨by omega, by omega, by omega⟩

include wrapping in
/-- What is read of the stream behind a position of a record does not wrap. -/
theorem inStream_later
    {pos : Nat} {entry : MapEntry}
    (found : container.wrappingRecord pos = some entry)
    (stream : container.recordKind entry = .imageStream) {distance : Nat}
    (within : pos + distance < entry.mapOffset.toNat + entry.length.toNat)
    (inside : pos + distance < container.metadata.virtualSize.toNat) :
    (entry.targetOffset.toNat + (pos - entry.mapOffset.toNat)) % 2 ^ 64 + distance <
      container.metadata.imageStreamSize.toNat := by
  have sizeLt := container.metadata.imageStreamSize.toNat_lt
  have begins : entry.mapOffset.toNat ≤ pos := by
    rw [wrappingRecord_eq, Option.filter_eq_some_iff] at found
    exact (greatest_of_lastBeginning found.1).2.1
  have read (step : Nat) (early : step ≤ distance) :=
    wrapping.inStream (pos + step) (by omega) entry
      (wrapping.wrappingRecord_later found (by omega)) stream
  -- the last position of 64 bits would be part of the stream if this one wrapped
  by_cases wraps : 2 ^ 64 ≤
      (entry.targetOffset.toNat + (pos - entry.mapOffset.toNat)) % 2 ^ 64 + distance
  · have last := read (2 ^ 64 - 1 -
      (entry.targetOffset.toNat + (pos - entry.mapOffset.toNat)) % 2 ^ 64) (by omega)
    omega
  · have here := read distance le_rfl
    omega

include wrapping in
/-- So do its regions. -/
theorem describes_wrappingRegion
    (release : platform.overflowChecks = false) {pos : UInt64} {entry : MapEntry}
    (found : container.wrappingRecord pos.toNat = some entry) :
    (container.loadedMap.wrappingRegion entry pos).Describes platform
      (container.content platform) (container.wrappingDisk platform) pos.toNat := by
  have chunkSize_ne_zero :=
    (parseTurtle_wellFormed container.metadata_eq).chunkSize_ne_zero
  have contentLength : (container.content platform).length =
      container.metadata.imageStreamSize.toNat :=
    wrapping.decodes.length_streamContent chunkSize_ne_zero
  have startLt := entry.mapOffset.toNat_lt
  have lengthLt := entry.length.toNat_lt
  have covers : entry.Covers pos.toNat := by
    rw [wrappingRecord_eq, Option.filter_eq_some_iff, decide_eq_true_eq] at found
    exact ⟨(greatest_of_lastBeginning found.1).2.1, by omega⟩
  obtain ⟨offset, rest⟩ := LoadedMap.toNat_offset covers
  obtain ⟨begins, ends⟩ := covers
  have kind : (container.loadedMap.wrappingRegion entry pos).kind =
      container.recordKind entry :=
    targetKind_loadedMap wrapping.noBlankLines entry
  have place : (container.loadedMap.wrappingRegion entry pos).targetOffset.toNat =
      (entry.targetOffset.toNat + (pos.toNat - entry.mapOffset.toNat)) % 2 ^ 64 := by
    rw [← offset]
    exact UInt64.toNat_add _ _
  have length : (container.loadedMap.wrappingRegion entry pos).bytesInRegion.toNat =
      entry.length.toNat - (pos.toNat - entry.mapOffset.toNat) := rest
  refine ⟨by omega, fun distance within inside => ?_,
    fun checked => absurd (release.symm.trans checked) Bool.false_ne_true,
    fun stream distance within inside => ?_⟩
  · have later : container.wrappingRecord (pos.toNat + distance) = some entry :=
      wrapping.wrappingRecord_later found (by omega)
    simp only [wrappingDisk, later, kind, place]
    have sum : entry.targetOffset.toNat + (pos.toNat + distance -
        entry.mapOffset.toNat) =
          entry.targetOffset.toNat + (pos.toNat - entry.mapOffset.toNat) + distance := by
      omega
    rw [sum]
    cases target : container.recordKind entry with
    | unknown => rfl
    | fill byte => rfl
    | tile pattern =>
        rw [TargetKind.byteAt_tile, TargetKind.byteAt_tile, ← Nat.mod_add_mod,
          pattern.byteAt_mod]
    | imageStream =>
        have inStream := wrapping.inStream_later found target
          (show pos.toNat + distance < _ by omega) inside
        have sizeLt := container.metadata.imageStreamSize.toNat_lt
        congr 1
        omega
  · rw [place, contentLength]
    exact wrapping.inStream_later found (kind ▸ stream) (by omega) inside

include wrapping in
/-- The reader of a release build presents the wrapping disk. -/
theorem presents (release : platform.overflowChecks = false) :
    container.reader.Presents platform crates (container.content platform)
      (container.wrappingDisk platform) where
  size := rfl
  holds := wrapping.decodes.holdsStream
    (parseTurtle_wellFormed container.metadata_eq).chunkSize_ne_zero
  target := by
    intro pos below
    have resolved : (container.loadedMap.resolve platform pos
        container.metadata.virtualSize : Outcome IoError ResolvedRegion) = _ :=
      LoadedMap.resolve_release IoError release _ _ _
    rw [← wrappingRecord_eq] at resolved
    refine ⟨_, resolved, ?_⟩
    cases found : container.wrappingRecord pos.toNat with
    | none =>
        exact describes_gapAt release (UInt64.lt_iff_toNat_lt.mpr below) found
    | some entry => exact wrapping.describes_wrappingRegion release found

end Wrapping

/-- Where no sum wraps, the wrapping disk is the one the records make. -/
theorem Conforming.byteAt_wrappingDisk (conforming : container.Conforming platform)
    {position : Nat} :
    (container.wrappingDisk platform).byteAt position =
      (container.referenceDisk platform).byteAt position := by
  have fits {entry : MapEntry} (member : entry ∈ container.loadedMap.entries) :
      (entry.mapOffset.toNat + entry.length.toNat) % 2 ^ 64 =
        entry.mapOffset.toNat + entry.length.toNat :=
    Nat.mod_eq_of_lt (conforming.placed.mapFits member)
  cases covered : coveringRecord container.records position with
  | some entry =>
      have member := List.mem_of_find?_eq_some covered
      have covers : entry.Covers position := by
        simpa using List.find?_some covered
      have nonempty := length_pos_of_covers covers
      have inMap := mem_entries.mpr ⟨member, nonempty⟩
      have read : container.wrappingRecord position = some entry := by
        rw [wrappingRecord_eq, Option.filter_eq_some_iff, decide_eq_true_eq, fits inMap]
        refine ⟨?_, covers.2⟩
        cases last : lastBeginning container.loadedMap.entries position with
        | none =>
            have beyond := lastBeginning_eq_none_iff.mp last entry inMap
            exact absurd covers.1 (Nat.not_le.mpr beyond)
        | some other =>
            obtain ⟨otherInMap, begins, greatest⟩ := greatest_of_lastBeginning last
            have behind := greatest entry inMap covers.1
            -- a later record would begin inside this one
            have inside : entry.Covers other.mapOffset.toNat :=
              ⟨behind, lt_of_le_of_lt begins covers.2⟩
            have start := MapEntry.covers_start (mem_entries.mp otherInMap).2
            have here := coveringRecord_eq_some conforming.disjoint member inside
            have there := coveringRecord_eq_some conforming.disjoint
              (mem_entries.mp otherInMap).1 start
            exact there.symm.trans here
      have targetFits := conforming.targetFits entry member nonempty
      obtain ⟨begins, ends⟩ := covers
      simp only [wrappingDisk, referenceDisk, read, covered]
      rw [Nat.mod_eq_of_lt (by omega)]
  | none =>
      have gap : container.wrappingRecord position = none := by
        rw [wrappingRecord_eq, Option.filter_eq_none_iff]
        intro entry last ends
        obtain ⟨inMap, begins, -⟩ := greatest_of_lastBeginning last
        rw [decide_eq_true_eq, fits inMap] at ends
        have uncovered := List.find?_eq_none.mp covered entry (mem_entries.mp inMap).1
        exact uncovered (decide_eq_true ⟨begins, ends⟩)
      simp only [wrappingDisk, referenceDisk, gap, covered]

/-- A release build reads a map whose sums wrap as the disk that the wrapped sums
make: every call of every session of reads and seeks obeys it. -/
theorem session_reads_wrappingDisk
    (wide : platform.Is64Bit) (release : platform.overflowChecks = false)
    (wrapping : container.Wrapping platform)
    {reader : Aff4Reader} (opened : openReader crates backing = .ok reader)
    (operations : List Operation) :
    ∀ event ∈ run (Aff4Reader.perform platform crates) reader operations,
      Aff4Reader.Obeys (container.wrappingDisk platform) event := by
  rw [container.openReader_eq] at opened
  cases opened
  exact (wrapping.presents release).session_obeys wide operations

end MapContainer

/-! A tile at the last position of 64 bits, a byte of the stream, and a record whose
end wraps: a debug build panics in the middle of the tile and behind it. -/

namespace BuildsSample

def records : List MapEntry :=
  [⟨0, 2, 0xFFFFFFFFFFFFFFFF, 2⟩, ⟨3, 1, 1, 0⟩, ⟨4, 0xFFFFFFFFFFFFFFFF, 0, 0⟩]

def container : MapContainer
    (.opening (Small.archive (Small.mapFile records)
      (indexEntry 0 2 ++ indexEntry 2 1) [0x41, 0x42, 0x43]
      (Small.entries_short (by decide) (by decide) (by decide)))) [] :=
  Small.container _ _ _ _

example :
    (Aff4Reader.read .debug64 (.opening container.archive) container.reader
        [0, 0]).result = .panic .addOverflow ∧
      (Aff4Reader.read .debug64 (.opening container.archive)
        { container.reader with pos := 4 } [0]).result = .panic .addOverflow := by
  decide +kernel

theorem neverPanics_sample :
    container.reader.NeverPanics Platform.debug64.unchecked
      (.opening container.archive) :=
  neverPanics_unchecked .debug64 _ (.of_openReader container.openReader_eq)
    (by decide +kernel)

theorem records_container : container.records = records := by
  decide +kernel

theorem wrapping_container : container.Wrapping Platform.debug64.unchecked := by
  have count : container.reader.chunkCount = 2 := by decide
  refine ⟨?_, ?_, fun index below => ?_, by decide⟩
  · rw [records_container]
    decide
  · intro position below entry read
    have last := read
    rw [MapContainer.wrappingRecord_eq, Option.filter_eq_some_iff] at last
    have inMap := (greatest_of_lastBeginning last.1).1
    have member : entry ∈ records := by
      rw [← records_container]
      exact (MapContainer.mem_entries.mp inMap).1
    have evaluated : ∀ position, position < 6 → ∀ entry ∈ records,
        container.wrappingRecord position = some entry →
        container.recordKind entry = .imageStream →
        (entry.targetOffset.toNat + (position - entry.mapOffset.toNat)) % 2 ^ 64 < 3 := by
      decide +kernel
    exact evaluated position below entry member read
  · rw [count] at below ⊢
    match index, below with
    | 0, _ => exact ⟨[0x41, 0x42], by decide, .inl rfl⟩
    | 1, _ => exact ⟨[0x43], by decide, .inr ⟨rfl, rfl⟩⟩

/-- The disk: the two bytes of the tile on both sides of the wrap, a gap, the byte of
the stream, and the gap that the last record leaves. -/
theorem session_reads_wrappingDisk_sample :
    (container.wrappingDisk Platform.debug64.unchecked).extent 0 6 =
        [0x45, 0x55, 0, 0x42, 0, 0] ∧
      ∀ event ∈ run
        (Aff4Reader.perform Platform.debug64.unchecked (.opening container.archive))
        container.reader [.read [0, 0, 0], .seek (.start 3), .read [0, 0], .read [0]],
        Aff4Reader.Obeys (container.wrappingDisk Platform.debug64.unchecked) event :=
  ⟨by decide +kernel,
    MapContainer.session_reads_wrappingDisk Platform.is64Bit_debug64.unchecked rfl
      wrapping_container container.openReader_eq _⟩

end BuildsSample
end Aff4
