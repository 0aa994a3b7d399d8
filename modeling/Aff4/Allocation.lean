import Aff4.Forensic.Clean
import Aff4.Reader.Content
import Aff4.Reader.Chunks
import Aff4.Safety

/-!
# Requests for too much memory

Chunk sizes and plaintext sizes are read off the metadata and checked for zero
only.  A buffer of such a size is asked for when a chunk was left out, when its
codec decodes into a fresh vector, and when a container is decrypted; a size
beyond `isize::MAX` makes the request panic.
-/

namespace Aff4

open Rust Storage

/-! ## One chunk -/

namespace Aff4Reader

/-- The bytes of a chunk go into a buffer of the chunk size: the chunk was left
out, or it is stored for a codec that asks for one. -/
def NeedsBuffer (reader : Aff4Reader) (chunkIdx : UInt64) : Prop :=
  ∃ index bounds,
    reader.archive.readEntry (indexName reader.zipBase
        (chunkIdx / reader.chunksPerSegment)) = .ok index ∧
      exactBounds index (chunkIdx % reader.chunksPerSegment).toNat =
        some bounds ∧
      (bounds.1 = bounds.2 ∨
        BuffersOutput reader.compression ∧
          ∃ bevy, reader.archive.readEntry (segmentName reader.zipBase
              (chunkIdx / reader.chunksPerSegment)) = .ok bevy ∧
            bounds.2 ≤ bevy.length)

variable {platform : Platform} {crates : Crates} {reader : Aff4Reader}

theorem decompress_eq_capacityOverflow
    (wide : platform.Is64Bit) (compressed : Bytes) :
    reader.decompress platform crates compressed = .panic .capacityOverflow ↔
      platform.isizeMax < reader.chunkSize.toNat ∧
        BuffersOutput reader.compression := by
  have request (rest : Except Aff4Error Bytes) :
      ((withCapacity platform reader.chunkSize.toNat >>= fun _ =>
          .ofExcept rest) : Outcome Aff4Error Bytes) = .panic .capacityOverflow ↔
        platform.isizeMax < reader.chunkSize.toNat := by
    by_cases fits : reader.chunkSize.toNat ≤ platform.isizeMax
    · rw [withCapacity_of_le fits, Outcome.ok_bind]
      exact iff_of_false Outcome.ofExcept_ne_panic (Nat.not_lt.mpr fits)
    · rw [withCapacity, if_neg fits, Outcome.panic_bind]
      exact iff_of_true rfl (Nat.lt_of_not_le fits)
  unfold BuffersOutput
  rw [decompress, asUsize_of_is64Bit wide]
  cases reader.compression with
  | null => simp
  | deflate =>
      dsimp only
      rw [request]
      simp
  | snappy => simp
  | lz4 =>
      dsimp only
      rw [request]
      simp

theorem chunkWithin_eq_capacityOverflow
    (wide : platform.Is64Bit) (segmentIdx : UInt64) {bounds : Nat × Nat}
    (ordered : bounds.1 ≤ bounds.2) :
    reader.chunkWithin platform crates segmentIdx bounds =
        .panic .capacityOverflow ↔
      platform.isizeMax < reader.chunkSize.toNat ∧
        (bounds.1 = bounds.2 ∨
          BuffersOutput reader.compression ∧
            ∃ bevy, reader.archive.readEntry
                (segmentName reader.zipBase segmentIdx) = .ok bevy ∧
              bounds.2 ≤ bevy.length) := by
  obtain ⟨chunkStart, chunkEnd⟩ := bounds
  unfold chunkWithin
  dsimp only at ordered ⊢
  rw [asUsize_of_is64Bit wide]
  by_cases empty : chunkStart = chunkEnd
  · rw [if_pos empty, vecZeroed]
    simp [empty]
  rw [if_neg empty, or_iff_right empty]
  cases read : reader.archive.readEntry
      (segmentName reader.zipBase segmentIdx) with
  | error error => simp
  | ok bevy =>
      have short := ZipArchive.length_lt_of_readEntry_eq_ok read
      simp only [Outcome.ofExcept_ok, Outcome.ok_bind, Except.ok.injEq,
        exists_eq_left']
      by_cases inside : chunkEnd ≤ bevy.length
      case neg =>
        rw [if_pos (Nat.lt_of_not_le inside)]
        simp [inside]
      rw [if_neg (Nat.not_lt.mpr inside), slice_of_le ordered inside,
        Outcome.ok_bind]
      simp only [inside, and_true]
      split
      next verbatim =>
        -- no chunk that is stored fills so large a buffer
        rw [List.length_drop, List.length_take] at verbatim
        rw [wide.isizeMax]
        apply iff_of_false
        · intro impossible
          cases impossible
        · rintro ⟨oversized, -⟩
          omega
      next => exact decompress_eq_capacityOverflow wide _

/-- A chunk cannot be read for want of memory exactly when it needs a buffer and
the chunk size is too large for one. -/
theorem readChunk_eq_capacityOverflow
    (wide : platform.Is64Bit)
    (chunksPerSegment_ne_zero : reader.chunksPerSegment ≠ 0) (chunkIdx : UInt64) :
    reader.readChunk platform crates chunkIdx = .panic .capacityOverflow ↔
      platform.isizeMax < reader.chunkSize.toNat ∧
        reader.NeedsBuffer chunkIdx := by
  rw [readChunk_eq chunksPerSegment_ne_zero]
  unfold NeedsBuffer
  cases read : reader.archive.readEntry (indexName reader.zipBase
      (chunkIdx / reader.chunksPerSegment)) with
  | error error => simp
  | ok index =>
      have short := ZipArchive.length_lt_of_readEntry_eq_ok read
      rw [Outcome.ofExcept_ok, Outcome.ok_bind, Outcome.bind_eq_panic,
        or_iff_right fun panics => by
          cases ((chunkBoundsFromIndex_eq_panic wide short).mp panics).1]
      constructor
      · rintro ⟨bounds, decoded, panics⟩
        have ordered := ordered_of_chunkBoundsFromIndex platform decoded
        rw [chunkBoundsFromIndex_eq_ok wide short] at decoded
        obtain ⟨oversized, needs⟩ :=
          (chunkWithin_eq_capacityOverflow wide _ ordered).mp panics
        exact ⟨oversized, index, bounds, rfl, decoded, needs⟩
      · rintro ⟨oversized, _, bounds, ⟨⟩, exact, needs⟩
        have decoded : chunkBoundsFromIndex platform index
            (chunkIdx % reader.chunksPerSegment) = .ok bounds :=
          (chunkBoundsFromIndex_eq_ok wide short).mpr exact
        refine ⟨bounds, decoded, ?_⟩
        apply (chunkWithin_eq_capacityOverflow wide _
          (ordered_of_chunkBoundsFromIndex platform decoded)).mpr
        exact ⟨oversized, needs⟩

/-- A chunk is read, or its buffer cannot be allocated. -/
theorem exists_readChunk_iff
    (wide : platform.Is64Bit)
    (chunksPerSegment_ne_zero : reader.chunksPerSegment ≠ 0) {chunkIdx : UInt64}
    (noBuffer : platform.isizeMax < reader.chunkSize.toNat →
      ¬reader.NeedsBuffer chunkIdx) :
    (∃ chunk, reader.readChunk platform crates chunkIdx = .ok chunk) ↔
      ∃ chunk, reader.ExactChunk crates chunkIdx chunk := by
  constructor
  · rintro ⟨chunk, read⟩
    exact ⟨chunk, exactChunk_of_readChunk wide chunksPerSegment_ne_zero read⟩
  · rintro ⟨chunk, index, bounds, indexRead, exact, isChunk⟩
    refine ⟨chunk, (readChunk_eq_ok_of_is64Bit wide chunksPerSegment_ne_zero).mpr
      ⟨index, bounds, indexRead, exact, ?_, isChunk⟩⟩
    intro needs
    rw [asUsize_of_is64Bit wide]
    by_contra oversized
    apply noBuffer (Nat.lt_of_not_le oversized)
    refine ⟨index, bounds, indexRead, exact, ?_⟩
    by_cases empty : bounds.1 = bounds.2
    · exact .inl empty
    · obtain ⟨stored, stores⟩ := isChunk.exists_stores empty
      obtain ⟨bevy, bevyRead, inside, -⟩ := stores.bevy
      exact .inr ⟨(needs.resolve_left empty).2, bevy, bevyRead, inside⟩

/-! ## Reads and the content pass -/

theorem readTarget_eq_capacityOverflow
    (chunkSize_ne_zero : reader.chunkSize ≠ 0)
    (region : ResolvedRegion) (toRead : Nat) :
    reader.readTarget platform crates region toRead =
        .panic .capacityOverflow ↔
      region.kind = .imageStream ∧
        reader.readChunk platform crates
          (region.targetOffset / reader.chunkSize) = .panic .capacityOverflow := by
  rw [readTarget]
  cases kind : region.kind with
  | unknown => simp
  | fill byte => simp
  | tile pattern =>
      have only : Outcome.PanicsOnly (· ≠ .capacityOverflow)
          (reader.readTarget platform crates region toRead) := by
        rw [readTarget, kind]
        refine .collect (fun index => ?_) _ _
        exact .bind (panicsOnly_addU64 platform (fun _ => by decide) _ _)
          fun _ _ => .ok _
      rw [readTarget, kind] at only
      exact iff_of_false (fun panics => only _ panics rfl)
        fun stream => by cases stream.1
  | imageStream =>
      dsimp only
      rw [divU64_of_ne_zero chunkSize_ne_zero,
        remU64_of_ne_zero chunkSize_ne_zero, Outcome.ok_bind, Outcome.ok_bind,
        and_iff_right rfl]
      cases reader.readChunk platform crates
          (region.targetOffset / reader.chunkSize) with
      | ok chunk =>
          rw [Outcome.mapErr_ok, Outcome.ok_bind]
          split
          · simp
          · rw [slice_of_le (by omega) (by omega)]
            simp
      | err error => simp
      | panic reason => simp

/-- A read fails for want of memory exactly when the chunk it is served from
does. -/
theorem read_eq_capacityOverflow
    (chunkSize_ne_zero : reader.chunkSize ≠ 0) (buf : Bytes) :
    (reader.read platform crates buf).result = .panic .capacityOverflow ↔
      buf ≠ [] ∧ reader.pos < reader.virtualSize ∧
        ∃ region, reader.target platform = .ok region ∧
          region.kind = .imageStream ∧
          reader.readChunk platform crates
            (region.targetOffset / reader.chunkSize) =
              .panic .capacityOverflow := by
  rw [read]
  by_cases asked : buf = [] ∨ reader.virtualSize ≤ reader.pos
  · rw [if_pos asked]
    apply iff_of_false
    · intro impossible
      cases impossible
    · rintro ⟨nonempty, onDisk, -⟩
      rcases asked with empty | ended
      · exact nonempty empty
      · exact absurd onDisk (UInt64.not_lt.mpr ended)
  rw [if_neg asked]
  rw [not_or, UInt64.not_le] at asked
  rw [and_iff_right asked.1, and_iff_right asked.2]
  have step : reader.readStep platform crates buf.length =
        .panic .capacityOverflow ↔
      ∃ region, reader.target platform = .ok region ∧
        region.kind = .imageStream ∧
        reader.readChunk platform crates
          (region.targetOffset / reader.chunkSize) =
            .panic .capacityOverflow := by
    have targets : Outcome.PanicsOnly (· ≠ .capacityOverflow)
        (reader.target platform) :=
      panicsOnly_target platform (fun _ => by decide)
    have sums (a b : UInt64) : Outcome.PanicsOnly (· ≠ .capacityOverflow)
        (addU64 platform a b : Outcome IoError UInt64) :=
      panicsOnly_addU64 platform (fun _ => by decide) a b
    rw [readStep, subU64_of_le (UInt64.le_of_lt asked.2), Outcome.ok_bind,
      Outcome.bind_eq_panic, or_iff_right fun panics => targets _ panics rfl]
    apply exists_congr
    intro region
    apply and_congr_right
    intro _
    rw [Outcome.bind_eq_panic, readTarget_eq_capacityOverflow chunkSize_ne_zero,
      or_iff_left]
    rintro ⟨bytes, -, panics⟩
    rcases Outcome.bind_eq_panic.mp panics with panics | ⟨_, -, impossible⟩
    · exact sums _ _ _ panics rfl
    · cases impossible
  rw [← step]
  cases reader.readStep platform crates buf.length with
  | ok step => simp
  | err error => simp
  | panic reason => simp

/-- The content pass fails for want of memory exactly when its first chunk that
does not decode does. -/
theorem readImageStreamContent_eq_capacityOverflow
    (wide : platform.Is64Bit) (chunkSize_ne_zero : reader.chunkSize ≠ 0) :
    (reader.readImageStreamContent platform crates).result =
        .panic .capacityOverflow ↔
      ∃ index, index < reader.chunkCount ∧
        (∀ before, before < index → ∃ chunk,
          reader.readChunk platform crates (UInt64.ofNat before) = .ok chunk) ∧
        reader.readChunk platform crates (UInt64.ofNat index) =
          .panic .capacityOverflow := by
  rw [readImageStreamContent_result wide chunkSize_ne_zero,
    Outcome.bind_eq_panic, or_iff_left, Outcome.collect_eq_panic]
  · simp only [Nat.zero_add]
  · rintro ⟨_, -, impossible⟩
    cases impossible

end Aff4Reader

/-! ## A container -/

section

variable (platform : Platform) (crates : Crates) (digests : DigestCrates)
  (crypto : CryptoCrates) (backing : Bytes)

/-- No read of a container, wherever the cursor is, no pass over its content, no
audit and no decryption asks for more memory than can be allocated. -/
structure AllocatesInBounds : Prop where
  reads : ∀ reader, openReader crates backing = .ok reader → ∀ pos buf,
    (Aff4Reader.read platform crates { reader with pos } buf).result ≠
      .panic .capacityOverflow
  content : ∀ reader, openReader crates backing = .ok reader →
    (reader.readImageStreamContent platform crates).result ≠
      .panic .capacityOverflow
  audit : ∀ (φ : Type) (toFinding : Aff4Anomaly → φ),
    auditImage platform crates digests toFinding backing ≠
      .panic .capacityOverflow
  decryption : ∀ password,
    decryptReader platform crates crypto backing password ≠
      .panic .capacityOverflow

/-- No chunk that a read or the content pass comes to needs a buffer. -/
structure Aff4Reader.NeedsNoBuffer (reader : Aff4Reader) : Prop where
  reads : ∀ pos, pos < reader.virtualSize → ∀ region,
    target platform { reader with pos } = .ok region →
    region.kind = .imageStream →
    ¬reader.NeedsBuffer (region.targetOffset / reader.chunkSize)
  content : ∀ index, index < reader.chunkCount →
    (∀ before, before < index →
      ∃ chunk, reader.ExactChunk crates (UInt64.ofNat before) chunk) →
    ¬reader.NeedsBuffer (UInt64.ofNat index)

variable {platform crates digests crypto backing}

/-- An audit asks for no more memory than the content pass. -/
theorem readImageStreamContent_of_auditImage
    {toFinding : Aff4Anomaly → φ}
    (panics : auditImage platform crates digests toFinding backing =
      .panic .capacityOverflow) :
    ∃ reader, openReader crates backing = .ok reader ∧
      (reader.readImageStreamContent platform crates).result =
        .panic .capacityOverflow := by
  rcases Outcome.bind_eq_panic.mp panics with impossible | ⟨reader, opened, panics⟩
  · exact absurd impossible Outcome.ofExcept_ne_panic
  refine ⟨reader, Outcome.ofExcept_eq_ok.mp opened, ?_⟩
  rcases Outcome.bind_eq_panic.mp panics with panics | ⟨_, -, impossible⟩
  · rw [verifyImageHashes] at panics
    split at panics
    · cases panics
    · rcases Outcome.bind_eq_panic.mp panics with panics | ⟨_, -, impossible⟩
      · exact panics
      · cases impossible
  · cases impossible

/-- A container is decrypted without asking for too much memory exactly when every
password that opens its keybag meets a size that can be allocated. -/
theorem decryptReader_ne_capacityOverflow_iff (wide : platform.Is64Bit) :
    (∀ password, decryptReader platform crates crypto backing password ≠
        .panic .capacityOverflow) ↔
      ∀ container : EncryptedContainer platform crates backing,
      ∀ password vek, deriveVek crypto password container.metadata = .ok vek →
        container.metadata.size.toNat ≤ platform.isizeMax := by
  constructor
  · intro allocates container password vek opened
    by_contra oversized
    apply allocates password
    rw [EncryptedContainer.decryptReader_eq_panic,
      container.decryptVisits_eq_panic wide]
    exact .inl ⟨rfl, ⟨vek, opened⟩, Nat.lt_of_not_le oversized⟩
  · intro fits password panics
    rw [EncryptedContainer.decryptReader_eq_panic] at panics
    obtain ⟨container⟩ := EncryptedContainer.of_decryptVisits_eq_panic panics
    rcases (container.decryptVisits_eq_panic wide).mp panics with
      ⟨-, ⟨vek, opened⟩, oversized⟩ | ⟨impossible, -⟩
    · exact absurd (fits container password vek opened) (Nat.not_le.mpr oversized)
    · cases impossible

/-- The reads and the content pass of a reader ask for no more memory than can be
allocated exactly when the chunk size is no more, or no chunk they come to needs a
buffer. -/
theorem Aff4Reader.allocates_iff
    (wide : platform.Is64Bit) {reader : Aff4Reader} (opened : reader.Opened crates) :
    ((∀ pos buf,
        (Aff4Reader.read platform crates { reader with pos } buf).result ≠
          .panic .capacityOverflow) ∧
      (reader.readImageStreamContent platform crates).result ≠
        .panic .capacityOverflow) ↔
      (platform.isizeMax < reader.chunkSize.toNat →
        reader.NeedsNoBuffer platform crates) := by
  have chunk (chunkIdx : UInt64) :
      reader.readChunk platform crates chunkIdx = .panic .capacityOverflow ↔
        platform.isizeMax < reader.chunkSize.toNat ∧
          reader.NeedsBuffer chunkIdx :=
    readChunk_eq_capacityOverflow wide opened.wellFormed.2 chunkIdx
  have readAt (pos : UInt64) :=
    @read_eq_capacityOverflow platform crates { reader with pos }
      opened.wellFormed.1
  constructor
  · rintro ⟨reads, content⟩ oversized
    constructor
    · intro pos onDisk region targeted stream needs
      apply reads pos [0]
      apply (readAt pos [0]).mpr
      refine ⟨by decide, onDisk, region, targeted, stream, ?_⟩
      exact (chunk _).mpr ⟨oversized, needs⟩
    · intro index
      -- The chunks before this one are read, since none of them needs a buffer.
      induction index using Nat.strong_induction_on with
      | _ index inductionHypothesis =>
          intro below earlier needs
          apply content
          apply (readImageStreamContent_eq_capacityOverflow wide
            opened.wellFormed.1).mpr
          refine ⟨index, below, ?_, (chunk _).mpr ⟨oversized, needs⟩⟩
          intro before less
          apply (exists_readChunk_iff wide opened.wellFormed.2 fun _ => ?_).mpr
          · exact earlier before less
          · exact inductionHypothesis before less (less.trans below)
              fun first lower => earlier first (lower.trans less)
  · intro noBuffer
    constructor
    · intro pos buf panics
      obtain ⟨-, onDisk, region, targeted, stream, panics⟩ :=
        (readAt pos buf).mp panics
      obtain ⟨oversized, needs⟩ := (chunk _).mp panics
      exact (noBuffer oversized).reads pos onDisk region targeted stream needs
    · intro panics
      obtain ⟨index, below, earlier, panics⟩ :=
        (readImageStreamContent_eq_capacityOverflow wide
          opened.wellFormed.1).mp panics
      obtain ⟨oversized, needs⟩ := (chunk _).mp panics
      apply (noBuffer oversized).content index below _ needs
      intro before less
      obtain ⟨bytes, read⟩ := earlier before less
      exact ⟨bytes, exactChunk_of_readChunk wide opened.wellFormed.2 read⟩

/-- No request for memory is too large exactly when no chunk needs a buffer of a
chunk size that is too large, and no password opens a container whose size is. -/
theorem allocatesInBounds_iff
    (wide : platform.Is64Bit) (crates : Crates) (digests : DigestCrates)
    (crypto : CryptoCrates) (backing : Bytes) :
    AllocatesInBounds platform crates digests crypto backing ↔
      (∀ reader, openReader crates backing = .ok reader →
        platform.isizeMax < reader.chunkSize.toNat →
          reader.NeedsNoBuffer platform crates) ∧
      ∀ container : EncryptedContainer platform crates backing,
      ∀ password vek, deriveVek crypto password container.metadata = .ok vek →
        container.metadata.size.toNat ≤ platform.isizeMax := by
  constructor
  · intro allocates
    constructor
    · intro reader opened
      apply (Aff4Reader.allocates_iff wide (.of_openReader opened)).mp
      exact ⟨allocates.reads reader opened, allocates.content reader opened⟩
    · exact (decryptReader_ne_capacityOverflow_iff wide).mp allocates.decryption
  · rintro ⟨noBuffer, fits⟩
    have readers (reader : Aff4Reader) (opened : openReader crates backing = .ok reader) :=
      (Aff4Reader.allocates_iff wide (.of_openReader opened)).mpr
        (noBuffer reader opened)
    refine ⟨fun reader opened => (readers reader opened).1,
      fun reader opened => (readers reader opened).2, ?_,
      (decryptReader_ne_capacityOverflow_iff wide).mpr fits⟩
    intro φ toFinding panics
    obtain ⟨reader, opened, panics⟩ := readImageStreamContent_of_auditImage panics
    exact (readers reader opened).2 panics

end

/-! A chunk that was left out of an image whose chunk size is one byte too large
to be allocated. -/

namespace OversizedSample

def turtle : Text :=
  "<i> a aff4:ImageStream ; aff4:chunkSize 9223372036854775808 ; ".toList ++
    "aff4:chunksInSegment 1 ; aff4:size 1 . ".toList

def metadata : StreamMeta where
  streamArn := "i".toList
  virtualSize := 1
  imageStreamSize := 1
  chunkSize := 9223372036854775808
  chunksPerSegment := 1
  compression := .null
  imageHashes := []
  mapMeta := none

theorem parseTurtle_turtle : parseTurtle turtle = .ok metadata := by
  -- The kernel compares lists of characters faster than it unfolds string literals.
  unfold turtle
  simp only [String.reduceToList]
  decide +kernel

theorem entries_short : ∀ entry ∈ OneSegment.entries turtle (indexEntry 0 0) [],
    entry.2.length < 2 ^ 63 :=
  OneSegment.entries_short (by decide +kernel) (by decide) (by decide)

def container : DirectContainer
    (.opening (OneSegment.archive turtle (indexEntry 0 0) [] entries_short)) [] :=
  OneSegment.container _ _ _ _ parseTurtle_turtle rfl

theorem not_allocatesInBounds_oversized :
    ¬AllocatesInBounds .debug64 (.opening container.archive)
      (.ofContent [] []) EncryptedSample.crypto [] := by
  intro allocates
  apply allocates.reads container.reader container.openReader_eq 0 [0]
  decide +kernel

theorem allocatesInBounds_iff_oversized :
    AllocatesInBounds .debug64 (.opening container.archive)
        (.ofContent [] []) EncryptedSample.crypto [] ↔
      (∀ reader, openReader (.opening container.archive) [] = .ok reader →
        Platform.debug64.isizeMax < reader.chunkSize.toNat →
          reader.NeedsNoBuffer .debug64 (.opening container.archive)) ∧
      ∀ encrypted : EncryptedContainer .debug64 (.opening container.archive) [],
      ∀ password vek,
        deriveVek EncryptedSample.crypto password encrypted.metadata = .ok vek →
        encrypted.metadata.size.toNat ≤ Platform.debug64.isizeMax :=
  allocatesInBounds_iff Platform.is64Bit_debug64 _ _ _ _

end OversizedSample
end Aff4
