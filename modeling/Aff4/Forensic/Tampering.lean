import Aff4.Forensic.Findings
import Aff4.Map.ReferenceDisk
import Aff4.Reader.Chunks
import Aff4.Reader.Exactness
import Aff4.Reader.Frame
import Aff4.Reader.RoundTrip

/-!
# What a clean audit is worth

Whoever can write to a container can store other chunks in it.  If an audit of the
altered image is still clean, then the image reads as the genuine one does, unless
two different contents with one digest are at hand.
-/

namespace Aff4

open Rust Rust.Str Storage

/-! ## Digests -/

theorem toDigit16_hexDigit {n : Nat} (small : n < 16) :
    toDigit16 (hexDigit n) = some n := by
  revert n
  decide

/-- Decoding undoes the hex encoding of a digest. -/
theorem hexDecode_toHex (bytes : Bytes) : hexDecode (toHex bytes) = some bytes := by
  induction bytes with
  | nil => rfl
  | cons b rest inductionHypothesis =>
      have whole : b.toNat / 16 * 16 + b.toNat % 16 = b.toNat :=
        Nat.div_add_mod' b.toNat 16
      have high := toDigit16_hexDigit
        (Nat.div_lt_of_lt_mul b.toNat_lt : b.toNat / 16 < 16)
      have low := toDigit16_hexDigit (Nat.mod_lt b.toNat (by decide : 0 < 16))
      rw [toHex] at inductionHypothesis
      simp only [toHex, List.flatMap_cons, List.cons_append, List.nil_append,
        hexDecode, high, low, inductionHypothesis, Option.bind_eq_bind,
        Option.bind_some, Option.pure_def, whole, UInt8.ofNat_toNat]

theorem toHex_injective : Function.Injective toHex := fun left right same => by
  rw [← Option.some_inj, ← hexDecode_toHex left, same, hexDecode_toHex]

/-- Two different contents have one digest. -/
def Digest.Collides (digest : Digest) (content other : Bytes) : Prop :=
  content ≠ other ∧ digest.digest content = digest.digest other

section

variable {platform : Platform} {crates : Crates} {digests : DigestCrates}
variable {reader : Aff4Reader} {other : ZipArchive}

/-- The content of a reader whose chunks decode in full is what an audit hashes. -/
theorem Aff4Reader.DecodesInFull.content
    (decodes : reader.DecodesInFull platform crates) (wide : platform.Is64Bit)
    (chunkSize_ne_zero : reader.chunkSize ≠ 0) :
    (reader.readImageStreamContent platform crates).result = .ok () ∧
      (reader.readImageStreamContent platform crates).fed.flatten =
        reader.streamContent platform crates :=
  (decodes.holdsStream chunkSize_ne_zero).readImageStreamContent
    (decodes.length_streamContent chunkSize_ne_zero).symm wide

section

variable {φ : Type} {toFinding : Aff4Anomaly → φ} {backing altered : Bytes}

/-- An image that presents a disk, with a digest that this build knows and a clean
audit, is altered such that its audit is clean again, without touching the names of
the entries, the document or the files of the map.  Then every session on what is
opened still reads the genuine disk, or the altered content collides with the genuine
one. -/
theorem clean_after_tampering
    (wide : platform.Is64Bit) (opened : openReader crates backing = .ok reader)
    {content : Bytes} {disk : Disk UInt8}
    (presents : reader.Presents platform crates content disk)
    (size : reader.imageStreamSize.toNat = content.length)
    {hash : StoredHash} (stored : hash ∈ reader.imageHashes)
    {algorithm : Algorithm} (known : Algorithm.named hash.algorithm = some algorithm)
    (clean : auditImage platform crates digests toFinding backing = .ok [])
    (opens : crates.zipArchiveNew altered = .ok other)
    (same : reader.archive.SameMetadata other)
    (decodesOther : (reader.withArchive other).DecodesInFull platform crates)
    (cleanOther : auditImage platform crates digests toFinding altered = .ok []) :
    openReader crates altered = .ok (reader.withArchive other) ∧
      ((digests algorithm).Collides content
          ((reader.withArchive other).streamContent platform crates) ∨
        ∀ operations : List Operation,
          ∀ event ∈ run (Aff4Reader.perform platform crates)
              (reader.withArchive other) operations,
            Aff4Reader.Obeys disk event) := by
  have reopened := Aff4Reader.openReader_of_sameMetadata opened opens same
  refine ⟨reopened, ?_⟩
  rw [← Algorithm.forAlgorithm_eq_named] at known
  have chunkSize_ne_zero := presents.holds.chunkSize_ne_zero
  have genuine := (digest_of_verifyImageHashes
    (verifyImageHashes_of_clean opened clean) stored known).2
  have forged := (@digest_of_verifyImageHashes platform crates digests
    (reader.withArchive other) (verifyImageHashes_of_clean reopened cleanOther) hash
    stored algorithm known).2
  rw [(presents.holds.readImageStreamContent size wide).2] at genuine
  rw [(decodesOther.content wide chunkSize_ne_zero).2] at forged
  by_cases equal : (reader.withArchive other).streamContent platform crates = content
  case neg =>
    exact .inl ⟨fun symmetric => equal symmetric.symm,
      toHex_injective (genuine.trans forged.symm)⟩
  right
  -- the chunks that were put in hold the genuine content, and nothing else of the
  -- reader has changed
  have holds := decodesOther.holdsStream chunkSize_ne_zero
  rw [equal] at holds
  have presentsOther : (reader.withArchive other).Presents platform crates content
      disk :=
    ⟨presents.size, holds, presents.target⟩
  exact presentsOther.session_obeys wide

end

/-! ## One altered byte -/

/-- A byte of a chunk that is stored verbatim is altered, at a place where the
stream still has content; the index of the chunk's segment is not. -/
structure VerbatimByteAltered
    (platform : Platform) (reader : Aff4Reader) (other : ZipArchive)
    (chunk position : Nat) : Prop where
  index : ∃ index bounds,
    reader.archive.readEntry (indexName reader.zipBase
        (UInt64.ofNat chunk / reader.chunksPerSegment)) = .ok index ∧
      other.readEntry (indexName reader.zipBase
        (UInt64.ofNat chunk / reader.chunksPerSegment)) = .ok index ∧
      chunkBoundsFromIndex platform index
        (UInt64.ofNat chunk % reader.chunksPerSegment) = .ok bounds ∧
      bounds.2 = bounds.1 + reader.chunkSize.toNat ∧
      reader.archive.Altered other (segmentName reader.zipBase
        (UInt64.ofNat chunk / reader.chunksPerSegment)) (bounds.1 + position)
  inChunk : position < reader.chunkSize.toNat
  declared :
    chunk * reader.chunkSize.toNat + position < reader.imageStreamSize.toNat

/-- A chunk that is stored verbatim is the part of the bevy between its bounds. -/
theorem Aff4Reader.getElem?_of_verbatim
    (wide : platform.Is64Bit) (chunksPerSegment_ne_zero : reader.chunksPerSegment ≠ 0)
    {chunkIdx : UInt64} {index bevy chunk : Bytes} {bounds : Nat × Nat}
    (read : reader.archive.readEntry (indexName reader.zipBase
      (chunkIdx / reader.chunksPerSegment)) = .ok index)
    (decoded : chunkBoundsFromIndex platform index
      (chunkIdx % reader.chunksPerSegment) = .ok bounds)
    (full : bounds.2 = bounds.1 + reader.chunkSize.toNat)
    (bevyRead : reader.archive.readEntry (segmentName reader.zipBase
      (chunkIdx / reader.chunksPerSegment)) = .ok bevy)
    (returns : reader.readChunk platform crates chunkIdx = .ok chunk)
    {position : Nat} (inside : position < reader.chunkSize.toNat) :
    chunk[position]? = bevy[bounds.1 + position]? := by
  rw [readChunk_eq chunksPerSegment_ne_zero, read, Outcome.ofExcept_ok,
    Outcome.ok_bind, decoded, Outcome.ok_bind] at returns
  have nonempty : bounds.1 ≠ bounds.2 := by omega
  obtain ⟨stored, stores⟩ := exists_stores_of_chunkWithin nonempty returns
  rw [chunkWithin_of_stores (by omega) stores, stores.length,
    asUsize_of_is64Bit wide, if_pos (by omega)] at returns
  cases returns
  obtain ⟨bevyData, bevyRead', -, rfl⟩ := stores.bevy
  cases bevyRead.symm.trans bevyRead'
  rw [List.getElem?_drop, List.getElem?_take_of_lt (by omega)]

/-- Every full chunk supplies its part of the content. -/
theorem Aff4Reader.DecodesInFull.supplies
    (decodes : reader.DecodesInFull platform crates)
    (chunkSize_ne_zero : reader.chunkSize ≠ 0) :
    ∀ index, index < reader.chunkCount → reader.Supplies platform crates index := by
  intro index below
  obtain ⟨chunk, read, length⟩ := decodes index below
  refine ⟨chunk, read, fun inner => by omega, fun last => ?_⟩
  have covered := (lt_chunkCount_iff chunkSize_ne_zero (index + 1)).not.mp (by omega)
  rw [Nat.succ_mul] at covered
  omega

/-- An altered byte of a verbatim chunk alters the content. -/
theorem streamContent_ne_of_verbatimByteAltered
    (wide : platform.Is64Bit) (chunkSize_ne_zero : reader.chunkSize ≠ 0)
    (chunksPerSegment_ne_zero : reader.chunksPerSegment ≠ 0)
    (decodes : reader.DecodesInFull platform crates)
    (decodesOther : (reader.withArchive other).DecodesInFull platform crates)
    {chunk position : Nat}
    (altered : VerbatimByteAltered platform reader other chunk position) :
    (reader.withArchive other).streamContent platform crates ≠
      reader.streamContent platform crates := by
  intro same
  obtain ⟨index, bounds, read, readOther, decoded, full,
    ⟨bevy, bevyOther, bevyRead, bevyReadOther, differ⟩⟩ := altered.index
  have inChunk := altered.inChunk
  have quotient : (chunk * reader.chunkSize.toNat + position) /
      reader.chunkSize.toNat = chunk := by
    rw [Nat.mul_comm, Nat.mul_add_div (by omega), Nat.div_eq_of_lt inChunk,
      Nat.add_zero]
  have remainder : (chunk * reader.chunkSize.toNat + position) %
      reader.chunkSize.toNat = position := by
    rw [Nat.mul_comm, Nat.mul_add_mod, Nat.mod_eq_of_lt inChunk]
  obtain ⟨genuine, returns, -, place⟩ :=
    Aff4Reader.getElem?_streamContent_of_supplies chunkSize_ne_zero
      (decodes.supplies chunkSize_ne_zero) altered.declared
  obtain ⟨forged, returnsOther, -, placeOther⟩ :=
    @Aff4Reader.getElem?_streamContent_of_supplies platform crates
      (reader.withArchive other) chunkSize_ne_zero
      (decodesOther.supplies chunkSize_ne_zero) _ altered.declared
  simp only [Aff4Reader.withArchive_chunkSize] at returnsOther placeOther
  rw [quotient] at returns returnsOther
  rw [remainder] at place placeOther
  have stored := Aff4Reader.getElem?_of_verbatim wide chunksPerSegment_ne_zero read
    decoded full bevyRead returns inChunk
  have storedOther := @Aff4Reader.getElem?_of_verbatim platform crates
    (reader.withArchive other) wide chunksPerSegment_ne_zero _ index bevyOther forged
    bounds readOther decoded full bevyReadOther returnsOther position inChunk
  rw [same] at placeOther
  exact differ (stored.symm.trans (place.symm.trans
    (placeOther.trans storedOther)))

/-- An image with a clean audit is altered, without touching the names of the entries,
the document, the files of the map or the index of one segment.  If a byte of a chunk
that is stored verbatim in that segment is altered, then the audit of what is opened
reports a mismatch of every digest that this build knows, or the contents collide. -/
theorem altered_byte_reported
    {φ : Type} {toFinding : Aff4Anomaly → φ} {backing forgedBacking : Bytes}
    (wide : platform.Is64Bit) (opened : openReader crates backing = .ok reader)
    (decodes : reader.DecodesInFull platform crates)
    (clean : auditImage platform crates digests toFinding backing = .ok [])
    (opens : crates.zipArchiveNew forgedBacking = .ok other)
    (same : reader.archive.SameMetadata other)
    (decodesOther : (reader.withArchive other).DecodesInFull platform crates)
    {chunk position : Nat}
    (altered : VerbatimByteAltered platform reader other chunk position)
    {hash : StoredHash} (stored : hash ∈ reader.imageHashes)
    {algorithm : Algorithm}
    (known : Algorithm.named hash.algorithm = some algorithm) :
    (digests algorithm).Collides (reader.streamContent platform crates)
        ((reader.withArchive other).streamContent platform crates) ∨
      ∃ (anomalies : List Aff4Anomaly) (computed : Text),
        auditImage platform crates digests toFinding forgedBacking =
            .ok (anomalies.map toFinding) ∧
          .hashMismatch hash.algorithm hash.hex computed ∈ anomalies := by
  have isOpened : reader.Opened crates := .of_openReader opened
  obtain ⟨chunkSize_ne_zero, chunksPerSegment_ne_zero⟩ := isOpened.wellFormed
  have reopened := Aff4Reader.openReader_of_sameMetadata opened opens same
  have lowercase := lowercase_of_opened isOpened
  have differ := streamContent_ne_of_verbatimByteAltered wide chunkSize_ne_zero
    chunksPerSegment_ne_zero decodes decodesOther altered
  rw [← Algorithm.forAlgorithm_eq_named] at known
  have genuine := (digest_of_verifyImageHashes
    (verifyImageHashes_of_clean opened clean) stored known).2
  rw [(decodes.content wide chunkSize_ne_zero).2] at genuine
  obtain ⟨returns, fed⟩ := decodesOther.content wide chunkSize_ne_zero
  have verdict := @verifyImageHashes_of_lowercase platform crates digests
    (reader.withArchive other) lowercase returns
  rw [fed] at verdict
  by_cases collide : (digests algorithm).digest
        (reader.streamContent platform crates) =
      (digests algorithm).digest
        ((reader.withArchive other).streamContent platform crates)
  · exact .inl ⟨fun equal => differ equal.symm, collide⟩
  right
  have finding : digestFinding digests
        ((reader.withArchive other).streamContent platform crates) hash =
      some (.hashMismatch hash.algorithm hash.hex
        (toHex ((digests algorithm).digest
          ((reader.withArchive other).streamContent platform crates)))) := by
    simp only [digestFinding_eq, known, Option.bind_some]
    rw [if_neg]
    rw [lowercase hash stored, ← genuine]
    exact fun equal => collide (toHex_injective equal)
  exact ⟨_, _, auditImage_of_verified toFinding reopened verdict,
    List.mem_append_right _ (List.mem_filterMap.mpr ⟨hash, stored, finding⟩)⟩

end

/-! An image of two zeros with their MD5, the same image with the chunk left out,
and the image with the last zero altered. -/

namespace TamperingSample

def turtle : Text :=
  "<i> a aff4:ImageStream ; aff4:chunkSize 2 ; aff4:chunksInSegment 1 ; ".toList ++
    "aff4:size 2 ; aff4:hash ".toList ++
    "\"c4103f122d27677c9db144cae1394a66\"^^aff4:MD5 . ".toList

def hash : StoredHash where
  algorithm := "MD5".toList
  hex := "c4103f122d27677c9db144cae1394a66".toList

def metadata : StreamMeta where
  streamArn := "i".toList
  virtualSize := 2
  imageStreamSize := 2
  chunkSize := 2
  chunksPerSegment := 1
  compression := .null
  imageHashes := [hash]
  mapMeta := none

theorem parseTurtle_turtle : parseTurtle turtle = .ok metadata := by
  -- The kernel compares lists of characters faster than it unfolds string literals.
  unfold turtle
  simp only [String.reduceToList]
  decide +kernel

theorem entries_short (length : UInt32) (last : UInt8) :
    ∀ entry ∈ OneSegment.entries turtle (indexEntry 0 length) [0, last],
      entry.2.length < 2 ^ 63 :=
  OneSegment.entries_short (by decide +kernel) (by simp) (by simp)

def archive (length : UInt32) (last : UInt8) : ZipArchive :=
  OneSegment.archive _ _ _ (entries_short length last)

/-- The genuine archive in the empty file, and altered ones in others: the chunk is
left out, or its last byte is a one. -/
def crates : Crates :=
  { Crates.opening (archive 2 0) with
    zipArchiveNew := fun backing =>
      .ok (if backing = [] then archive 2 0
        else if backing = [0] then archive 0 0 else archive 2 1) }

def container : DirectContainer crates [] where
  archive := archive 2 0
  turtle := turtle
  metadata := metadata
  archive_eq := rfl
  turtle_eq :=
    (OneSegment.container _ _ _ (entries_short 2 0) parseTurtle_turtle rfl).turtle_eq
  metadata_eq := parseTurtle_turtle
  direct := rfl

/-- A digest crate that knows the MD5 of two contents. -/
def md5 : Digest :=
  .ofTable
    [([0, 0], [196, 16, 63, 18, 45, 39, 103, 124, 157, 177, 68, 202, 225, 57, 74, 102]),
      ([0, 1], [68, 16, 119, 204, 158, 87, 85, 77, 212, 118, 189, 251, 139, 139, 129, 2])]

theorem chunkCount_eq : container.reader.chunkCount = 1 := by decide

/-- The only chunk of an image of these decodes in full. -/
theorem decodesInFull {length : UInt32} {last : UInt8} {chunk : Bytes}
    (read : (container.reader.withArchive (archive length last)).readChunk .debug64
      crates 0 = .ok chunk)
    (full : chunk.length = 2) :
    (container.reader.withArchive (archive length last)).DecodesInFull .debug64
      crates := by
  intro index below
  cases Nat.lt_one_iff.mp (chunkCount_eq ▸ below)
  exact ⟨chunk, read, .inl full⟩

theorem decodesInFull_container : container.reader.DecodesInFull .debug64 crates :=
  @decodesInFull 2 0 [0, 0] (by decide +kernel) rfl

theorem clean_container : auditImage .debug64 crates (fun _ => md5) id [] = .ok [] :=
  have verified : verifyImageHashes .debug64 crates (fun _ => md5) container.reader =
      .ok [] := by
    decide +kernel
  auditImage_of_verified id container.openReader_eq verified

theorem known_hash : Algorithm.named hash.algorithm = some .md5 := by
  decide

theorem opens_leftOut : crates.zipArchiveNew [0] = .ok (archive 0 0) := rfl

theorem opens_altered : crates.zipArchiveNew [1] = .ok (archive 2 1) := rfl

/-- Only the index was altered. -/
theorem sameMetadata_leftOut : container.reader.archive.SameMetadata (archive 0 0) :=
  @ZipArchive.sameMetadata_overwritten
    [("information.turtle".toList, Str.asBytes turtle)] [("i/00000000".toList, [0, 0])]
    "i/00000000.index".toList (indexEntry 0 2) (indexEntry 0 0) (by decide) (by decide)
    (by decide) (entries_short 2 0) (entries_short 0 0)

/-- Only the bevy was altered. -/
theorem sameMetadata_altered : container.reader.archive.SameMetadata (archive 2 1) :=
  @ZipArchive.sameMetadata_overwritten
    [("information.turtle".toList, Str.asBytes turtle),
      ("i/00000000.index".toList, indexEntry 0 2)] [] "i/00000000".toList [0, 0] [0, 1]
    (by decide) (by decide) (by decide) (entries_short 2 0) (entries_short 2 1)

/-- The chunk was left out, so that nothing has to be hidden. -/
theorem clean_after_tampering_sample :
    openReader crates [0] = .ok (container.reader.withArchive (archive 0 0)) ∧
      (md5.Collides (container.reader.streamContent .debug64 crates)
          ((container.reader.withArchive (archive 0 0)).streamContent .debug64 crates) ∨
        ∀ operations : List Operation,
          ∀ event ∈ run (Aff4Reader.perform .debug64 crates)
              (container.reader.withArchive (archive 0 0)) operations,
            Aff4Reader.Obeys (Disk.ofList
              (container.reader.streamContent .debug64 crates)) event) :=
  have holds := decodesInFull_container.holdsStream (by decide)
  have length := decodesInFull_container.length_streamContent (by decide)
  have verified : verifyImageHashes .debug64 crates (fun _ => md5)
      (container.reader.withArchive (archive 0 0)) = .ok [] := by
    decide +kernel
  have cleanOther : auditImage .debug64 crates (fun _ => md5) id [0] = .ok [] :=
    auditImage_of_verified id (Aff4Reader.openReader_of_sameMetadata
      container.openReader_eq opens_leftOut sameMetadata_leftOut) verified
  clean_after_tampering Platform.is64Bit_debug64 container.openReader_eq
    (holds.presents rfl length.symm) length.symm (List.mem_singleton.mpr rfl)
    known_hash clean_container opens_leftOut sameMetadata_leftOut
    (@decodesInFull 0 0 [0, 0] (by decide +kernel) rfl) cleanOther

theorem verbatimByteAltered_sample :
    VerbatimByteAltered .debug64 container.reader (archive 2 1) 0 1 where
  index :=
    ⟨indexEntry 0 2, (0, 2), by decide +kernel, by decide +kernel,
      by decide +kernel, rfl, [0, 0], [0, 1], by decide +kernel,
      by decide +kernel, by decide⟩
  inChunk := by decide
  declared := by decide

theorem altered_byte_reported_sample :
    md5.Collides (container.reader.streamContent .debug64 crates)
        ((container.reader.withArchive (archive 2 1)).streamContent .debug64 crates) ∨
      ∃ (anomalies : List Aff4Anomaly) (computed : Text),
        auditImage .debug64 crates (fun _ => md5) id [1] = .ok (anomalies.map id) ∧
          .hashMismatch hash.algorithm hash.hex computed ∈ anomalies :=
  altered_byte_reported Platform.is64Bit_debug64 container.openReader_eq
    decodesInFull_container clean_container opens_altered sameMetadata_altered
    (@decodesInFull 2 1 [0, 1] (by decide +kernel) rfl) verbatimByteAltered_sample
    (List.mem_singleton.mpr rfl) known_hash

end TamperingSample
end Aff4
