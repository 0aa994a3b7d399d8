import Mathlib.Algebra.Order.Floor.Div
import Aff4.Crypto
import Aff4.Layout

/-!
# The encrypted-stream round trip

A writer cuts a plaintext into chunks of one size, pads the last one, encrypts
each chunk with its number as the tweak and stores the results as a stream.  The
decrypt path returns the plaintext it was given.
-/

namespace Aff4

open Rust Storage

/-- XTS encryption, which decryption under the same keys and tweak inverts. -/
structure XtsEncryption (crypto : CryptoCrates) where
  encryptSector : Bytes → Bytes → Bytes → Bytes → Bytes
  decrypt_encrypt : ∀ key1 key2 tweak sector, 16 ≤ sector.length →
    crypto.xtsDecryptSector key1 key2 tweak
      (encryptSector key1 key2 tweak sector) = sector

/-- Key wrapping, which unwrapping under the same key inverts. -/
structure KeyWrap (crypto : CryptoCrates) where
  wrap : Vector UInt8 32 → Vector UInt8 32 → Bytes
  unwrap_wrap : ∀ kek vek, crypto.kekUnwrap kek (wrap kek vek) = some vek

namespace Decrypt

variable {platform : Platform} {archive : ZipArchive} {zipBase : Text}
  {metadata : EncryptedMeta} {cipher : Xts}

/-- A stored stream whose chunks decrypt to the blocks of a plaintext, the last
one followed by padding. -/
structure SealedStream
    (archive : ZipArchive) (zipBase : Text) (metadata : EncryptedMeta)
    (cipher : Xts) (plain : Bytes) (chunkSize : Nat)
    extends StoredStream archive zipBase (plain.length ⌈/⌉ chunkSize)
      metadata.chunksPerSegment.toNat where
  size : metadata.size.toNat = plain.length
  block : 16 ≤ chunkSize
  small : plain.length < 2 ^ 63
  perSegment_pos : 0 < metadata.chunksPerSegment.toNat
  full : ∀ index, index < plain.length ⌈/⌉ chunkSize →
    (stored index).length = chunkSize
  decrypts : ∀ index, index < plain.length ⌈/⌉ chunkSize →
    cut chunkSize plain index <+:
      cipher.decryptSector (cipher.getTweakDefault index) (stored index)

namespace SealedStream

variable {plain : Bytes} {chunkSize : Nat}
variable (stream : SealedStream archive zipBase metadata cipher plain chunkSize)

include stream in
theorem lt_count_iff {index : Nat} :
    index < plain.length ⌈/⌉ chunkSize ↔ index * chunkSize < plain.length := by
  have positive : 0 < chunkSize := Nat.lt_of_lt_of_le (by decide) stream.block
  rw [← not_le, ceilDiv_le_iff_le_mul positive, not_le, Nat.mul_comm]

include stream in
theorem count_le : plain.length ⌈/⌉ chunkSize ≤ plain.length := by
  by_contra more
  have inside := stream.lt_count_iff.mp (not_le.mp more)
  have multiple := Nat.le_mul_of_pos_right plain.length
    (Nat.lt_of_lt_of_le (by decide) stream.block : 0 < chunkSize)
  omega

/-- The index file of a segment. -/
def indexOf (segment : Nat) : Bytes :=
  segmentIndex stream.stored stream.offset
    (segment * metadata.chunksPerSegment.toNat)
    (min metadata.chunksPerSegment.toNat
      (plain.length ⌈/⌉ chunkSize - segment * metadata.chunksPerSegment.toNat))

section Chunk

variable {index : Nat} (below : index < plain.length ⌈/⌉ chunkSize)

include below in
theorem stored_ne_nil : stream.stored index ≠ [] := by
  apply List.ne_nil_of_length_pos
  rw [stream.full index below]
  exact Nat.lt_of_lt_of_le (by decide) stream.block

include below in
theorem indexEntryAt_indexOf :
    indexEntryAt (stream.indexOf (index / metadata.chunksPerSegment.toNat))
        (index % metadata.chunksPerSegment.toNat) =
      indexEntry (stream.offset index)
        (UInt32.ofNat (stream.stored index).length) :=
  stream.indexEntryAt_eq stream.perSegment_pos below

include below in
theorem entryLength_indexOf :
    (entryLength (indexEntryAt
      (stream.indexOf (index / metadata.chunksPerSegment.toNat))
      (index % metadata.chunksPerSegment.toNat))).toNat =
      (stream.stored index).length := by
  rw [stream.indexEntryAt_indexOf below, entryLength_indexEntry,
    UInt32.toNat_ofNat', Nat.mod_eq_of_lt (stream.short index below)]

include below in
theorem entryOffset_indexOf :
    entryOffset (indexEntryAt
      (stream.indexOf (index / metadata.chunksPerSegment.toNat))
      (index % metadata.chunksPerSegment.toNat)) = stream.offset index := by
  rw [stream.indexEntryAt_indexOf below, entryOffset_indexEntry]

include below in
theorem storedChunk_eq :
    storedChunk (stream.indexOf (index / metadata.chunksPerSegment.toNat))
        (stream.bevy (index / metadata.chunksPerSegment.toNat))
        (index % metadata.chunksPerSegment.toNat) =
      stream.stored index := by
  rw [storedChunk, stream.entryOffset_indexOf below,
    stream.entryLength_indexOf below]
  exact stream.placed index below (stream.stored_ne_nil below)

theorem chunkId_eq (index : Nat) :
    chunkId metadata (index / metadata.chunksPerSegment.toNat)
      (index % metadata.chunksPerSegment.toNat) = index :=
  Nat.div_add_mod' _ _

include below in
theorem decryptable :
    Decryptable metadata
      (stream.indexOf (index / metadata.chunksPerSegment.toNat))
      (stream.bevy (index / metadata.chunksPerSegment.toNat))
      (index / metadata.chunksPerSegment.toNat)
      (index % metadata.chunksPerSegment.toNat) where
  listed := by
    have position := Nat.div_add_mod' index metadata.chunksPerSegment.toNat
    have entryLt := Nat.mod_lt index stream.perSegment_pos
    rw [indexOf, length_segmentIndex]
    omega
  inside := by
    rw [stream.entryOffset_indexOf below, stream.entryLength_indexOf below]
    exact stream.inside index below (stream.stored_ne_nil below)
  block := by
    rw [stream.entryLength_indexOf below, stream.full index below]
    exact stream.block
  numbered := by
    have small := stream.small
    have count_le := stream.count_le
    rw [chunkId_eq]
    omega

include below in
/-- The declared size cuts off the padding. -/
theorem take_decrypted :
    (cipher.decryptSector (cipher.getTweakDefault index) (stream.stored index)).take
        (plain.length - index * chunkSize) =
      cut chunkSize plain index := by
  apply take_of_cut_prefix (stream.decrypts index below)
  rw [cipher.decryptSector_length, stream.full index below]

include below in
/-- The chunk of an entry decrypts to its block of the plaintext. -/
theorem decryptChunk_eq
    (wide : platform.Is64Bit)
    {produced : UInt64} (start : produced.toNat = index * chunkSize) :
    ∃ visit,
      decryptChunk platform metadata cipher
          (stream.indexOf (index / metadata.chunksPerSegment.toNat))
          (stream.bevy (index / metadata.chunksPerSegment.toNat))
          (UInt64.ofNat (index / metadata.chunksPerSegment.toNat))
          (UInt64.ofNat (index % metadata.chunksPerSegment.toNat)) produced =
        .ok visit ∧
      visit.appended = cut chunkSize plain index := by
  have inside := stream.lt_count_iff.mp below
  have count_le := stream.count_le
  have small := stream.small
  have size := stream.size
  have segmentNarrow :
      (UInt64.ofNat (index / metadata.chunksPerSegment.toNat)).toNat =
        index / metadata.chunksPerSegment.toNat := by
    have le := Nat.div_le_self index metadata.chunksPerSegment.toNat
    exact toNat_ofNat_of_lt (by omega)
  have entryNarrow :
      (UInt64.ofNat (index % metadata.chunksPerSegment.toNat)).toNat =
        index % metadata.chunksPerSegment.toNat := by
    have le := Nat.mod_le index metadata.chunksPerSegment.toNat
    exact toNat_ofNat_of_lt (by omega)
  have more : produced < metadata.size := by
    rw [UInt64.lt_iff_toNat_lt]
    omega
  have segmentLe := Nat.div_mul_le_self index metadata.chunksPerSegment.toNat
  have indexShort := ZipArchive.length_lt_of_readEntry_eq_ok
    (stream.indexFile (index / metadata.chunksPerSegment.toNat) (by omega))
  have bevyShort := ZipArchive.length_lt_of_readEntry_eq_ok
    (stream.bevyFile index below (stream.stored_ne_nil below))
  refine ⟨visitAt metadata cipher (stream.indexOf _) (stream.bevy _) _ _ produced,
    (decryptChunk_eq_ok wide indexShort bevyShort more).mpr ⟨?_, rfl⟩, ?_⟩
  · rw [segmentNarrow, entryNarrow]
    exact stream.decryptable below
  · simp only [visitAt, segmentNarrow, entryNarrow, chunkId_eq,
      stream.storedChunk_eq below, start, size]
    exact stream.take_decrypted below

end Chunk

include stream in
/-- The chunk loop returns what the plaintext has from one position to another:
the bytes left to decrypt are a suffix of the plaintext throughout. -/
theorem segmentLoop_eq
    (wide : platform.Is64Bit)
    (segment entries chunkInSeg : Nat)
    (listed : chunkInSeg + entries ≤ metadata.chunksPerSegment.toNat)
    (counted : segment * metadata.chunksPerSegment.toNat + chunkInSeg + entries ≤
      plain.length ⌈/⌉ chunkSize)
    {produced : UInt64}
    (start : produced.toNat = min plain.length
      ((segment * metadata.chunksPerSegment.toNat + chunkInSeg) * chunkSize)) :
    ∃ visits total,
      segmentLoop platform metadata cipher (stream.indexOf segment)
          (stream.bevy segment) (UInt64.ofNat segment) entries chunkInSeg
          produced =
        .ok (visits, total) ∧
      visits.flatMap Visit.appended ++ plain.drop total.toNat =
        plain.drop produced.toNat ∧
      total.toNat = min plain.length
        ((segment * metadata.chunksPerSegment.toNat + chunkInSeg + entries) *
          chunkSize) := by
  induction entries generalizing chunkInSeg produced with
  | zero => exact ⟨[], produced, rfl, rfl, start⟩
  | succ entries inductionHypothesis =>
      have below : segment * metadata.chunksPerSegment.toNat + chunkInSeg <
          plain.length ⌈/⌉ chunkSize := by omega
      have inside := stream.lt_count_iff.mp below
      have quotient : (segment * metadata.chunksPerSegment.toNat + chunkInSeg) /
          metadata.chunksPerSegment.toNat = segment := by
        rw [Nat.add_comm, Nat.add_mul_div_right _ _ stream.perSegment_pos,
          Nat.div_eq_of_lt (by omega), Nat.zero_add]
      have remainder : (segment * metadata.chunksPerSegment.toNat + chunkInSeg) %
          metadata.chunksPerSegment.toNat = chunkInSeg := by
        rw [Nat.add_comm, Nat.add_mul_mod_self_right, Nat.mod_eq_of_lt (by omega)]
      rw [Nat.min_eq_right (Nat.le_of_lt inside)] at start
      obtain ⟨visit, decrypted, appended⟩ := stream.decryptChunk_eq below wide start
      rw [quotient, remainder] at decrypted
      have length : visit.appended.length = min chunkSize (plain.length -
          (segment * metadata.chunksPerSegment.toNat + chunkInSeg) * chunkSize) := by
        rw [appended, length_cut]
      have small := stream.small
      have size := stream.size
      have narrow : (UInt64.ofNat visit.appended.length).toNat =
          visit.appended.length := toNat_ofNat_of_lt (by omega)
      have next_eq : (produced + UInt64.ofNat visit.appended.length).toNat =
          produced.toNat + visit.appended.length := by
        rw [toNat_add_of_lt (by omega), narrow]
      obtain ⟨visits, total, looped, rest, total_eq⟩ := inductionHypothesis
        (chunkInSeg + 1) (by omega) (by omega)
        (show (produced + UInt64.ofNat visit.appended.length).toNat = _ by
          rw [next_eq, ← Nat.add_assoc, Nat.succ_mul]
          omega)
      refine ⟨visit :: visits, total, ?_, ?_, ?_⟩
      · rw [segmentLoop, if_neg (by rw [UInt64.le_iff_toNat_le]; omega), decrypted,
          Outcome.ok_bind, addU64_of_lt (by omega), Outcome.ok_bind, looped]
        rfl
      · rw [List.flatMap_cons, List.append_assoc, rest, next_eq, appended, start,
          length_cut, cut, ← List.drop_drop, List.take_eq_take_min,
          List.length_drop, List.take_append_drop]
      · rw [total_eq]
        congr 2
        omega

include stream in
/-- The number of bytes decrypted at the end of a segment is the number at the
beginning of the next one. -/
theorem total_eq_start
    {segment : Nat}
    (below : segment * metadata.chunksPerSegment.toNat <
      plain.length ⌈/⌉ chunkSize) :
    min plain.length ((segment * metadata.chunksPerSegment.toNat +
        min metadata.chunksPerSegment.toNat (plain.length ⌈/⌉ chunkSize -
          segment * metadata.chunksPerSegment.toNat)) * chunkSize) =
      min plain.length
        ((segment + 1) * metadata.chunksPerSegment.toNat * chunkSize) := by
  rw [Nat.succ_mul]
  rcases Nat.le_total metadata.chunksPerSegment.toNat
    (plain.length ⌈/⌉ chunkSize -
      segment * metadata.chunksPerSegment.toNat) with full | last
  · rw [Nat.min_eq_left full]
  · -- the plaintext ends in this segment
    have covered := stream.lt_count_iff.not.mp
      (lt_irrefl (plain.length ⌈/⌉ chunkSize))
    have beyond : plain.length ⌈/⌉ chunkSize * chunkSize ≤
        (segment * metadata.chunksPerSegment.toNat +
          metadata.chunksPerSegment.toNat) * chunkSize :=
      Nat.mul_le_mul_right _ (by omega)
    rw [Nat.min_eq_right last, Nat.add_sub_cancel' (by omega)]
    omega

include stream in
/-- A pass that the declared size asks for decrypts one segment, which is not
empty, and leaves the rest to the passes that follow. -/
theorem streamLoop_succ
    (wide : platform.Is64Bit)
    {segment : Nat} {produced : UInt64} (more : produced < metadata.size)
    (start : produced.toNat = min plain.length
      (segment * metadata.chunksPerSegment.toNat * chunkSize)) :
    ∃ here total,
      (∀ passes,
        streamLoop platform archive zipBase metadata cipher (passes + 1)
            (UInt64.ofNat segment) produced =
          streamLoop platform archive zipBase metadata cipher passes
              (UInt64.ofNat (segment + 1)) total >>= fun rest =>
            .ok (here ++ rest)) ∧
      here.flatMap Visit.appended ++ plain.drop total.toNat =
        plain.drop produced.toNat ∧
      total.toNat = min plain.length
        ((segment + 1) * metadata.chunksPerSegment.toNat * chunkSize) ∧
      produced.toNat < total.toNat := by
  have size := stream.size
  have moreBytes := UInt64.lt_iff_toNat_lt.mp more
  have below : segment * metadata.chunksPerSegment.toNat <
      plain.length ⌈/⌉ chunkSize := stream.lt_count_iff.mpr (by omega)
  have positive := stream.perSegment_pos
  have small := stream.small
  have count_le := stream.count_le
  have segment_le : segment ≤ segment * metadata.chunksPerSegment.toNat :=
    Nat.le_mul_of_pos_right _ positive
  have quotient : segment * metadata.chunksPerSegment.toNat /
      metadata.chunksPerSegment.toNat = segment :=
    Nat.mul_div_cancel _ positive
  have indexRead := stream.indexFile segment below
  have bevyRead := stream.bevyFile _ below (stream.stored_ne_nil below)
  rw [quotient] at bevyRead
  have entries : (stream.indexOf segment).length / 12 =
      min metadata.chunksPerSegment.toNat (plain.length ⌈/⌉ chunkSize -
        segment * metadata.chunksPerSegment.toNat) := by
    rw [indexOf, length_segmentIndex, Nat.mul_div_cancel _ (by decide)]
  have chunks : 0 < min metadata.chunksPerSegment.toNat
      (plain.length ⌈/⌉ chunkSize -
        segment * metadata.chunksPerSegment.toNat) := by omega
  obtain ⟨here, total, looped, split, total_eq⟩ := stream.segmentLoop_eq wide
    segment _ 0
    (by rw [Nat.zero_add]; exact Nat.min_le_left _ _)
    (show _ + min metadata.chunksPerSegment.toNat
      (plain.length ⌈/⌉ chunkSize -
        segment * metadata.chunksPerSegment.toNat) ≤ _ by omega) start
  rw [Nat.add_zero] at total_eq
  have next : checkedAddU64 (UInt64.ofNat segment) 1 =
      some (UInt64.ofNat (segment + 1)) := by
    have narrow : (UInt64.ofNat segment).toNat = segment :=
      toNat_ofNat_of_lt (by omega)
    rw [checkedAddU64, narrow, UInt64.toNat_one, if_pos (by omega),
      UInt64.ofNat_add]
    rfl
  refine ⟨here, total, fun passes => ?_, split,
    total_eq.trans (stream.total_eq_start below), ?_⟩
  · rw [streamLoop, if_neg (UInt64.not_le.mpr more), indexRead,
      Outcome.ofExcept_ok, Outcome.ok_bind, bevyRead, Outcome.ofExcept_ok,
      Outcome.ok_bind]
    dsimp only
    change (if (stream.indexOf segment).length / 12 = 0 then _ else
      segmentLoop platform metadata cipher (stream.indexOf segment)
        (stream.bevy segment) (UInt64.ofNat segment)
        ((stream.indexOf segment).length / 12) 0 produced >>= _) = _
    rw [entries, if_neg (by omega), looped, Outcome.ok_bind]
    dsimp only
    rw [next, Outcome.okOr_some, Outcome.ok_bind]
    rfl
  · have block := stream.block
    have grows := Nat.mul_le_mul_right chunkSize (Nat.add_le_add_left chunks
      (segment * metadata.chunksPerSegment.toNat))
    rw [Nat.add_mul, Nat.succ_mul] at grows
    omega

include stream in
/-- From a segment on, the segment loop returns the rest of the plaintext. -/
theorem streamLoop_eq
    (wide : platform.Is64Bit)
    {passes segment : Nat} {produced : UInt64}
    (enough : plain.length - produced.toNat ≤ passes)
    (start : produced.toNat = min plain.length
      (segment * metadata.chunksPerSegment.toNat * chunkSize)) :
    ∃ visits,
      streamLoop platform archive zipBase metadata cipher passes
          (UInt64.ofNat segment) produced = .ok visits ∧
      visits.flatMap Visit.appended = plain.drop produced.toNat := by
  induction passes generalizing segment produced with
  | zero =>
      refine ⟨[], rfl, ?_⟩
      rw [List.drop_of_length_le (by omega), List.flatMap_nil]
  | succ passes inductionHypothesis =>
      have size := stream.size
      by_cases more : produced < metadata.size
      case neg =>
        refine ⟨[], by rw [streamLoop, if_pos (UInt64.not_lt.mp more)], ?_⟩
        rw [UInt64.lt_iff_toNat_lt] at more
        rw [List.drop_of_length_le (by omega), List.flatMap_nil]
      obtain ⟨here, total, looped, split, nextStart, ahead⟩ :=
        stream.streamLoop_succ wide more start
      obtain ⟨rest, continued, remaining⟩ := inductionHypothesis
        (show plain.length - total.toNat ≤ passes by omega) nextStart
      refine ⟨here ++ rest, ?_, ?_⟩
      · rw [looped, continued, Outcome.ok_bind]
      · rw [List.flatMap_append, remaining, split]

end SealedStream
end Decrypt

/-- A plaintext that was encrypted chunk by chunk, with the chunk's number as the
tweak, and stored under a wrapped key is returned by the decrypt path. -/
theorem EncryptedContainer.decryptReader_roundTrip
    {platform : Platform} {crates : Crates} {backing : Bytes}
    (wide : platform.Is64Bit)
    (container : EncryptedContainer platform crates backing)
    {crypto : CryptoCrates}
    (encryption : XtsEncryption crypto) (keyWrap : KeyWrap crypto)
    {password base : Text} {vek : Vector UInt8 32}
    {plain : Bytes} {chunkSize : Nat} {padded : Nat → Bytes}
    (small : plain.length < 2 ^ 63)
    (block : 16 ≤ chunkSize)
    (size : container.metadata.size.toNat = plain.length)
    (keySize : container.metadata.keySize = 32)
    (wrapped : container.metadata.wrappedKey =
      keyWrap.wrap
        (crypto.pbkdf2HmacSha256 (Str.asBytes password)
          container.metadata.salt container.metadata.iterations) vek)
    (spelling : base ∈ baseSpellings container.metadata.streamArn)
    (noRivals : NoRivals container.archive container.metadata.streamArn base)
    (stream : StoredStream container.archive base (plain.length ⌈/⌉ chunkSize)
      container.metadata.chunksPerSegment.toNat)
    (pads : ∀ index, index < plain.length ⌈/⌉ chunkSize →
      cut chunkSize plain index <+: padded index ∧
        (padded index).length = chunkSize)
    (encrypts : ∀ index, index < plain.length ⌈/⌉ chunkSize →
      stream.stored index =
        encryption.encryptSector (vek.toList.take 16) (vek.toList.drop 16)
          (crypto.getTweakDefault index) (padded index)) :
    decryptReader platform crates crypto backing password = .ok plain := by
  have opened : deriveVek crypto password container.metadata = .ok vek := by
    simp only [deriveVek, keySize, wrapped, keyWrap.unwrap_wrap]
    rfl
  have allocated : (withCapacity platform
      (asUsize platform container.metadata.size) : Outcome Aff4Error Unit) =
        .ok () := by
    rw [asUsize_of_is64Bit wide]
    exact withCapacity_of_le (by rw [wide.isizeMax]; omega)
  have decrypts (index : Nat) (below : index < plain.length ⌈/⌉ chunkSize) :
      (Decrypt.xts crypto vek).decryptSector (crypto.getTweakDefault index)
        (stream.stored index) = padded index := by
    rw [encrypts index below]
    exact encryption.decrypt_encrypt _ _ _ _ ((pads index below).2 ▸ block)
  have returns : ∃ visits,
      container.decryptWith crypto vek = .ok visits ∧
        visits.flatMap Decrypt.Visit.appended = plain := by
    by_cases nonempty : 0 < plain.length ⌈/⌉ chunkSize
    · have detected : container.zipBase = base :=
        stream.detectZipBase_eq nonempty spelling noRivals
      subst detected
      have nonzero := parseEncryptedMeta_chunksPerSegment container.metadata_eq
      have sealed : Decrypt.SealedStream container.archive container.zipBase
          container.metadata (Decrypt.xts crypto vek) plain chunkSize :=
        { stream with
          size, block, small
          perSegment_pos := Nat.pos_of_ne_zero fun zero =>
            nonzero (UInt64.toNat_inj.mp zero)
          full := fun index below => by
            rw [← (Decrypt.xts crypto vek).decryptSector_length
              (crypto.getTweakDefault index), decrypts index below]
            exact (pads index below).2
          decrypts := fun index below => by
            rw [Decrypt.xts_getTweakDefault, decrypts index below]
            exact (pads index below).1 }
      obtain ⟨visits, returns, appended⟩ :=
        @Decrypt.SealedStream.streamLoop_eq _ _ _ _ _ _ _ sealed wide
          container.metadata.size.toNat 0 0 (by rw [size]; exact Nat.sub_le _ _)
          (by rw [Nat.zero_mul, Nat.zero_mul, Nat.min_zero]; rfl)
      exact ⟨visits, returns, appended⟩
    · have positive : 0 < chunkSize := Nat.lt_of_lt_of_le (by decide) block
      have none : plain.length = 0 := by
        have covered := (ceilDiv_le_iff_le_mul positive).mp (not_lt.mp nonempty)
        rwa [Nat.mul_zero, Nat.le_zero] at covered
      refine ⟨[], ?_, (List.length_eq_zero_iff.mp none).symm⟩
      rw [decryptWith, size, none]
      rfl
  obtain ⟨visits, returns, appended⟩ := returns
  rw [decryptReader, container.decryptVisits_eq, opened, Outcome.ofExcept_ok,
    Outcome.ok_bind, allocated, Outcome.ok_bind, returns, Outcome.ok_bind, appended]
  rfl

namespace EncryptedSample

def encryption : XtsEncryption crypto where
  encryptSector := fun key1 key2 tweak sector =>
    if key1 ++ key2 = vek.toList then
      (unsealed (LittleEndian.decode tweak)).symm sector
    else sector
  decrypt_encrypt := by
    intro key1 key2 tweak sector _
    simp only [crypto]
    split
    · exact Equiv.apply_symm_apply _ _
    · rfl

def keyWrap : KeyWrap crypto where
  wrap := fun key volumeKey =>
    if key = kek ∧ volumeKey = vek then metadata.wrappedKey
    else List.replicate 8 0xA6 ++ volumeKey.toList
  unwrap_wrap := by
    intro key volumeKey
    simp only [crypto]
    by_cases sample : key = kek ∧ volumeKey = vek
    · rw [if_pos sample, if_pos ⟨sample.1, rfl⟩, sample.2]
    · have differs : List.replicate 8 0xA6 ++ volumeKey.toList ≠
          metadata.wrappedKey := by
        intro equal
        have first : some (0xA6 : UInt8) = some 227 :=
          congrArg List.head? equal
        exact absurd first (by decide)
      have checked : (List.replicate 8 0xA6 ++ volumeKey.toList).take 8 =
          List.replicate 8 0xA6 := List.take_left' List.length_replicate
      rw [if_neg sample, if_neg fun equal => differs equal.2, if_pos checked,
        Option.some.injEq]
      apply Vector.ext
      intro index below
      rw [Vector.getElem_ofFn, List.getD_eq_getElem?_getD,
        List.getElem?_append_right (by rw [List.length_replicate]; omega),
        List.length_replicate, Nat.add_sub_cancel_left]
      simp [below]

def plain : Bytes :=
  plainChunk 0 ++ plainChunk 1 ++ [71, 72, 73, 74, 75, 76, 77, 78]

theorem short_full :
    ∀ entry ∈ entries [0, 1] [2], entry.2.length < 2 ^ 63 :=
  entries_short [0, 1] [2] (by decide)

theorem count_eq : plain.length ⌈/⌉ 16 = 3 := by
  rw [Nat.ceilDiv_eq_add_pred_div]
  decide

def stream :
    StoredStream (archive [0, 1] [2] short_full) "aff4://e".toList
      (plain.length ⌈/⌉ 16) 2 where
  stored := sealedChunk
  offset := fun index => UInt64.ofNat (16 * (index % 2))
  bevy := fun segment =>
    if segment = 0 then [0, 1].flatMap sealedChunk else [2].flatMap sealedChunk
  short := by rw [count_eq]; decide
  indexFile := by
    rw [count_eq]
    intro segment inside
    have : segment < 2 := by omega
    match segment, this with
    | 0, _ => exact ZipArchive.readEntry_ofEntries rfl
    | 1, _ => exact ZipArchive.readEntry_ofEntries rfl
  bevyFile := by
    rw [count_eq]
    intro index below _
    match index, below with
    | 0, _ => exact ZipArchive.readEntry_ofEntries rfl
    | 1, _ => exact ZipArchive.readEntry_ofEntries rfl
    | 2, _ => exact ZipArchive.readEntry_ofEntries rfl
  inside := by rw [count_eq]; decide
  placed := by rw [count_eq]; decide

theorem noRivals :
    NoRivals (archive [0, 1] [2] short_full) "aff4://e".toList
      "aff4://e".toList := by
  intro name member
  have names : (archive [0, 1] [2] short_full).fileNames =
      ["information.turtle".toList, indexName "aff4://e".toList 0,
        segmentName "aff4://e".toList 0, indexName "aff4://e".toList 1,
        segmentName "aff4://e".toList 1] := by decide
  simp only [names, List.mem_cons, List.not_mem_nil, or_false] at member
  rcases member with rfl | rfl | rfl | rfl | rfl
  · exact .inr (by decide)
  · exact .inl ⟨0, .inr rfl⟩
  · exact .inl ⟨0, .inl rfl⟩
  · exact .inl ⟨1, .inr rfl⟩
  · exact .inl ⟨1, .inl rfl⟩

theorem pads (index : Nat) (below : index < plain.length ⌈/⌉ 16) :
    cut 16 plain index <+: plainChunk index ∧ (plainChunk index).length = 16 := by
  rw [count_eq] at below
  match index, below with
  | 0, _ => decide
  | 1, _ => decide
  | 2, _ => decide

theorem encrypts (index : Nat) (below : index < plain.length ⌈/⌉ 16) :
    sealedChunk index =
      encryption.encryptSector (vek.toList.take 16) (vek.toList.drop 16)
        (crypto.getTweakDefault index) (plainChunk index) := by
  rw [count_eq] at below
  match index, below with
  | 0, _ => decide +kernel
  | 1, _ => decide +kernel
  | 2, _ => decide +kernel

theorem decryptReader_roundTrip_sample :
    decryptReader .debug64 (.opening (archive [0, 1] [2] short_full)) crypto []
      password = .ok plain := by
  have wrapped : metadata.wrappedKey =
      keyWrap.wrap
        (crypto.pbkdf2HmacSha256 (Str.asBytes password) metadata.salt
          metadata.iterations) vek := rfl
  exact (container [0, 1] [2] short_full).decryptReader_roundTrip
    Platform.is64Bit_debug64 encryption keyWrap (by decide) (le_refl 16) rfl rfl
    wrapped (List.mem_cons_of_mem _ (List.mem_cons_self ..)) noRivals stream pads
    encrypts

end EncryptedSample
end Aff4
