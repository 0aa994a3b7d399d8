import Aff4.Reader.Content
import Aff4.Reader.Delivery

/-!
# Reads of a direct image

A read copies from the chunk its start lies in as far as that chunk decodes,
which may be further than the chunk should reach.  What lies beyond is served in
place of the chunks that follow.
-/

namespace Aff4

open Rust Storage

namespace Aff4Reader

/-- What a read delivers for a position is the byte of the chunk the position
lies in. -/
def ServesOwnChunks
    (platform : Platform) (crates : Crates) (reader : Aff4Reader) : Prop :=
  ∀ buf n, (reader.read platform crates buf).result = .ok n →
    ∀ index, index < n →
      let position := reader.pos.toNat + index
      ∃ chunk,
        reader.readChunk platform crates
          (UInt64.ofNat (position / reader.chunkSize.toNat)) = .ok chunk ∧
        (reader.read platform crates buf).buf[index]? =
          chunk[position % reader.chunkSize.toNat]?

/-- What a chunk of the image decodes to beyond its size agrees with the chunks
that follow, as far as the disk reaches. -/
def SurplusAgrees
    (platform : Platform) (crates : Crates) (reader : Aff4Reader) : Prop :=
  ∀ index chunk,
    reader.readChunk platform crates (UInt64.ofNat index) = .ok chunk →
    ∀ offset, reader.chunkSize.toNat ≤ offset → offset < chunk.length →
      index * reader.chunkSize.toNat + offset < reader.virtualSize.toNat →
      ∃ next,
        reader.readChunk platform crates
          (UInt64.ofNat (index + offset / reader.chunkSize.toNat)) = .ok next ∧
        chunk[offset]? = next[offset % reader.chunkSize.toNat]?

variable {platform : Platform} {crates : Crates} {reader : Aff4Reader}

/-- In a direct image the bytes a read delivers are those of the chunk its start
lies in. -/
theorem delivers_direct_iff
    (wide : platform.Is64Bit) (chunkSize_ne_zero : reader.chunkSize ≠ 0)
    (direct : reader.loadedMap = none)
    {start : UInt64} {position : Nat} {byte : UInt8} :
    reader.Delivers platform crates start position byte ↔
      start.toNat ≤ position ∧ position < reader.virtualSize.toNat ∧
        ∃ chunk,
          reader.readChunk platform crates
            (UInt64.ofNat (start.toNat / reader.chunkSize.toNat)) = .ok chunk ∧
          chunk[start.toNat % reader.chunkSize.toNat +
            (position - start.toNat)]? = some byte := by
  have sizeLt := reader.virtualSize.toNat_lt
  have resolved : target platform { reader with pos := start } =
      .ok { kind := .imageStream
            targetOffset := start
            bytesInRegion := UInt64.ofNat (2 ^ 64 - 1) } := by
    simp only [target, direct]
  have limit : (UInt64.ofNat (2 ^ 64 - 1)).toNat = 2 ^ 64 - 1 := by decide
  have chunkIdx : start / reader.chunkSize =
      UInt64.ofNat (start.toNat / reader.chunkSize.toNat) := by
    rw [← UInt64.toNat_div, UInt64.ofNat_toNat]
  rw [delivers_iff wide chunkSize_ne_zero]
  refine and_congr_right fun after => and_congr_right fun onDisk => ?_
  simp only [resolved, Outcome.ok.injEq, exists_eq_left', limit, Produces,
    UInt64.toNat_mod, chunkIdx]
  exact and_iff_right (by omega)

/-- Own chunks are served from every start exactly when each byte that is
delivered is the one of the chunk its position lies in. -/
theorem forall_servesOwnChunks_iff :
    (∀ start : UInt64,
      ServesOwnChunks platform crates { reader with pos := start }) ↔
      ∀ start position byte,
        reader.Delivers platform crates start position byte →
        ∃ chunk,
          reader.readChunk platform crates
            (UInt64.ofNat (position / reader.chunkSize.toNat)) = .ok chunk ∧
          chunk[position % reader.chunkSize.toNat]? = some byte := by
  constructor
  · rintro serves start position byte ⟨buf, n, after, within, returns, found⟩
    obtain ⟨chunk, read, same⟩ :=
      serves start buf n returns (position - start.toNat) (by omega)
    have back : start.toNat + (position - start.toNat) = position := by omega
    simp only [back] at read same
    exact ⟨chunk, read, same.symm.trans found⟩
  · intro delivered start buf n returns index below position
    obtain ⟨fits, length⟩ := length_of_read { reader with pos := start } returns
    have found := List.getElem?_eq_getElem (show index <
      (read platform crates { reader with pos := start } buf).buf.length by omega)
    have distance : position - start.toNat = index := Nat.add_sub_cancel_left ..
    obtain ⟨chunk, read, same⟩ := delivered start position _
      ⟨buf, n, Nat.le_add_right .., Nat.add_lt_add_left below _, returns,
        by rw [distance, found]⟩
    exact ⟨chunk, read, found.trans same.symm⟩

/-- Every read of a direct image serves the chunks its positions lie in exactly
when what chunks decode to beyond their size agrees with the next chunks; and
then so does every read of every session. -/
theorem servesOwnChunks_iff
    (wide : platform.Is64Bit) {backing : Bytes}
    (opened : openReader crates backing = .ok reader)
    (direct : reader.loadedMap = none) :
    ((∀ start : UInt64,
        ServesOwnChunks platform crates { reader with pos := start }) ↔
      reader.SurplusAgrees platform crates) ∧
    (reader.SurplusAgrees platform crates →
      ∀ operations,
        ∀ event ∈ run (Aff4Reader.perform platform crates) reader operations,
          event.before.ServesOwnChunks platform crates) := by
  have nonzero := (openReader_wellFormed opened).1
  have positive := chunkSize_pos nonzero
  have chunkOf (index offset : Nat) :
      (index * reader.chunkSize.toNat + offset) / reader.chunkSize.toNat =
        index + offset / reader.chunkSize.toNat := by
    rw [Nat.mul_comm, Nat.mul_add_div positive]
  have exactly : (∀ start : UInt64,
      ServesOwnChunks platform crates { reader with pos := start }) ↔
        reader.SurplusAgrees platform crates := by
    simp only [forall_servesOwnChunks_iff,
      delivers_direct_iff wide nonzero direct]
    constructor
    · intro delivered index chunk read offset beyond inside onDisk
      have sizeLt := reader.virtualSize.toNat_lt
      have start : (UInt64.ofNat (index * reader.chunkSize.toNat)).toNat =
          index * reader.chunkSize.toNat := toNat_ofNat_of_lt (by omega)
      have found : chunk[offset]? = some chunk[offset] :=
        List.getElem?_eq_getElem inside
      obtain ⟨next, readNext, same⟩ := delivered
        (UInt64.ofNat (index * reader.chunkSize.toNat))
        (index * reader.chunkSize.toNat + offset) chunk[offset] (by
          rw [start, Nat.mul_div_cancel _ positive, Nat.mul_mod_left,
            Nat.add_sub_cancel_left, Nat.zero_add]
          exact ⟨Nat.le_add_right .., onDisk, chunk, read, found⟩)
      rw [chunkOf] at readNext
      rw [Nat.mul_add_mod'] at same
      exact ⟨next, readNext, found.trans same.symm⟩
    · rintro agrees start position byte ⟨after, onDisk, chunk, read, found⟩
      have place := Nat.div_add_mod' start.toNat reader.chunkSize.toNat
      generalize start.toNat / reader.chunkSize.toNat = index at place read
      generalize offset_eq : start.toNat % reader.chunkSize.toNat +
        (position - start.toNat) = offset at found
      obtain rfl : position = index * reader.chunkSize.toNat + offset := by omega
      rcases Nat.lt_or_ge offset reader.chunkSize.toNat with own | beyond
      · rw [chunkOf, Nat.div_eq_of_lt own, Nat.add_zero,
          Nat.mul_add_mod_of_lt own]
        exact ⟨chunk, read, found⟩
      · obtain ⟨inside, -⟩ := List.getElem?_eq_some_iff.mp found
        obtain ⟨next, readNext, same⟩ :=
          agrees index chunk read offset beyond inside onDisk
        rw [chunkOf, Nat.mul_add_mod']
        exact ⟨next, readNext, same.symm.trans found⟩
  exact ⟨exactly, fun agrees => forall_before_session platform crates
    (exactly.mpr agrees)⟩

end Aff4Reader

/-! A first chunk of three bytes where two are declared: a read from the start
serves its third byte at the position where the second chunk begins. -/

namespace LongChunk

def turtle : Text :=
  "<i> a aff4:ImageStream ; aff4:chunkSize 2 ; ".toList ++
    "aff4:chunksInSegment 2 ; aff4:size 3 . ".toList

def metadata : StreamMeta where
  streamArn := "i".toList
  virtualSize := 3
  imageStreamSize := 3
  chunkSize := 2
  chunksPerSegment := 2
  compression := .null
  imageHashes := []
  mapMeta := none

def archive : ZipArchive :=
  .ofEntries
    [("information.turtle".toList, Str.asBytes turtle),
      ("i/00000000.index".toList, indexEntry 0 3 ++ indexEntry 3 1),
      ("i/00000000".toList, [0x41, 0x42, 0x43, 0x44])]
    (by decide +kernel)

def container : DirectContainer (.opening archive) [] where
  archive := archive
  turtle := turtle
  metadata := metadata
  archive_eq := rfl
  turtle_eq := ZipArchive.readEntryToString_of_asBytes turtle
    (ZipArchive.readEntry_ofEntries rfl)
  metadata_eq := by decide +kernel
  direct := rfl

theorem not_servesOwnChunks :
    openReader (.opening archive) [] = .ok container.reader ∧
      ¬container.reader.ServesOwnChunks .debug64 (.opening archive) := by
  refine ⟨container.openReader_eq, fun serves => ?_⟩
  obtain ⟨chunk, read, same⟩ :=
    serves [0, 0, 0] 3 (by decide +kernel) 2 (by decide)
  have own : container.reader.readChunk .debug64 (.opening archive) 1 =
      .ok [0x44] := by
    decide +kernel
  have served : (container.reader.read .debug64 (.opening archive)
      [0, 0, 0]).buf[2]? = some 0x43 := by
    decide +kernel
  have second : container.reader.readChunk .debug64 (.opening archive) 1 =
      .ok chunk := read
  rw [own] at second
  cases second
  rw [served] at same
  revert same
  decide

theorem servesOwnChunks_iff_longChunk :
    ((∀ start : UInt64, Aff4Reader.ServesOwnChunks .debug64 (.opening archive)
        { container.reader with pos := start }) ↔
      container.reader.SurplusAgrees .debug64 (.opening archive)) ∧
    (container.reader.SurplusAgrees .debug64 (.opening archive) →
      ∀ operations, ∀ event ∈
        run (Aff4Reader.perform .debug64 (.opening archive)) container.reader
          operations,
        event.before.ServesOwnChunks .debug64 (.opening archive)) :=
  Aff4Reader.servesOwnChunks_iff Platform.is64Bit_debug64
    container.openReader_eq rfl

end LongChunk
end Aff4
