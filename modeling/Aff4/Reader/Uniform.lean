import Aff4.Map.Homogeneous
import Aff4.Reader.Delivery
import Aff4.Reader.Open

/-!
# Whether it matters where a read starts

In a map-backed image the byte a read delivers for a position is decided by the
run its start lies in and by the chunk that is found there.  It is the same from
every start exactly when the runs are homogeneous and chunks that reach further
than they should agree with the chunks that follow.
-/

namespace Aff4

open Rust

namespace Aff4Reader

/-- All reads deliver the same byte for a position. -/
def ReadsUniformly
    (platform : Platform) (crates : Crates) (reader : Aff4Reader) : Prop :=
  ∀ start other position byte otherByte,
    reader.Delivers platform crates start position byte →
    reader.Delivers platform crates other position otherByte →
    byte = otherByte

/-- Wherever two chunks that a run of the ImageStream reaches hold a byte for the
same offset of the stream, they hold the same byte. -/
def ChunksAgree
    (platform : Platform) (crates : Crates) (reader : Aff4Reader)
    (map : LoadedMap) : Prop :=
  ∀ outer, map.Seen outer → map.targetKind outer = .imageStream →
    outer.mapOffset.toNat + outer.length.toNat < 2 ^ 64 →
    ∀ first second last, outer.targetOffset.toNat ≤ first → first ≤ second →
      second ≤ last →
      last < outer.targetOffset.toNat +
        (LoadedMap.runEnd outer reader.virtualSize - outer.mapOffset.toNat) →
      ∀ chunk next,
        reader.readChunk platform crates
          (UInt64.ofNat (first / reader.chunkSize.toNat)) = .ok chunk →
        reader.readChunk platform crates
          (UInt64.ofNat (second / reader.chunkSize.toNat)) = .ok next →
        ∀ byte other,
          chunk[first % reader.chunkSize.toNat + (last - first)]? = some byte →
          next[second % reader.chunkSize.toNat + (last - second)]? = some other →
          byte = other

variable {platform : Platform} {crates : Crates} {reader : Aff4Reader}
variable {map : LoadedMap}

/-- A region of the ImageStream produces what the chunk at its offset holds. -/
theorem produces_imageStream_iff {region : ResolvedRegion} {offset distance : Nat}
    {byte : UInt8} (kind : region.kind = .imageStream)
    (targetOffset : region.targetOffset.toNat = offset) :
    reader.Produces platform crates region distance byte ↔
      ∃ chunk,
        reader.readChunk platform crates
          (UInt64.ofNat (offset / reader.chunkSize.toNat)) = .ok chunk ∧
        chunk[offset % reader.chunkSize.toNat + distance]? = some byte := by
  have chunkIdx : region.targetOffset / reader.chunkSize =
      UInt64.ofNat (offset / reader.chunkSize.toNat) := by
    rw [← targetOffset, ← UInt64.toNat_div, UInt64.ofNat_toNat]
  simp only [Produces, kind, UInt64.toNat_mod, targetOffset, chunkIdx]

/-- Two regions of the same kind that reach the same offset of their target
produce the same byte there, where the kind is not the ImageStream. -/
theorem produces_unique {region other : ResolvedRegion}
    {distance otherDistance : Nat} {byte otherByte : UInt8}
    (sameKind : region.kind = other.kind) (notStream : region.kind ≠ .imageStream)
    (sameOffset : ∀ pattern, region.kind = .tile pattern →
      region.targetOffset + UInt64.ofNat distance =
        other.targetOffset + UInt64.ofNat otherDistance)
    (produces : reader.Produces platform crates region distance byte)
    (otherProduces :
      reader.Produces platform crates other otherDistance otherByte) :
    byte = otherByte := by
  cases kind : region.kind with
  | unknown =>
      rw [kind] at sameKind
      simp only [Produces, kind, ← sameKind] at produces otherProduces
      rw [produces, otherProduces]
  | fill constant =>
      rw [kind] at sameKind
      simp only [Produces, kind, ← sameKind] at produces otherProduces
      rw [produces, otherProduces]
  | tile pattern =>
      have offset := sameOffset pattern kind
      rw [kind] at sameKind
      simp only [Produces, kind, ← sameKind] at produces otherProduces
      rw [produces.2, otherProduces.2, offset]
  | imageStream => exact absurd kind notStream

/-- In a consistent map, a read that starts inside a run of the ImageStream
delivers what the chunk found at its start holds. -/
theorem delivers_run_iff
    (wide : platform.Is64Bit) (chunkSize_ne_zero : reader.chunkSize ≠ 0)
    (mapped : reader.loadedMap = some map)
    (consistent : map.Consistent reader.virtualSize)
    {outer : MapEntry} (seen : map.Seen outer)
    (kind : map.targetKind outer = .imageStream)
    (stopFits : outer.mapOffset.toNat + outer.length.toNat < 2 ^ 64)
    {start : UInt64} {position offset : Nat} {byte : UInt8}
    (begins : outer.mapOffset.toNat ≤ start.toNat)
    (after : start.toNat ≤ position)
    (inside : position < LoadedMap.runEnd outer reader.virtualSize)
    (reached : offset =
      outer.targetOffset.toNat + (start.toNat - outer.mapOffset.toNat)) :
    reader.Delivers platform crates start position byte ↔
      ∃ chunk,
        reader.readChunk platform crates
          (UInt64.ofNat (offset / reader.chunkSize.toNat)) = .ok chunk ∧
        chunk[offset % reader.chunkSize.toNat + (position - start.toNat)]? =
          some byte := by
  have endsBefore : LoadedMap.runEnd outer reader.virtualSize ≤
      outer.mapOffset.toNat + outer.length.toNat := Nat.min_le_left _ _
  have onDisk : LoadedMap.runEnd outer reader.virtualSize ≤
      reader.virtualSize.toNat := Nat.min_le_right _ _
  obtain ⟨region, resolved, regionKind, targetOffset, bytes⟩ :=
    consistent.resolve_inside platform seen stopFits begins
      (lt_of_le_of_lt after inside)
  have streams := @produces_imageStream_iff platform crates reader region offset
    (position - start.toNat) byte (regionKind.trans kind)
    (targetOffset.trans reached.symm)
  rw [delivers_iff wide chunkSize_ne_zero, ← streams]
  simp only [target, mapped, resolved, Outcome.ok.injEq, exists_eq_left']
  constructor
  · exact fun delivered => delivered.2.2.2
  · exact fun produces => ⟨after, by omega, by omega, produces⟩

/-- Chunks that agree settle what is delivered further on in a run of the
ImageStream. -/
theorem ChunksAgree.delivers_unique
    (agree : reader.ChunksAgree platform crates map)
    (wide : platform.Is64Bit) (chunkSize_ne_zero : reader.chunkSize ≠ 0)
    (mapped : reader.loadedMap = some map)
    (consistent : map.Consistent reader.virtualSize)
    {outer : MapEntry} {start other : UInt64} {position : Nat}
    {byte otherByte : UInt8}
    (found : lastBeginning map.entries start.toNat = some outer)
    (kind : map.targetKind outer = .imageStream)
    (stopFits : outer.mapOffset.toNat + outer.length.toNat < 2 ^ 64)
    (ordered : start.toNat ≤ other.toNat) (after : other.toNat ≤ position)
    (inside : position < LoadedMap.runEnd outer reader.virtualSize)
    (delivers : reader.Delivers platform crates start position byte)
    (otherDelivers :
      reader.Delivers platform crates other position otherByte) :
    byte = otherByte := by
  obtain ⟨-, begins, -⟩ := greatest_of_lastBeginning found
  have seen : map.Seen outer := lastBeginning_start found
  obtain ⟨chunk, read, held⟩ :=
    (delivers_run_iff wide chunkSize_ne_zero mapped consistent seen kind stopFits
      begins (ordered.trans after) inside rfl).mp delivers
  obtain ⟨next, readNext, heldNext⟩ :=
    (delivers_run_iff wide chunkSize_ne_zero mapped consistent seen kind stopFits
      (begins.trans ordered) after inside rfl).mp otherDelivers
  refine agree outer seen kind stopFits _ _
    (outer.targetOffset.toNat + (position - outer.mapOffset.toNat))
    (Nat.le_add_right ..) (by omega) (by omega) (by omega) chunk next read readNext
    byte otherByte ?_ ?_
  · rw [← held]
    congr 2
    omega
  · rw [← heldNext]
    congr 2
    omega

/-- In a consistent map, reads deliver the same bytes from everywhere exactly
when chunks agree. -/
theorem readsUniformly_iff
    (wide : platform.Is64Bit) (chunkSize_ne_zero : reader.chunkSize ≠ 0)
    (mapped : reader.loadedMap = some map)
    (constantGap : ∃ byte, map.gapDefault = .fill byte)
    (consistent : map.Consistent reader.virtualSize) :
    reader.ReadsUniformly platform crates ↔
      reader.ChunksAgree platform crates map := by
  constructor
  · intro uniform outer seen kind stopFits first second last inRun ordered within
      reaches chunk next read readNext byte other found foundNext
    have sizeLt := reader.virtualSize.toNat_lt
    have onDisk : LoadedMap.runEnd outer reader.virtualSize ≤
        reader.virtualSize.toNat := Nat.min_le_right _ _
    -- a read from the place of the run that reaches an offset of its target
    have delivers (offset : Nat) (byte : UInt8)
        (reached : outer.targetOffset.toNat ≤ offset) (upTo : offset ≤ last)
        (held : ∃ chunk,
          reader.readChunk platform crates
            (UInt64.ofNat (offset / reader.chunkSize.toNat)) = .ok chunk ∧
          chunk[offset % reader.chunkSize.toNat + (last - offset)]? =
            some byte) :
        reader.Delivers platform crates
          (UInt64.ofNat (outer.mapOffset.toNat +
            (offset - outer.targetOffset.toNat)))
          (outer.mapOffset.toNat + (last - outer.targetOffset.toNat)) byte := by
      have start : (UInt64.ofNat (outer.mapOffset.toNat +
          (offset - outer.targetOffset.toNat))).toNat =
            outer.mapOffset.toNat + (offset - outer.targetOffset.toNat) :=
        toNat_ofNat_of_lt (by omega)
      rw [delivers_run_iff wide chunkSize_ne_zero mapped consistent seen kind
        stopFits (by omega) (by omega) (by omega) (show offset = _ by omega), start]
      convert held using 5
      omega
    exact uniform _ _ _ _ _
      (delivers first byte inRun (by omega) ⟨chunk, read, found⟩)
      (delivers second other (by omega) within ⟨next, readNext, foundNext⟩)
  · intro agree start other position byte otherByte delivers otherDelivers
    obtain ⟨after, onDisk, region, resolved, inside, produces⟩ :=
      (delivers_iff wide chunkSize_ne_zero).mp delivers
    obtain ⟨otherAfter, -, otherRegion, otherResolved, otherInside,
        otherProduces⟩ :=
      (delivers_iff wide chunkSize_ne_zero).mp otherDelivers
    simp only [target, mapped] at resolved otherResolved
    obtain ⟨sameKind, sameOffset⟩ :=
      (LoadedMap.homogeneous_iff.mpr consistent).meets resolved otherResolved
        after otherAfter onDisk inside otherInside
    obtain ⟨constant, gapDefault⟩ := constantGap
    have record := consistent.record_of_resolve
      (UInt64.lt_iff_toNat_lt.mpr (lt_of_le_of_lt after onDisk)) resolved
    have otherRecord := consistent.record_of_resolve
      (UInt64.lt_iff_toNat_lt.mpr (lt_of_le_of_lt otherAfter onDisk)) otherResolved
    rw [← sameKind] at otherRecord
    by_cases stream : region.kind = .imageStream
    · have notGap : region.kind ≠ map.gapDefault := by simp [stream, gapDefault]
      obtain ⟨-, outer, found, stopFits, outerKind, stop⟩ := record notGap
      obtain ⟨-, otherOuter, otherFound, otherFits, otherKind, otherStop⟩ :=
        otherRecord notGap
      rcases le_total start.toNat other.toNat with ordered | ordered
      · exact agree.delivers_unique wide chunkSize_ne_zero mapped consistent found
          (outerKind.trans stream) stopFits ordered otherAfter
          (Nat.lt_min.mpr ⟨by omega, onDisk⟩) delivers otherDelivers
      · exact (agree.delivers_unique wide chunkSize_ne_zero mapped consistent
          otherFound (otherKind.trans stream) otherFits ordered after
          (Nat.lt_min.mpr ⟨by omega, onDisk⟩) otherDelivers delivers).symm
    · refine produces_unique sameKind stream ?_ produces otherProduces
      intro pattern tile
      have notGap : region.kind ≠ map.gapDefault := by simp [tile, gapDefault]
      have reached := sameOffset (record notGap).1 (otherRecord notGap).1
      have added (base : UInt64) (distance : Nat) :
          base + UInt64.ofNat distance =
            UInt64.ofNat (base.toNat + distance) := by
        rw [UInt64.ofNat_add, UInt64.ofNat_toNat]
      rw [added, added, reached]

/-- The runs of a parsed map are homogeneous exactly when the map is consistent,
and in an image whose map is so the bytes that reads deliver are the same from
everywhere exactly when chunks agree as well. -/
theorem homogeneous_readsUniformly_iff (platform : Platform) (crates : Crates) :
    (∀ data targets gapDefault virtualSize,
      (LoadedMap.load crates.safeRead data targets gapDefault).Homogeneous
          platform virtualSize ↔
        (LoadedMap.load crates.safeRead data targets gapDefault).Consistent
          virtualSize) ∧
    (platform.Is64Bit → ∀ backing reader map,
      openReader crates backing = .ok reader → reader.loadedMap = some map →
      (map.Homogeneous platform reader.virtualSize ∧
          reader.ReadsUniformly platform crates ↔
        map.Consistent reader.virtualSize ∧
          reader.ChunksAgree platform crates map)) := by
  refine ⟨fun _ _ _ _ => LoadedMap.homogeneous_iff, ?_⟩
  intro wide backing reader map opened mapped
  have nonzero := (openReader_wellFormed opened).1
  rw [LoadedMap.homogeneous_iff]
  refine and_congr_right fun consistent => ?_
  refine readsUniformly_iff wide nonzero mapped ?_ consistent
  rcases openReader_cases opened with ⟨container, rfl⟩ | ⟨container, rfl⟩
  · cases mapped
  · cases mapped
    change ∃ byte, container.gapDefault = .fill byte
    unfold MapContainer.gapDefault
    split
    · exact ⟨0xFF, rfl⟩
    · exact ⟨0x00, rfl⟩

/-! A record of zeros inside a run of the ImageStream: position one is inside the
run that begins at zero, and reads as a zero only where a read starts there. -/

def innerRecord : MapContainer
    (.opening (Small.archive (Small.mapFile [⟨0, 6, 0, 0⟩, ⟨1, 1, 0, 1⟩])
      (indexEntry 0 2 ++ indexEntry 2 1) [0x41, 0x42, 0x43]
      (Small.entries_short (by decide) (by decide) (by decide)))) [] :=
  Small.container _ _ _ _

theorem not_homogeneous_innerRecord :
    openReader (.opening innerRecord.archive) [] = .ok innerRecord.reader ∧
      ¬innerRecord.loadedMap.Homogeneous .debug64
        innerRecord.reader.virtualSize ∧
      ¬innerRecord.reader.ReadsUniformly .debug64
        (.opening innerRecord.archive) := by
  refine ⟨innerRecord.openReader_eq, fun homogeneous => ?_, fun uniform => ?_⟩
  · obtain ⟨rest, resolved, kind, -⟩ := homogeneous 0 ⟨.imageStream, 0, 6⟩
      (by decide +kernel) (by decide +kernel) 1 (by decide) (by decide +kernel)
    have zeros : (innerRecord.loadedMap.resolve .debug64 1
        innerRecord.reader.virtualSize : Outcome IoError ResolvedRegion) =
          .ok ⟨.fill 0, 0, 1⟩ := by
      decide +kernel
    have second : (innerRecord.loadedMap.resolve .debug64 1
        innerRecord.reader.virtualSize : Outcome IoError ResolvedRegion) =
          .ok rest := resolved
    rw [zeros] at second
    cases second
    cases kind
  · have same := uniform 0 1 1 0x42 0
      ⟨[0, 0], 2, by decide, by decide, by decide +kernel, by decide +kernel⟩
      ⟨[0], 1, by decide, by decide, by decide +kernel, by decide +kernel⟩
    revert same
    decide

theorem homogeneous_readsUniformly_iff_innerRecord :
    (innerRecord.loadedMap.Homogeneous .debug64
        innerRecord.reader.virtualSize ↔
      innerRecord.loadedMap.Consistent innerRecord.reader.virtualSize) ∧
    (innerRecord.loadedMap.Homogeneous .debug64
          innerRecord.reader.virtualSize ∧
        innerRecord.reader.ReadsUniformly .debug64
          (.opening innerRecord.archive) ↔
      innerRecord.loadedMap.Consistent innerRecord.reader.virtualSize ∧
        innerRecord.reader.ChunksAgree .debug64 (.opening innerRecord.archive)
          innerRecord.loadedMap) :=
  have exactly := homogeneous_readsUniformly_iff .debug64
    (.opening innerRecord.archive)
  ⟨exactly.1 _ _ _ _,
    exactly.2 Platform.is64Bit_debug64 [] innerRecord.reader
      innerRecord.loadedMap innerRecord.openReader_eq rfl⟩

end Aff4Reader
end Aff4
