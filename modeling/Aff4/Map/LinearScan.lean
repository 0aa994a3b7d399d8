import Aff4.Map.Search

/-!
# A lookup is a linear scan of the file

Where no record overflows, parsing a map file and searching the parsed records
gives what a scan over the records in file order gives, with no sorting and no
search.  Records may overlap, share an offset or be empty.
-/

namespace Aff4

open Rust

/-- The record a string of 28 bytes encodes. -/
def decodeRecord (bytes : Bytes) : MapEntry where
  mapOffset := u64FromLeBytes (bytes.take 8)
  length := u64FromLeBytes ((bytes.drop 8).take 8)
  targetOffset := u64FromLeBytes ((bytes.drop 16).take 8)
  targetId := u32FromLeBytes (bytes.drop 24)

/-- The whole records of a map file, in file order. -/
def fileRecords (data : Bytes) : List MapEntry :=
  (List.range (data.length / 28)).map fun i =>
    decodeRecord ((data.drop (28 * i)).take 28)

/-- The parser decodes the records of the file. -/
theorem mapRecords_eq_fileRecords (safeRead : SafeRead) (data : Bytes) :
    mapRecords safeRead data = fileRecords data := by
  apply List.map_congr_left
  intro i member
  have inside : i < data.length / 28 := List.mem_range.mp member
  have field {start width : Nat} (within : start + width ≤ 28) :
      ((((data.drop (28 * i)).take 28).drop start).take width) =
        (data.drop (i * 28 + start)).take width := by
    rw [List.drop_take, List.take_take, List.drop_drop, Nat.min_eq_left (by omega),
      Nat.mul_comm]
  have lastField : ((data.drop (28 * i)).take 28).drop 24 =
      (data.drop (i * 28 + 24)).take 4 := by
    rw [List.drop_take, List.drop_drop, Nat.mul_comm]
  have firstField : ((data.drop (28 * i)).take 28).take 8 =
      (data.drop (i * 28)).take 8 := by
    rw [List.take_take, Nat.mul_comm]
    rfl
  simp only [mapEntryAt, MapEntry.entrySize, decodeRecord, firstField,
    field (show 8 + 8 ≤ 28 by decide), field (show 16 + 8 ≤ 28 by decide),
    lastField]
  rw [safeRead.leU64_eq _ _ (by omega), safeRead.leU64_eq _ _ (by omega),
    safeRead.leU64_eq _ _ (by omega), safeRead.leU32_eq _ _ (by omega)]

/-- The answer of a lookup in exact integers. -/
structure ExactRegion where
  kind : TargetKind
  targetOffset : Nat
  length : Nat
  deriving DecidableEq, Repr

/-- The integers of a lookup's answer. -/
def ResolvedRegion.exact (region : ResolvedRegion) : ExactRegion where
  kind := region.kind
  targetOffset := region.targetOffset.toNat
  length := region.bytesInRegion.toNat

/-- The reference: scan the nonempty records in file order for the one with the
greatest offset up to the position, the later one on ties.  It answers if it
contains the position; else the position lies in a gap up to the next record. -/
def linearScan
    (records : List MapEntry) (targets : List TargetKind)
    (gapDefault : TargetKind) (position virtualSize : Nat) : ExactRegion :=
  let kept := records.filter fun entry => 0 < entry.length
  let gap : ExactRegion :=
    { kind := gapDefault
      targetOffset := 0
      length := (nextBeginning kept position).getD virtualSize - position }
  match lastBeginning kept position with
  | some entry =>
      if entry.Covers position then
        { kind := targets[entry.targetId.toNat]?.getD .unknown
          targetOffset :=
            entry.targetOffset.toNat + position - entry.mapOffset.toNat
          length := entry.length.toNat - (position - entry.mapOffset.toNat) }
      else gap
  | none => gap

/-- The next record of a parsed map is the next nonempty one of the file. -/
theorem nextBeginning_parseMapEntries
    (safeRead : SafeRead) (data : Bytes) (position : Nat) :
    nextBeginning (parseMapEntries safeRead data) position =
      nextBeginning
        ((mapRecords safeRead data).filter fun entry => 0 < entry.length)
        position := by
  apply nextBeginning_congr
  intro entry
  rw [mem_parseMapEntries, List.mem_filter, decide_eq_true_iff]

/-- Parsing and binary search give what a linear scan of the file gives. -/
theorem resolve_eq_linearScan
    (ε : Type) (platform : Platform) (safeRead : SafeRead) (data : Bytes)
    (targets : List TargetKind) (gapDefault : TargetKind)
    {virtualPos virtualSize : UInt64}
    (fits : ∀ entry ∈ fileRecords data,
      entry.mapOffset.toNat + entry.length.toNat ≤ 2 ^ 64 - 1 ∧
        entry.targetOffset.toNat + entry.length.toNat ≤ 2 ^ 64 - 1)
    (below : virtualPos < virtualSize) :
    ∃ region,
      ((LoadedMap.load safeRead data targets gapDefault).resolve platform
          virtualPos virtualSize : Outcome ε ResolvedRegion) = .ok region ∧
        region.exact =
          linearScan (fileRecords data) targets gapDefault virtualPos.toNat
            virtualSize.toNat ∧
        1 ≤ region.bytesInRegion.toNat := by
  set map := LoadedMap.load safeRead data targets gapDefault with map_eq
  have latest : lastBeginning map.entries virtualPos.toNat = _ :=
    lastBeginning_parseMapEntries safeRead data virtualPos.toNat
  have next : nextBeginning map.entries virtualPos.toNat = _ :=
    nextBeginning_parseMapEntries safeRead data virtualPos.toNat
  rw [mapRecords_eq_fileRecords] at latest next
  obtain ⟨gapKind, gapTarget, gapLength, gapNonempty⟩ := map.gapAt_eq below
  have gapExact : (map.gapAt virtualPos virtualSize).exact =
      { kind := gapDefault
        targetOffset := 0
        length := (nextBeginning
          ((fileRecords data).filter fun entry => 0 < entry.length)
          virtualPos.toNat).getD virtualSize.toNat - virtualPos.toNat } := by
    rw [ResolvedRegion.exact, gapKind, gapTarget, gapLength, next]
    rfl
  rw [LoadedMap.resolve_eq, linearScan, ← latest]
  cases found : lastBeginning map.entries virtualPos.toNat with
  | none =>
      simp only [LoadedMap.search, found, Outcome.ok_bind]
      exact ⟨_, rfl, gapExact, gapNonempty⟩
  | some entry =>
      have member : entry ∈ fileRecords data := by
        have inMap := (greatest_of_lastBeginning found).1
        have inFile := (mem_parseMapEntries.mp inMap).1
        rwa [mapRecords_eq_fileRecords] at inFile
      obtain ⟨endFits, targetFits⟩ := fits entry member
      rw [LoadedMap.search_of_lastBeginning ε platform found, if_neg (by omega),
        Outcome.ok_bind]
      by_cases covers : entry.Covers virtualPos.toNat
      · rw [if_pos covers]
        dsimp only
        rw [if_pos covers]
        have begins := covers.1
        have ends := covers.2
        obtain ⟨region, resolved, kind, targetOffset, length⟩ :=
          LoadedMap.regionOf_of_lt ε platform map covers (by omega)
        refine ⟨region, resolved, ?_, by omega⟩
        rw [ResolvedRegion.exact, kind, targetOffset, length,
          Nat.add_sub_assoc begins]
        rfl
      · rw [if_neg covers]
        dsimp only
        rw [if_neg covers]
        exact ⟨_, rfl, gapExact, gapNonempty⟩

/-- Two records that overlap, the first of them behind the second in the file. -/
theorem resolve_eq_linearScan_overlap :
    let data := [4, 0, 0, 0, 0, 0, 0, 0, 4, 0, 0, 0, 0, 0, 0, 0,
      7, 0, 0, 0, 0, 0, 0, 0, 1, 0, 0, 0,
      0, 0, 0, 0, 0, 0, 0, 0, 6, 0, 0, 0, 0, 0, 0, 0,
      9, 0, 0, 0, 0, 0, 0, 0, 0, 0, 0, 0]
    ∃ region,
      ((LoadedMap.load .zeroOutside data [.imageStream] (.fill 0)).resolve
          .debug64 5 10 : Outcome IoError ResolvedRegion) = .ok region ∧
        region.exact =
          linearScan (fileRecords data) [.imageStream] (.fill 0)
            (5 : UInt64).toNat (10 : UInt64).toNat ∧
        1 ≤ region.bytesInRegion.toNat :=
  resolve_eq_linearScan IoError .debug64 .zeroOutside _ _ _ (by decide)
    (by decide)

end Aff4
