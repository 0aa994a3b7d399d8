import Aff4.Map.LinearScan
import Aff4.Reader.Open
import Aff4.Storage.Numbering

/-!
# Target ids and the lines of `/idx`

A record names its target by a number, and the targets are listed one to a line.
The parser drops blank lines before it numbers the rest, so an id names the line
it should up to the first blank line and, behind it, only where no line names a
target the reader knows.
-/

namespace Aff4

open Rust Storage

/-- A line that is not blank. -/
def namesTarget (line : Text) : Bool := !(Str.trim line).isEmpty

/-- What kind of data the line of a number asks for, all lines counted from
zero. -/
def lineKind (idx imageStreamArn : Text) (number : Nat) : TargetKind :=
  match (Str.lines idx)[number]? with
  | some line =>
      if namesTarget line then classifyTarget (Str.trim line) imageStreamArn
      else .unknown
  | none => .unknown

/-- Wherever a lookup answers from a record, what it answers with is of the kind
that the line with the record's target id asks for. -/
def IdsFollowLines (idx imageStreamArn : Text) : Prop :=
  ∀ (platform : Platform) (safeRead : SafeRead) (mapData : Bytes)
    (gapDefault : TargetKind) (virtualPos virtualSize : UInt64)
    (entry : MapEntry) (region : ResolvedRegion),
    let map :=
      LoadedMap.load safeRead mapData (parseIdx idx imageStreamArn) gapDefault
    (map.search platform virtualPos : Outcome IoError (Option MapEntry)) =
        .ok (some entry) →
    (map.resolve platform virtualPos virtualSize :
        Outcome IoError ResolvedRegion) = .ok region →
      region.kind = lineKind idx imageStreamArn entry.targetId.toNat

/-- The lines behind the first blank one that are not blank and that a target id
of 32 bits can be meant for. -/
def linesBehindBlank (idx : Text) : List Text :=
  (((Str.lines idx).dropWhile namesTarget).filter namesTarget).take
    (2 ^ 32 - ((Str.lines idx).takeWhile namesTarget).length)

section

variable {idx imageStreamArn : Text}

theorem lineKind_eq_valueAt (number : Nat) :
    lineKind idx imageStreamArn number =
      valueAt namesTarget
        (fun line => classifyTarget (Str.trim line) imageStreamArn) .unknown
        (Str.lines idx) number := by
  unfold lineKind valueAt
  cases (Str.lines idx)[number]? with
  | none => rfl
  | some line =>
      dsimp only
      split
      next named =>
        rw [Option.filter_some_pos named]
        rfl
      next blank =>
        rw [Option.filter_some_neg (Bool.eq_false_iff.mpr blank)]
        rfl

/-- The kind of a target is that of the line with its number among those that are
not blank. -/
theorem targetKind_load
    (safeRead : SafeRead) (mapData : Bytes) (gapDefault : TargetKind)
    (entry : MapEntry) :
    (LoadedMap.load safeRead mapData (parseIdx idx imageStreamArn)
        gapDefault).targetKind entry =
      keptAt namesTarget
        (fun line => classifyTarget (Str.trim line) imageStreamArn) .unknown
        (Str.lines idx) entry.targetId.toNat := by
  unfold keptAt
  rw [← List.getElem?_map]
  rfl

/-- What a lookup answers with from a record is of the record's kind. -/
theorem kind_of_search
    {platform : Platform} {map : LoadedMap} {virtualPos virtualSize : UInt64}
    {entry : MapEntry} {region : ResolvedRegion}
    (searched : (map.search platform virtualPos :
      Outcome IoError (Option MapEntry)) = .ok (some entry))
    (resolved : (map.resolve platform virtualPos virtualSize :
      Outcome IoError ResolvedRegion) = .ok region) :
    region.kind = map.targetKind entry := by
  rw [LoadedMap.resolve_eq, searched, Outcome.ok_bind] at resolved
  obtain ⟨offsetInEntry, -, resolved⟩ := Outcome.bind_eq_ok.mp resolved
  obtain ⟨targetOffset, -, resolved⟩ := Outcome.bind_eq_ok.mp resolved
  obtain ⟨bytesInRegion, -, resolved⟩ := Outcome.bind_eq_ok.mp resolved
  cases resolved
  rfl

/-- A map file of one record for the first byte. -/
def firstByteMap (targetId : UInt32) : Bytes :=
  Small.mapFile [⟨0, 1, 0, targetId⟩]

theorem mapRecords_firstByteMap (safeRead : SafeRead) (targetId : UInt32) :
    mapRecords safeRead (firstByteMap targetId) = [⟨0, 1, 0, targetId⟩] := by
  have id : u32FromLeBytes (u32ToLeBytes targetId) = targetId :=
    u32FromLeBytes_toLeBytes targetId
  have length : (u32ToLeBytes targetId).length = 4 := length_u32ToLeBytes targetId
  generalize encoded : u32ToLeBytes targetId = idBytes at id length
  have file : firstByteMap targetId =
      [0, 0, 0, 0, 0, 0, 0, 0, 1, 0, 0, 0, 0, 0, 0, 0,
        0, 0, 0, 0, 0, 0, 0, 0] ++ idBytes := by
    have zero : u64ToLeBytes 0 = [0, 0, 0, 0, 0, 0, 0, 0] := by decide
    have one : u64ToLeBytes 1 = [1, 0, 0, 0, 0, 0, 0, 0] := by decide
    rw [firstByteMap, Small.mapFile, List.flatMap_singleton]
    dsimp only
    rw [zero, one, encoded]
    rfl
  rw [mapRecords_eq_fileRecords, file, fileRecords, List.length_append, length]
  simp only [List.length_cons, List.length_nil, Nat.reduceAdd, Nat.reduceDiv,
    List.range_one, List.map_cons, List.map_nil, Nat.mul_zero, List.drop_zero]
  rw [List.take_of_length_le (by simp [length]), decodeRecord]
  simp only [List.cons_append, List.nil_append, List.drop_succ_cons, List.drop_zero,
    List.take_succ_cons, List.take_zero, id]
  rfl

/-- A target of every number is served. -/
theorem exists_search
    (targets : List TargetKind) (targetId : UInt32) :
    ∃ entry region,
      let map := LoadedMap.load .zeroOutside (firstByteMap targetId) targets .unknown
      (map.search .debug64 0 : Outcome IoError (Option MapEntry)) =
          .ok (some entry) ∧
        (map.resolve .debug64 0 1 : Outcome IoError ResolvedRegion) = .ok region ∧
        entry.targetId = targetId := by
  let entry : MapEntry := ⟨0, 1, 0, targetId⟩
  let map := LoadedMap.load .zeroOutside (firstByteMap targetId) targets .unknown
  have last : lastBeginning map.entries (0 : UInt64).toNat = some entry := by
    have parsed := lastBeginning_parseMapEntries .zeroOutside
      (firstByteMap targetId) (0 : UInt64).toNat
    rw [mapRecords_firstByteMap] at parsed
    exact parsed
  have covers : entry.Covers (0 : UInt64).toNat := ⟨le_rfl, Nat.zero_lt_one⟩
  have fits : entry.mapOffset.toNat + entry.length.toNat < 2 ^ 64 :=
    show 0 + 1 < 2 ^ 64 by decide
  have searched : (map.search .debug64 0 : Outcome IoError (Option MapEntry)) =
      .ok (some entry) :=
    LoadedMap.search_eq_some_iff.mpr ⟨last, covers, fits⟩
  have resolved : (map.resolve .debug64 0 1 : Outcome IoError ResolvedRegion) =
      .ok { kind := map.targetKind entry, targetOffset := 0, bytesInRegion := 1 } := by
    rw [LoadedMap.resolve_eq, searched, Outcome.ok_bind]
    dsimp only
    have sum : (addU64 .debug64 (0 : UInt64) (0 - 0) : Outcome IoError UInt64) =
        .ok 0 := by decide
    rw [LoadedMap.regionOf_of_covers IoError .debug64 map covers]
    dsimp only [entry]
    rw [sum, Outcome.ok_bind]
    rfl
  exact ⟨entry, _, searched, resolved, rfl⟩

/-- Target ids follow the lines of `/idx` exactly when no line behind the first
blank one names a target the reader knows. -/
theorem idsFollowLines_iff (idx imageStreamArn : Text) :
    IdsFollowLines idx imageStreamArn ↔
      ∀ line ∈ linesBehindBlank idx,
        classifyTarget (Str.trim line) imageStreamArn = .unknown := by
  unfold linesBehindBlank
  rw [← keptAt_eq_valueAt_iff]
  constructor
  · intro follows number below
    have narrow : (UInt32.ofNat number).toNat = number := by
      rw [UInt32.toNat_ofNat', Nat.mod_eq_of_lt below]
    obtain ⟨entry, region, searched, resolved, named⟩ :=
      exists_search (parseIdx idx imageStreamArn) (UInt32.ofNat number)
    have kind := follows _ _ _ _ _ _ _ _ searched resolved
    rw [kind_of_search searched resolved, targetKind_load, lineKind_eq_valueAt,
      named, narrow] at kind
    exact kind
  · intro agree platform safeRead mapData gapDefault virtualPos virtualSize entry
      region map searched resolved
    rw [kind_of_search searched resolved, targetKind_load, lineKind_eq_valueAt]
    exact agree _ entry.targetId.toNat_lt

end

/-! A blank line between the stream and a symbolic stream: the id of the third
line names nothing, and that of the blank line names the third. -/

namespace BlankLineSample

def idx : Text := "i\n\naff4:Zero".toList

theorem not_idsFollowLines_blank : ¬IdsFollowLines idx "i".toList := by
  intro follows
  obtain ⟨entry, region, searched, resolved, named⟩ :=
    exists_search (parseIdx idx "i".toList) 1
  have kind := follows _ _ _ _ _ _ _ _ searched resolved
  have asked : lineKind idx "i".toList (1 : UInt32).toNat = .unknown := by
    decide +kernel
  have answered : keptAt namesTarget
      (fun line => classifyTarget (Str.trim line) "i".toList) .unknown
      (Str.lines idx) (1 : UInt32).toNat = .fill 0 := by
    decide +kernel
  rw [kind_of_search searched resolved, targetKind_load, named, asked,
    answered] at kind
  cases kind

end BlankLineSample
end Aff4
