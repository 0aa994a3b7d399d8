import Mathlib.Order.Defs.LinearOrder
import Aff4.Archive

/-!
# AFF4 Map streams

A Map redirects virtual disk addresses to target streams.  Its binary `/map`
file holds 28-byte records `(map_offset, length, target_offset, target_id)`; its
`/idx` file lists the targets, one to a line.
-/

namespace Aff4

open Rust

/-- One record of a map file. -/
structure MapEntry where
  /-- Virtual byte offset where the mapping begins. -/
  mapOffset : UInt64
  /-- Number of virtual bytes covered. -/
  length : UInt64
  /-- Byte offset within the target stream. -/
  targetOffset : UInt64
  /-- Index into the `/idx` list. -/
  targetId : UInt32
  deriving DecidableEq, Repr

/-- Size in bytes of one record. -/
def MapEntry.entrySize : Nat := 28

/-- The repeating ASCII tile of a multi-byte symbolic stream. -/
inductive Tile
  | unknown
  | unreadable
  deriving DecidableEq, Repr

namespace Tile

/-- The ASCII seed repeated across the 1 MiB tile. -/
def seed : Tile → Bytes
  | .unknown => Str.asBytes "UNKNOWN".toList
  | .unreadable => Str.asBytes "UNREADABLEDATA".toList

theorem seed_length_pos (tile : Tile) : 0 < tile.seed.length := by
  cases tile <;> decide

/-- Byte produced at target-stream position `position`.  The tile starts again
at every 1 MiB boundary, so the pattern has a seam there. -/
def byteAt (tile : Tile) (position : Nat) : UInt8 :=
  tile.seed.get
    ⟨position % (1024 * 1024) % tile.seed.length,
      Nat.mod_lt _ tile.seed_length_pos⟩

end Tile

/-- What kind of data a map target produces. -/
inductive TargetKind
  /-- A real `aff4:ImageStream`, read from the bevies. -/
  | imageStream
  /-- A constant-byte symbolic stream. -/
  | fill (byte : UInt8)
  /-- A repeating-tile symbolic stream. -/
  | tile (tile : Tile)
  /-- An unrecognised or unmapped target, read as zeros. -/
  | unknown
  deriving DecidableEq, Repr

/-! ## Parsing -/

/-- Record number `i` of a map file. -/
def mapEntryAt (safeRead : SafeRead) (data : Bytes) (i : Nat) : MapEntry :=
  let offset := i * MapEntry.entrySize
  { mapOffset := safeRead.leU64 data offset
    length := safeRead.leU64 data (offset + 8)
    targetOffset := safeRead.leU64 data (offset + 16)
    targetId := safeRead.leU32 data (offset + 24) }

/-- The records of a map file in file order.  A trailing partial record is
ignored. -/
def mapRecords (safeRead : SafeRead) (data : Bytes) : List MapEntry :=
  (List.range (data.length / MapEntry.entrySize)).map (mapEntryAt safeRead data)

/-- Parse the binary `/map` file into a sorted list without empty records. -/
def parseMapEntries (safeRead : SafeRead) (data : Bytes) : List MapEntry :=
  sortByKey (fun entry => entry.mapOffset.toNat)
    ((mapRecords safeRead data).filter fun entry => 0 < entry.length)

/-- Extract the fill byte of a `SymbolicStream{XX}` target, in the form
`…#SymbolicStreamFF` or `…/SymbolicStream#FF`. -/
def symbolicStreamByte (target : Text) : Option UInt8 := do
  let after ← (Str.split target "SymbolicStream".toList)[1]?
  let hex := (Str.stripPrefix after ['#']).getD after
  match hex with
  | [hi, lo] =>
      if Str.isAsciiHexdigit hi ∧ Str.isAsciiHexdigit lo then do
        let hi ← Str.toDigit16 hi
        let lo ← Str.toDigit16 lo
        return UInt8.ofNat (hi * 16 + lo)
      else none
  | _ => none

/-- Classify one `/idx` target into the kind of data it produces. -/
def classifyTarget (target imageStreamArn : Text) : TargetKind :=
  if target = imageStreamArn then .imageStream
  else if "#Zero".toList.isSuffixOf target || target = "aff4:Zero".toList then
    .fill 0x00
  else if "#UnknownData".toList.isSuffixOf target then .tile .unknown
  else if "#UnreadableData".toList.isSuffixOf target then .tile .unreadable
  else
    match symbolicStreamByte target with
    | some byte => .fill byte
    | none => .unknown

/-- Parse the `/idx` file into the kinds of its targets. -/
def parseIdx (data imageStreamArn : Text) : List TargetKind :=
  ((Str.lines data).filter fun line => !(Str.trim line).isEmpty).map
    fun line => classifyTarget (Str.trim line) imageStreamArn

/-! ## Resolution -/

/-- A loaded map.  Its records are sorted by offset and none of them is
empty. -/
structure LoadedMap where
  entries : List MapEntry
  /-- Target kind of each `target_id`. -/
  targets : List TargetKind
  /-- What bytes outside every record are read as. -/
  gapDefault : TargetKind
  sorted : entries.Pairwise fun left right =>
    left.mapOffset.toNat ≤ right.mapOffset.toNat
  nonempty : ∀ entry ∈ entries, 0 < entry.length

theorem parseMapEntries_sorted (safeRead : SafeRead) (data : Bytes) :
    (parseMapEntries safeRead data).Pairwise fun left right =>
      left.mapOffset.toNat ≤ right.mapOffset.toNat :=
  pairwise_sortByKey _ _

theorem mem_parseMapEntries
    {safeRead : SafeRead} {data : Bytes} {entry : MapEntry} :
    entry ∈ parseMapEntries safeRead data ↔
      entry ∈ mapRecords safeRead data ∧ 0 < entry.length := by
  rw [parseMapEntries, mem_sortByKey, List.mem_filter, decide_eq_true_iff]

/-- Load the two files of a map. -/
def LoadedMap.load
    (safeRead : SafeRead) (mapData : Bytes) (targets : List TargetKind)
    (gapDefault : TargetKind) : LoadedMap where
  entries := parseMapEntries safeRead mapData
  targets := targets
  gapDefault := gapDefault
  sorted := parseMapEntries_sorted safeRead mapData
  nonempty := fun _ member => (mem_parseMapEntries.mp member).2

/-- Kind of the target a record names. -/
def LoadedMap.targetKind (map : LoadedMap) (entry : MapEntry) : TargetKind :=
  map.targets[entry.targetId.toNat]?.getD .unknown

/-- Virtual `(offset, length)` regions backed by `aff4:UnreadableData`, in
offset order. -/
def LoadedMap.unreadableRegions (map : LoadedMap) : List (UInt64 × UInt64) :=
  (map.entries.filter fun entry =>
    map.targets[entry.targetId.toNat]? = some (.tile .unreadable)).map
    fun entry => (entry.mapOffset, entry.length)

/-- The result of a virtual-offset lookup. -/
structure ResolvedRegion where
  kind : TargetKind
  /-- Byte offset within the target stream. -/
  targetOffset : UInt64
  /-- How many bytes remain before the next boundary. -/
  bytesInRegion : UInt64
  deriving DecidableEq, Repr

/-- The part of the disk at a position no record covers, up to the next
record. -/
def LoadedMap.resolveGap
    (map : LoadedMap) (next : Nat) (virtualPos virtualSize : UInt64) :
    ResolvedRegion :=
  let gapEnd := (map.entries[next]?.map MapEntry.mapOffset).getD virtualSize
  -- `gap_end.saturating_sub(virtual_pos).max(1)`
  let bytesInGap := max (gapEnd.toNat - virtualPos.toNat) 1
  { kind := map.gapDefault
    targetOffset := 0
    bytesInRegion := UInt64.ofNat bytesInGap }

/-- Resolve a virtual position to its target: binary search for the last record
that begins at or before the position, which covers it or leaves it in a gap. -/
def LoadedMap.resolve
    (platform : Platform) (map : LoadedMap) (virtualPos virtualSize : UInt64) :
    Outcome ε ResolvedRegion :=
  let next := partitionPoint
    (fun entry : MapEntry => entry.mapOffset.toNat ≤ virtualPos.toNat)
    map.entries
  if next = 0 then .ok (map.resolveGap next virtualPos virtualSize)
  else
    match map.entries[next - 1]? with
    | none => .panic .indexOutOfBounds
    | some entry => do
        let entryEnd ← addU64 platform entry.mapOffset entry.length
        if virtualPos < entryEnd then
          let offsetInEntry ← subU64 platform virtualPos entry.mapOffset
          let targetOffset ← addU64 platform entry.targetOffset offsetInEntry
          let bytesInRegion ← subU64 platform entry.length offsetInEntry
          return { kind := map.targetKind entry, targetOffset, bytesInRegion }
        else
          return map.resolveGap next virtualPos virtualSize

end Aff4
