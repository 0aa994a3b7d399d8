import Aff4.Map.Search
import Aff4.Reader.Open
import Aff4.Reader.Progress

/-!
# Sums on the read path

The numbers of a map file are added without looking at their size: where a record
ends, where its target is read, and where each byte of a tile lies.  A build with
overflow checks tells when one of these sums is too large, by panicking.
-/

namespace Rust

/-- The same platform, in a build whose overflows panic. -/
def Platform.checked (platform : Platform) : Platform :=
  { platform with overflowChecks := true }

/-- In a build with overflow checks a sum is exact or panics. -/
theorem addU64_checked (ε : Type) (platform : Platform) (a b : UInt64) :
    (addU64 platform.checked a b : Outcome ε UInt64) =
      if a.toNat + b.toNat < 2 ^ 64 then .ok (a + b) else .panic .addOverflow := by
  unfold addU64
  split
  next overflows => rw [if_neg (by omega)]
  next inRange =>
    rw [if_pos]
    by_contra reaches
    exact inRange ⟨rfl, Nat.le_of_not_lt reaches⟩

end Rust

namespace Aff4

open Rust

variable {platform : Platform} {crates : Crates}

namespace LoadedMap

/-- What a lookup does in a build with overflow checks. -/
theorem resolve_checked
    (ε : Type) (platform : Platform) (map : LoadedMap)
    (virtualPos virtualSize : UInt64) :
    (map.resolve platform.checked virtualPos virtualSize :
        Outcome ε ResolvedRegion) =
      match lastBeginning map.entries virtualPos.toNat with
      | none => .ok (map.gapAt virtualPos virtualSize)
      | some entry =>
          if entry.mapOffset.toNat + entry.length.toNat < 2 ^ 64 then
            if entry.Covers virtualPos.toNat then
              if entry.targetOffset.toNat +
                  (virtualPos.toNat - entry.mapOffset.toNat) < 2 ^ 64 then
                .ok { kind := map.targetKind entry
                      targetOffset :=
                        entry.targetOffset + (virtualPos - entry.mapOffset)
                      bytesInRegion :=
                        entry.length - (virtualPos - entry.mapOffset) }
              else .panic .addOverflow
            else .ok (map.gapAt virtualPos virtualSize)
          else .panic .addOverflow := by
  rw [resolve_eq]
  cases found : lastBeginning map.entries virtualPos.toNat with
  | none =>
      rw [search, found]
      rfl
  | some entry =>
      rw [search_of_lastBeginning ε platform.checked found]
      by_cases fits : entry.mapOffset.toNat + entry.length.toNat < 2 ^ 64
      · rw [if_neg (by omega), Outcome.ok_bind]
        by_cases covers : entry.Covers virtualPos.toNat
        · simp only [if_pos covers, if_pos fits]
          rw [regionOf_of_covers ε platform.checked map covers, addU64_checked,
            (toNat_offset covers).1]
          split <;> rfl
        · simp only [if_neg covers, if_pos fits]
      · rw [if_pos (Nat.le_of_not_lt fits)]
        simp only [if_neg fits]
        rfl

end LoadedMap

namespace Aff4Reader

variable {reader : Aff4Reader}

/-- A read of a tile returns or panics because a sum is too large. -/
theorem readTarget_tile_ne_panic
    {region : ResolvedRegion} {pattern : Tile}
    (kind : region.kind = .tile pattern) (toRead : Nat) :
    reader.readTarget platform crates region toRead ≠ .panic .addOverflow ↔
      ∃ bytes, reader.readTarget platform crates region toRead = .ok bytes := by
  have only : Outcome.PanicsOnly (fun reason => reason = .addOverflow)
      (reader.readTarget platform crates region toRead) := by
    rw [readTarget, kind]
    apply Outcome.PanicsOnly.collect
    intro index
    refine .bind (panicsOnly_addU64 platform (fun _ => ?_) _ _)
      fun position _ => .ok _
    rfl
  cases read : reader.readTarget platform crates region toRead with
  | ok bytes =>
      exact iff_of_true (fun impossible => by cases impossible) ⟨bytes, rfl⟩
  | err error => exact absurd read (readTarget_tile_ne_err kind error)
  | panic reason =>
      obtain rfl := only reason read
      refine iff_of_false (fun differs => differs rfl) ?_
      rintro ⟨_, impossible⟩
      cases impossible

/-- A read of a tile in a build with overflow checks does not panic if and only
if no position of a byte is too large. -/
theorem readTarget_tile_checked
    {region : ResolvedRegion} {pattern : Tile}
    (kind : region.kind = .tile pattern) (toRead : Nat) :
    reader.readTarget platform.checked crates region toRead ≠
        .panic .addOverflow ↔
      ∀ index, index < toRead → index < asUsize platform region.bytesInRegion →
        region.targetOffset.toNat + index < 2 ^ 64 := by
  have limitLt : asUsize platform region.bytesInRegion < 2 ^ 64 :=
    lt_of_le_of_lt (Nat.mod_le _ _) region.bytesInRegion.toNat_lt
  have limit : asUsize platform.checked region.bytesInRegion =
    asUsize platform region.bytesInRegion := rfl
  rw [readTarget_tile_ne_panic kind, readTarget, kind]
  refine Outcome.exists_collect_eq_ok.trans ?_
  simp only [limit, lt_min_iff, and_imp, Nat.zero_add]
  refine forall₃_congr fun index _ below => ?_
  rw [addU64_checked, toNat_ofNat_of_lt (below.trans limitLt)]
  split
  next fits => exact iff_of_true ⟨_, rfl⟩ fits
  next large =>
    refine iff_of_false ?_ large
    rintro ⟨_, impossible⟩
    cases impossible

/-- No sum of a read at the cursor is too large: neither where the position is
looked up nor at any byte of a tile, whatever the length of the buffer. -/
structure SumsFit
    (platform : Platform) (crates : Crates) (reader : Aff4Reader) : Prop where
  lookup : reader.target platform.checked ≠ .panic .addOverflow
  tile : ∀ region pattern bufLen,
    reader.target platform.checked = .ok region → region.kind = .tile pattern →
    reader.readTarget platform.checked crates region
      (min bufLen (asUsize platform (reader.virtualSize - reader.pos))) ≠
        .panic .addOverflow

/-- The sums a record of a map is used in are in range: its end, its target at
the position and, where the target is a tile, the tile's bytes from there on. -/
structure RecordFits
    (platform : Platform) (targets : List TargetKind) (entry : MapEntry)
    (virtualPos virtualSize : UInt64) : Prop where
  recordEnd : entry.mapOffset.toNat + entry.length.toNat < 2 ^ 64
  target : entry.Covers virtualPos.toNat →
    entry.targetOffset.toNat +
      (virtualPos.toNat - entry.mapOffset.toNat) < 2 ^ 64
  tile : entry.Covers virtualPos.toNat →
    ∀ pattern, targets[entry.targetId.toNat]? = some (.tile pattern) →
    ∀ index, index < asUsize platform (virtualSize - virtualPos) →
      index < asUsize platform
        (entry.length - (virtualPos - entry.mapOffset)) →
      entry.targetOffset.toNat +
        (virtualPos.toNat - entry.mapOffset.toNat) + index < 2 ^ 64

/-- The lookup of a position no record begins before sums nothing, and neither
does one that falls into a gap. -/
theorem sumsFit_of_gap {map : LoadedMap}
    (loaded : reader.loadedMap = some map)
    (gap : (map.resolve platform.checked reader.pos reader.virtualSize :
      Outcome IoError ResolvedRegion) =
        .ok (map.gapAt reader.pos reader.virtualSize)) :
    reader.SumsFit platform crates := by
  have target : reader.target platform.checked =
      .ok (map.gapAt reader.pos reader.virtualSize) := by
    rw [← gap, Aff4Reader.target, loaded]
  constructor
  · rw [target]
    exact fun impossible => by cases impossible
  · intro region pattern bufLen targeted kind
    rw [target] at targeted
    cases targeted
    rw [readTarget_tile_checked kind]
    intro index _ below
    have limitLt := lt_of_lt_of_le below (Nat.mod_le _ _)
    have offset : (map.gapAt reader.pos reader.virtualSize).targetOffset.toNat = 0 :=
      rfl
    rw [offset, Nat.zero_add]
    exact limitLt.trans (UInt64.toNat_lt _)

/-- A record that covers the cursor: what its lookup and its tile are. -/
theorem sumsFit_of_covers_iff {map : LoadedMap} {entry : MapEntry}
    (loaded : reader.loadedMap = some map)
    (found : lastBeginning map.entries reader.pos.toNat = some entry)
    (recordEnd : entry.mapOffset.toNat + entry.length.toNat < 2 ^ 64)
    (covers : entry.Covers reader.pos.toNat) :
    reader.SumsFit platform crates ↔
      RecordFits platform map.targets entry reader.pos reader.virtualSize := by
  have resolved := LoadedMap.resolve_checked IoError platform map reader.pos
    reader.virtualSize
  simp only [found, if_pos recordEnd, if_pos covers] at resolved
  have target : reader.target platform.checked =
      map.resolve platform.checked reader.pos reader.virtualSize := by
    rw [Aff4Reader.target, loaded]
  rw [resolved] at target
  by_cases fits : entry.targetOffset.toNat +
      (reader.pos.toNat - entry.mapOffset.toNat) < 2 ^ 64
  · rw [if_pos fits] at target
    have offset : (entry.targetOffset +
        (reader.pos - entry.mapOffset)).toNat =
          entry.targetOffset.toNat +
            (reader.pos.toNat - entry.mapOffset.toNat) := by
      rw [← (LoadedMap.toNat_offset covers).1] at fits ⊢
      exact toNat_add_of_lt fits
    constructor
    · intro sums
      refine ⟨recordEnd, fun _ => fits, fun _ pattern tile index onDisk inRecord => ?_⟩
      have kind := LoadedMap.targetKind_eq_tile_iff.mpr tile
      have noPanic := sums.tile _ pattern (asUsize platform
        (reader.virtualSize - reader.pos)) target kind
      rw [readTarget_tile_checked kind, offset] at noPanic
      exact noPanic index (lt_min onDisk onDisk) inRecord
    · intro recordFits
      refine ⟨?_, ?_⟩
      · rw [target]
        exact fun impossible => by cases impossible
      · intro region pattern bufLen targeted kind
        rw [target] at targeted
        cases targeted
        rw [readTarget_tile_checked kind, offset]
        intro index asked inRecord
        exact recordFits.tile covers pattern
          (LoadedMap.targetKind_eq_tile_iff.mp kind) index
          (lt_of_lt_of_le asked (Nat.min_le_right _ _)) inRecord
  · rw [if_neg fits] at target
    exact iff_of_false (fun sums => sums.lookup target)
      fun recordFits => fits (recordFits.target covers)

/-- No sum of a read through a map is too large if and only if the sums of the
record that the lookup inspects are in range. -/
theorem sumsFit_iff
    (platform : Platform) (crates : Crates) (reader : Aff4Reader)
    (mapData : Bytes) (targets : List TargetKind) (gapDefault : TargetKind) :
    SumsFit platform crates
        { reader with
          loadedMap := some
            (.load crates.safeRead mapData targets gapDefault) } ↔
      ∀ entry,
        lastBeginning
            ((mapRecords crates.safeRead mapData).filter
              fun entry => 0 < entry.length)
            reader.pos.toNat = some entry →
        RecordFits platform targets entry reader.pos reader.virtualSize := by
  rw [← lastBeginning_parseMapEntries]
  generalize loaded : LoadedMap.load crates.safeRead mapData targets gapDefault = map
  have entries : parseMapEntries crates.safeRead mapData = map.entries := by
    rw [← loaded]
    rfl
  have sameTargets : targets = map.targets := by
    rw [← loaded]
    rfl
  rw [entries, sameTargets]
  have resolved := LoadedMap.resolve_checked IoError platform map reader.pos
    reader.virtualSize
  cases found : lastBeginning map.entries reader.pos.toNat with
  | none =>
      simp only [found] at resolved
      exact iff_of_true (sumsFit_of_gap rfl resolved)
        fun _ impossible => by cases impossible
  | some last =>
      simp only [found] at resolved
      have only {property : MapEntry → Prop} :
          (∀ entry, some last = some entry → property entry) ↔ property last :=
        ⟨fun all => all last rfl, fun holds _ equal => by cases equal; exact holds⟩
      rw [only]
      by_cases recordEnd : last.mapOffset.toNat + last.length.toNat < 2 ^ 64
      · by_cases covers : last.Covers reader.pos.toNat
        · exact @sumsFit_of_covers_iff platform crates
            { reader with loadedMap := some map } map last rfl found recordEnd
            covers
        · rw [if_pos recordEnd, if_neg covers] at resolved
          exact iff_of_true (sumsFit_of_gap rfl resolved)
            ⟨recordEnd, fun inside => absurd inside covers,
              fun inside => absurd inside covers⟩
      · rw [if_neg recordEnd] at resolved
        exact iff_of_false (fun sums => sums.lookup resolved)
          fun recordFits => recordEnd recordFits.recordEnd

/-! A record that begins at the second byte and is one byte too long for its end
to be a number of 64 bits: the lookup of that byte panics. -/

def overflowSample : MapContainer
    (.opening (Small.archive (Small.mapFile [⟨1, UInt64.ofNat (2 ^ 64 - 1), 0, 0⟩])
      (indexEntry 0 1 ++ indexEntry 1 1) [0x41, 0x42]
      (Small.entries_short (by decide) (by decide) (by decide)))) [] :=
  Small.container _ _ _ _

theorem not_sumsFit_overflowSample :
    openReader (.opening overflowSample.archive) [] = .ok overflowSample.reader ∧
      (1 : UInt64) < overflowSample.reader.virtualSize ∧
      ¬SumsFit .debug64 (.opening overflowSample.archive)
        { overflowSample.reader with pos := 1 } := by
  refine ⟨overflowSample.openReader_eq, by decide, fun sums => ?_⟩
  have panics : Aff4Reader.target Platform.debug64.checked
      { overflowSample.reader with pos := 1 } = .panic .addOverflow := by
    decide +kernel
  exact sums.lookup panics

end Aff4Reader
end Aff4
