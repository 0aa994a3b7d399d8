import Aff4.Map.Gaps

/-!
# Runs of the disk

The length of a resolved run is taken from one record, whereas the positions
inside it may be decided by others.  The two agree exactly when each record that
begins inside a run carries it on to the same end.
-/

namespace Aff4

open Rust

namespace LoadedMap

/-- Every position inside a resolved run resolves to the rest of the run. -/
def Homogeneous
    (platform : Platform) (map : LoadedMap) (virtualSize : UInt64) : Prop :=
  ∀ (virtualPos : UInt64) (region : ResolvedRegion), virtualPos < virtualSize →
    (map.resolve platform virtualPos virtualSize :
      Outcome IoError ResolvedRegion) = .ok region →
    ∀ distance, distance < region.bytesInRegion.toNat →
      virtualPos.toNat + distance < virtualSize.toNat →
      ∃ rest,
        (map.resolve platform (UInt64.ofNat (virtualPos.toNat + distance))
          virtualSize : Outcome IoError ResolvedRegion) = .ok rest ∧
        rest.kind = region.kind ∧
        (¬map.FallsBack platform virtualPos →
          rest.targetOffset.toNat = region.targetOffset.toNat + distance) ∧
        rest.bytesInRegion.toNat = region.bytesInRegion.toNat - distance

/-- A record that begins inside another one carries on its run: the same kind of
target, the same place in it and the same end. -/
structure Continues (map : LoadedMap) (outer inner : MapEntry) : Prop where
  kind : map.targetKind inner = map.targetKind outer
  targetOffset : inner.targetOffset.toNat = outer.targetOffset.toNat +
    (inner.mapOffset.toNat - outer.mapOffset.toNat)
  stop : inner.mapOffset.toNat + inner.length.toNat =
    outer.mapOffset.toNat + outer.length.toNat

/-- No later record of the file begins where this one does. -/
def Seen (map : LoadedMap) (entry : MapEntry) : Prop :=
  lastBeginning map.entries entry.mapOffset.toNat = some entry

/-- Where a record ends or the disk does. -/
def runEnd (entry : MapEntry) (virtualSize : UInt64) : Nat :=
  min (entry.mapOffset.toNat + entry.length.toNat) virtualSize.toNat

/-- Wherever a record that is seen begins on the disk, its target does not
overflow before the run ends, and every record that is seen inside it carries it
on. -/
def Consistent (map : LoadedMap) (virtualSize : UInt64) : Prop :=
  ∀ outer, map.Seen outer →
    outer.mapOffset.toNat < virtualSize.toNat →
    outer.mapOffset.toNat + outer.length.toNat < 2 ^ 64 →
    outer.targetOffset.toNat +
        (runEnd outer virtualSize - outer.mapOffset.toNat) ≤ 2 ^ 64 ∧
      ∀ inner, map.Seen inner →
        outer.mapOffset.toNat < inner.mapOffset.toNat →
        inner.mapOffset.toNat < runEnd outer virtualSize →
        map.Continues outer inner

variable {platform : Platform} {map : LoadedMap}
variable {virtualPos virtualSize : UInt64}

/-- In a consistent map the record that is found further on in a run is the same
one or carries it on. -/
theorem Consistent.carriedOn
    (consistent : map.Consistent virtualSize)
    {outer : MapEntry}
    (found : lastBeginning map.entries virtualPos.toNat = some outer)
    (stopFits : outer.mapOffset.toNat + outer.length.toNat < 2 ^ 64)
    {later : Nat} (after : virtualPos.toNat ≤ later)
    (inside : later < runEnd outer virtualSize) :
    ∃ inner, lastBeginning map.entries later = some inner ∧
      map.Continues outer inner ∧
      outer.mapOffset.toNat ≤ inner.mapOffset.toNat ∧
      inner.mapOffset.toNat ≤ later := by
  obtain ⟨member, begins, -⟩ := greatest_of_lastBeginning found
  have onDisk : outer.mapOffset.toNat < virtualSize.toNat := by
    unfold runEnd at inside
    omega
  cases last : lastBeginning map.entries later with
  | none =>
      have beyond := lastBeginning_eq_none_iff.mp last outer member
      omega
  | some inner =>
      obtain ⟨_, innerBegins, greatest⟩ := greatest_of_lastBeginning last
      have le := greatest outer member (by omega)
      refine ⟨inner, rfl, ?_, le, innerBegins⟩
      have seen := lastBeginning_start found
      have innerSeen := lastBeginning_start last
      rcases Nat.eq_or_lt_of_le le with same | behind
      · rw [← same, seen] at innerSeen
        cases innerSeen
        exact ⟨rfl, by omega, rfl⟩
      · exact (consistent outer seen onDisk stopFits).2 inner innerSeen behind
          (by omega)

/-- Two runs of a homogeneous map that reach the same position agree there. -/
theorem Homogeneous.meets
    (homogeneous : map.Homogeneous platform virtualSize)
    {start other : UInt64} {region otherRegion : ResolvedRegion}
    {position : Nat}
    (resolved : (map.resolve platform start virtualSize :
      Outcome IoError ResolvedRegion) = .ok region)
    (otherResolved : (map.resolve platform other virtualSize :
      Outcome IoError ResolvedRegion) = .ok otherRegion)
    (after : start.toNat ≤ position) (otherAfter : other.toNat ≤ position)
    (onDisk : position < virtualSize.toNat)
    (inside : position - start.toNat < region.bytesInRegion.toNat)
    (otherInside : position - other.toNat < otherRegion.bytesInRegion.toNat) :
    region.kind = otherRegion.kind ∧
      (¬map.FallsBack platform start → ¬map.FallsBack platform other →
        region.targetOffset.toNat + (position - start.toNat) =
          otherRegion.targetOffset.toNat + (position - other.toNat)) := by
  obtain ⟨rest, restResolved, restKind, restTarget, -⟩ :=
    homogeneous start region (UInt64.lt_iff_toNat_lt.mpr (by omega)) resolved
      (position - start.toNat) inside (by omega)
  obtain ⟨otherRest, otherRestResolved, otherKind, otherTarget, -⟩ :=
    homogeneous other otherRegion (UInt64.lt_iff_toNat_lt.mpr (by omega))
      otherResolved (position - other.toNat) otherInside (by omega)
  rw [Nat.add_sub_cancel' after] at restResolved
  rw [Nat.add_sub_cancel' otherAfter, restResolved] at otherRestResolved
  cases otherRestResolved
  exact ⟨restKind.symm.trans otherKind, fun inRecord otherInRecord =>
    (restTarget inRecord).symm.trans (otherTarget otherInRecord)⟩

/-- What resolving a position of a record's run gives in a consistent map. -/
theorem Consistent.resolve_inside
    (consistent : map.Consistent virtualSize) (platform : Platform)
    {outer : MapEntry}
    (found : lastBeginning map.entries virtualPos.toNat = some outer)
    (stopFits : outer.mapOffset.toNat + outer.length.toNat < 2 ^ 64)
    {later : UInt64} (after : virtualPos.toNat ≤ later.toNat)
    (inside : later.toNat < runEnd outer virtualSize) :
    ∃ rest,
      (map.resolve platform later virtualSize :
        Outcome IoError ResolvedRegion) = .ok rest ∧
      rest.kind = map.targetKind outer ∧
      rest.targetOffset.toNat = outer.targetOffset.toNat +
        (later.toNat - outer.mapOffset.toNat) ∧
      rest.bytesInRegion.toNat =
        outer.mapOffset.toNat + outer.length.toNat - later.toNat := by
  obtain ⟨inner, last, continues, le, begins⟩ :=
    consistent.carriedOn found stopFits after inside
  have outerSeen := lastBeginning_start found
  have endsBefore : runEnd outer virtualSize ≤
      outer.mapOffset.toNat + outer.length.toNat := Nat.min_le_left _ _
  have onDisk : runEnd outer virtualSize ≤ virtualSize.toNat :=
    Nat.min_le_right _ _
  have targetFits := (consistent outer outerSeen (by omega) stopFits).1
  have stop := continues.stop
  have targetOffset := continues.targetOffset
  have covers : inner.Covers later.toNat := ⟨begins, by omega⟩
  have searched : (map.search platform later :
      Outcome IoError (Option MapEntry)) = .ok (some inner) :=
    search_eq_some_iff.mpr ⟨last, covers, by omega⟩
  obtain ⟨rest, answered, kind, restTarget, restBytes⟩ :=
    regionOf_of_lt IoError platform map covers (by omega)
  refine ⟨rest, ?_, kind.trans continues.kind, by omega, by omega⟩
  rw [resolve_eq, searched, Outcome.ok_bind]
  exact answered

/-- In a consistent map, what does not resolve to the gap default resolves to
the rest of a record's run. -/
theorem Consistent.record_of_resolve
    (consistent : map.Consistent virtualSize) (below : virtualPos < virtualSize)
    {region : ResolvedRegion}
    (resolved : (map.resolve platform virtualPos virtualSize :
      Outcome IoError ResolvedRegion) = .ok region)
    (notGap : region.kind ≠ map.gapDefault) :
    ¬map.FallsBack platform virtualPos ∧
      ∃ outer, lastBeginning map.entries virtualPos.toNat = some outer ∧
        outer.mapOffset.toNat + outer.length.toNat < 2 ^ 64 ∧
        map.targetKind outer = region.kind ∧
        virtualPos.toNat + region.bytesInRegion.toNat =
          outer.mapOffset.toNat + outer.length.toNat := by
  rcases resolve_cases resolved with
    ⟨-, rfl⟩ | ⟨outer, found, ⟨begins, ends⟩, stopFits, inRecord, -⟩
  · exact absurd rfl notGap
  · obtain ⟨rest, restResolved, kind, -, bytes⟩ :=
      consistent.resolve_inside platform found stopFits le_rfl
        (Nat.lt_min.mpr ⟨ends, UInt64.lt_iff_toNat_lt.mp below⟩)
    rw [resolved] at restResolved
    cases restResolved
    exact ⟨inRecord, outer, found, stopFits, kind.symm, by omega⟩

/-- A position further on in a gap lies in the same gap. -/
theorem FallsBack.further
    (fallsBack : map.FallsBack platform virtualPos) {later : UInt64}
    (after : virtualPos.toNat ≤ later.toNat)
    (nothing : ∀ entry ∈ map.entries, entry.mapOffset.toNat ≤ later.toNat →
      entry.mapOffset.toNat ≤ virtualPos.toNat) :
    map.FallsBack platform later := by
  cases found : lastBeginning map.entries virtualPos.toNat with
  | none =>
      have beyond : lastBeginning map.entries later.toNat = none := by
        rw [lastBeginning_eq_none_iff] at found ⊢
        intro entry member
        have start := found entry member
        by_contra begins
        have := nothing entry member (by omega)
        omega
      simp only [FallsBack, search, beyond]
  | some entry =>
      obtain ⟨-, begins, greatest⟩ := greatest_of_lastBeginning found
      have last : lastBeginning map.entries later.toNat = some entry :=
        lastBeginning_of_same found (by omega) fun other member within =>
          greatest other member (nothing other member within)
      rw [FallsBack, search_of_lastBeginning IoError platform found] at fallsBack
      rw [FallsBack, search_of_lastBeginning IoError platform last]
      by_cases wraps : 2 ^ 64 ≤ entry.mapOffset.toNat + entry.length.toNat
      · rwa [if_pos wraps] at fallsBack ⊢
      · rw [if_neg wraps] at fallsBack ⊢
        have ended : ¬entry.Covers virtualPos.toNat := by
          intro covers
          rw [if_pos covers] at fallsBack
          cases fallsBack
        rw [if_neg]
        exact fun covers => ended ⟨begins, by have := covers.2; omega⟩

/-- Nothing begins behind a position before the gap it lies in ends. -/
theorem nextBeginning_further
    {records : List MapEntry} {position later stop : Nat}
    (after : position ≤ later)
    (inside : later < (nextBeginning records position).getD stop) :
    (∀ entry ∈ records, entry.mapOffset.toNat ≤ later →
        entry.mapOffset.toNat ≤ position) ∧
      nextBeginning records later = nextBeginning records position := by
  have nothing : ∀ entry ∈ records, entry.mapOffset.toNat ≤ later →
      entry.mapOffset.toNat ≤ position := by
    intro entry member begins
    cases next : nextBeginning records position with
    | none => exact nextBeginning_eq_none_iff.mp next entry member
    | some start =>
        by_contra behind
        have least := (nextBeginning_eq_some_iff.mp next).2 entry member (by omega)
        rw [next, Option.getD_some] at inside
        omega
  refine ⟨nothing, ?_⟩
  unfold nextBeginning
  congr 2
  apply List.filter_congr
  intro entry member
  have same : later < entry.mapOffset.toNat ↔ position < entry.mapOffset.toNat := by
    have := nothing entry member
    omega
  simp only [same]

/-- What a position further on in a gap resolves to. -/
theorem resolve_gap_further
    (below : virtualPos < virtualSize)
    (fallsBack : map.FallsBack platform virtualPos) {later : UInt64}
    (after : virtualPos.toNat ≤ later.toNat) (onDisk : later < virtualSize)
    (inside : later.toNat < virtualPos.toNat +
      (map.gapAt virtualPos virtualSize).bytesInRegion.toNat) :
    ∃ rest,
      (map.resolve platform later virtualSize :
        Outcome IoError ResolvedRegion) = .ok rest ∧
      rest.kind = map.gapDefault ∧
      rest.bytesInRegion.toNat =
        (map.gapAt virtualPos virtualSize).bytesInRegion.toNat -
          (later.toNat - virtualPos.toNat) := by
  obtain ⟨-, -, length, -⟩ := map.gapAt_eq below
  obtain ⟨kind, -, restLength, -⟩ := map.gapAt_eq onDisk
  obtain ⟨nothing, sameNext⟩ := nextBeginning_further after
    (show later.toNat < (nextBeginning map.entries virtualPos.toNat).getD
      virtualSize.toNat by omega)
  have laterFallsBack := fallsBack.further after nothing
  refine ⟨_, resolve_of_fallsBack laterFallsBack virtualSize, kind, ?_⟩
  rw [restLength, sameNext, length]
  omega

/-- A record seen in a homogeneous map carries its run to its end, across every
record that begins inside it. -/
theorem Homogeneous.consistent
    (homogeneous : map.Homogeneous platform virtualSize) :
    map.Consistent virtualSize := by
  intro outer seen onDisk stopFits
  have nonempty := map.nonempty outer (greatest_of_lastBeginning seen).1
  have covers : outer.Covers outer.mapOffset.toNat := MapEntry.covers_start nonempty
  have targetLt := outer.targetOffset.toNat_lt
  have searched : (map.search platform outer.mapOffset :
      Outcome IoError (Option MapEntry)) = .ok (some outer) :=
    search_eq_some_iff.mpr ⟨seen, covers, stopFits⟩
  obtain ⟨region, answered, kind, targetOffset, bytes⟩ :=
    regionOf_of_lt IoError platform map covers (by omega)
  have resolved : (map.resolve platform outer.mapOffset virtualSize :
      Outcome IoError ResolvedRegion) = .ok region := by
    rw [resolve_eq, searched, Outcome.ok_bind]
    exact answered
  have inRecord : ¬map.FallsBack platform outer.mapOffset := by
    intro fallsBack
    rw [FallsBack, searched] at fallsBack
    cases fallsBack
  have stopCovers := covers.2
  -- the region of the position at some distance from the record's beginning
  have further (distance : Nat)
      (inside : outer.mapOffset.toNat + distance <
        runEnd outer virtualSize) := by
    unfold runEnd at inside
    exact homogeneous outer.mapOffset region
      (UInt64.lt_iff_toNat_lt.mpr onDisk) resolved distance (by omega) (by omega)
  refine ⟨?_, fun inner innerSeen behind inside => ?_⟩
  · have last : outer.mapOffset.toNat +
        (runEnd outer virtualSize - outer.mapOffset.toNat - 1) <
          runEnd outer virtualSize := by
      unfold runEnd
      omega
    obtain ⟨rest, -, -, restTarget, -⟩ := further _ last
    have restLt := rest.targetOffset.toNat_lt
    rw [restTarget inRecord] at restLt
    omega
  · obtain ⟨rest, restResolved, restKind, restTarget, restBytes⟩ :=
      further (inner.mapOffset.toNat - outer.mapOffset.toNat) (by omega)
    rw [Nat.add_sub_cancel' behind.le, UInt64.ofNat_toNat] at restResolved
    have restTarget := restTarget inRecord
    rcases resolve_cases restResolved with
      ⟨fallsBack, rfl⟩ | ⟨entry, last, innerCovers, innerFits, -, answered⟩
    · -- a gap has no target offset
      have zero : (map.gapAt inner.mapOffset virtualSize).targetOffset.toNat =
        0 := rfl
      omega
    · rw [innerSeen] at last
      cases last
      have innerLt := inner.targetOffset.toNat_lt
      obtain ⟨exact, exactAnswered, exactKind, exactTarget, exactBytes⟩ :=
        regionOf_of_lt IoError platform map innerCovers (by omega)
      rw [answered] at exactAnswered
      cases exactAnswered
      have innerStop := innerCovers.2
      exact ⟨by rw [← exactKind, restKind, kind], by omega, by omega⟩

/-- In a consistent map a run is carried on at every position inside it, and so is
a gap. -/
theorem Consistent.homogeneous
    (consistent : map.Consistent virtualSize) :
    map.Homogeneous platform virtualSize := by
  intro virtualPos region below resolved distance inside onDisk
  have sizeLt := virtualSize.toNat_lt
  have belowNat := UInt64.lt_iff_toNat_lt.mp below
  have later : (UInt64.ofNat (virtualPos.toNat + distance)).toNat =
      virtualPos.toNat + distance := toNat_ofNat_of_lt (by omega)
  generalize UInt64.ofNat (virtualPos.toNat + distance) = further at later
  rcases resolve_cases resolved with
    ⟨fallsBack, rfl⟩ | ⟨outer, found, covers, stopFits, -, answered⟩
  · have furtherOnDisk : further < virtualSize :=
      UInt64.lt_iff_toNat_lt.mpr (by omega)
    obtain ⟨rest, restResolved, kind, bytes⟩ :=
      resolve_gap_further below fallsBack (show _ ≤ further.toNat by omega)
        furtherOnDisk (by omega)
    refine ⟨rest, restResolved, kind, fun inRecord => absurd fallsBack inRecord, ?_⟩
    rw [bytes, later, Nat.add_sub_cancel_left]
  · obtain ⟨begins, ends⟩ := covers
    have inRun : virtualPos.toNat < runEnd outer virtualSize :=
      Nat.lt_min.mpr ⟨ends, belowNat⟩
    obtain ⟨region', resolved', kind, targetOffset, bytes⟩ :=
      consistent.resolve_inside platform found stopFits le_rfl inRun
    rw [resolved] at resolved'
    cases resolved'
    have furtherInRun : further.toNat < runEnd outer virtualSize :=
      Nat.lt_min.mpr ⟨by omega, by omega⟩
    obtain ⟨rest, restResolved, restKind, restTarget, restBytes⟩ :=
      consistent.resolve_inside platform found stopFits
        (show _ ≤ further.toNat by omega) furtherInRun
    exact ⟨rest, restResolved, by rw [restKind, kind], fun _ => by omega,
      by omega⟩

/-- A parsed map is homogeneous exactly when it is consistent. -/
theorem homogeneous_iff :
    map.Homogeneous platform virtualSize ↔ map.Consistent virtualSize :=
  ⟨Homogeneous.consistent, Consistent.homogeneous⟩

end LoadedMap
end Aff4
