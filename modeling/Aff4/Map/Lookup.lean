import Aff4.Map

/-!
# What a lookup finds

In a map whose records cover disjoint ranges, a lookup finds the record that
covers the position, or the gap the position lies in.
-/

namespace Aff4

open Rust

namespace MapEntry

/-- A record covers a virtual position. -/
def Covers (entry : MapEntry) (position : Nat) : Prop :=
  entry.mapOffset.toNat ≤ position ∧
    position < entry.mapOffset.toNat + entry.length.toNat

instance (entry : MapEntry) (position : Nat) : Decidable (entry.Covers position) :=
  inferInstanceAs (Decidable (_ ∧ _))

/-- No position is covered by both of two records. -/
def Disjoint (left right : MapEntry) : Prop :=
  ∀ position, ¬(left.Covers position ∧ right.Covers position)

theorem Disjoint.symm {left right : MapEntry} (disjoint : left.Disjoint right) :
    right.Disjoint left :=
  fun position both => disjoint position both.symm

/-- A record that ends before another one begins is disjoint from it. -/
theorem disjoint_of_apart {left right : MapEntry}
    (apart :
      left.mapOffset.toNat + left.length.toNat ≤ right.mapOffset.toNat ∨
        right.mapOffset.toNat + right.length.toNat ≤ left.mapOffset.toNat) :
    left.Disjoint right := by
  rintro position ⟨⟨_, _⟩, _, _⟩
  omega

/-- A nonempty record covers the position it begins at. -/
theorem covers_start {entry : MapEntry} (nonempty : 0 < entry.length) :
    entry.Covers entry.mapOffset.toNat := by
  have := UInt64.lt_iff_toNat_lt.mp nonempty
  rw [UInt64.toNat_zero] at this
  exact ⟨le_rfl, by omega⟩

end MapEntry

/-! ## Records in file order and in the map -/

/-- Disjointness of a list of records, whatever their order and whether empty
records are among them. -/
theorem pairwise_disjoint_parseMapEntries
    {safeRead : SafeRead} {data : Bytes}
    (disjoint : (mapRecords safeRead data).Pairwise MapEntry.Disjoint) :
    (parseMapEntries safeRead data).Pairwise MapEntry.Disjoint :=
  ((List.perm_insertionSort _ _).pairwise_iff fun apart => apart.symm).mpr
    (disjoint.sublist List.filter_sublist)

/-- The record of a list that covers a position. -/
def coveringRecord (records : List MapEntry) (position : Nat) :
    Option MapEntry :=
  records.find? fun entry => entry.Covers position

/-- In disjoint records, whichever covers a position is the one. -/
theorem coveringRecord_eq_some
    {records : List MapEntry}
    (disjoint : records.Pairwise MapEntry.Disjoint)
    {entry : MapEntry} {position : Nat}
    (member : entry ∈ records) (covers : entry.Covers position) :
    coveringRecord records position = some entry := by
  cases found : coveringRecord records position with
  | none =>
      have nowhere := List.find?_eq_none.mp found entry member
      simp [covers] at nowhere
  | some other =>
      have otherCovers : other.Covers position := by
        simpa using List.find?_some found
      have otherMember := List.mem_of_find?_eq_some found
      have symmetric : Std.Symm MapEntry.Disjoint := ⟨fun _ _ => .symm⟩
      by_contra different
      exact disjoint.forall otherMember member (by simpa using different) position
        ⟨otherCovers, covers⟩

theorem coveringRecord_eq_none
    {records : List MapEntry} {position : Nat}
    (uncovered : ∀ entry ∈ records, ¬entry.Covers position) :
    coveringRecord records position = none :=
  List.find?_eq_none.mpr fun entry member => by
    simpa using uncovered entry member

/-! ## Resolution -/

namespace LoadedMap

variable {platform : Platform} {map : LoadedMap}
variable {virtualPos virtualSize : UInt64}

theorem targetKind_eq_tile_iff {entry : MapEntry} {pattern : Tile} :
    map.targetKind entry = .tile pattern ↔
      map.targets[entry.targetId.toNat]? = some (.tile pattern) := by
  unfold targetKind
  cases map.targets[entry.targetId.toNat]? with
  | none =>
      rw [Option.getD_none]
      exact iff_of_false (fun equal => by cases equal) (fun equal => by cases equal)
  | some kind => rw [Option.getD_some, Option.some.injEq]

/-- A lookup may panic, but it never fails with an error. -/
theorem resolve_ne_err (error : ε) :
    (map.resolve platform virtualPos virtualSize : Outcome ε ResolvedRegion) ≠
      .err error := by
  intro fails
  simp only [resolve] at fails
  split at fails
  next => cases fails
  next =>
    split at fails
    next => cases fails
    next entry _ =>
      rcases Outcome.bind_eq_err.mp fails with added | ⟨entryEnd, _, fails⟩
      · exact addU64_ne_err _ added
      split at fails
      next =>
        rcases Outcome.bind_eq_err.mp fails with offset | ⟨_, _, fails⟩
        · exact subU64_ne_err _ offset
        rcases Outcome.bind_eq_err.mp fails with target | ⟨_, _, fails⟩
        · exact addU64_ne_err _ target
        rcases Outcome.bind_eq_err.mp fails with left | ⟨_, _, fails⟩
        · exact subU64_ne_err _ left
        · cases fails
      next => cases fails

/-- No lookup finds an empty region, whatever the records. -/
theorem bytesInRegion_pos_of_resolve
    {region : ResolvedRegion}
    (resolved : (map.resolve platform virtualPos virtualSize :
      Outcome ε ResolvedRegion) = .ok region) :
    0 < region.bytesInRegion.toNat := by
  have gapNonempty (next : Nat) :
      0 < (map.resolveGap next virtualPos virtualSize).bytesInRegion.toNat := by
    have limit := ((map.entries[next]?.map MapEntry.mapOffset).getD
      virtualSize).toNat_lt
    simp only [resolveGap]
    rw [toNat_ofNat_of_lt (by omega)]
    omega
  simp only [resolve] at resolved
  split at resolved
  next => cases resolved; exact gapNonempty _
  next positive =>
    obtain ⟨last, _, found, begins, -⟩ :=
      exists_greatest_of_partitionPoint_pos
        (fun entry : MapEntry => entry.mapOffset.toNat) map.sorted
        (Nat.pos_of_ne_zero positive)
    simp only [found] at resolved
    obtain ⟨entryEnd, added, resolved⟩ := Outcome.bind_eq_ok.mp resolved
    obtain ⟨rfl, -⟩ := addU64_eq_ok.mp added
    split at resolved
    next inside =>
      obtain ⟨offset, subtracted, resolved⟩ := Outcome.bind_eq_ok.mp resolved
      obtain ⟨targetOffset, _, resolved⟩ := Outcome.bind_eq_ok.mp resolved
      obtain ⟨bytes, left, resolved⟩ := Outcome.bind_eq_ok.mp resolved
      have ordered : last.mapOffset ≤ virtualPos :=
        UInt64.le_iff_toNat_le.mpr begins
      rw [subU64_of_le ordered] at subtracted
      cases subtracted
      have exactOffset := UInt64.toNat_sub_of_le _ _ ordered
      -- a wrapped end would lie before the record
      rw [UInt64.lt_iff_toNat_lt, UInt64.toNat_add] at inside
      have startSize := last.mapOffset.toNat_lt
      have lengthSize := last.length.toNat_lt
      have short : virtualPos - last.mapOffset ≤ last.length := by
        rw [UInt64.le_iff_toNat_le]
        omega
      rw [subU64_of_le short] at left
      cases left
      cases resolved
      rw [UInt64.toNat_sub_of_le _ _ short]
      omega
    next => cases resolved; exact gapNonempty _

/-- A covered position resolves to its record. -/
theorem resolve_of_covers
    (ε : Type) (platform : Platform) (virtualSize : UInt64)
    (disjoint : map.entries.Pairwise MapEntry.Disjoint)
    {entry : MapEntry} (member : entry ∈ map.entries)
    (covers : entry.Covers virtualPos.toNat)
    (mapFits : entry.mapOffset.toNat + entry.length.toNat < 2 ^ 64)
    (targetFits : entry.targetOffset.toNat + entry.length.toNat ≤ 2 ^ 64) :
    ∃ region, (map.resolve platform virtualPos virtualSize :
        Outcome ε ResolvedRegion) = .ok region ∧
      region.kind = map.targetKind entry ∧
      region.targetOffset.toNat =
        entry.targetOffset.toNat + (virtualPos.toNat - entry.mapOffset.toNat) ∧
      region.bytesInRegion.toNat =
        entry.mapOffset.toNat + entry.length.toNat - virtualPos.toNat := by
  obtain ⟨begins, ends⟩ := covers
  have positive : 0 < partitionPoint
      (fun other : MapEntry => other.mapOffset.toNat ≤ virtualPos.toNat)
      map.entries := by
    by_contra zero
    have := lt_key_of_partitionPoint_eq_zero
      (fun other : MapEntry => other.mapOffset.toNat) map.sorted
      (Nat.eq_zero_of_not_pos zero) member
    omega
  obtain ⟨last, lastMember, found, lastBegins, greatest⟩ :=
    exists_greatest_of_partitionPoint_pos
      (fun other : MapEntry => other.mapOffset.toNat) map.sorted positive
  -- a later record would begin inside this one
  obtain rfl : last = entry := by
    have symmetric : Std.Symm MapEntry.Disjoint := ⟨fun _ _ => .symm⟩
    by_contra different
    refine disjoint.forall lastMember member different last.mapOffset.toNat
      ⟨MapEntry.covers_start (map.nonempty last lastMember), ?_⟩
    exact ⟨greatest entry member begins, by omega⟩
  have endFits := toNat_add_of_lt mapFits
  have inside : virtualPos < last.mapOffset + last.length := by
    rw [UInt64.lt_iff_toNat_lt, endFits]
    exact ends
  have offset : (virtualPos - last.mapOffset).toNat =
      virtualPos.toNat - last.mapOffset.toNat :=
    UInt64.toNat_sub_of_le _ _ (UInt64.le_iff_toNat_le.mpr begins)
  have offsetFits : virtualPos - last.mapOffset ≤ last.length := by
    rw [UInt64.le_iff_toNat_le, offset]
    omega
  refine ⟨{
      kind := map.targetKind last
      targetOffset := last.targetOffset + (virtualPos - last.mapOffset)
      bytesInRegion := last.length - (virtualPos - last.mapOffset) },
    ?_, rfl, ?_, ?_⟩
  · simp only [resolve, if_neg (Nat.ne_of_gt positive), found]
    rw [addU64_of_lt mapFits, Outcome.ok_bind, if_pos inside,
      subU64_of_le (UInt64.le_iff_toNat_le.mpr begins), Outcome.ok_bind,
      addU64_of_lt (by omega), Outcome.ok_bind, subU64_of_le offsetFits]
    rfl
  · rw [toNat_add_of_lt (by omega), offset]
  · rw [UInt64.toNat_sub_of_le _ _ offsetFits, offset]
    omega

/-- The gap from a position up to the next record is not covered. -/
theorem resolveGap_spec
    (below : virtualPos < virtualSize)
    (uncovered : ∀ entry ∈ map.entries, ¬entry.Covers virtualPos.toNat) :
    let region := map.resolveGap
      (partitionPoint
        (fun entry : MapEntry => entry.mapOffset.toNat ≤ virtualPos.toNat)
        map.entries)
      virtualPos virtualSize
    0 < region.bytesInRegion.toNat ∧
      ∀ position, virtualPos.toNat ≤ position →
        position < virtualPos.toNat + region.bytesInRegion.toNat →
        ∀ entry ∈ map.entries, ¬entry.Covers position := by
  rw [UInt64.lt_iff_toNat_lt] at below
  intro region
  have size := virtualSize.toNat_lt
  cases found : map.entries[partitionPoint
      (fun entry : MapEntry => entry.mapOffset.toNat ≤ virtualPos.toNat)
      map.entries]? with
  | none =>
      have length : region.bytesInRegion.toNat =
          virtualSize.toNat - virtualPos.toNat := by
        simp only [region, resolveGap, found, Option.map_none, Option.getD_none]
        rw [toNat_ofNat_of_lt (by omega)]
        omega
      refine ⟨by omega, fun position after _ entry member covers => ?_⟩
      have begins := key_le_of_getElem?_partitionPoint_eq_none
        (fun entry : MapEntry => entry.mapOffset.toNat) map.sorted found
        member
      exact uncovered entry member ⟨begins, by have := covers.2; omega⟩
  | some next =>
      obtain ⟨beyond, least⟩ := least_of_getElem?_partitionPoint
        (fun entry : MapEntry => entry.mapOffset.toNat) map.sorted found
      have nextSize := next.mapOffset.toNat_lt
      have length : region.bytesInRegion.toNat =
          next.mapOffset.toNat - virtualPos.toNat := by
        simp only [region, resolveGap, found, Option.map_some, Option.getD_some]
        rw [toNat_ofNat_of_lt (by omega)]
        omega
      refine ⟨by omega, fun position after before entry member covers => ?_⟩
      obtain ⟨begins, ends⟩ := covers
      by_cases later : virtualPos.toNat < entry.mapOffset.toNat
      · have := least entry member later
        omega
      · exact uncovered entry member ⟨by omega, by omega⟩

/-- An uncovered position resolves to the gap it lies in. -/
theorem resolve_of_uncovered
    (ε : Type) (platform : Platform) {map : LoadedMap}
    (mapFits : ∀ entry ∈ map.entries,
      entry.mapOffset.toNat + entry.length.toNat < 2 ^ 64)
    (below : virtualPos < virtualSize)
    (uncovered : ∀ entry ∈ map.entries, ¬entry.Covers virtualPos.toNat) :
    ∃ region, (map.resolve platform virtualPos virtualSize :
        Outcome ε ResolvedRegion) = .ok region ∧
      region.kind = map.gapDefault ∧
      region.targetOffset = 0 ∧
      0 < region.bytesInRegion.toNat ∧
      ∀ position, virtualPos.toNat ≤ position →
        position < virtualPos.toNat + region.bytesInRegion.toNat →
        ∀ entry ∈ map.entries, ¬entry.Covers position := by
  obtain ⟨nonempty, gap⟩ := resolveGap_spec below uncovered
  refine ⟨_, ?_, rfl, rfl, nonempty, gap⟩
  by_cases zero : partitionPoint
      (fun entry : MapEntry => entry.mapOffset.toNat ≤ virtualPos.toNat)
      map.entries = 0
  · simp only [resolve, if_pos zero]
  · obtain ⟨last, lastMember, found, lastBegins, -⟩ :=
      exists_greatest_of_partitionPoint_pos
        (fun entry : MapEntry => entry.mapOffset.toNat) map.sorted
        (Nat.pos_of_ne_zero zero)
    have endFits := toNat_add_of_lt (mapFits last lastMember)
    have outside : ¬virtualPos < last.mapOffset + last.length := by
      rw [UInt64.lt_iff_toNat_lt, endFits]
      exact fun ends => uncovered last lastMember ⟨lastBegins, ends⟩
    simp only [resolve, if_neg zero, found]
    rw [addU64_of_lt (mapFits last lastMember), Outcome.ok_bind, if_neg outside]
    rfl

end LoadedMap
end Aff4
