import Aff4.Forensic
import Aff4.Map.Gaps

/-!
# Unreadable regions

The audit reports the regions of the records whose target is
`aff4:UnreadableData`, while a read asks the lookup.  What the lookup calls
unreadable is always reported, and where records are disjoint nothing else is.
-/

namespace Aff4

open Rust

/-- No position of a record, on the disk or in its target, is too large. -/
def MapEntry.Fits (entry : MapEntry) : Prop :=
  entry.mapOffset.toNat + entry.length.toNat < 2 ^ 64 ∧
    entry.targetOffset.toNat + entry.length.toNat ≤ 2 ^ 64

namespace LoadedMap

variable {platform : Platform} {map : LoadedMap}

/-- A read at a position returns the unreadable tile. -/
def ReadsUnreadable
    (platform : Platform) (map : LoadedMap) (virtualPos virtualSize : UInt64) :
    Prop :=
  ∃ region, (map.resolve platform virtualPos virtualSize :
      Outcome IoError ResolvedRegion) = .ok region ∧
    region.kind = .tile .unreadable

/-- A position lies in a reported region. -/
def Reported (map : LoadedMap) (position : Nat) : Prop :=
  ∃ region ∈ map.unreadableRegions,
    region.1.toNat ≤ position ∧ position < region.1.toNat + region.2.toNat

/-- The reported regions are those of the records with an unreadable target. -/
theorem reported_iff {position : Nat} :
    map.Reported position ↔
      ∃ entry ∈ map.entries, entry.Covers position ∧
        map.targetKind entry = .tile .unreadable := by
  unfold Reported unreadableRegions
  constructor
  · rintro ⟨_, member, covered⟩
    obtain ⟨entry, kept, rfl⟩ := List.mem_map.mp member
    obtain ⟨inside, unreadable⟩ := List.mem_filter.mp kept
    exact ⟨entry, inside, covered,
      targetKind_eq_tile_iff.mpr (of_decide_eq_true unreadable)⟩
  · rintro ⟨entry, inside, covers, unreadable⟩
    refine ⟨_, List.mem_map_of_mem (List.mem_filter.mpr ⟨inside, ?_⟩), covers⟩
    exact decide_eq_true (targetKind_eq_tile_iff.mp unreadable)

/-- What is read as unreadable is reported, as long as gaps are read as something
else. -/
theorem reported_of_readsUnreadable {virtualPos virtualSize : UInt64}
    (gaps : map.gapDefault ≠ .tile .unreadable)
    (reads : map.ReadsUnreadable platform virtualPos virtualSize) :
    map.Reported virtualPos.toNat := by
  obtain ⟨region, resolved, unreadable⟩ := reads
  rcases resolve_cases resolved with ⟨-, rfl⟩ | ⟨entry, last, covers, -, -, answered⟩
  · exact absurd unreadable gaps
  · rw [regionOf_of_covers IoError platform map covers] at answered
    obtain ⟨targetOffset, -, answered⟩ := Outcome.bind_eq_ok.mp answered
    cases answered
    rw [reported_iff]
    exact ⟨entry, (greatest_of_lastBeginning last).1, covers, unreadable⟩

/-- What is reported is read as unreadable where records do not overlap. -/
theorem readsUnreadable_of_reported {virtualPos virtualSize : UInt64}
    (disjoint : map.entries.Pairwise MapEntry.Disjoint)
    (fits : ∀ entry ∈ map.entries, entry.Fits)
    (reported : map.Reported virtualPos.toNat) :
    map.ReadsUnreadable platform virtualPos virtualSize := by
  obtain ⟨entry, member, covers, unreadable⟩ := reported_iff.mp reported
  obtain ⟨region, resolved, kind, -⟩ := resolve_of_covers IoError platform
    virtualSize disjoint member covers (fits entry member).1 (fits entry member).2
  exact ⟨region, resolved, kind.trans unreadable⟩

/-- Reported regions end before the next one begins where records do not
overlap. -/
theorem ordered_unreadableRegions
    (disjoint : map.entries.Pairwise MapEntry.Disjoint) :
    map.unreadableRegions.Pairwise fun left right =>
      left.1.toNat + left.2.toNat ≤ right.1.toNat := by
  unfold unreadableRegions
  rw [List.pairwise_map]
  apply List.Pairwise.filter
  refine (map.sorted.and disjoint).imp_of_mem ?_
  rintro left right - inside ⟨ordered, apart⟩
  -- a longer region would have the beginning of the next one in it
  by_contra longer
  have reaches : right.mapOffset.toNat <
      left.mapOffset.toNat + left.length.toNat := Nat.lt_of_not_le longer
  exact apart right.mapOffset.toNat
    ⟨⟨ordered, reaches⟩, MapEntry.covers_start (map.nonempty right inside)⟩

end LoadedMap

/-- The audit and the reads of a map agree on what is unreadable. -/
structure UnreadableAgrees
    (platform : Platform) (crates : Crates) (digests : DigestCrates)
    (records : List MapEntry) (map : LoadedMap) : Prop where
  complete : ∀ virtualPos virtualSize, virtualPos < virtualSize →
    map.ReadsUnreadable platform virtualPos virtualSize →
    map.Reported virtualPos.toNat
  audited : ∀ reader : Aff4Reader, reader.loadedMap = some map →
    ∀ findings, verifyImageHashes platform crates digests reader = .ok findings →
    ∀ region ∈ map.unreadableRegions,
      .hashUnreadable region.1 region.2 ∈ findings
  exact : records.Pairwise MapEntry.Disjoint →
    (∀ entry ∈ records, entry.Fits) →
    ∀ virtualPos virtualSize, virtualPos < virtualSize →
    map.Reported virtualPos.toNat →
    map.ReadsUnreadable platform virtualPos virtualSize
  ordered : records.Pairwise MapEntry.Disjoint →
    (∀ entry ∈ records, entry.Fits) →
    map.unreadableRegions.Pairwise fun left right =>
      left.1.toNat + left.2.toNat ≤ right.1.toNat

/-- Every region of a reader is among the findings of its audit. -/
theorem hashUnreadable_mem_of_verifyImageHashes
    {platform : Platform} {crates : Crates} {digests : DigestCrates}
    {reader : Aff4Reader} {findings : List Aff4Anomaly}
    (verified : verifyImageHashes platform crates digests reader = .ok findings)
    {region : UInt64 × UInt64} (member : region ∈ reader.unreadableRegions) :
    .hashUnreadable region.1 region.2 ∈ findings := by
  unfold verifyImageHashes at verified
  simp only at verified
  split at verified
  · cases verified
    exact List.mem_map.mpr ⟨region, member, rfl⟩
  · obtain ⟨_, _, reported⟩ := Outcome.bind_eq_ok.mp verified
    cases reported
    exact List.mem_append_left _ (List.mem_map.mpr ⟨region, member, rfl⟩)

/-- Every parsed map agrees with the audit on what is unreadable. -/
theorem unreadableAgrees
    (platform : Platform) (crates : Crates) (digests : DigestCrates)
    (mapData : Bytes) (idxData imageStreamArn : Text) (gapByte : UInt8) :
    UnreadableAgrees platform crates digests (mapRecords crates.safeRead mapData)
      (.load crates.safeRead mapData (parseIdx idxData imageStreamArn)
        (.fill gapByte)) where
  complete := fun _ _ _ reads =>
    LoadedMap.reported_of_readsUnreadable (fun equal => by cases equal) reads
  audited := by
    intro reader loaded findings verified region member
    apply hashUnreadable_mem_of_verifyImageHashes verified
    unfold Aff4Reader.unreadableRegions
    rwa [loaded]
  exact := by
    intro disjoint fits virtualPos virtualSize _ reported
    apply LoadedMap.readsUnreadable_of_reported _ _ reported
    · exact pairwise_disjoint_parseMapEntries disjoint
    · exact fun entry member => fits entry (mem_parseMapEntries.mp member).1
  ordered := fun disjoint _ =>
    LoadedMap.ordered_unreadableRegions (pairwise_disjoint_parseMapEntries disjoint)

end Aff4
