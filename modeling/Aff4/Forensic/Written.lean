import Aff4.Forensic.Findings
import Aff4.Forensic.Unreadable
import Aff4.Reader.Written

/-!
# Audits of written images

What an audit tells about an image that a conforming writer left is what the writer
knows: where the acquisition could not read, and which of the declared digests are
not those of the content.
-/

namespace Aff4

open Rust Rust.Str

/-- A position of the written disk that the acquisition could not read. -/
def WrittenMap.Unreadable
    {archive : ZipArchive} {stream : StreamDescription} {content : Bytes}
    {map : Option MapDescription} (written : WrittenMap archive stream content map)
    (position : Nat) : Prop :=
  match written with
  | .direct => False
  | .mapped files =>
      ∃ entry ∈ files.records, entry.Covers position ∧
        files.kindOf entry = .tile .unreadable

/-- Regions in offset order that do not overlap and cover the positions with a
property, and no others. -/
structure RegionsOf (property : Nat → Prop) (regions : List (UInt64 × UInt64)) : Prop where
  ordered : regions.Pairwise fun left right =>
    left.1.toNat + left.2.toNat ≤ right.1.toNat
  nonempty : ∀ region ∈ regions, 0 < region.2.toNat
  exact : ∀ position, property position ↔
    ∃ region ∈ regions,
      region.1.toNat ≤ position ∧ position < region.1.toNat + region.2.toNat

/-- There are no regions where no position has the property. -/
theorem RegionsOf.eq_nil_iff {property : Nat → Prop} {regions : List (UInt64 × UInt64)}
    (regionsOf : RegionsOf property regions) :
    regions = [] ↔ ∀ position, ¬property position := by
  constructor
  · rintro rfl position holds
    obtain ⟨region, impossible, -⟩ := (regionsOf.exact position).mp holds
    cases impossible
  · intro none
    rw [List.eq_nil_iff_forall_not_mem]
    intro region member
    have positive := regionsOf.nonempty region member
    exact none region.1.toNat
      ((regionsOf.exact _).mpr ⟨region, member, le_rfl, by omega⟩)

namespace WrittenImage

variable {platform : Platform} {crates : Crates} {backing : Bytes}
variable {image : ImageDescription} {content : Bytes}

section Mapped

variable {stream : StreamDescription} {map : MapDescription}

/-- The regions of a written map are where the acquisition could not read. -/
theorem regionsOf_mapped
    (written : WrittenVolume crates backing ⟨stream, some map⟩ content)
    (files : MapFiles written.archive stream map content) :
    RegionsOf (WrittenMap.mapped files).Unreadable
      (mapContainer written files).loadedMap.unreadableRegions where
  ordered := by
    apply LoadedMap.ordered_unreadableRegions
    exact pairwise_disjoint_parseMapEntries (placed_mapContainer written files).disjoint
  nonempty := by
    intro region member
    obtain ⟨entry, kept, rfl⟩ := List.mem_map.mp member
    exact UInt64.lt_iff_toNat_lt.mp
      (LoadedMap.nonempty _ entry (List.mem_of_mem_filter kept))
  exact := by
    intro position
    have noBlankLines := (placed_mapContainer written files).noBlankLines
    have reported := @LoadedMap.reported_iff (mapContainer written files).loadedMap position
    refine Iff.trans (exists_congr fun entry => ?_) reported.symm
    rw [MapContainer.mem_entries, MapContainer.targetKind_loadedMap noBlankLines,
      recordKind_mapContainer, records_mapContainer, and_assoc]
    refine and_congr_right fun _ => (and_iff_right_of_imp fun here => ?_).symm
    exact MapContainer.length_pos_of_covers here.1

end Mapped

/-- What an audit of a written image returns. -/
theorem exists_auditImage_eq
    (digests : DigestCrates) (toFinding : Aff4Anomaly → φ) (wide : platform.Is64Bit)
    (written : WrittenImage crates backing image content) :
    ∃ regions, RegionsOf written.map.Unreadable regions ∧
      auditImage platform crates digests toFinding backing =
        .ok ((findings digests regions (image.stream.hashes.map DeclaredHash.hash)
          content).map toFinding) := by
  have audited {reader : Aff4Reader} {disk : Storage.Disk UInt8}
      (opened : openReader crates backing = .ok reader)
      (presents : reader.Presents platform crates content disk)
      (size : reader.imageStreamSize.toNat = content.length) :
      auditImage platform crates digests toFinding backing =
        .ok ((findings digests reader.unreadableRegions reader.imageHashes
          content).map toFinding) := by
    obtain ⟨returns, fed⟩ := presents.holds.readImageStreamContent size wide
    rw [← fed]
    exact auditImage_of_verified toFinding opened
      (verifyImageHashes_of_content (.of_openReader opened) returns)
  obtain ⟨stream, map⟩ := image
  obtain ⟨volume, writtenMap⟩ := written
  cases writtenMap with
  | direct =>
      let container : DirectContainer crates backing := ⟨volume.container, rfl⟩
      refine ⟨[], ⟨.nil, List.forall_mem_nil _, fun position => ?_⟩, ?_⟩
      · exact iff_of_false id (by rintro ⟨region, impossible, -⟩; cases impossible)
      · exact audited container.openReader_eq
          ((volume.holdsStream wide none).presents rfl volume.stream.size)
          volume.stream.size
  | mapped files =>
      have presents := (placed_mapContainer volume files).presents
        (volume.holdsStream wide (some (mapContainer volume files).loadedMap))
      exact ⟨_, regionsOf_mapped volume files,
        audited (mapContainer volume files).openReader_eq presents volume.stream.size⟩

/-- An audit of a written image reports the regions that the acquisition could not
read, in order and without overlap, and then the declared digests that the content
does not have.  It is clean exactly when there are none of either. -/
theorem audit_reports_exactly
    (digests : DigestCrates) (toFinding : Aff4Anomaly → φ) (wide : platform.Is64Bit)
    (written : WrittenImage crates backing image content) :
    (∃ regions, RegionsOf written.map.Unreadable regions ∧
      auditImage platform crates digests toFinding backing =
        .ok ((findings digests regions (image.stream.hashes.map DeclaredHash.hash)
          content).map toFinding)) ∧
    (auditImage platform crates digests toFinding backing = .ok [] ↔
      (∀ position, ¬written.map.Unreadable position) ∧
      ∀ declared ∈ image.stream.hashes, ∀ algorithm,
        Algorithm.named declared.hash.algorithm = some algorithm →
        declared.hash.hex = hexText ((digests algorithm).digest content)) := by
  obtain ⟨regions, regionsOf, audited⟩ :=
    written.exists_auditImage_eq digests toFinding wide
  refine ⟨⟨regions, regionsOf, audited⟩, ?_⟩
  have digest (declared : DeclaredHash) :
      digestFinding digests content declared.hash = none ↔
        ∀ algorithm, Algorithm.named declared.hash.algorithm = some algorithm →
          declared.hash.hex = hexText ((digests algorithm).digest content) := by
    unfold digestFinding
    cases Algorithm.named declared.hash.algorithm with
    | none => simp
    | some algorithm => simp [declared.declarable.lowercase]
  rw [audited, Outcome.ok.injEq, List.map_eq_nil_iff, findings, List.append_eq_nil_iff,
    List.map_eq_nil_iff, regionsOf.eq_nil_iff, List.filterMap_eq_nil_iff,
    List.forall_mem_map]
  exact and_congr_right fun _ => forall₂_congr fun declared _ => digest declared

end WrittenImage

/-! The sample image declares an MD5 that is not that of its content, and its map has
a byte that could not be read. -/

namespace WrittenSample

def digests : DigestCrates :=
  .ofContent content [(.md5, [0x52, 0x85, 0x99, 0x78, 0xfb, 0x4c, 0xdd, 0xed, 0x54, 0x33,
    0xbe, 0xf4, 0x8c, 0xbd, 0xe8, 0x8b])]

theorem unreadable_seven : written.map.Unreadable 7 :=
  ⟨⟨7, 1, 1048575, 2⟩, by decide, by decide, rfl⟩

theorem audit_reports_exactly_sample :
    (∃ regions, RegionsOf written.map.Unreadable regions ∧ regions ≠ [] ∧
      auditImage .debug64 (.opening archive) digests id [] =
        .ok (regions.map (fun region => .hashUnreadable region.1 region.2) ++
          [.hashMismatch "MD5".toList "0a1b".toList
            "52859978fb4cdded5433bef48cbde88b".toList])) ∧
    auditImage .debug64 (.opening archive) digests id [] ≠ .ok [] := by
  obtain ⟨⟨regions, regionsOf, audited⟩, clean⟩ :=
    written.audit_reports_exactly digests id Platform.is64Bit_debug64
  have mismatch : [ImageSample.hash.hash].filterMap (digestFinding digests content) =
      [.hashMismatch "MD5".toList "0a1b".toList
        "52859978fb4cdded5433bef48cbde88b".toList] := by
    decide +kernel
  refine ⟨⟨regions, regionsOf, ?_, ?_⟩, ?_⟩
  · rw [Ne, regionsOf.eq_nil_iff]
    exact fun none => none 7 unreadable_seven
  · rw [audited, List.map_id, findings]
    exact congrArg (Outcome.ok <| _ ++ ·) mismatch
  · rw [Ne, clean]
    exact fun none => none.1 7 unreadable_seven

end WrittenSample
end Aff4
