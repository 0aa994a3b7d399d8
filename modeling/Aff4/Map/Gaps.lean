import Aff4.Map.Search

/-!
# What is read as a gap

A position should be read as a gap only if no record covers it.  A lookup asks
this of one record, so it goes wrong where that record has ended, or seems to
have ended since its end overflows, while another one covers the position.
-/

namespace Aff4

open Rust

namespace MapEntry

/-- A record that covers a position is not empty. -/
theorem Covers.nonempty {entry : MapEntry} {position : Nat}
    (covers : entry.Covers position) : 0 < entry.length := by
  have begins := covers.1
  have ends := covers.2
  rw [UInt64.lt_iff_toNat_lt, UInt64.toNat_zero]
  omega

end MapEntry

/-- A position is covered by a record of the file exactly when it is covered by
one of the parsed map. -/
theorem exists_covers_parseMapEntries
    {safeRead : SafeRead} {data : Bytes} {position : Nat} :
    (∃ entry ∈ parseMapEntries safeRead data, entry.Covers position) ↔
      ∃ entry ∈ mapRecords safeRead data, entry.Covers position := by
  constructor
  · rintro ⟨entry, member, covers⟩
    exact ⟨entry, (mem_parseMapEntries.mp member).1, covers⟩
  · rintro ⟨entry, member, covers⟩
    exact ⟨entry, mem_parseMapEntries.mpr ⟨member, covers.nonempty⟩, covers⟩

namespace LoadedMap

/-- A lookup takes a position for a gap. -/
def FallsBack (platform : Platform) (map : LoadedMap) (virtualPos : UInt64) :
    Prop :=
  (map.search platform virtualPos : Outcome IoError (Option MapEntry)) = .ok none

/-- The record that a lookup looks at covers the position, and its end does not
wrap. -/
def AnswersFor
    (platform : Platform) (records : List MapEntry) (position : Nat) : Prop :=
  ∃ last, lastBeginning records position = some last ∧ last.Covers position ∧
    (platform.overflowChecks = true ∨
      last.mapOffset.toNat + last.length.toNat < 2 ^ 64)

variable {platform : Platform} {map : LoadedMap} {virtualPos : UInt64}

/-- What a lookup takes for a gap is read as one. -/
theorem resolve_of_fallsBack
    (fallsBack : map.FallsBack platform virtualPos) (virtualSize : UInt64) :
    (map.resolve platform virtualPos virtualSize :
      Outcome IoError ResolvedRegion) =
        .ok (map.gapAt virtualPos virtualSize) := by
  rw [resolve_eq, fallsBack, Outcome.ok_bind]

/-- What is resolved lies in a gap or in the record that is looked at. -/
theorem resolve_cases {virtualSize : UInt64} {region : ResolvedRegion}
    (resolved : (map.resolve platform virtualPos virtualSize :
      Outcome IoError ResolvedRegion) = .ok region) :
    (map.FallsBack platform virtualPos ∧
        region = map.gapAt virtualPos virtualSize) ∨
      ∃ entry, lastBeginning map.entries virtualPos.toNat = some entry ∧
        entry.Covers virtualPos.toNat ∧
        entry.mapOffset.toNat + entry.length.toNat < 2 ^ 64 ∧
        ¬map.FallsBack platform virtualPos ∧
        (map.regionOf platform entry virtualPos :
          Outcome IoError ResolvedRegion) = .ok region := by
  rw [resolve_eq] at resolved
  obtain ⟨found, searched, answered⟩ := Outcome.bind_eq_ok.mp resolved
  cases found with
  | none =>
      cases answered
      exact .inl ⟨searched, rfl⟩
  | some entry =>
      obtain ⟨last, covers, fits⟩ := search_eq_some_iff.mp searched
      refine .inr ⟨entry, last, covers, fits, fun fallsBack => ?_, answered⟩
      rw [FallsBack, searched] at fallsBack
      cases fallsBack

/-- A position is taken for a gap exactly when no record covers it, unless a
record that covers it is hidden. -/
theorem fallsBack_iff_uncovered :
    (map.FallsBack platform virtualPos ↔
        ¬∃ entry ∈ map.entries, entry.Covers virtualPos.toNat) ↔
      ((∃ entry ∈ map.entries, entry.Covers virtualPos.toNat) →
        AnswersFor platform map.entries virtualPos.toNat) := by
  cases found : lastBeginning map.entries virtualPos.toNat with
  | none =>
      have uncovered : ¬∃ entry ∈ map.entries,
          entry.Covers virtualPos.toNat := by
        rintro ⟨entry, member, begins, -⟩
        have beyond := lastBeginning_eq_none_iff.mp found entry member
        omega
      have fallsBack : map.FallsBack platform virtualPos := by
        simp only [FallsBack, search, found]
      exact iff_of_true (iff_of_true fallsBack uncovered)
        fun covered => absurd covered uncovered
  | some last =>
      obtain ⟨member, begins, -⟩ := greatest_of_lastBeginning found
      have answers_iff : AnswersFor platform map.entries virtualPos.toNat ↔
          last.Covers virtualPos.toNat ∧
            (platform.overflowChecks = true ∨
              last.mapOffset.toNat + last.length.toNat < 2 ^ 64) := by
        simp only [AnswersFor, found, Option.some.injEq, exists_eq_left']
      have positionLt := virtualPos.toNat_lt
      rw [answers_iff, FallsBack,
        search_of_lastBeginning IoError platform found]
      by_cases wraps : 2 ^ 64 ≤ last.mapOffset.toNat + last.length.toNat
      · have covers : last.Covers virtualPos.toNat := ⟨begins, by omega⟩
        have covered : ∃ entry ∈ map.entries, entry.Covers virtualPos.toNat :=
          ⟨last, member, covers⟩
        rw [if_pos wraps]
        cases checked : platform.overflowChecks with
        | true =>
            refine iff_of_true (iff_of_false ?_ (not_not.mpr covered)) ?_
            · exact fun impossible => by cases impossible
            · exact fun _ => ⟨covers, .inl rfl⟩
        | false =>
            refine iff_of_false (fun agree => agree.mp rfl covered) ?_
            intro answers
            rcases (answers covered).2 with impossible | fits
            · cases impossible
            · omega
      · rw [if_neg wraps]
        by_cases covers : last.Covers virtualPos.toNat
        · have covered : ∃ entry ∈ map.entries, entry.Covers virtualPos.toNat :=
            ⟨last, member, covers⟩
          rw [if_pos covers]
          refine iff_of_true (iff_of_false ?_ (not_not.mpr covered)) ?_
          · exact fun impossible => by cases impossible
          · exact fun _ => ⟨covers, .inr (Nat.lt_of_not_le wraps)⟩
        · rw [if_neg covers]
          simp [covers]

/-- In a parsed map a position is taken for a gap exactly when no record of the
file covers it, unless the record with the greatest offset up to the position
does not cover it, or wraps, while another one covers it. -/
theorem fallsBack_iff
    (platform : Platform) (safeRead : SafeRead) (data : Bytes)
    (targets : List TargetKind) (gapDefault : TargetKind)
    (virtualPos : UInt64) :
    ((load safeRead data targets gapDefault).FallsBack platform virtualPos ↔
        ¬∃ entry ∈ mapRecords safeRead data, entry.Covers virtualPos.toNat) ↔
      ((∃ entry ∈ mapRecords safeRead data, entry.Covers virtualPos.toNat) →
        AnswersFor platform
          ((mapRecords safeRead data).filter fun entry => 0 < entry.length)
          virtualPos.toNat) := by
  have parsed := @fallsBack_iff_uncovered platform
    (load safeRead data targets gapDefault) virtualPos
  rw [AnswersFor, ← lastBeginning_parseMapEntries, ← exists_covers_parseMapEntries]
  exact parsed

end LoadedMap

/-! A record inside a longer one: behind the inner record the outer one is
forgotten. -/

namespace NestedRecords

def data : Bytes :=
  [0, 0, 0, 0, 0, 0, 0, 0, 6, 0, 0, 0, 0, 0, 0, 0,
    0, 0, 0, 0, 0, 0, 0, 0, 0, 0, 0, 0,
    1, 0, 0, 0, 0, 0, 0, 0, 1, 0, 0, 0, 0, 0, 0, 0,
    0, 0, 0, 0, 0, 0, 0, 0, 0, 0, 0, 0]

def map : LoadedMap := .load .zeroOutside data [.imageStream] (.fill 0)

theorem not_fallsBack_iff_uncovered :
    ¬(map.FallsBack .debug64 3 ↔
      ¬∃ entry ∈ mapRecords .zeroOutside data,
        entry.Covers (3 : UInt64).toNat) := by
  have fallsBack : map.FallsBack .debug64 3 := by
    unfold LoadedMap.FallsBack
    decide +kernel
  have covered : ∃ entry ∈ mapRecords .zeroOutside data,
      entry.Covers (3 : UInt64).toNat := by
    decide +kernel
  exact fun agree => agree.mp fallsBack covered

end NestedRecords
end Aff4
