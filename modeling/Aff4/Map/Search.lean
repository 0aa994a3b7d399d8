import Aff4.Map.Lookup

/-!
# What the binary search looks at

A lookup inspects a single record: of those that begin at or before the position
it is the one with the greatest offset, and the last one in the file where
several begin there.  It answers from that record or takes the position for a
gap, whatever other records cover it.
-/

namespace Aff4

open Rust

/-- Of the records that begin at or before a position, the last one with the
greatest offset. -/
def lastBeginning (records : List MapEntry) (position : Nat) :
    Option MapEntry :=
  maxByKey (fun entry => entry.mapOffset.toNat)
    (records.filter fun entry => entry.mapOffset.toNat ≤ position)

section LastBeginning

variable {records : List MapEntry} {position : Nat} {entry : MapEntry}

theorem lastBeginning_eq_some_iff :
    lastBeginning records position = some entry ↔
      entry.mapOffset.toNat ≤ position ∧
      ∃ before after, records = before ++ entry :: after ∧
        (∀ other ∈ before, other.mapOffset.toNat ≤ position →
          other.mapOffset.toNat ≤ entry.mapOffset.toNat) ∧
        ∀ other ∈ after, other.mapOffset.toNat ≤ position →
          other.mapOffset.toNat < entry.mapOffset.toNat := by
  by_cases begins : entry.mapOffset.toNat ≤ position
  · have kept : decide (entry.mapOffset.toNat ≤ position) = true :=
      decide_eq_true begins
    have found := @maxByKey_filter_eq_some_iff _
      (fun other : MapEntry => other.mapOffset.toNat) records entry
      (fun other => decide (other.mapOffset.toNat ≤ position)) kept
    rw [and_iff_right begins, lastBeginning, found]
    simp only [decide_eq_true_eq]
  · refine iff_of_false (fun found => begins ?_) fun found => begins found.1
    obtain ⟨before, after, split, -⟩ := maxByKey_eq_some_iff.mp found
    have member : entry ∈ records.filter
        fun other => other.mapOffset.toNat ≤ position := by
      rw [split]
      exact List.mem_append_right _ (List.mem_cons_self ..)
    simpa using (List.mem_filter.mp member).2

theorem lastBeginning_eq_none_iff :
    lastBeginning records position = none ↔
      ∀ entry ∈ records, position < entry.mapOffset.toNat := by
  have empty_iff {values : List MapEntry} :
      maxByKey (fun entry => entry.mapOffset.toNat) values = none ↔
        values = [] := by
    cases values <;> simp [maxByKey]
  rw [lastBeginning, empty_iff, List.filter_eq_nil_iff]
  simp

/-- What is found begins at or before the position, and nothing begins in
between. -/
theorem greatest_of_lastBeginning
    (found : lastBeginning records position = some entry) :
    entry ∈ records ∧ entry.mapOffset.toNat ≤ position ∧
      ∀ other ∈ records, other.mapOffset.toNat ≤ position →
        other.mapOffset.toNat ≤ entry.mapOffset.toNat := by
  obtain ⟨begins, before, after, rfl, upTo, behind⟩ :=
    lastBeginning_eq_some_iff.mp found
  refine ⟨by simp, begins, fun other member within => ?_⟩
  rcases List.mem_append.mp member with front | rest
  · exact upTo other front within
  · rcases List.mem_cons.mp rest with rfl | back
    · exact le_rfl
    · exact (behind other back within).le

/-- The same record is found wherever the same records begin at or before. -/
theorem lastBeginning_of_same
    (found : lastBeginning records position = some entry) {moved : Nat}
    (begins : entry.mapOffset.toNat ≤ moved)
    (greatest : ∀ other ∈ records, other.mapOffset.toNat ≤ moved →
      other.mapOffset.toNat ≤ entry.mapOffset.toNat) :
    lastBeginning records moved = some entry := by
  obtain ⟨start, before, after, rfl, upTo, behind⟩ :=
    lastBeginning_eq_some_iff.mp found
  refine lastBeginning_eq_some_iff.mpr ⟨begins, before, after, rfl, ?_, ?_⟩
  · exact fun other member => greatest other (by simp [member])
  · intro other member within
    have le := greatest other (by simp [member]) within
    exact behind other member (by omega)

/-- The same record is found as long as none begins. -/
theorem lastBeginning_of_none_between {moved : Nat} (after : position ≤ moved)
    (none_between : ∀ other ∈ records, other.mapOffset.toNat ≤ moved →
      other.mapOffset.toNat ≤ position) :
    lastBeginning records moved = lastBeginning records position := by
  have same : (records.filter fun entry => entry.mapOffset.toNat ≤ moved) =
      records.filter fun entry => entry.mapOffset.toNat ≤ position :=
    List.filter_congr fun other member => by
      rw [decide_eq_decide]
      exact ⟨none_between other member, fun begins => begins.trans after⟩
  rw [lastBeginning, lastBeginning, same]

/-- The record that is found at a position is found where it begins. -/
theorem lastBeginning_start
    (found : lastBeginning records position = some entry) :
    lastBeginning records entry.mapOffset.toNat = some entry :=
  lastBeginning_of_same found le_rfl fun _ _ within => within

end LastBeginning

/-- Where the next record behind a position begins. -/
def nextBeginning (records : List MapEntry) (position : Nat) : Option Nat :=
  ((records.filter fun entry => position < entry.mapOffset.toNat).map
    fun entry => entry.mapOffset.toNat).min?

theorem nextBeginning_eq_some_iff
    {records : List MapEntry} {position start : Nat} :
    nextBeginning records position = some start ↔
      (∃ entry ∈ records, entry.mapOffset.toNat = start ∧ position < start) ∧
        ∀ entry ∈ records, position < entry.mapOffset.toNat →
          start ≤ entry.mapOffset.toNat := by
  simp only [nextBeginning, List.min?_eq_some_iff, List.mem_map, List.mem_filter,
    decide_eq_true_eq, forall_exists_index, and_imp]
  constructor
  · rintro ⟨⟨entry, ⟨member, beyond⟩, rfl⟩, least⟩
    exact ⟨⟨entry, member, rfl, beyond⟩,
      fun other inside after => least _ other inside after rfl⟩
  · rintro ⟨⟨entry, member, rfl, beyond⟩, least⟩
    refine ⟨⟨entry, ⟨member, beyond⟩, rfl⟩, ?_⟩
    rintro _ other inside after rfl
    exact least other inside after

theorem nextBeginning_eq_none_iff
    {records : List MapEntry} {position : Nat} :
    nextBeginning records position = none ↔
      ∀ entry ∈ records, entry.mapOffset.toNat ≤ position := by
  simp [nextBeginning, List.filter_eq_nil_iff]

/-- It does not matter in which order the records are listed. -/
theorem nextBeginning_congr
    {left right : List MapEntry} (same : ∀ entry, entry ∈ left ↔ entry ∈ right)
    (position : Nat) :
    nextBeginning left position = nextBeginning right position := by
  cases found : nextBeginning right position with
  | none =>
      rw [nextBeginning_eq_none_iff] at found ⊢
      exact fun entry member => found entry ((same entry).mp member)
  | some start =>
      rw [nextBeginning_eq_some_iff] at found ⊢
      obtain ⟨⟨entry, member, begins⟩, least⟩ := found
      exact ⟨⟨entry, (same entry).mpr member, begins⟩,
        fun other inside => least other ((same other).mp inside)⟩

/-- Sorting the records of a file, and dropping the empty ones, keeps which of
the others is found. -/
theorem lastBeginning_parseMapEntries
    (safeRead : SafeRead) (data : Bytes) (position : Nat) :
    lastBeginning (parseMapEntries safeRead data) position =
      lastBeginning
        ((mapRecords safeRead data).filter fun entry => 0 < entry.length)
        position :=
  maxByKey_filter_sortByKey _ _

namespace LoadedMap

/-- The record a lookup answers from, if it does not take the position for a
gap. -/
def search
    (platform : Platform) (map : LoadedMap) (virtualPos : UInt64) :
    Outcome ε (Option MapEntry) :=
  match lastBeginning map.entries virtualPos.toNat with
  | none => .ok none
  | some entry => do
      let entryEnd ← addU64 platform entry.mapOffset entry.length
      return if virtualPos < entryEnd then some entry else none

/-- The answer of a lookup from a record. -/
def regionOf
    (platform : Platform) (map : LoadedMap) (entry : MapEntry)
    (virtualPos : UInt64) : Outcome ε ResolvedRegion := do
  let offsetInEntry ← subU64 platform virtualPos entry.mapOffset
  let targetOffset ← addU64 platform entry.targetOffset offsetInEntry
  let bytesInRegion ← subU64 platform entry.length offsetInEntry
  return { kind := map.targetKind entry, targetOffset, bytesInRegion }

/-- The answer of a lookup for a position it takes for a gap. -/
def gapAt (map : LoadedMap) (virtualPos virtualSize : UInt64) : ResolvedRegion :=
  map.resolveGap
    (partitionPoint
      (fun entry : MapEntry => entry.mapOffset.toNat ≤ virtualPos.toNat)
      map.entries)
    virtualPos virtualSize

variable {platform : Platform} {map : LoadedMap}
variable {virtualPos virtualSize : UInt64}

/-- A lookup searches, and then answers from the record or for the gap. -/
theorem resolve_eq (map : LoadedMap) (virtualPos virtualSize : UInt64) :
    (map.resolve platform virtualPos virtualSize : Outcome ε ResolvedRegion) =
      (map.search platform virtualPos >>= fun found =>
        match found with
        | some entry => map.regionOf platform entry virtualPos
        | none => .ok (map.gapAt virtualPos virtualSize)) := by
  simp only [resolve, search, lastBeginning]
  split
  next zero =>
    rw [maxByKey_eq_none_of_partitionPoint_eq_zero map.sorted zero]
    rfl
  next positive =>
    rw [getElem?_partitionPoint_pred_eq_maxByKey map.sorted
      (Nat.pos_of_ne_zero positive)]
    cases found : maxByKey (fun entry : MapEntry => entry.mapOffset.toNat)
        (map.entries.filter fun entry =>
          entry.mapOffset.toNat ≤ virtualPos.toNat) with
    | none =>
        obtain ⟨last, member, -, begins, -⟩ :=
          exists_greatest_of_partitionPoint_pos
            (fun entry : MapEntry => entry.mapOffset.toNat) map.sorted
            (Nat.pos_of_ne_zero positive)
        have beyond := lastBeginning_eq_none_iff.mp found last member
        omega
    | some entry =>
        dsimp only
        cases (addU64 platform entry.mapOffset entry.length :
          Outcome ε UInt64) with
        | ok entryEnd =>
            simp only [Outcome.ok_bind, Outcome.pure_eq]
            split <;> rfl
        | err error => rfl
        | panic reason => rfl

/-- What a search finds, in exact integers.  A sum of offset and length that
overflows panics or wraps to a position before the record. -/
theorem search_of_lastBeginning
    (ε : Type) (platform : Platform) {entry : MapEntry}
    (found : lastBeginning map.entries virtualPos.toNat = some entry) :
    (map.search platform virtualPos : Outcome ε (Option MapEntry)) =
      if 2 ^ 64 ≤ entry.mapOffset.toNat + entry.length.toNat then
        if platform.overflowChecks then .panic .addOverflow else .ok none
      else
        .ok (if entry.Covers virtualPos.toNat then some entry else none) := by
  obtain ⟨-, begins, -⟩ := greatest_of_lastBeginning found
  have startLt := entry.mapOffset.toNat_lt
  have lengthLt := entry.length.toNat_lt
  simp only [search, found]
  by_cases wraps : 2 ^ 64 ≤ entry.mapOffset.toNat + entry.length.toNat
  · rw [if_pos wraps, addU64]
    by_cases checked : platform.overflowChecks = true
    · rw [if_pos ⟨checked, wraps⟩, if_pos checked, Outcome.panic_bind]
    · have behind : ¬virtualPos < entry.mapOffset + entry.length := by
        rw [UInt64.lt_iff_toNat_lt, UInt64.toNat_add]
        omega
      rw [if_neg fun both => checked both.1, if_neg checked, Outcome.ok_bind,
        if_neg behind, Outcome.pure_eq]
  · have fits : entry.mapOffset.toNat + entry.length.toNat < 2 ^ 64 := by omega
    have inside : virtualPos < entry.mapOffset + entry.length ↔
        entry.Covers virtualPos.toNat := by
      rw [UInt64.lt_iff_toNat_lt, toNat_add_of_lt fits, MapEntry.Covers,
        and_iff_right begins]
    rw [if_neg wraps, addU64_of_lt fits, Outcome.ok_bind, Outcome.pure_eq]
    simp only [inside]

/-- A search that returns a record found it to cover the position. -/
theorem search_eq_some_iff {entry : MapEntry} :
    (map.search platform virtualPos : Outcome ε (Option MapEntry)) =
        .ok (some entry) ↔
      lastBeginning map.entries virtualPos.toNat = some entry ∧
        entry.Covers virtualPos.toNat ∧
        entry.mapOffset.toNat + entry.length.toNat < 2 ^ 64 := by
  cases found : lastBeginning map.entries virtualPos.toNat with
  | none => simp [search, found]
  | some last =>
      rw [search_of_lastBeginning ε platform found]
      by_cases wraps : 2 ^ 64 ≤ last.mapOffset.toNat + last.length.toNat
      · rw [if_pos wraps]
        refine iff_of_false (fun returns => ?_) ?_
        · split at returns <;> cases returns
        · rintro ⟨equal, -, fits⟩
          cases equal
          omega
      · rw [if_neg wraps]
        by_cases covers : last.Covers virtualPos.toNat
        · rw [if_pos covers]
          constructor
          · intro equal
            cases equal
            exact ⟨rfl, covers, by omega⟩
          · rintro ⟨equal, -⟩
            cases equal
            rfl
        · rw [if_neg covers]
          refine iff_of_false (fun equal => by cases equal) ?_
          rintro ⟨equal, coversToo, -⟩
          cases equal
          exact covers coversToo

/-- The answer from a record that covers the position. -/
theorem regionOf_of_covers
    (ε : Type) (platform : Platform) (map : LoadedMap) {entry : MapEntry}
    (covers : entry.Covers virtualPos.toNat) :
    (map.regionOf platform entry virtualPos : Outcome ε ResolvedRegion) =
      (addU64 platform entry.targetOffset (virtualPos - entry.mapOffset) >>=
        fun targetOffset =>
          .ok { kind := map.targetKind entry
                targetOffset
                bytesInRegion :=
                  entry.length - (virtualPos - entry.mapOffset) }) := by
  obtain ⟨begins, ends⟩ := covers
  have ordered : entry.mapOffset ≤ virtualPos := UInt64.le_iff_toNat_le.mpr begins
  have offset : (virtualPos - entry.mapOffset).toNat =
      virtualPos.toNat - entry.mapOffset.toNat :=
    UInt64.toNat_sub_of_le _ _ ordered
  have inside : virtualPos - entry.mapOffset ≤ entry.length := by
    rw [UInt64.le_iff_toNat_le, offset]
    omega
  simp only [regionOf, subU64_of_le ordered, subU64_of_le inside, Outcome.ok_bind,
    Outcome.pure_eq]

theorem toNat_offset {entry : MapEntry} (covers : entry.Covers virtualPos.toNat) :
    (virtualPos - entry.mapOffset).toNat =
        virtualPos.toNat - entry.mapOffset.toNat ∧
      (entry.length - (virtualPos - entry.mapOffset)).toNat =
        entry.length.toNat - (virtualPos.toNat - entry.mapOffset.toNat) := by
  obtain ⟨begins, ends⟩ := covers
  have offset : (virtualPos - entry.mapOffset).toNat =
      virtualPos.toNat - entry.mapOffset.toNat :=
    UInt64.toNat_sub_of_le _ _ (UInt64.le_iff_toNat_le.mpr begins)
  refine ⟨offset, ?_⟩
  rw [UInt64.toNat_sub_of_le _ _ (by rw [UInt64.le_iff_toNat_le]; omega), offset]

/-- The answer from a record whose target does not overflow, in exact
integers. -/
theorem regionOf_of_lt
    (ε : Type) (platform : Platform) (map : LoadedMap) {entry : MapEntry}
    (covers : entry.Covers virtualPos.toNat)
    (fits : entry.targetOffset.toNat +
      (virtualPos.toNat - entry.mapOffset.toNat) < 2 ^ 64) :
    ∃ region, (map.regionOf platform entry virtualPos :
        Outcome ε ResolvedRegion) = .ok region ∧
      region.kind = map.targetKind entry ∧
      region.targetOffset.toNat =
        entry.targetOffset.toNat +
          (virtualPos.toNat - entry.mapOffset.toNat) ∧
      region.bytesInRegion.toNat =
        entry.length.toNat - (virtualPos.toNat - entry.mapOffset.toNat) := by
  obtain ⟨offset, rest⟩ := toNat_offset covers
  rw [regionOf_of_covers ε platform map covers, addU64_of_lt (by omega),
    Outcome.ok_bind]
  exact ⟨_, rfl, rfl, by rw [toNat_add_of_lt (by omega), offset], rest⟩

/-- A gap reaches from the position to the next record, or to the end of the
disk. -/
theorem gapAt_eq (map : LoadedMap) (below : virtualPos < virtualSize) :
    (map.gapAt virtualPos virtualSize).kind = map.gapDefault ∧
      (map.gapAt virtualPos virtualSize).targetOffset = 0 ∧
      (map.gapAt virtualPos virtualSize).bytesInRegion.toNat =
        (nextBeginning map.entries virtualPos.toNat).getD virtualSize.toNat -
          virtualPos.toNat ∧
      0 < (map.gapAt virtualPos virtualSize).bytesInRegion.toNat := by
  rw [UInt64.lt_iff_toNat_lt] at below
  refine ⟨rfl, rfl, ?_⟩
  have sizeLt := virtualSize.toNat_lt
  simp only [gapAt, resolveGap]
  cases found : map.entries[partitionPoint
      (fun entry : MapEntry => entry.mapOffset.toNat ≤ virtualPos.toNat)
      map.entries]? with
  | none =>
      have last : nextBeginning map.entries virtualPos.toNat = none :=
        nextBeginning_eq_none_iff.mpr fun entry member =>
          key_le_of_getElem?_partitionPoint_eq_none
            (fun entry : MapEntry => entry.mapOffset.toNat) map.sorted found
            member
      rw [last, Option.map_none, Option.getD_none, Option.getD_none,
        toNat_ofNat_of_lt (by omega)]
      omega
  | some next =>
      obtain ⟨beyond, least⟩ := least_of_getElem?_partitionPoint
        (fun entry : MapEntry => entry.mapOffset.toNat) map.sorted found
      have nextLt := next.mapOffset.toNat_lt
      have begins : nextBeginning map.entries virtualPos.toNat =
          some next.mapOffset.toNat :=
        nextBeginning_eq_some_iff.mpr
          ⟨⟨next, List.mem_of_getElem? found, rfl, beyond⟩, least⟩
      rw [begins, Option.map_some, Option.getD_some, Option.getD_some,
        toNat_ofNat_of_lt (by omega)]
      omega

end LoadedMap
end Aff4
