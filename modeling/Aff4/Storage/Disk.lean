import Mathlib.Data.List.Basic
import Mathlib.Data.List.GetD

/-!
# Flat disks

A read-only disk is nothing but a size and the byte at every position.  This
file says what it means for a read to deliver a part of a disk, and what a
sequence of such reads delivers together.
-/

namespace Storage

/-- A read-only disk.  Only positions below the size are part of it. -/
structure Disk (β : Type) where
  size : Nat
  byteAt : Nat → β

namespace Disk

variable (disk : Disk β)

/-- The bytes of `count` consecutive positions. -/
def extent (start count : Nat) : List β :=
  (List.range' start count).map disk.byteAt

@[simp] theorem length_extent (start count : Nat) :
    (disk.extent start count).length = count := by
  simp [extent]

/-- Two consecutive extents make one. -/
theorem extent_add (start first second : Nat) :
    disk.extent start (first + second) =
      disk.extent start first ++ disk.extent (start + first) second := by
  simp only [extent, ← List.map_append]
  congr 1
  simp

@[simp] theorem getElem_extent (start count index : Nat)
    (inside : index < (disk.extent start count).length) :
    (disk.extent start count)[index] = disk.byteAt (start + index) := by
  simp [extent]

variable {disk}

/-- A byte string is an extent when each of its bytes is the disk's. -/
theorem eq_extent_of_getElem {start : Nat} {bytes : List β}
    (agrees : ∀ index (inside : index < bytes.length),
      bytes[index] = disk.byteAt (start + index)) :
    bytes = disk.extent start bytes.length :=
  List.ext_getElem (by simp) fun index inside _ => by
    rw [getElem_extent, agrees index inside]

/-- The disk that holds a byte string. -/
def ofList [Inhabited β] (content : List β) : Disk β where
  size := content.length
  byteAt := fun position => content.getD position default

@[simp] theorem size_ofList [Inhabited β] (content : List β) :
    (ofList content).size = content.length := rfl

theorem byteAt_ofList [Inhabited β] {content : List β} {position : Nat}
    (inside : position < content.length) :
    (ofList content).byteAt position = content[position] :=
  List.getD_eq_getElem _ _ inside

theorem extent_ofList [Inhabited β] {content : List β} {start count : Nat}
    (inside : start + count ≤ content.length) :
    (ofList content).extent start count = (content.drop start).take count := by
  refine List.ext_getElem (by simp; omega) fun index below _ => ?_
  rw [length_extent] at below
  rw [getElem_extent, byteAt_ofList (by omega), List.getElem_take,
    List.getElem_drop]

/-! ## Reads -/

/-- A read at a position delivers bytes of the disk: at most as many as asked
for, none beyond the end, and at least one unless nothing is asked for or
nothing is left. -/
structure Delivers
    (disk : Disk β) (position asked : Nat) (bytes : List β) : Prop where
  exact : bytes = disk.extent position bytes.length
  fits : bytes.length ≤ asked
  inside : bytes.length ≤ disk.size - position
  progress : 0 < asked → position < disk.size → 0 < bytes.length

/-- A sequence of reads, each of which starts where the one before it ended, and
everything they deliver. -/
inductive Reads (disk : Disk β) : Nat → List Nat → List β → Prop
  | done (position : Nat) : Reads disk position [] []
  | read {position asked : Nat} {bytes : List β} {rest : List Nat}
      {later : List β}
      (delivered : disk.Delivers position asked bytes)
      (continued : Reads disk (position + bytes.length) rest later) :
      Reads disk position (asked :: rest) (bytes ++ later)

/-- Consecutive reads deliver one extent of the disk. -/
theorem Reads.exact {position : Nat} {asked : List Nat} {bytes : List β}
    (reads : disk.Reads position asked bytes) :
    bytes = disk.extent position bytes.length := by
  induction reads with
  | done => rfl
  | read delivered _ inductionHypothesis =>
      rw [List.length_append, extent_add, ← delivered.exact,
        ← inductionHypothesis]

theorem Reads.inside {position : Nat} {asked : List Nat} {bytes : List β}
    (reads : disk.Reads position asked bytes) :
    bytes.length ≤ disk.size - position := by
  induction reads with
  | done => simp
  | read delivered _ inductionHypothesis =>
      have first := delivered.inside
      rw [List.length_append]
      omega

/-- Every nonempty request brings the reads forward, until the end is reached. -/
theorem Reads.progress {position : Nat} {asked : List Nat} {bytes : List β}
    (reads : disk.Reads position asked bytes)
    (nonempty : ∀ request ∈ asked, 0 < request) :
    min asked.length (disk.size - position) ≤ bytes.length := by
  induction reads with
  | done => simp
  | @read position request first _ _ delivered _ inductionHypothesis =>
      obtain ⟨requestPositive, restPositive⟩ := List.forall_mem_cons.mp nonempty
      have later := inductionHypothesis restPositive
      have advances := delivered.progress requestPositive
      rw [List.length_append, List.length_cons]
      omega

/-- Enough nonempty requests read everything up to the end of the disk. -/
theorem Reads.eq_extent_of_length_le
    {position : Nat} {asked : List Nat} {bytes : List β}
    (reads : disk.Reads position asked bytes)
    (nonempty : ∀ request ∈ asked, 0 < request)
    (enough : disk.size - position ≤ asked.length) :
    bytes = disk.extent position (disk.size - position) := by
  have progress := reads.progress nonempty
  have inside := reads.inside
  have complete : bytes.length = disk.size - position := by omega
  rw [← complete]
  exact reads.exact

end Disk
end Storage
