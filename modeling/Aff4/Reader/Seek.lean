import Aff4.Reader.Open
import Aff4.Reader.Serve
import Aff4.Vfs

/-!
# Seeking past the signed range

A seek computes its position in signed 64-bit integers.  This file says exactly
which seeks are exact, and which positions of a disk can be reached.
-/

namespace Aff4

open Rust

namespace Aff4Reader

variable {platform : Platform} {crates : Crates} {reader : Aff4Reader}

/-- The unsigned position a seek starts from, which it casts to a signed one. -/
def seekBase (self : Aff4Reader) : SeekFrom → UInt64
  | .start n => n
  | .fromEnd _ => self.virtualSize
  | .current _ => self.pos

/-- The position a seek asks for, as an integer. -/
def exactTarget (self : Aff4Reader) : SeekFrom → Int
  | .start n => n.toNat
  | .fromEnd n => self.virtualSize.toNat + n.toInt
  | .current n => self.pos.toNat + n.toInt

/-- A seek to a position that is a `u64` goes there, any other one is refused and
moves nothing, and neither the cast nor the sum on the way wraps or
overflows. -/
structure SeeksExactly
    (platform : Platform) (reader : Aff4Reader) (position : SeekFrom) :
    Prop where
  moves : 0 ≤ reader.exactTarget position →
    reader.exactTarget position < 2 ^ 64 →
    ∃ moved : UInt64, (moved.toNat : Int) = reader.exactTarget position ∧
      reader.seek platform position = (.ok moved, { reader with pos := moved })
  refuses : reader.exactTarget position < 0 ∨
      2 ^ 64 ≤ reader.exactTarget position →
    ∃ error : IoError, error.kind = .invalidInput ∧
      reader.seek platform position = (.err error, reader)
  cast : (reader.seekBase position).toInt64.toInt =
    (reader.seekBase position).toNat
  sum : ∃ newPos, reader.seekTarget platform position = .ok newPos ∧
    newPos.toInt = reader.exactTarget position

/-- The position a seek between small positions computes is exact in every
build. -/
theorem seekTarget_of_lt (platform : Platform) {position : SeekFrom}
    (base : (reader.seekBase position).toNat < 2 ^ 63)
    (target : reader.exactTarget position < 2 ^ 63) :
    ∃ newPos, reader.seekTarget platform position = .ok newPos ∧
      newPos.toInt = reader.exactTarget position := by
  cases position with
  | start n => exact ⟨_, rfl, toInt_toInt64_of_lt base⟩
  | fromEnd n =>
      have cast := toInt_toInt64_of_lt base
      simp only [seekBase, exactTarget] at cast target
      exact addI64_of_exact cast target
  | current n =>
      have cast := toInt_toInt64_of_lt base
      simp only [seekBase, exactTarget] at cast target
      exact addI64_of_exact cast target

/-- What a seek does with the position it computed. -/
theorem seek_of_seekTarget {position : SeekFrom} {newPos : Int64}
    (computed : reader.seekTarget platform position = .ok newPos) :
    reader.seek platform position =
      if newPos.toInt < 0 then
        (.err { kind := .invalidInput, message := "seek before start of stream" },
          reader)
      else (.ok newPos.toUInt64, { reader with pos := newPos.toUInt64 }) := by
  have negative : newPos < 0 ↔ newPos.toInt < 0 := by
    rw [Int64.lt_iff_toInt_lt, Int64.toInt_zero]
  simp only [seek, computed, negative]

/-- A seek is exact if and only if the position it starts from and the one it
asks for are below `2 ^ 63`. -/
theorem seeksExactly_iff (platform : Platform) (reader : Aff4Reader)
    (position : SeekFrom) :
    reader.SeeksExactly platform position ↔
      (reader.seekBase position).toNat < 2 ^ 63 ∧
        reader.exactTarget position < 2 ^ 63 := by
  constructor
  · intro exactly
    obtain ⟨newPos, -, equal⟩ := exactly.sum
    have castLt := Int64.toInt_lt (reader.seekBase position).toInt64
    have newPosLt := newPos.toInt_lt
    rw [exactly.cast] at castLt
    exact ⟨by omega, by omega⟩
  · rintro ⟨base, target⟩
    obtain ⟨newPos, computed, equal⟩ := seekTarget_of_lt platform base target
    have sought := seek_of_seekTarget computed
    rw [equal] at sought
    refine ⟨fun nonneg _ => ?_, fun outside => ?_, toInt_toInt64_of_lt base,
      newPos, computed, equal⟩
    · rw [if_neg (by omega)] at sought
      refine ⟨newPos.toUInt64, ?_, sought⟩
      rw [← equal] at nonneg ⊢
      exact toNat_toUInt64_of_nonneg nonneg
    · rw [if_pos (by omega)] at sought
      exact ⟨_, rfl, sought⟩

/-- A position can be sought if and only if it is below `2 ^ 63`. -/
theorem exists_seek_iff (platform : Platform) (reader : Aff4Reader)
    (moved : UInt64) :
    (∃ position, reader.seek platform position =
        (.ok moved, { reader with pos := moved })) ↔
      moved.toNat < 2 ^ 63 := by
  constructor
  · rintro ⟨position, sought⟩
    cases computed : reader.seekTarget platform position with
    | ok newPos =>
        rw [seek_of_seekTarget computed] at sought
        split at sought
        · cases sought
        next nonneg =>
          cases sought
          have exact := toNat_toUInt64_of_nonneg (Int.not_lt.mp nonneg)
          have small := newPos.toInt_lt
          omega
    | err error =>
        simp only [seek, computed] at sought
        cases sought
    | panic reason =>
        simp only [seek, computed] at sought
        cases sought
  · intro small
    exact ⟨.start moved, by rw [seek_start, if_pos small]⟩

end Aff4Reader

namespace Aff4Source

variable {platform : Platform} {crates : Crates}

/-- An error met while a buffer is filled is one of a read. -/
theorem op_of_fill {want passes total : Nat} {reader : Aff4Reader} {buf : Bytes}
    {error : VfsError}
    (fails : (fill platform crates want passes reader buf total).result =
      .err error) :
    error.op = "aff4::read" := by
  induction passes generalizing reader buf total with
  | zero => cases fails
  | succ passes inductionHypothesis =>
      rw [fill] at fails
      split at fails
      · cases fails
      split at fails
      · cases fails
      dsimp only at fails
      split at fails
      · cases fails
      · exact inductionHypothesis fails
      · cases fails
        rfl
      · cases fails

/-- A positioned read is refused by its seek. -/
def ReadAtCall.SeekRefused (call : ReadAtCall) : Prop :=
  ∃ source, call.result = .err { op := "aff4::seek", source }

/-- A positioned read below the end of the disk gets to its position if and only
if that is below `2 ^ 63`. -/
theorem not_seekRefused_iff
    (platform : Platform) (crates : Crates) (source : Aff4Source)
    {offset : UInt64} (below : offset < source.len) (buf : Bytes) :
    ¬(source.readAt platform crates offset buf).SeekRefused ↔
      offset.toNat < 2 ^ 63 := by
  have available : source.len.toNat - offset.toNat ≠ 0 := by
    rw [UInt64.lt_iff_toNat_lt] at below
    omega
  by_cases small : offset.toNat < 2 ^ 63
  · refine iff_of_true ?_ small
    rintro ⟨error, refused⟩
    simp only [readAt, if_neg available, Aff4Reader.seek_start, if_pos small]
      at refused
    have op : "aff4::seek" = "aff4::read" := op_of_fill refused
    exact absurd op (by decide)
  · refine iff_of_false (not_not.mpr ?_) small
    simp only [ReadAtCall.SeekRefused, readAt, if_neg available, Aff4Reader.seek_start,
      if_neg small]
    exact ⟨_, rfl⟩

end Aff4Source

namespace Aff4Reader

/-- Wherever the cursor is, a seek is exact if and only if it starts from and asks
for a position below `2 ^ 63`, and these are the positions of a disk that seeks
and positioned reads get to. -/
theorem seek_exact_iff
    (platform : Platform) (crates : Crates) (reader : Aff4Reader) :
    (∀ position, reader.SeeksExactly platform position ↔
      (reader.seekBase position).toNat < 2 ^ 63 ∧
        reader.exactTarget position < 2 ^ 63) ∧
    (∀ moved : UInt64,
      (∃ position, reader.seek platform position =
        (.ok moved, { reader with pos := moved })) ↔
          moved.toNat < 2 ^ 63) ∧
    ∀ offset buf, offset < reader.virtualSize →
      (¬((Aff4Source.new reader).readAt platform crates offset buf).SeekRefused ↔
        offset.toNat < 2 ^ 63) :=
  ⟨seeksExactly_iff platform reader, exists_seek_iff platform reader,
    fun _ buf below =>
      Aff4Source.not_seekRefused_iff platform crates (.new reader) below buf⟩

/-! A seek to `2 ^ 63`, which is a `u64`, is refused. -/

def seekSample : MapContainer
    (.opening (Small.archive [] [] []
      (Small.entries_short (by decide) (by decide) (by decide)))) [] :=
  Small.container _ _ _ _

theorem not_seeksExactly_seekSample :
    openReader (.opening seekSample.archive) [] = .ok seekSample.reader ∧
      ¬seekSample.reader.SeeksExactly .debug64
        (.start (UInt64.ofNat (2 ^ 63))) := by
  refine ⟨seekSample.openReader_eq, fun exactly => ?_⟩
  obtain ⟨moved, -, sought⟩ := exactly.moves (by decide) (by decide)
  rw [seek_start, if_neg (by decide)] at sought
  cases sought

end Aff4Reader
end Aff4
