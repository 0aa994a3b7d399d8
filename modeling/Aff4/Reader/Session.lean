import Aff4.Reader.Serve
import Aff4.Storage.Machine

/-!
# Sessions of reads and seeks

A caller may interleave reads and seeks in any way.  A session of a reader that
presents a disk reads the disk, whatever was called before.
-/

namespace Aff4

open Rust Storage

/-- A call of a reader. -/
inductive Operation
  | read (buf : Bytes)
  | seek (position : Aff4Reader.SeekFrom)

/-- What a call returns, and what it leaves in the buffer. -/
inductive Response
  | read (result : Outcome IoError Nat) (buf : Bytes)
  | seek (result : Outcome IoError UInt64)

namespace Aff4Reader

/-- One call of a reader. -/
def perform (platform : Platform) (crates : Crates) (self : Aff4Reader) :
    Operation → Response × Aff4Reader
  | .read buf =>
      let call := self.read platform crates buf
      (.read call.result call.buf, call.reader)
  | .seek position =>
      let (result, reader) := self.seek platform position
      (.seek result, reader)

/-- The position of a disk that a seek asks for, from a cursor. -/
def SeekFrom.onDisk (disk : Disk UInt8) (pos : UInt64) : SeekFrom → Int
  | .start n => n.toNat
  | .fromEnd n => disk.size + n.toInt
  | .current n => pos.toNat + n.toInt

/-- A call obeys a disk.  A read into a nonempty buffer delivers at least one
byte of the disk from the cursor on and moves the cursor behind what it
delivered, or finds the cursor at or past the end and does nothing; a seek moves
the cursor to the position it asks for, as a `u64`, or fails and moves nothing. -/
def Obeys (disk : Disk UInt8) (event : Event Aff4Reader Operation Response) :
    Prop :=
  match event.input, event.output with
  | .read buf, .read result after =>
      buf ≠ [] →
        if event.before.pos.toNat < disk.size then
          ∃ bytes, disk.Delivers event.before.pos.toNat buf.length bytes ∧
            1 ≤ bytes.length ∧
            result = .ok bytes.length ∧
            after = bytes ++ buf.drop bytes.length ∧
            event.after.pos.toNat = event.before.pos.toNat + bytes.length
        else
          result = .ok 0 ∧ after = buf ∧ event.after = event.before
  | .seek position, .seek (.ok moved) =>
      (moved.toNat : Int) = position.onDisk disk event.before.pos % 2 ^ 64 ∧
        event.after = { event.before with pos := moved }
  | .seek _, .seek _ => event.after = event.before
  | _, _ => False

variable {platform : Platform} {crates : Crates} {reader : Aff4Reader}
variable {content : Bytes} {disk : Disk UInt8}

/-- A seek moves the cursor and nothing else. -/
theorem seek_cases
    (platform : Platform) (reader : Aff4Reader) (position : SeekFrom) :
    (∃ moved, reader.seek platform position =
      (.ok moved, { reader with pos := moved })) ∨
    (∃ failure, reader.seek platform position = (failure, reader) ∧
      ∀ moved, failure ≠ .ok moved) := by
  unfold seek
  cases reader.seekTarget platform position with
  | ok newPos =>
      by_cases negative : newPos < 0
      · exact .inr ⟨_, if_pos negative, by simp⟩
      · exact .inl ⟨_, if_neg negative⟩
  | err error => exact .inr ⟨_, rfl, by simp⟩
  | panic reason => exact .inr ⟨_, rfl, by simp⟩

/-- A seek that moves the cursor goes where it was asked to. -/
theorem toNat_of_seek_eq_ok
    {position : SeekFrom} {moved : UInt64} {after : Aff4Reader}
    (size : reader.virtualSize.toNat = disk.size)
    (sought : reader.seek platform position = (.ok moved, after)) :
    (moved.toNat : Int) = position.onDisk disk reader.pos % 2 ^ 64 := by
  unfold seek at sought
  cases computed : reader.seekTarget platform position with
  | ok newPos =>
      rw [computed] at sought
      dsimp only at sought
      split at sought
      · cases sought
      next notNegative =>
        cases sought
        have nonneg : 0 ≤ newPos.toInt := by
          rwa [Int64.lt_iff_toInt_lt, Int64.toInt_zero, Int.not_lt] at notNegative
        have small := newPos.toInt_lt
        have exact : newPos.toInt % 2 ^ 64 =
            position.onDisk disk reader.pos % 2 ^ 64 := by
          cases position with
          | start n =>
              cases computed
              have cast := toInt_toInt64 n
              rw [SeekFrom.onDisk, cast]
              split <;> omega
          | fromEnd n =>
              rw [SeekFrom.onDisk, ← size]
              exact toInt_emod_of_addI64_eq_ok computed
          | current n => exact toInt_emod_of_addI64_eq_ok computed
        rw [toNat_toUInt64_of_nonneg nonneg, ← exact]
        exact (Int.emod_eq_of_lt nonneg (by omega)).symm
  | err error =>
      rw [computed] at sought
      cases sought
  | panic reason =>
      rw [computed] at sought
      cases sought

/-- A read moves the cursor and nothing else. -/
theorem read_reader
    (platform : Platform) (crates : Crates) (reader : Aff4Reader) (buf : Bytes) :
    ∃ pos, (reader.read platform crates buf).reader = { reader with pos } := by
  unfold read
  split
  · exact ⟨reader.pos, rfl⟩
  · split
    · exact ⟨_, rfl⟩
    · exact ⟨reader.pos, rfl⟩
    · exact ⟨reader.pos, rfl⟩

/-- No call changes anything of a reader but its cursor. -/
theorem perform_reader
    (platform : Platform) (crates : Crates) (reader : Aff4Reader)
    (operation : Operation) :
    ∃ pos, (reader.perform platform crates operation).2 = { reader with pos } := by
  cases operation with
  | read buf => exact read_reader platform crates reader buf
  | seek position =>
      rcases seek_cases platform reader position with
        ⟨pos, sought⟩ | ⟨failure, sought, -⟩
      · exact ⟨pos, by simp only [Aff4Reader.perform, sought]⟩
      · exact ⟨reader.pos, by simp only [Aff4Reader.perform, sought]⟩

/-- What holds wherever the cursor is holds before every call of every
session. -/
theorem forall_before_session
    (platform : Platform) (crates : Crates) {reader : Aff4Reader}
    {property : Aff4Reader → Prop}
    (anywhere : ∀ pos, property { reader with pos })
    (operations : List Operation) :
    ∀ event ∈ run (Aff4Reader.perform platform crates) reader operations,
      property event.before := by
  apply forall_mem_run _ (fun state => ∃ pos, state = { reader with pos })
    (fun event => property event.before)
  · rintro _ operation ⟨pos, rfl⟩
    obtain ⟨moved, same⟩ :=
      perform_reader platform crates { reader with pos } operation
    exact ⟨moved, same⟩
  · rintro _ operation ⟨pos, rfl⟩
    exact anywhere pos
  · exact ⟨reader.pos, rfl⟩

/-- No call changes what a reader presents. -/
theorem Presents.perform
    (presents : reader.Presents platform crates content disk)
    (operation : Operation) :
    (reader.perform platform crates operation).2.Presents
      platform crates content disk := by
  obtain ⟨pos, moved⟩ := perform_reader platform crates reader operation
  rw [moved]
  exact presents.withPos pos

/-- Every call of a reader that presents a disk obeys it. -/
theorem Presents.obeys
    (presents : reader.Presents platform crates content disk)
    (wide : platform.Is64Bit) (operation : Operation) :
    Obeys disk
      { before := reader
        input := operation
        output := (reader.perform platform crates operation).1
        after := (reader.perform platform crates operation).2 } := by
  cases operation with
  | read buf =>
      intro asked
      split
      next below =>
        obtain ⟨bytes, delivered, nonempty, moved, call⟩ :=
          presents.read wide asked below
        exact ⟨bytes, delivered, nonempty, by rw [call], by rw [call],
          by rw [Aff4Reader.perform, call]; exact moved⟩
      next past =>
        change ¬reader.pos.toNat < disk.size at past
        have size := presents.size
        have nothing : buf = [] ∨ reader.virtualSize ≤ reader.pos :=
          .inr (UInt64.le_iff_toNat_le.mpr (by omega))
        have call := read_of_nothing_asked platform crates nothing
        exact ⟨by rw [call], by rw [call], by rw [Aff4Reader.perform, call]⟩
  | seek position =>
      rcases seek_cases platform reader position with
        ⟨pos, sought⟩ | ⟨failure, sought, fails⟩
      · simp only [Obeys, Aff4Reader.perform, sought, and_true]
        exact toNat_of_seek_eq_ok presents.size sought
      · cases failure with
        | ok moved => exact absurd rfl (fails moved)
        | err error => simp only [Obeys, Aff4Reader.perform, sought]
        | panic reason => simp only [Obeys, Aff4Reader.perform, sought]

/-- Every call of every session of a reader that presents a disk obeys it. -/
theorem Presents.session_obeys
    (presents : reader.Presents platform crates content disk)
    (wide : platform.Is64Bit) (operations : List Operation) :
    ∀ event ∈ run (Aff4Reader.perform platform crates) reader operations,
      Obeys disk event :=
  forall_mem_run _ (fun reader => reader.Presents platform crates content disk)
    (Obeys disk) (fun _ operation presents => presents.perform operation)
    (fun _ operation presents => presents.obeys wide operation) operations presents

/-! ## Reading on -/

/-- Read into one buffer after another; what all of them received. -/
def readAll (platform : Platform) (crates : Crates) :
    Aff4Reader → List Bytes → Outcome IoError Bytes
  | _, [] => .ok []
  | self, buf :: rest => do
      let call := self.read platform crates buf
      let n ← call.result
      let later ← readAll platform crates call.reader rest
      return call.buf.take n ++ later

/-- Reading on from the cursor reads the disk from there on. -/
theorem Presents.readAll
    (presents : reader.Presents platform crates content disk)
    (wide : platform.Is64Bit) {bufs : List Bytes}
    (asked : ∀ buf ∈ bufs, buf ≠ []) :
    ∃ bytes, reader.readAll platform crates bufs = .ok bytes ∧
      disk.Reads reader.pos.toNat (bufs.map List.length) bytes := by
  induction bufs generalizing reader with
  | nil => exact ⟨[], rfl, .done _⟩
  | cons buf rest inductionHypothesis =>
      obtain ⟨askedFirst, askedRest⟩ := List.forall_mem_cons.mp asked
      by_cases below : reader.pos.toNat < disk.size
      · obtain ⟨bytes, delivered, nonempty, moved, call⟩ :=
          presents.read wide askedFirst below
        obtain ⟨later, readLater, reads⟩ :=
          inductionHypothesis (presents.withPos _) askedRest
        rw [moved] at reads
        refine ⟨bytes ++ later, ?_, .read delivered reads⟩
        simp only [Aff4Reader.readAll, call, Outcome.ok_bind, readLater,
          List.take_left', Outcome.pure_eq]
      · have size := presents.size
        have nothing : buf = [] ∨ reader.virtualSize ≤ reader.pos :=
          .inr (UInt64.le_iff_toNat_le.mpr (by omega))
        have call := read_of_nothing_asked platform crates nothing
        obtain ⟨later, readLater, reads⟩ := inductionHypothesis presents askedRest
        have delivered : disk.Delivers reader.pos.toNat buf.length [] :=
          ⟨rfl, by simp, by simp, fun _ inside => absurd inside below⟩
        refine ⟨[] ++ later, ?_, .read delivered reads⟩
        simp only [Aff4Reader.readAll, call, Outcome.ok_bind, readLater,
          List.take_zero, List.nil_append, Outcome.pure_eq]

/-- Reading on long enough reads everything up to the end of the disk. -/
theorem Presents.readAll_to_end
    (presents : reader.Presents platform crates content disk)
    (wide : platform.Is64Bit) {bufs : List Bytes}
    (asked : ∀ buf ∈ bufs, buf ≠ [])
    (enough : disk.size - reader.pos.toNat ≤ bufs.length) :
    reader.readAll platform crates bufs =
      .ok (disk.extent reader.pos.toNat (disk.size - reader.pos.toNat)) := by
  obtain ⟨bytes, readAll, reads⟩ := presents.readAll wide asked
  rw [readAll, reads.eq_extent_of_length_le _ (by simpa using enough)]
  intro request member
  obtain ⟨buf, inBufs, rfl⟩ := List.mem_map.mp member
  exact List.length_pos_of_ne_nil (asked buf inBufs)

end Aff4Reader
end Aff4
