import Aff4.Reader.Progress
import Aff4.Reader.Session

/-!
# The cursor

Random access and audits may be interleaved in any way on one reader.  All its
calls share the cursor, which only reads that succeed and seeks that succeed
move.
-/

namespace Aff4

open Rust Storage

/-- A call of a reader: a read or a seek, or one that an audit makes. -/
inductive Call
  | operate (operation : Operation)
  | readImageStreamContent
  | storedImageHashes
  | unreadableRegions

namespace Call

/-- The call is a seek. -/
def isSeek : Call → Bool
  | .operate (.seek _) => true
  | _ => false

/-- The call is a content pass. -/
def isContent : Call → Bool
  | .readImageStreamContent => true
  | _ => false

end Call

/-- What a call returns, and what it passes on or leaves in the buffer. -/
inductive Answer
  | operated (response : Response)
  | content (run : Aff4Reader.ContentRun)
  | hashes (hashes : List StoredHash)
  | regions (regions : List (UInt64 × UInt64))

namespace Aff4Reader

/-- One call of a reader.  The content pass borrows the reader mutably to read
archive entries, but assigns to none of its fields. -/
def answer (platform : Platform) (crates : Crates) (self : Aff4Reader) :
    Call → Answer × Aff4Reader
  | .operate operation =>
      let (response, reader) := self.perform platform crates operation
      (.operated response, reader)
  | .readImageStreamContent =>
      (.content (self.readImageStreamContent platform crates), self)
  | .storedImageHashes => (.hashes self.imageHashes, self)
  | .unreadableRegions => (.regions self.unreadableRegions, self)

/-- A read that returns stays within its buffer and within the disk, and moves
the cursor behind what it read; a seek that returns moves the cursor; nothing
else that happens in a call changes the reader. -/
def MovesCursor (event : Event Aff4Reader Call Answer) : Prop :=
  match event.input, event.output with
  | .operate (.read buf), .operated (.read (.ok n) after) =>
      n ≤ min buf.length
          (event.before.virtualSize.toNat - event.before.pos.toNat) ∧
        after.length = buf.length ∧ after.drop n = buf.drop n ∧
        ∃ pos : UInt64, event.after = { event.before with pos } ∧
          pos.toNat = event.before.pos.toNat + n
  | .operate (.seek _), .operated (.seek (.ok moved)) =>
      event.after = { event.before with pos := moved }
  | _, _ => event.after = event.before

variable (platform : Platform) (crates : Crates) (reader : Aff4Reader)

/-- Every call obeys the laws of the cursor. -/
theorem movesCursor_answer (call : Call) :
    MovesCursor
      { before := reader
        input := call
        output := (reader.answer platform crates call).1
        after := (reader.answer platform crates call).2 } := by
  cases call with
  | operate operation =>
      cases operation with
      | read buf =>
          rcases read_cases platform crates reader buf with
            ⟨bytes, pos, fits, moved, called⟩ | ⟨failure, called, fails⟩
          · simp only [MovesCursor, answer, perform, called]
            refine ⟨fits, ?_, ?_, pos, rfl, moved⟩
            · rw [List.length_append, List.length_drop]
              omega
            · rw [List.drop_left]
          · cases failure with
            | ok n => exact absurd rfl (fails n)
            | err error => simp only [MovesCursor, answer, perform, called]
            | panic reason => simp only [MovesCursor, answer, perform, called]
      | seek position =>
          rcases seek_cases platform reader position with
            ⟨pos, sought⟩ | ⟨failure, sought, fails⟩
          · simp only [MovesCursor, answer, perform, sought]
          · cases failure with
            | ok moved => exact absurd rfl (fails moved)
            | err error => simp only [MovesCursor, answer, perform, sought]
            | panic reason => simp only [MovesCursor, answer, perform, sought]
  | readImageStreamContent => rfl
  | storedImageHashes => rfl
  | unreadableRegions => rfl

/-- A call that is not a seek leaves a cursor that is on the disk, or at its end,
there. -/
theorem onDisk_answer
    {state : Aff4Reader} (sameSize : state.virtualSize = reader.virtualSize)
    (onDisk : state.pos ≤ reader.virtualSize) {call : Call}
    (noSeek : call.isSeek = false) :
    (state.answer platform crates call).2.virtualSize = reader.virtualSize ∧
      (state.answer platform crates call).2.pos ≤ reader.virtualSize := by
  cases call with
  | operate operation =>
      cases operation with
      | read buf =>
          rcases read_cases platform crates state buf with
            ⟨bytes, pos, fits, moved, called⟩ | ⟨failure, called, -⟩
          · simp only [answer, perform, called]
            rw [UInt64.le_iff_toNat_le] at onDisk ⊢
            rw [sameSize] at fits
            exact ⟨sameSize, by omega⟩
          · simp only [answer, perform, called]
            exact ⟨sameSize, onDisk⟩
      | seek position => cases noSeek
  | readImageStreamContent => exact ⟨sameSize, onDisk⟩
  | storedImageHashes => exact ⟨sameSize, onDisk⟩
  | unreadableRegions => exact ⟨sameSize, onDisk⟩

/-- The laws of the cursor, in every session of calls: what each call does to it,
that content passes do not show in what the other calls answer, and that without
seeks it never leaves the disk. -/
structure CursorLaws : Prop where
  moves : ∀ calls : List Call,
    ∀ event ∈ run (answer platform crates) reader calls, MovesCursor event
  audits : ∀ calls : List Call,
    (run (answer platform crates) reader calls).filter
        (fun event => !event.input.isContent) =
      run (answer platform crates) reader
        (calls.filter fun call => !call.isContent)
  reads : reader.pos ≤ reader.virtualSize →
    ∀ calls : List Call, (∀ call ∈ calls, call.isSeek = false) →
      ∀ event ∈ run (answer platform crates) reader calls,
        event.after.pos ≤ reader.virtualSize

/-- The cursor of every reader obeys its laws in every session. -/
theorem cursorLaws : reader.CursorLaws platform crates where
  moves := fun calls =>
    forall_mem_run _ (fun _ => True) MovesCursor (fun _ _ _ => trivial)
      (fun state call _ => movesCursor_answer platform crates state call) calls
      trivial
  audits := by
    apply filter_run
    intro state call content
    cases call with
    | readImageStreamContent => rfl
    | operate operation => cases content
    | storedImageHashes => cases content
    | unreadableRegions => cases content
  reads := by
    intro onDisk calls noSeeks
    apply forall_mem_run_of_admitted (answer platform crates)
      (fun state => state.virtualSize = reader.virtualSize ∧
        state.pos ≤ reader.virtualSize)
      (fun call => call.isSeek = false)
      (fun event => event.after.pos ≤ reader.virtualSize)
    · rintro state call noSeek ⟨sameSize, within⟩
      exact onDisk_answer platform crates reader sameSize within noSeek
    · rintro state call noSeek ⟨sameSize, within⟩
      exact (onDisk_answer platform crates reader sameSize within noSeek).2
    · exact noSeeks
    · exact ⟨rfl, onDisk⟩

end Aff4Reader
end Aff4
