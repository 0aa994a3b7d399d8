import Aff4.Reader.Session
import Aff4.Vfs

/-!
# Positioned reads of many clients

All clients of a source share one cursor.  A call seeks before it reads, so that
what earlier calls left behind, whoever made them and however they ended, does
not show in its answer.
-/

namespace Aff4

open Rust Storage

namespace Aff4Source

/-- A call of `read_at` that one of the clients makes. -/
structure Request (κ : Type) where
  client : κ
  offset : UInt64
  buf : Bytes

/-- What a call returns, and what it leaves in the buffer. -/
structure Reply where
  result : Outcome VfsError Nat
  buf : Bytes
  deriving DecidableEq

variable (platform : Platform) (crates : Crates)

/-- One call.  It holds the lock from the seek to the last read; a lock that is
poisoned by a call that panicked is taken over as it was left. -/
def serve (self : Aff4Source) (request : Request κ) : Reply × Aff4Source :=
  let call := self.readAt platform crates request.offset request.buf
  ({ result := call.result, buf := call.buf }, call.source)

/-- Filling a buffer moves the cursor and nothing else. -/
theorem fill_reader
    (want passes : Nat) (reader : Aff4Reader) (buf : Bytes) (total : Nat) :
    ∃ pos, (fill platform crates want passes reader buf total).reader =
      { reader with pos } := by
  induction passes generalizing reader buf total with
  | zero => exact ⟨reader.pos, rfl⟩
  | succ passes inductionHypothesis =>
      rw [fill]
      split
      · exact ⟨reader.pos, rfl⟩
      · split
        · exact ⟨reader.pos, rfl⟩
        next slot _ =>
          obtain ⟨pos, moved⟩ :=
            Aff4Reader.read_reader platform crates reader slot
          simp only [moved]
          split
          · exact ⟨pos, rfl⟩
          · exact inductionHypothesis { reader with pos } _ _
          · exact ⟨pos, rfl⟩
          · exact ⟨pos, rfl⟩

/-- A call fills its buffer from the offset on, unless the offset is refused. -/
theorem readAt_new (reader : Aff4Reader) (offset : UInt64) (buf : Bytes) :
    (new reader).readAt platform crates offset buf =
      if reader.virtualSize.toNat - offset.toNat = 0 then
        { result := .ok 0, source := new reader, buf }
      else if offset.toNat < 2 ^ 63 then
        let want := asUsize platform
          (UInt64.ofNat
            (min buf.length (reader.virtualSize.toNat - offset.toNat)))
        let run := fill platform crates want want { reader with pos := offset } buf 0
        { result := run.result
          source := { inner := run.reader, len := reader.virtualSize }
          buf := run.buf }
      else
        { result :=
            .err
              { op := "aff4::seek"
                source :=
                  { kind := .invalidInput
                    message := "seek before start of stream" } }
          source := new reader
          buf } := by
  simp only [readAt, new, Aff4Reader.seek_start]
  by_cases small : offset.toNat < 2 ^ 63
  · simp only [if_pos small]
  · simp only [if_neg small]

/-- A call is answered alike wherever the cursor was left, and moves the cursor
and nothing else. -/
theorem serve_withPos (reader : Aff4Reader) (pos : UInt64) (request : Request κ) :
    ((new { reader with pos }).serve platform crates request).1 =
        ((new reader).serve platform crates request).1 ∧
      ∃ moved, ((new { reader with pos }).serve platform crates request).2 =
        new { reader with pos := moved } := by
  simp only [serve, readAt_new]
  by_cases nothingLeft :
      reader.virtualSize.toNat - request.offset.toNat = 0
  · simp only [if_pos nothingLeft]
    exact ⟨trivial, pos, rfl⟩
  · by_cases small : request.offset.toNat < 2 ^ 63
    · simp only [if_neg nothingLeft, if_pos small]
      refine ⟨trivial, ?_⟩
      obtain ⟨moved, same⟩ := fill_reader platform crates _ _
        { reader with pos := request.offset } request.buf 0
      exact ⟨moved, by rw [same]; rfl⟩
    · simp only [if_neg nothingLeft, if_neg small]
      exact ⟨trivial, pos, rfl⟩

/-- Whatever was called before, every call of every client is answered as if it
were the first one of a source that was just opened; so each client is answered
as if it were alone. -/
theorem answers_as_first [DecidableEq κ]
    (reader : Aff4Reader) (pos : UInt64) (requests : List (Request κ)) :
    (run (serve platform crates) (new { reader with pos }) requests).map
        (fun event => (event.input, event.output)) =
      requests.map (fun request =>
        (request, ((new reader).serve platform crates request).1)) ∧
    ∀ client,
      ((run (serve platform crates) (new reader) requests).filter
          fun event => event.input.client = client).map Event.output =
        (run (serve platform crates) (new reader)
          (requests.filter fun request => request.client = client)).map
          Event.output := by
  have kept : ∀ source (request : Request κ),
      (∃ pos, source = new { reader with pos }) →
      ∃ pos, (serve platform crates source request).2 =
        new { reader with pos } := by
    rintro _ request ⟨pos, rfl⟩
    exact (serve_withPos platform crates reader pos request).2
  have alike : ∀ source (request : Request κ),
      (∃ pos, source = new { reader with pos }) →
      (serve platform crates source request).1 =
        (serve platform crates (new reader) request).1 := by
    rintro _ request ⟨pos, rfl⟩
    exact (serve_withPos platform crates reader pos request).1
  exact ⟨map_output_run _ _ _ kept alike requests ⟨pos, rfl⟩,
    fun client => map_output_filter_run _ _ _ kept alike
      (fun request => request.client = client) requests ⟨reader.pos, rfl⟩⟩

end Aff4Source
end Aff4
