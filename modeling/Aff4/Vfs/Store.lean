import Aff4.Reader.Written
import Aff4.Vfs.History

/-!
# Sources of written images

What the clients of a source see is a store that has no state: each call is
answered from the disk that was written, however the calls are interleaved.
-/

namespace Aff4

open Rust Storage

namespace Aff4Source

/-- What a call is answered from a disk: all the bytes of the disk from the offset
on that the buffer has room for, unless there are none or the offset cannot be
sought. -/
def diskReply (disk : Disk UInt8) (request : Request κ) : Reply :=
  let offset := request.offset.toNat
  let count := min request.buf.length (disk.size - offset)
  if disk.size - offset = 0 then { result := .ok 0, buf := request.buf }
  else if offset < 2 ^ 63 then
    { result := .ok count
      buf := disk.extent offset count ++ request.buf.drop count }
  else
    { result :=
        .err
          { op := "aff4::seek"
            source :=
              { kind := .invalidInput, message := "seek before start of stream" } }
      buf := request.buf }

variable {platform : Platform} {crates : Crates} {reader : Aff4Reader}
variable {content : Bytes} {disk : Disk UInt8}

/-- Bytes copied to the front of the window that is left join those before it. -/
theorem take_append_window {buf bytes : Bytes} {total want : Nat}
    (behind : total + bytes.length ≤ want) (room : want ≤ buf.length) :
    buf.take total ++ (bytes ++ ((buf.take want).drop total).drop bytes.length) ++
        buf.drop want =
      (buf.take total ++ bytes) ++ buf.drop (total + bytes.length) := by
  have inside : total + bytes.length ≤ (buf.take want).length := by
    rw [List.length_take]
    omega
  have here : (buf.take want ++ buf.drop want).drop (total + bytes.length) =
      (buf.take want).drop (total + bytes.length) ++ buf.drop want :=
    List.drop_append_of_le_length inside
  rw [List.take_append_drop] at here
  rw [here, List.drop_drop]
  simp only [List.append_assoc]

/-- A pass that has something left to fill delivers bytes of the disk and goes on
behind them. -/
theorem fill_pass
    (presents : reader.Presents platform crates content disk) (wide : platform.Is64Bit)
    {want passes : Nat} {buf : Bytes} {total : Nat}
    (below : total < want)
    (left : reader.pos.toNat + (want - total) ≤ disk.size)
    (room : want ≤ buf.length) :
    ∃ bytes, disk.Delivers reader.pos.toNat (want - total) bytes ∧
      0 < bytes.length ∧
      (reader.pos + UInt64.ofNat bytes.length).toNat =
        reader.pos.toNat + bytes.length ∧
      fill platform crates want (passes + 1) reader buf total =
        fill platform crates want passes
          { reader with pos := reader.pos + UInt64.ofNat bytes.length }
          ((buf.take total ++ bytes) ++ buf.drop (total + bytes.length))
          (total + bytes.length) := by
  have slot : getRange buf total want = some ((buf.take want).drop total) :=
    if_pos ⟨below.le, room⟩
  have slotLength : ((buf.take want).drop total).length = want - total := by
    rw [List.length_drop, List.length_take]
    omega
  have asked : (buf.take want).drop total ≠ [] :=
    List.ne_nil_of_length_pos (by omega)
  obtain ⟨bytes, delivered, nonempty, moved, call⟩ :=
    presents.read wide asked (by omega)
  rw [slotLength] at delivered
  have fits := delivered.fits
  obtain ⟨more, more_eq⟩ : ∃ more, bytes.length = more + 1 :=
    ⟨bytes.length - 1, by omega⟩
  refine ⟨bytes, delivered, nonempty, moved, ?_⟩
  rw [fill, if_neg (Nat.not_le_of_lt below), slot]
  simp only [call, more_eq]
  rw [← more_eq, take_append_window (by omega) room]

/-- Filling a buffer from a reader that presents a disk fills it with the disk. -/
theorem fill_presents
    (presents : reader.Presents platform crates content disk) (wide : platform.Is64Bit)
    {want passes : Nat} {buf : Bytes} {total : Nat}
    (within : total ≤ want)
    (left : reader.pos.toNat + (want - total) ≤ disk.size)
    (room : want ≤ buf.length)
    (enough : want - total ≤ passes) :
    (fill platform crates want passes reader buf total).result = .ok want ∧
      (fill platform crates want passes reader buf total).buf =
        buf.take total ++ disk.extent reader.pos.toNat (want - total) ++
          buf.drop want := by
  induction passes generalizing reader buf total with
  | zero =>
      obtain rfl : total = want := by omega
      refine ⟨rfl, ?_⟩
      rw [Nat.sub_self, fill]
      simp [Disk.extent]
  | succ passes inductionHypothesis =>
      by_cases filled : want ≤ total
      · obtain rfl : total = want := by omega
        rw [fill, if_pos filled, Nat.sub_self]
        simp [Disk.extent]
      · obtain ⟨bytes, delivered, nonempty, moved, pass⟩ :=
          fill_pass presents wide (Nat.lt_of_not_le filled) left room
        have fits := delivered.fits
        have front : (buf.take total ++ bytes).length = total + bytes.length := by
          rw [List.length_append, List.length_take]
          omega
        have behind : total + bytes.length ≤ want := by omega
        obtain ⟨returns, filledBuf⟩ := @inductionHypothesis
          { reader with pos := reader.pos + UInt64.ofNat bytes.length }
          (presents.withPos _)
          ((buf.take total ++ bytes) ++ buf.drop (total + bytes.length))
          (total + bytes.length) behind
          (by change (reader.pos + UInt64.ofNat bytes.length).toNat + _ ≤ _; omega)
          (by rw [List.length_append, front, List.length_drop]; omega) (by omega)
        have split : want - total = bytes.length + (want - (total + bytes.length)) := by
          omega
        have ending : ((buf.take total ++ bytes) ++ buf.drop (total + bytes.length)).drop
            want = buf.drop want := by
          rw [List.drop_append, List.drop_of_length_le (by omega), List.nil_append,
            List.drop_drop, front, Nat.add_sub_cancel' behind]
        rw [pass]
        refine ⟨returns, filledBuf.trans ?_⟩
        change _ ++ disk.extent (reader.pos + UInt64.ofNat bytes.length).toNat _ ++ _ = _
        rw [moved, split, Disk.extent_add, ← delivered.exact, List.take_left' front, ending]
        simp only [List.append_assoc]

/-- Every call of every client is answered from the disk, whatever was called
before. -/
theorem answers_from_disk
    (presents : reader.Presents platform crates content disk) (wide : platform.Is64Bit)
    (requests : List (Request κ)) :
    (run (serve platform crates) (new reader) requests).map
        (fun event => (event.input, event.output)) =
      requests.map fun request => (request, diskReply disk request) := by
  have kept : ∀ source (request : Request κ),
      (∃ pos, source = new { reader with pos }) →
      ∃ pos, (serve platform crates source request).2 = new { reader with pos } := by
    rintro _ request ⟨pos, rfl⟩
    exact (serve_withPos platform crates reader pos request).2
  have alike : ∀ source (request : Request κ),
      (∃ pos, source = new { reader with pos }) →
      (serve platform crates source request).1 = diskReply disk request := by
    rintro _ request ⟨pos, rfl⟩
    rw [(serve_withPos platform crates reader pos request).1]
    have size := presents.size
    have bound := reader.virtualSize.toNat_lt
    simp only [serve, readAt_new, diskReply, size]
    by_cases nothingLeft : disk.size - request.offset.toNat = 0
    · simp only [if_pos nothingLeft]
    · by_cases small : request.offset.toNat < 2 ^ 63
      · have count : asUsize platform (UInt64.ofNat
            (min request.buf.length (disk.size - request.offset.toNat))) =
              min request.buf.length (disk.size - request.offset.toNat) := by
          rw [asUsize_of_is64Bit wide, toNat_ofNat_of_lt (by omega)]
        obtain ⟨returns, filled⟩ := @fill_presents platform crates
          { reader with pos := request.offset } content disk (presents.withPos _) wide
          (min request.buf.length (disk.size - request.offset.toNat))
          (min request.buf.length (disk.size - request.offset.toNat)) request.buf 0
          (Nat.zero_le _)
          (by change request.offset.toNat + _ ≤ _; omega) (Nat.min_le_left _ _)
          (Nat.sub_le _ _)
        simp only [if_neg nothingLeft, if_pos small, count, returns, filled]
        rfl
      · simp only [if_neg nothingLeft, if_neg small]
  exact map_output_run _ _ _ kept alike requests ⟨reader.pos, rfl⟩

end Aff4Source

/-- The source of a written image is a store of the disk that was written: it has the
size of the disk, and every call of every client is answered from the disk. -/
theorem WrittenImage.source_answers_from_disk
    {platform : Platform} {crates : Crates} {backing : Bytes}
    {image : ImageDescription} {content : Bytes} (wide : platform.Is64Bit)
    (written : WrittenImage crates backing image content) :
    ∃ reader, openReader crates backing = .ok reader ∧
      (Aff4Source.new reader).len.toNat = written.map.disk.size ∧
      ∀ requests : List (Aff4Source.Request κ),
        (run (Aff4Source.serve platform crates) (Aff4Source.new reader) requests).map
            (fun event => (event.input, event.output)) =
          requests.map fun request =>
            (request, Aff4Source.diskReply written.map.disk request) := by
  obtain ⟨loadedMap, opened, presents⟩ := written.exists_presents wide
  exact ⟨_, opened, presents.size, Aff4Source.answers_from_disk presents wide⟩

theorem WrittenSample.source_answers_from_disk_sample :
    ∃ reader, openReader (.opening archive) [] = .ok reader ∧
      (Aff4Source.new reader).len.toNat = written.map.disk.size ∧
      ∀ requests : List (Aff4Source.Request Nat),
        (run (Aff4Source.serve .debug64 (.opening archive)) (Aff4Source.new reader)
            requests).map (fun event => (event.input, event.output)) =
          requests.map fun request =>
            (request, Aff4Source.diskReply written.map.disk request) :=
  written.source_answers_from_disk Platform.is64Bit_debug64

end Aff4
