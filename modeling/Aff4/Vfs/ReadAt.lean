import Aff4.Reader.Progress

/-!
# Positioned reads that are never short

When every read below the end of the disk answers, a positioned read fails or
fills as much of its buffer as the disk has bytes for.
-/

namespace Aff4

open Rust

namespace Aff4Reader

variable {platform : Platform} {crates : Crates} {reader : Aff4Reader}

/-- What a read that returns has done. -/
theorem read_of_result_eq_ok
    (reader : Aff4Reader) (wide : platform.Is64Bit)
    {buf : Bytes} (asked : buf ≠ [])
    (below : reader.pos.toNat < reader.virtualSize.toNat) {n : Nat}
    (returns : (reader.read platform crates buf).result = .ok n) :
    n ≤ min buf.length (reader.virtualSize.toNat - reader.pos.toNat) ∧
      (reader.read platform crates buf).reader =
        { reader with pos := reader.pos + UInt64.ofNat n } ∧
      (reader.read platform crates buf).buf.length = buf.length := by
  obtain ⟨region, bytes, _, _, length, fits, call⟩ :=
    read_of_returns reader wide asked below returns
  refine ⟨fits, by rw [call], ?_⟩
  rw [call, List.length_append, List.length_drop]
  omega

end Aff4Reader

namespace Aff4Source

variable {platform : Platform} {crates : Crates} {reader : Aff4Reader}

/-- Filling a buffer from a reader whose reads answer fails or fills it. -/
theorem fill_answers
    (pos : UInt64) (wide : platform.Is64Bit)
    (answers : ∀ pos : UInt64, pos.toNat < reader.virtualSize.toNat →
      ∀ buf, buf ≠ [] → Aff4Reader.ReadAnswers
        (Aff4Reader.read platform crates { reader with pos } buf).result)
    {want passes : Nat} {buf : Bytes} {total : Nat}
    (within : total ≤ want)
    (left : pos.toNat + (want - total) ≤ reader.virtualSize.toNat)
    (room : want ≤ buf.length)
    (enough : want - total ≤ passes) :
    (fill platform crates want passes { reader with pos } buf total).result =
        .ok want ∨
      ∃ error,
        (fill platform crates want passes { reader with pos } buf total).result =
          .err error := by
  induction passes generalizing pos buf total with
  | zero =>
      obtain rfl : total = want := by omega
      exact .inl rfl
  | succ passes inductionHypothesis =>
      by_cases filled : want ≤ total
      · obtain rfl : total = want := by omega
        left
        rw [fill, if_pos filled]
      · have slot : getRange buf total want =
            some ((buf.take want).drop total) := if_pos ⟨within, room⟩
        have slotLength : ((buf.take want).drop total).length = want - total := by
          rw [List.length_drop, List.length_take]
          omega
        have asked : (buf.take want).drop total ≠ [] :=
          List.ne_nil_of_length_pos (by omega)
        have below : pos.toNat < reader.virtualSize.toNat := by omega
        rw [fill, if_neg filled, slot]
        rcases answers pos below _ asked with ⟨n, positive, returns⟩ | ⟨error, fails⟩
        · obtain ⟨fits, moved, length⟩ := Aff4Reader.read_of_result_eq_ok
            { reader with pos } wide asked below
            returns
          have bound := reader.virtualSize.toNat_lt
          have narrow := toNat_ofNat_of_lt (n := n) (by omega)
          have position := toNat_add_of_lt (a := pos) (b := UInt64.ofNat n)
            (by omega)
          obtain ⟨more, rfl⟩ : ∃ more, n = more + 1 := ⟨n - 1, by omega⟩
          simp only [returns, moved]
          refine inductionHypothesis _ (by omega) (by omega) ?_ (by omega)
          simp only [List.length_append, List.length_take, List.length_drop, length,
            slotLength]
          omega
        · right
          simp only [fails]
          exact ⟨_, rfl⟩

end Aff4Source

namespace Aff4Reader

/-- No read of an opened reader falls silent: below the end of the disk a read
brings bytes or fails, and a positioned read fails or brings all the bytes that
were asked for and are there, wherever the cursor was left before. -/
structure NeverSilent
    (platform : Platform) (crates : Crates) (reader : Aff4Reader) : Prop where
  read : ∀ pos : UInt64, pos.toNat < reader.virtualSize.toNat →
    ∀ buf, buf ≠ [] →
      ReadAnswers
        (Aff4Reader.read platform crates { reader with pos } buf).result
  readAt : ∀ (pos offset : UInt64) (buf : Bytes),
    let source := Aff4Source.new { reader with pos }
    (source.readAt platform crates offset buf).result =
        .ok (min buf.length (source.len.toNat - offset.toNat)) ∨
      ∃ error, (source.readAt platform crates offset buf).result = .err error

variable {platform : Platform} {crates : Crates} {reader : Aff4Reader}

/-- Positioned reads answer when reads do. -/
theorem readAt_answers
    (wide : platform.Is64Bit)
    (answers : ∀ pos : UInt64, pos.toNat < reader.virtualSize.toNat →
      ∀ buf, buf ≠ [] → ReadAnswers
        (Aff4Reader.read platform crates { reader with pos } buf).result)
    (pos offset : UInt64) (buf : Bytes) :
    let source := Aff4Source.new { reader with pos }
    (source.readAt platform crates offset buf).result =
        .ok (min buf.length (source.len.toNat - offset.toNat)) ∨
      ∃ error, (source.readAt platform crates offset buf).result = .err error := by
  intro source
  have bound := reader.virtualSize.toNat_lt
  have available : source.len.toNat - offset.toNat =
    reader.virtualSize.toNat - offset.toNat := rfl
  simp only [Aff4Source.readAt, available]
  by_cases nothingLeft : reader.virtualSize.toNat - offset.toNat = 0
  · rw [if_pos nothingLeft, nothingLeft, Nat.min_zero]
    exact .inl rfl
  · rw [if_neg nothingLeft, asUsize_of_is64Bit wide, toNat_ofNat_of_lt (by omega),
      seek_start]
    by_cases small : offset.toNat < 2 ^ 63
    · rw [if_pos small]
      exact Aff4Source.fill_answers offset wide answers
        (by omega) (by omega) (by omega) (by omega)
    · rw [if_neg small]
      exact .inr ⟨_, rfl⟩

/-- No read of an opened reader falls silent if and only if every position below
the end of the disk has a target that answers. -/
theorem neverSilent_iff
    (wide : platform.Is64Bit) {backing : Bytes}
    (opened : openReader crates backing = .ok reader) :
    reader.NeverSilent platform crates ↔
      ∀ pos : UInt64, pos.toNat < reader.virtualSize.toNat →
        reader.PositionAnswers platform crates pos := by
  have nonzero := (openReader_wellFormed opened).1
  have reads (pos : UInt64) (below : pos.toNat < reader.virtualSize.toNat) :=
    read_answers_iff crates { reader with pos } wide nonzero below
  constructor
  · intro never pos below
    exact (reads pos below).mp (never.read pos below)
  · intro answers
    have readsAnswer := fun (pos : UInt64)
        (below : pos.toNat < reader.virtualSize.toNat) =>
      (reads pos below).mpr (answers pos below)
    exact ⟨readsAnswer, readAt_answers wide readsAnswer⟩

/-! A record over a first chunk of one byte where two are declared: the read at
the second byte returns zero bytes, in the middle of the disk. -/

def silentSample : MapContainer
    (.opening (Small.archive (Small.mapFile [⟨0, 3, 0, 0⟩])
      (indexEntry 0 1 ++ indexEntry 1 1) [0x41, 0x42]
      (Small.entries_short (by decide) (by decide) (by decide)))) [] :=
  Small.container _ _ _ _

theorem not_neverSilent_silentSample :
    openReader (.opening silentSample.archive) [] = .ok silentSample.reader ∧
      ¬silentSample.reader.NeverSilent .debug64 (.opening silentSample.archive) := by
  refine ⟨silentSample.openReader_eq, fun never => ?_⟩
  have silent : (Aff4Reader.read .debug64 (.opening silentSample.archive)
      { silentSample.reader with pos := 1 } [0]).result = .ok 0 := by
    decide +kernel
  have answer := never.read 1 (by decide) [0] (by simp)
  rw [silent] at answer
  simp [ReadAnswers] at answer

theorem neverSilent_iff_silentSample :
    silentSample.reader.NeverSilent .debug64 (.opening silentSample.archive) ↔
      ∀ pos : UInt64, pos.toNat < silentSample.reader.virtualSize.toNat →
        silentSample.reader.PositionAnswers .debug64
          (.opening silentSample.archive) pos :=
  neverSilent_iff Platform.is64Bit_debug64 silentSample.openReader_eq

end Aff4Reader
end Aff4
