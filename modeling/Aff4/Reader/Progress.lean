import Aff4.Map.Lookup
import Aff4.Reader.Open
import Aff4.Reader.Serve
import Aff4.Vfs

/-!
# When reads never fall silent

A read below the end of the disk should either bring bytes or fail.  This file
says exactly for which readers it does, and what positioned reads then return.
-/

namespace Aff4

open Rust

namespace Aff4Reader

variable {platform : Platform} {crates : Crates} {reader : Aff4Reader}

/-- A program brings at least one byte or fails with an error. -/
def Answers (program : Outcome ε Bytes) : Prop :=
  (∃ bytes, program = .ok bytes ∧ 0 < bytes.length) ∨
    ∃ error, program = .err error

/-- Every nonempty read from a region answers, however much of what is left of
the disk it asks for.  A chunk has to reach beyond the place that is read, or
fail to decode; a tile must not overflow where overflows panic. -/
def RegionAnswers
    (platform : Platform) (crates : Crates) (reader : Aff4Reader)
    (region : ResolvedRegion) (left : Nat) : Prop :=
  match region.kind with
  | .imageStream =>
      (∃ chunk, reader.readChunk platform crates
          (region.targetOffset / reader.chunkSize) = .ok chunk ∧
        (region.targetOffset % reader.chunkSize).toNat < chunk.length) ∨
      ∃ error, reader.readChunk platform crates
        (region.targetOffset / reader.chunkSize) = .err error
  | .tile _ =>
      platform.overflowChecks = true →
        region.targetOffset.toNat + min left region.bytesInRegion.toNat ≤ 2 ^ 64
  | _ => True

/-- What a read of a tile does: it returns all it was asked for unless a position
overflows. -/
theorem readTarget_tile_eq_ok
    (wide : platform.Is64Bit) {region : ResolvedRegion} {toRead : Nat}
    {pattern : Tile} (kind : region.kind = .tile pattern)
    (small : min toRead region.bytesInRegion.toNat < 2 ^ 64) :
    (∃ bytes, reader.readTarget platform crates region toRead = .ok bytes) ↔
      ∀ index, index < min toRead region.bytesInRegion.toNat →
        platform.overflowChecks = true →
          region.targetOffset.toNat + index < 2 ^ 64 := by
  rw [readTarget, kind, asUsize_of_is64Bit wide]
  refine Outcome.exists_collect_eq_ok.trans ?_
  refine forall₂_congr fun index below => ?_
  have narrow := toNat_ofNat_of_lt (n := index) (by omega)
  rw [Nat.zero_add]
  constructor
  · rintro ⟨byte, returns⟩ checked
    obtain ⟨position, added, -⟩ := Outcome.bind_eq_ok.mp returns
    have fits := (addU64_eq_ok.mp added).2 checked
    omega
  · intro fits
    refine ⟨pattern.byteAt
      (region.targetOffset + UInt64.ofNat index).toNat, ?_⟩
    rw [addU64_eq_ok.mpr ⟨rfl, fun checked => by rw [narrow]; exact fits checked⟩]
    rfl

/-- A read of a tile never fails with an error. -/
theorem readTarget_tile_ne_err
    {region : ResolvedRegion} {toRead : Nat} {pattern : Tile}
    (kind : region.kind = .tile pattern) (error : IoError) :
    reader.readTarget platform crates region toRead ≠ .err error := by
  rw [readTarget, kind]
  intro fails
  obtain ⟨index, _, _, failure⟩ := Outcome.collect_eq_err.mp fails
  unfold addU64 at failure
  split at failure <;> cases failure

theorem length_of_readTarget_tile
    (wide : platform.Is64Bit) {region : ResolvedRegion} {toRead : Nat}
    {pattern : Tile} (kind : region.kind = .tile pattern) {bytes : Bytes}
    (returns : reader.readTarget platform crates region toRead = .ok bytes) :
    bytes.length = min toRead region.bytesInRegion.toNat := by
  rw [readTarget, kind, asUsize_of_is64Bit wide] at returns
  exact Outcome.length_of_collect_eq_ok returns

/-- A chunk that is not read makes the read end as it did. -/
theorem readTarget_of_readChunk_err
    {region : ResolvedRegion} {toRead : Nat}
    (kind : region.kind = .imageStream) (chunkSize_ne_zero : reader.chunkSize ≠ 0)
    {error : Aff4Error}
    (fails : reader.readChunk platform crates
      (region.targetOffset / reader.chunkSize) = .err error) :
    reader.readTarget platform crates region toRead =
      .err { kind := .other, message := error.toText } := by
  rw [readTarget, kind]
  simp only [divU64_of_ne_zero chunkSize_ne_zero,
    remU64_of_ne_zero chunkSize_ne_zero, fails, Outcome.ok_bind,
    Outcome.mapErr_err, Outcome.err_bind]

theorem readTarget_of_readChunk_panic
    {region : ResolvedRegion}
    (kind : region.kind = .imageStream) (chunkSize_ne_zero : reader.chunkSize ≠ 0)
    {reason : Panic}
    (panics : reader.readChunk platform crates
      (region.targetOffset / reader.chunkSize) = .panic reason)
    (toRead : Nat) :
    reader.readTarget platform crates region toRead = .panic reason := by
  rw [readTarget, kind]
  simp only [divU64_of_ne_zero chunkSize_ne_zero,
    remU64_of_ne_zero chunkSize_ne_zero, panics, Outcome.ok_bind,
    Outcome.mapErr_panic, Outcome.panic_bind]

theorem answers_replicate {count : Nat} (positive : 0 < count) (byte : UInt8) :
    Answers (.ok (List.replicate count byte) : Outcome ε Bytes) :=
  .inl ⟨_, rfl, by rwa [List.length_replicate]⟩

/-- Reads from a tile answer when none of its positions can overflow. -/
theorem tile_answers_iff
    (wide : platform.Is64Bit) {region : ResolvedRegion} {pattern : Tile}
    (kind : region.kind = .tile pattern)
    (nonempty : 0 < region.bytesInRegion.toNat)
    {left : Nat} (someLeft : 0 < left) :
    (∀ toRead, 0 < toRead → toRead ≤ left →
      Answers (reader.readTarget platform crates region toRead)) ↔
      reader.RegionAnswers platform crates region left := by
  have limit := region.bytesInRegion.toNat_lt
  simp only [RegionAnswers, kind]
  constructor
  · intro answers checked
    rcases answers left someLeft le_rfl with ⟨bytes, returns, _⟩ | ⟨error, fails⟩
    · have fits := (readTarget_tile_eq_ok wide kind (by omega)).mp ⟨bytes, returns⟩
        (min left region.bytesInRegion.toNat - 1) (by omega) checked
      omega
    · exact absurd fails (readTarget_tile_ne_err kind error)
  · intro fits toRead asked within
    obtain ⟨bytes, returns⟩ : ∃ bytes,
        reader.readTarget platform crates region toRead = .ok bytes :=
      (readTarget_tile_eq_ok wide kind (by omega)).mpr fun index below checked => by
        have := fits checked
        omega
    have length := length_of_readTarget_tile wide kind returns
    exact .inl ⟨bytes, returns, by omega⟩

/-- Reads from the ImageStream answer when the chunk reaches beyond the place
that is read or fails. -/
theorem imageStream_answers_iff
    (wide : platform.Is64Bit) (chunkSize_ne_zero : reader.chunkSize ≠ 0)
    {region : ResolvedRegion} (kind : region.kind = .imageStream)
    (nonempty : 0 < region.bytesInRegion.toNat)
    {left : Nat} (someLeft : 0 < left) :
    (∀ toRead, 0 < toRead → toRead ≤ left →
      Answers (reader.readTarget platform crates region toRead)) ↔
      reader.RegionAnswers platform crates region left := by
  simp only [RegionAnswers, kind]
  cases read : reader.readChunk platform crates
      (region.targetOffset / reader.chunkSize) with
  | ok chunk =>
      have copied := readTarget_imageStream wide kind chunkSize_ne_zero read
      constructor
      · intro answers
        rcases answers left someLeft le_rfl with ⟨bytes, returns, some⟩ | ⟨_, fails⟩
        · rw [copied] at returns
          cases returns
          rw [List.length_take, List.length_drop] at some
          exact .inl ⟨chunk, rfl, by omega⟩
        · rw [copied] at fails
          cases fails
      · rintro (⟨_, same, inside⟩ | ⟨_, impossible⟩) toRead asked _
        · cases same
          refine .inl ⟨_, copied toRead, ?_⟩
          rw [List.length_take, List.length_drop]
          omega
        · cases impossible
  | err error =>
      exact iff_of_true
        (fun _ _ _ =>
          .inr ⟨_, readTarget_of_readChunk_err kind chunkSize_ne_zero read⟩)
        (.inr ⟨error, rfl⟩)
  | panic reason =>
      have panics := readTarget_of_readChunk_panic kind chunkSize_ne_zero read left
      refine iff_of_false (fun answers => ?_) ?_
      · rcases answers left someLeft le_rfl with ⟨_, returns, _⟩ | ⟨_, fails⟩
        · rw [panics] at returns
          cases returns
        · rw [panics] at fails
          cases fails
      · rintro (⟨_, impossible, _⟩ | ⟨_, impossible⟩) <;> cases impossible

/-- Reads from a region answer exactly under the condition on its target. -/
theorem readTarget_answers_iff
    (wide : platform.Is64Bit) (chunkSize_ne_zero : reader.chunkSize ≠ 0)
    {region : ResolvedRegion} (nonempty : 0 < region.bytesInRegion.toNat)
    {left : Nat} (someLeft : 0 < left) :
    (∀ toRead, 0 < toRead → toRead ≤ left →
      Answers (reader.readTarget platform crates region toRead)) ↔
      reader.RegionAnswers platform crates region left := by
  cases kind : region.kind with
  | unknown =>
      simp only [RegionAnswers, kind, iff_true]
      intro toRead asked _
      rw [readTarget_unknown wide kind]
      exact answers_replicate (by omega) 0
  | fill byte =>
      simp only [RegionAnswers, kind, iff_true]
      intro toRead asked _
      rw [readTarget_fill wide kind]
      exact answers_replicate (by omega) byte
  | tile pattern => exact tile_answers_iff wide kind nonempty someLeft
  | imageStream =>
      exact imageStream_answers_iff wide chunkSize_ne_zero kind nonempty someLeft

/-! ## Whole reads -/

/-- A read never copies more than it was asked for. -/
theorem length_le_of_readTarget
    {region : ResolvedRegion} {toRead : Nat} {bytes : Bytes}
    (copied : reader.readTarget platform crates region toRead = .ok bytes) :
    bytes.length ≤ toRead := by
  rw [readTarget] at copied
  cases kind : region.kind with
  | unknown =>
      simp only [kind] at copied
      cases copied
      simp
  | fill byte =>
      simp only [kind] at copied
      cases copied
      simp
  | tile pattern =>
      simp only [kind] at copied
      have length := Outcome.length_of_collect_eq_ok copied
      omega
  | imageStream =>
      simp only [kind] at copied
      obtain ⟨chunkIdx, -, copied⟩ := Outcome.bind_eq_ok.mp copied
      obtain ⟨offset, -, copied⟩ := Outcome.bind_eq_ok.mp copied
      obtain ⟨chunk, -, copied⟩ := Outcome.bind_eq_ok.mp copied
      split at copied
      · cases copied
        exact Nat.zero_le _
      · have length := length_of_slice copied
        omega

/-- The step of a read below the end of the disk: look up the target, copy. -/
theorem readStep_eq
    (wide : platform.Is64Bit)
    (below : reader.pos.toNat < reader.virtualSize.toNat) (bufLen : Nat) :
    reader.readStep platform crates bufLen =
      (do
        let region ← reader.target platform
        let bytes ← reader.readTarget platform crates region
          (min bufLen (reader.virtualSize.toNat - reader.pos.toNat))
        return (bytes, reader.pos + UInt64.ofNat bytes.length)) := by
  have ordered : reader.pos ≤ reader.virtualSize :=
    UInt64.le_iff_toNat_le.mpr below.le
  have toRead : (min bufLen (asUsize platform (reader.virtualSize - reader.pos))) =
      min bufLen (reader.virtualSize.toNat - reader.pos.toNat) := by
    rw [asUsize_of_is64Bit wide, UInt64.toNat_sub_of_le _ _ ordered]
  cases resolved : reader.target platform with
  | ok region =>
      cases copied : reader.readTarget platform crates region
          (min bufLen (reader.virtualSize.toNat - reader.pos.toNat)) with
      | ok bytes =>
          have length := length_le_of_readTarget copied
          rw [readStep_of_target wide below resolved copied (by omega)]
          simp [copied]
      | err error =>
          simp only [readStep, subU64_of_le ordered, resolved, Outcome.ok_bind,
            toRead, copied, Outcome.err_bind]
      | panic reason =>
          simp only [readStep, subU64_of_le ordered, resolved, Outcome.ok_bind,
            toRead, copied, Outcome.panic_bind]
  | err error =>
      simp only [readStep, subU64_of_le ordered, resolved, Outcome.ok_bind,
        Outcome.err_bind]
  | panic reason =>
      simp only [readStep, subU64_of_le ordered, resolved, Outcome.ok_bind,
        Outcome.panic_bind]

theorem target_ne_err (error : IoError) : reader.target platform ≠ .err error := by
  unfold target
  split
  next => exact LoadedMap.resolve_ne_err error
  next => exact fun impossible => by cases impossible

theorem bytesInRegion_pos_of_target {region : ResolvedRegion}
    (resolved : reader.target platform = .ok region) :
    0 < region.bytesInRegion.toNat := by
  unfold target at resolved
  split at resolved
  next => exact LoadedMap.bytesInRegion_pos_of_resolve resolved
  next =>
    cases resolved
    change 0 < (UInt64.ofNat (2 ^ 64 - 1)).toNat
    decide

/-- A read brings at least one byte or fails with an error. -/
def ReadAnswers (result : Outcome IoError Nat) : Prop :=
  (∃ n, 1 ≤ n ∧ result = .ok n) ∨ ∃ error, result = .err error

/-- Every position of the disk has a target that answers. -/
def PositionAnswers
    (platform : Platform) (crates : Crates) (reader : Aff4Reader)
    (pos : UInt64) : Prop :=
  ∃ region, target platform { reader with pos } = .ok region ∧
    reader.RegionAnswers platform crates region
      (reader.virtualSize.toNat - pos.toNat)

/-- The result of a read below the end of the disk. -/
theorem result_read
    (platform : Platform) (crates : Crates) {buf : Bytes} (asked : buf ≠ [])
    (below : reader.pos.toNat < reader.virtualSize.toNat) :
    (reader.read platform crates buf).result =
      (reader.readStep platform crates buf.length >>= fun step =>
        .ok step.1.length) := by
  rw [read, if_neg (by
    rintro (empty | past)
    · exact asked empty
    · exact absurd (UInt64.le_iff_toNat_le.mp past) (by omega))]
  cases reader.readStep platform crates buf.length <;> rfl

/-- What a read below the end of the disk has done if it returned: it found a
target and copied bytes from it. -/
theorem read_of_returns
    (reader : Aff4Reader) (wide : platform.Is64Bit)
    {buf : Bytes} (asked : buf ≠ [])
    (below : reader.pos.toNat < reader.virtualSize.toNat) {n : Nat}
    (returns : (reader.read platform crates buf).result = .ok n) :
    ∃ region bytes, reader.target platform = .ok region ∧
      reader.readTarget platform crates region
        (min buf.length (reader.virtualSize.toNat - reader.pos.toNat)) =
          .ok bytes ∧
      n = bytes.length ∧
      n ≤ min buf.length (reader.virtualSize.toNat - reader.pos.toNat) ∧
      reader.read platform crates buf =
        { result := .ok n
          reader := { reader with pos := reader.pos + UInt64.ofNat n }
          buf := bytes ++ buf.drop n } := by
  rw [result_read platform crates asked below] at returns
  obtain ⟨⟨bytes, pos⟩, step, length⟩ := Outcome.bind_eq_ok.mp returns
  cases length
  have call := read_of_readStep asked (UInt64.lt_iff_toNat_lt.mpr below) step
  rw [readStep_eq wide below] at step
  obtain ⟨region, resolved, step⟩ := Outcome.bind_eq_ok.mp step
  obtain ⟨copied, target, step⟩ := Outcome.bind_eq_ok.mp step
  cases step
  exact ⟨region, bytes, resolved, target, rfl,
    length_le_of_readTarget target, call⟩

/-- A read below the end of the disk returns what can be copied from its
target. -/
theorem read_of_copied
    (reader : Aff4Reader) (wide : platform.Is64Bit)
    {buf : Bytes} (asked : buf ≠ [])
    (below : reader.pos.toNat < reader.virtualSize.toNat)
    {region : ResolvedRegion} {bytes : Bytes}
    (resolved : reader.target platform = .ok region)
    (copied : reader.readTarget platform crates region
      (min buf.length (reader.virtualSize.toNat - reader.pos.toNat)) =
        .ok bytes) :
    reader.read platform crates buf =
      { result := .ok bytes.length
        reader := { reader with pos := reader.pos + UInt64.ofNat bytes.length }
        buf := bytes ++ buf.drop bytes.length } := by
  apply read_of_readStep asked (UInt64.lt_iff_toNat_lt.mpr below)
  simp only [readStep_eq wide below, resolved, copied,
    Outcome.ok_bind, Outcome.pure_eq]

/-- All that a read can do: bring bytes that fit, or fail. -/
theorem read_cases
    (platform : Platform) (crates : Crates) (reader : Aff4Reader) (buf : Bytes) :
    (∃ (bytes : Bytes) (pos : UInt64),
      bytes.length ≤ min buf.length
        (reader.virtualSize.toNat - reader.pos.toNat) ∧
      pos.toNat = reader.pos.toNat + bytes.length ∧
      reader.read platform crates buf =
        { result := .ok bytes.length
          reader := { reader with pos }
          buf := bytes ++ buf.drop bytes.length }) ∨
    (∃ failure, reader.read platform crates buf =
        { result := failure, reader, buf } ∧ ∀ n, failure ≠ .ok n) := by
  by_cases nothing : buf = [] ∨ reader.virtualSize ≤ reader.pos
  · exact .inl ⟨[], reader.pos, Nat.zero_le _, rfl,
      read_of_nothing_asked platform crates nothing⟩
  · rw [read, if_neg nothing]
    cases step : reader.readStep platform crates buf.length with
    | err error => exact .inr ⟨_, rfl, by simp⟩
    | panic reason => exact .inr ⟨_, rfl, by simp⟩
    | ok stepped =>
        obtain ⟨remaining, subtracted, step⟩ := Outcome.bind_eq_ok.mp step
        obtain ⟨region, -, step⟩ := Outcome.bind_eq_ok.mp step
        obtain ⟨bytes, copied, step⟩ := Outcome.bind_eq_ok.mp step
        obtain ⟨pos, added, step⟩ := Outcome.bind_eq_ok.mp step
        cases step
        rw [not_or, UInt64.le_iff_toNat_le, Nat.not_le] at nothing
        have below := nothing.2
        have sizeLt := reader.virtualSize.toNat_lt
        have ordered : reader.pos ≤ reader.virtualSize :=
          UInt64.le_iff_toNat_le.mpr below.le
        rw [subU64_of_le ordered] at subtracted
        cases subtracted
        have left : asUsize platform (reader.virtualSize - reader.pos) ≤
            reader.virtualSize.toNat - reader.pos.toNat := by
          rw [← UInt64.toNat_sub_of_le _ _ ordered]
          exact Nat.mod_le _ _
        have fits := length_le_of_readTarget copied
        have length := toNat_ofNat_of_lt (show bytes.length < 2 ^ 64 by omega)
        obtain ⟨rfl, -⟩ := addU64_eq_ok.mp added
        exact .inl ⟨bytes, _, by omega,
          by rw [toNat_add_of_lt (by omega), length], rfl⟩

/-- A read that returns has filled at most its buffer, and at most what is left
of the disk. -/
theorem length_of_read
    (reader : Aff4Reader) {buf : Bytes} {n : Nat}
    (returns : (reader.read platform crates buf).result = .ok n) :
    n ≤ min buf.length (reader.virtualSize.toNat - reader.pos.toNat) ∧
      (reader.read platform crates buf).buf.length = buf.length := by
  rcases read_cases platform crates reader buf with
    ⟨bytes, pos, fits, -, called⟩ | ⟨failure, called, fails⟩
  · rw [called] at returns ⊢
    cases returns
    refine ⟨fits, ?_⟩
    rw [List.length_append, List.length_drop]
    omega
  · rw [called] at returns
    exact absurd returns (fails n)

/-- Reads below the end of the disk answer exactly where the target does. -/
theorem read_answers_iff
    (crates : Crates) (reader : Aff4Reader)
    (wide : platform.Is64Bit) (chunkSize_ne_zero : reader.chunkSize ≠ 0)
    (below : reader.pos.toNat < reader.virtualSize.toNat) :
    (∀ buf, buf ≠ [] →
      ReadAnswers (reader.read platform crates buf).result) ↔
      reader.PositionAnswers platform crates reader.pos := by
  have result (buf : Bytes) (asked : buf ≠ []) :=
    (result_read platform crates asked below).trans
      (congrArg (· >>= fun step => .ok step.1.length)
        (readStep_eq wide below buf.length))
  unfold PositionAnswers
  cases resolved : reader.target platform with
  | ok region =>
      have answers (buf : Bytes) (asked : buf ≠ []) :
          ReadAnswers (reader.read platform crates buf).result ↔
            Answers (reader.readTarget platform crates region
              (min buf.length (reader.virtualSize.toNat - reader.pos.toNat))) := by
        rw [result buf asked]
        simp only [resolved, Outcome.ok_bind]
        cases reader.readTarget platform crates region
          (min buf.length (reader.virtualSize.toNat - reader.pos.toNat)) <;>
          simp [ReadAnswers, Answers, Nat.succ_le_iff]
      have regionAnswers :
          (∀ toRead, 0 < toRead →
            toRead ≤ reader.virtualSize.toNat - reader.pos.toNat →
            Answers (reader.readTarget platform crates region toRead)) ↔
            reader.RegionAnswers platform crates region
              (reader.virtualSize.toNat - reader.pos.toNat) :=
        readTarget_answers_iff wide chunkSize_ne_zero
          (bytesInRegion_pos_of_target resolved) (by omega)
      constructor
      · intro reads
        refine ⟨region, rfl, regionAnswers.mp fun toRead asked within => ?_⟩
        have some : List.replicate toRead (0 : UInt8) ≠ [] :=
          List.ne_nil_of_length_pos (by rwa [List.length_replicate])
        have answer := (answers _ some).mp (reads _ some)
        rwa [List.length_replicate, Nat.min_eq_left within] at answer
      · rintro ⟨_, same, target⟩ buf asked
        cases same
        have length := List.length_pos_of_ne_nil asked
        exact (answers buf asked).mpr
          (regionAnswers.mpr target _ (by omega) (by omega))
  | err error => exact absurd resolved (target_ne_err error)
  | panic reason =>
      refine iff_of_false (fun reads => ?_) ?_
      · have answer := reads [0] (by simp)
        rw [result _ (by simp)] at answer
        simp [resolved, ReadAnswers] at answer
      · rintro ⟨_, impossible, _⟩
        cases impossible

end Aff4Reader
end Aff4
