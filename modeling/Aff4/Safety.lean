import Aff4.Crypto.Sectors
import Aff4.Map.Search
import Aff4.Reader.Cursor

/-!
# Which panics are possible

A container may hold anything.  What its reader is asked to do, and what is done
to decrypt it, never divides by zero, never reaches out of bounds and never
subtracts below zero; sums and sizes that are too large are what is left.
-/

namespace Aff4

open Rust Storage

/-- A sum was too large, or more memory was asked for than can be allocated. -/
def TooLarge (reason : Panic) : Prop :=
  reason = .addOverflow ∨ reason = .capacityOverflow

/-- What can make a reader panic: a sum, in a build that checks sums, and a chunk
size that cannot be allocated. -/
structure Allows
    (platform : Platform) (chunkSize : UInt64) (reasons : Panic → Prop) : Prop where
  sums : platform.overflowChecks = true → reasons .addOverflow
  chunks : platform.isizeMax < asUsize platform chunkSize →
    reasons .capacityOverflow

theorem allows_tooLarge (platform : Platform) (chunkSize : UInt64) :
    Allows platform chunkSize TooLarge :=
  ⟨fun _ => .inl rfl, fun _ => .inr rfl⟩

/-! ## Chunks -/

section

variable (platform : Platform) (crates : Crates)

theorem panicsOnly_chunkBoundsFromIndex {reasons : Panic → Prop}
    (allowed : platform.overflowChecks = true → reasons .addOverflow)
    (index : Bytes) (chunkInSeg : UInt64) :
    Outcome.PanicsOnly reasons
      (chunkBoundsFromIndex platform index chunkInSeg) := by
  refine .bind (.okOr _ _) fun base _ => ?_
  refine .bind (panicsOnly_addUsize platform allowed _ _)
    fun stop _ => ?_
  refine .bind (.okOr _ _) fun entry _ => ?_
  exact .bind (.okOr _ _) fun stop _ => .ok _

/-- The bounds of a chunk are in order. -/
theorem ordered_of_chunkBoundsFromIndex
    {index : Bytes} {chunkInSeg : UInt64} {bounds : Nat × Nat}
    (decoded : chunkBoundsFromIndex platform index chunkInSeg = .ok bounds) :
    bounds.1 ≤ bounds.2 := by
  obtain ⟨base, -, decoded⟩ := Outcome.bind_eq_ok.mp decoded
  obtain ⟨stop, -, decoded⟩ := Outcome.bind_eq_ok.mp decoded
  obtain ⟨entry, -, decoded⟩ := Outcome.bind_eq_ok.mp decoded
  obtain ⟨chunkEnd, added, decoded⟩ := Outcome.bind_eq_ok.mp decoded
  cases decoded
  rw [Outcome.okOr_eq_ok, checkedAddUsize] at added
  split at added
  · cases added
    exact Nat.le_add_right _ _
  · cases added

namespace Aff4Reader

variable {reader : Aff4Reader} {reasons : Panic → Prop}

theorem panicsOnly_decompress
    (allows : Allows platform reader.chunkSize reasons) (compressed : Bytes) :
    Outcome.PanicsOnly reasons
      (reader.decompress platform crates compressed) := by
  rw [decompress]
  cases reader.compression with
  | null => exact .ok _
  | deflate =>
      exact .bind
        (panicsOnly_withCapacity platform allows.chunks)
        fun _ _ => .ofExcept _
  | snappy => exact .ofExcept _
  | lz4 =>
      exact .bind
        (panicsOnly_withCapacity platform allows.chunks)
        fun _ _ => .ofExcept _

theorem panicsOnly_readChunk
    (allows : Allows platform reader.chunkSize reasons)
    (chunksPerSegment_ne_zero : reader.chunksPerSegment ≠ 0)
    (chunkIdx : UInt64) :
    Outcome.PanicsOnly reasons
      (reader.readChunk platform crates chunkIdx) := by
  rw [readChunk, divU64_of_ne_zero chunksPerSegment_ne_zero,
    remU64_of_ne_zero chunksPerSegment_ne_zero, Outcome.ok_bind, Outcome.ok_bind]
  refine .bind (.ofExcept _) fun index _ => ?_
  refine .bind (panicsOnly_chunkBoundsFromIndex platform allows.sums _ _)
    fun bounds decoded => ?_
  have ordered := ordered_of_chunkBoundsFromIndex platform decoded
  obtain ⟨chunkStart, chunkEnd⟩ := bounds
  dsimp only
  split
  · exact panicsOnly_vecZeroed platform allows.chunks
  · refine .bind (.ofExcept _) fun bevy _ => ?_
    split
    · exact .err _
    next inside =>
      rw [slice_of_le ordered (by omega), Outcome.ok_bind]
      split
      · exact .ok _
      · exact panicsOnly_decompress platform crates allows _

/-! ## The content pass -/

/-- A pass that has not produced more than there is feeds no more than there is
left. -/
theorem contentPass_within
    (allows : Allows platform reader.chunkSize reasons)
    (chunksPerSegment_ne_zero : reader.chunksPerSegment ≠ 0)
    (chunkIdx : Nat) {produced : UInt64}
    (within : produced ≤ reader.imageStreamSize) :
    Outcome.PanicsOnly reasons
        (reader.contentPass platform crates chunkIdx produced) ∧
      ∀ fed next,
        reader.contentPass platform crates chunkIdx produced = .ok (fed, next) →
        next.toNat = produced.toNat + fed.length ∧
          next ≤ reader.imageStreamSize := by
  have sizeLt := reader.imageStreamSize.toNat_lt
  have withinNat := UInt64.le_iff_toNat_le.mp within
  have remaining := UInt64.toNat_sub_of_le _ _ within
  -- what is taken fits the chunk and what is left
  have takes (chunk : Bytes) :
      asUsize platform (UInt64.ofNat (min chunk.length
        (reader.imageStreamSize - produced).toNat)) ≤
          min chunk.length (reader.imageStreamSize - produced).toNat := by
    rw [asUsize, UInt64.toNat_ofNat']
    exact (Nat.mod_le _ _).trans (Nat.mod_le _ _)
  rw [contentPass, subU64_of_le within]
  constructor
  · refine .bind
      (panicsOnly_readChunk platform crates allows chunksPerSegment_ne_zero _)
      fun chunk _ => ?_
    have taken := takes chunk
    rw [Outcome.ok_bind]
    dsimp only
    rw [slice_zero_of_le (by omega), Outcome.ok_bind]
    exact .bind (panicsOnly_addU64 platform allows.sums _ _)
      fun next _ => .ok _
  · intro fed next passed
    obtain ⟨chunk, -, passed⟩ := Outcome.bind_eq_ok.mp passed
    have taken := takes chunk
    rw [Outcome.ok_bind] at passed
    dsimp only at passed
    rw [slice_zero_of_le (by omega), Outcome.ok_bind] at passed
    obtain ⟨sum, added, passed⟩ := Outcome.bind_eq_ok.mp passed
    cases passed
    obtain ⟨rfl, -⟩ := addU64_eq_ok.mp added
    have narrow := toNat_ofNat_of_lt (n := asUsize platform (UInt64.ofNat
      (min chunk.length (reader.imageStreamSize - produced).toNat))) (by omega)
    rw [UInt64.le_iff_toNat_le, toNat_add_of_lt (by omega), narrow,
      List.length_take]
    omega

/-- The content loop never produces more than there is. -/
theorem contentLoop_within
    (allows : Allows platform reader.chunkSize reasons)
    (chunksPerSegment_ne_zero : reader.chunksPerSegment ≠ 0)
    (passes chunkIdx : Nat) {produced : UInt64}
    (within : produced ≤ reader.imageStreamSize) :
    Outcome.PanicsOnly reasons
        (reader.contentLoop platform crates passes chunkIdx produced).result ∧
      produced.toNat +
          (reader.contentLoop platform crates passes chunkIdx
            produced).fed.flatten.length ≤
        reader.imageStreamSize.toNat := by
  induction passes generalizing chunkIdx produced with
  | zero => exact ⟨.ok (), UInt64.le_iff_toNat_le.mp within⟩
  | succ passes inductionHypothesis =>
      obtain ⟨only, passed⟩ := contentPass_within platform crates allows
        chunksPerSegment_ne_zero chunkIdx within
      rw [contentLoop]
      cases pass : reader.contentPass platform crates chunkIdx produced with
      | ok fedNext =>
          obtain ⟨fed, next⟩ := fedNext
          obtain ⟨length, nextWithin⟩ := passed fed next pass
          obtain ⟨rest, total⟩ := inductionHypothesis (chunkIdx + 1) nextWithin
          refine ⟨rest, ?_⟩
          simp only [List.flatten_cons, List.length_append]
          omega
      | err error => exact ⟨.err error, UInt64.le_iff_toNat_le.mp within⟩
      | panic reason =>
          exact ⟨.panic (only reason pass), UInt64.le_iff_toNat_le.mp within⟩

theorem panicsOnly_readImageStreamContent
    (allows : Allows platform reader.chunkSize reasons)
    (chunksPerSegment_ne_zero : reader.chunksPerSegment ≠ 0) :
    Outcome.PanicsOnly reasons
        (reader.readImageStreamContent platform crates).result ∧
      (reader.readImageStreamContent platform crates).fed.flatten.length ≤
        reader.imageStreamSize.toNat := by
  rw [readImageStreamContent]
  by_cases zero : reader.chunkSize = 0
  · rw [if_pos zero]
    exact ⟨.err _, Nat.zero_le _⟩
  · rw [if_neg zero, divCeilU64, if_neg zero]
    obtain ⟨only, total⟩ := contentLoop_within platform crates allows
      chunksPerSegment_ne_zero _ 0 (show 0 ≤ reader.imageStreamSize from
        UInt64.le_iff_toNat_le.mpr (Nat.zero_le _))
    exact ⟨only, (Nat.le_add_left _ _).trans total⟩

theorem readImageStreamContent_within
    (chunksPerSegment_ne_zero : reader.chunksPerSegment ≠ 0) :
    Outcome.PanicsOnly TooLarge
        (reader.readImageStreamContent platform crates).result ∧
      (reader.readImageStreamContent platform crates).fed.flatten.length ≤
        reader.imageStreamSize.toNat :=
  panicsOnly_readImageStreamContent platform crates (allows_tooLarge platform _)
    chunksPerSegment_ne_zero

end Aff4Reader

/-! ## Lookups -/

namespace LoadedMap

variable {map : LoadedMap}

theorem panicsOnly_search {reasons : Panic → Prop}
    (allowed : platform.overflowChecks = true → reasons .addOverflow)
    (virtualPos : UInt64) :
    Outcome.PanicsOnly reasons
      (map.search platform virtualPos : Outcome IoError (Option MapEntry)) := by
  rw [search]
  split
  · exact .ok _
  · exact .bind (panicsOnly_addU64 platform allowed _ _) fun _ _ => .ok _

/-- A record that answers begins at or before the position and reaches beyond
it. -/
theorem ordered_of_search {virtualPos : UInt64} {entry : MapEntry}
    (found : (map.search platform virtualPos :
      Outcome IoError (Option MapEntry)) = .ok (some entry)) :
    entry.mapOffset ≤ virtualPos ∧
      virtualPos - entry.mapOffset ≤ entry.length := by
  obtain ⟨-, ⟨begins, ends⟩, -⟩ := search_eq_some_iff.mp found
  have ordered : entry.mapOffset ≤ virtualPos :=
    UInt64.le_iff_toNat_le.mpr begins
  refine ⟨ordered, ?_⟩
  rw [UInt64.le_iff_toNat_le, UInt64.toNat_sub_of_le _ _ ordered]
  omega

theorem panicsOnly_resolve {reasons : Panic → Prop}
    (allowed : platform.overflowChecks = true → reasons .addOverflow)
    (virtualPos virtualSize : UInt64) :
    Outcome.PanicsOnly reasons
      (map.resolve platform virtualPos virtualSize :
        Outcome IoError ResolvedRegion) := by
  rw [resolve_eq]
  refine .bind (panicsOnly_search platform allowed virtualPos)
    fun found searched => ?_
  cases found with
  | none => exact .ok _
  | some entry =>
      obtain ⟨begins, reaches⟩ := ordered_of_search platform searched
      simp only [regionOf, subU64_of_le begins, subU64_of_le reaches,
        Outcome.ok_bind]
      exact .bind (panicsOnly_addU64 platform allowed _ _)
        fun targetOffset _ => .ok _

end LoadedMap

/-! ## Reads and seeks -/

namespace Aff4Reader

variable {reader : Aff4Reader} {reasons : Panic → Prop}

theorem panicsOnly_target
    (allowed : platform.overflowChecks = true → reasons .addOverflow) :
    Outcome.PanicsOnly reasons (reader.target platform) := by
  rw [target]
  split
  · exact LoadedMap.panicsOnly_resolve platform allowed _ _
  · exact .ok _

theorem panicsOnly_readTarget
    (allows : Allows platform reader.chunkSize reasons)
    (chunkSize_ne_zero : reader.chunkSize ≠ 0)
    (chunksPerSegment_ne_zero : reader.chunksPerSegment ≠ 0)
    (region : ResolvedRegion) (toRead : Nat) :
    Outcome.PanicsOnly reasons
      (reader.readTarget platform crates region toRead) := by
  rw [readTarget]
  cases region.kind with
  | unknown => exact .ok _
  | fill byte => exact .ok _
  | tile pattern =>
      refine .collect (fun index => ?_) _ _
      exact .bind (panicsOnly_addU64 platform allows.sums _ _)
        fun _ _ => .ok _
  | imageStream =>
      dsimp only
      rw [divU64_of_ne_zero chunkSize_ne_zero,
        remU64_of_ne_zero chunkSize_ne_zero, Outcome.ok_bind, Outcome.ok_bind]
      refine .bind (.mapErr _
        (panicsOnly_readChunk platform crates allows chunksPerSegment_ne_zero _))
        fun chunk _ => ?_
      split
      · exact .ok _
      · -- something is left of the chunk, so the slice ends inside it
        rw [slice_of_le (by omega) (by omega)]
        exact .ok _

theorem panicsOnly_readStep
    (allows : Allows platform reader.chunkSize reasons)
    (chunkSize_ne_zero : reader.chunkSize ≠ 0)
    (chunksPerSegment_ne_zero : reader.chunksPerSegment ≠ 0)
    (onDisk : reader.pos ≤ reader.virtualSize) (bufLen : Nat) :
    Outcome.PanicsOnly reasons (reader.readStep platform crates bufLen) := by
  rw [readStep, subU64_of_le onDisk, Outcome.ok_bind]
  refine .bind (panicsOnly_target platform allows.sums) fun region _ => ?_
  refine .bind (panicsOnly_readTarget platform crates allows chunkSize_ne_zero
    chunksPerSegment_ne_zero region _) fun bytes _ => ?_
  exact .bind (panicsOnly_addU64 platform allows.sums _ _)
    fun _ _ => .ok _

theorem panicsOnly_read
    (allows : Allows platform reader.chunkSize reasons)
    (chunkSize_ne_zero : reader.chunkSize ≠ 0)
    (chunksPerSegment_ne_zero : reader.chunksPerSegment ≠ 0) (buf : Bytes) :
    Outcome.PanicsOnly reasons (reader.read platform crates buf).result := by
  rw [read]
  split
  · exact .ok _
  next asked =>
    rw [not_or, UInt64.not_le] at asked
    have only := panicsOnly_readStep platform crates allows chunkSize_ne_zero
      chunksPerSegment_ne_zero (UInt64.le_of_lt asked.2) buf.length
    split
    · exact .ok _
    · exact .err _
    next reason panics => exact .panic (only reason panics)

theorem panicsOnly_seek
    (allowed : platform.overflowChecks = true → reasons .addOverflow)
    (position : SeekFrom) :
    Outcome.PanicsOnly reasons (reader.seek platform position).1 := by
  have only : Outcome.PanicsOnly reasons
      (reader.seekTarget platform position) := by
    cases position with
    | start n => exact .ok _
    | fromEnd n => exact panicsOnly_addI64 platform allowed _ _
    | current n => exact panicsOnly_addI64 platform allowed _ _
  rw [seek]
  split
  · split
    · exact .err _
    · exact .ok _
  · exact .err _
  next reason panics => exact .panic (only reason panics)

end Aff4Reader
end

/-! ## Sessions -/

/-- The call ended in a panic. -/
def Answer.Panicked : Answer → Panic → Prop
  | .operated (.read result _), reason => result = .panic reason
  | .operated (.seek result), reason => result = .panic reason
  | .content run, reason => run.result = .panic reason
  | .hashes _, _ => False
  | .regions _, _ => False

/-- No call of any session divides by zero, reaches out of bounds or subtracts
below zero.  The operands of subtractions are in order in a build that does not
check them, too: those of a lookup and those of a content pass, which never
feeds more than the declared size. -/
structure Aff4Reader.SafeCalls
    (platform : Platform) (crates : Crates) (reader : Aff4Reader) : Prop where
  panics : ∀ calls : List Call,
    ∀ event ∈ run (Aff4Reader.answer platform crates) reader calls,
      ∀ reason, event.output.Panicked reason → TooLarge reason
  lookups : ∀ map, reader.loadedMap = some map →
    ∀ virtualPos entry,
      (map.search platform virtualPos : Outcome IoError (Option MapEntry)) =
        .ok (some entry) →
      entry.mapOffset ≤ virtualPos ∧
        virtualPos - entry.mapOffset ≤ entry.length
  content :
    (reader.readImageStreamContent platform crates).fed.flatten.length ≤
      reader.imageStreamSize.toNat

/-- One call of a reader with a chunk geometry without zeros. -/
theorem Aff4Reader.allowed_of_panicked
    (platform : Platform) (crates : Crates) {reader : Aff4Reader}
    {reasons : Panic → Prop} (allows : Allows platform reader.chunkSize reasons)
    (chunkSize_ne_zero : reader.chunkSize ≠ 0)
    (chunksPerSegment_ne_zero : reader.chunksPerSegment ≠ 0)
    (call : Call) {reason : Panic}
    (panicked : (reader.answer platform crates call).1.Panicked reason) :
    reasons reason := by
  cases call with
  | operate operation =>
      cases operation with
      | read buf =>
          exact panicsOnly_read platform crates allows chunkSize_ne_zero
            chunksPerSegment_ne_zero buf reason panicked
      | seek position =>
          exact panicsOnly_seek platform allows.sums position reason panicked
  | readImageStreamContent =>
      exact (panicsOnly_readImageStreamContent platform crates allows
        chunksPerSegment_ne_zero).1 reason panicked
  | storedImageHashes => cases panicked
  | unreadableRegions => cases panicked

theorem Aff4Reader.tooLarge_of_panicked
    (platform : Platform) (crates : Crates) {reader : Aff4Reader}
    (chunkSize_ne_zero : reader.chunkSize ≠ 0)
    (chunksPerSegment_ne_zero : reader.chunksPerSegment ≠ 0)
    (call : Call) {reason : Panic}
    (panicked : (reader.answer platform crates call).1.Panicked reason) :
    TooLarge reason :=
  allowed_of_panicked platform crates (allows_tooLarge platform _)
    chunkSize_ne_zero chunksPerSegment_ne_zero call panicked

/-- No call changes anything of a reader but its cursor. -/
theorem Aff4Reader.answer_reader
    (platform : Platform) (crates : Crates) (reader : Aff4Reader) (call : Call) :
    ∃ pos, (reader.answer platform crates call).2 = { reader with pos } := by
  cases call with
  | operate operation => exact perform_reader platform crates reader operation
  | readImageStreamContent => exact ⟨reader.pos, rfl⟩
  | storedImageHashes => exact ⟨reader.pos, rfl⟩
  | unreadableRegions => exact ⟨reader.pos, rfl⟩

/-- Every session of every reader that was opened is safe, and so is every
decryption: sums and sizes that are too large and sectors that are too short for
the cipher are all that can make them panic. -/
theorem safeCalls_and_decryptReader
    {platform : Platform} (wide : platform.Is64Bit) (crates : Crates) :
    (∀ reader : Aff4Reader, reader.Opened crates →
      reader.SafeCalls platform crates) ∧
    ∀ crypto backing password reason,
      decryptReader platform crates crypto backing password = .panic reason →
      TooLarge reason ∨ reason = Decrypt.shortSector := by
  constructor
  · intro reader opened
    have nonzero := opened.wellFormed
    refine ⟨fun calls => ?_, fun map _ virtualPos entry found =>
      LoadedMap.ordered_of_search platform found,
      (Aff4Reader.readImageStreamContent_within platform crates nonzero.2).2⟩
    apply forall_mem_run (Aff4Reader.answer platform crates)
      (fun state => ∃ pos, state = { reader with pos })
      (fun event => ∀ reason, event.output.Panicked reason → TooLarge reason)
    · rintro _ call ⟨pos, rfl⟩
      exact Aff4Reader.answer_reader platform crates _ call
    · rintro _ call ⟨pos, rfl⟩ reason panicked
      exact Aff4Reader.tooLarge_of_panicked platform crates
        (opened.withPos pos).wellFormed.1 (opened.withPos pos).wellFormed.2 call
        panicked
    · exact ⟨reader.pos, rfl⟩
  · intro crypto backing password reason panics
    rw [EncryptedContainer.decryptReader_eq_panic] at panics
    obtain ⟨container⟩ := EncryptedContainer.of_decryptVisits_eq_panic panics
    rcases (container.decryptVisits_eq_panic wide).mp panics with
      ⟨capacity, -⟩ | ⟨short, -⟩
    · exact .inl (.inr capacity)
    · exact .inr short

/-! A reader of the small container. -/

namespace SafetySample

def container : MapContainer
    (.opening (Small.archive (Small.mapFile [⟨0, 6, 0, 0⟩])
      (indexEntry 0 2 ++ indexEntry 2 1) [0x41, 0x42, 0x43]
      (Small.entries_short (by decide) (by decide) (by decide)))) [] :=
  Small.container _ _ _ _

theorem safeCalls_sample :
    container.reader.SafeCalls .debug64 (.opening container.archive) :=
  (safeCalls_and_decryptReader Platform.is64Bit_debug64 _).1 container.reader
    (.of_openReader container.openReader_eq)

end SafetySample
end Aff4
