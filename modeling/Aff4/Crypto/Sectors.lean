import Aff4.Crypto.Numbering

/-!
# Sectors shorter than a cipher block

The cipher panics on a sector of fewer than 16 bytes.  The decrypt loop checks
where a stored chunk lies but not how long it is, so it panics exactly when it
comes to such an entry before it has produced the declared size and before
anything else has stopped it.
-/

namespace Aff4
namespace Decrypt

open Rust

section Run

variable {platform : Platform} {metadata : EncryptedMeta} {cipher : Xts}
variable {index bevy : Bytes} {segment : UInt64} {before : Nat}

/-- How the chunk loop of a segment is stopped at an entry: all entries before it
are decrypted and do not reach the declared size, and the entry itself is not
decrypted. -/
structure StoppedAt
    (metadata : EncryptedMeta) (index bevy : Bytes)
    (segment before first entries distance : Nat) : Prop where
  below : distance < entries
  earlier : ∀ previous, previous < distance →
    Decryptable metadata index bevy segment (first + previous)
  needed : before + storedBytes index (first + distance) < metadata.size.toNat
  not_decryptable : ¬Decryptable metadata index bevy segment (first + distance)

/-- A loop that is stopped behind an entry that is decrypted. -/
theorem StoppedAt.succ
    {segment first entries distance : Nat}
    (decryptable : Decryptable metadata index bevy segment first)
    (stopped : StoppedAt metadata index bevy segment before (first + 1) entries
      distance) :
    StoppedAt metadata index bevy segment before first (entries + 1)
      (distance + 1) where
  below := Nat.succ_lt_succ stopped.below
  earlier := by
    intro previous below
    cases previous with
    | zero => exact decryptable
    | succ previous =>
        rw [show first + (previous + 1) = first + 1 + previous by omega]
        exact stopped.earlier previous (Nat.lt_of_succ_lt_succ below)
  needed := by
    rw [show first + (distance + 1) = first + 1 + distance by omega]
    exact stopped.needed
  not_decryptable := by
    rw [show first + (distance + 1) = first + 1 + distance by omega]
    exact stopped.not_decryptable

/-- The chunk loop of a segment returns, or it is stopped at an entry: with a
panic of the cipher if the entry's sector is too short, else with an error. -/
theorem segmentLoop_cases
    (wide : platform.Is64Bit) (cipher : Xts)
    (indexShort : index.length < 2 ^ 63) (bevyShort : bevy.length < 2 ^ 63)
    {entries first : Nat} (listed : first + entries ≤ index.length / 12)
    {produced : UInt64}
    (start : produced.toNat =
      min metadata.size.toNat (before + storedBytes index first)) :
    let looped := segmentLoop platform metadata cipher index bevy segment entries
      first produced
    (∃ visits total, looped = .ok (visits, total)) ∨
    ∃ distance,
      StoppedAt metadata index bevy segment.toNat before first entries distance ∧
      (ShortSector metadata index bevy segment.toNat (first + distance) ∧
          looped = .panic shortSector ∨
        ¬ShortSector metadata index bevy segment.toNat (first + distance) ∧
          ∃ error, looped = .err error) := by
  induction entries generalizing first produced with
  | zero => exact .inl ⟨[], produced, rfl⟩
  | succ entries inductionHypothesis =>
      intro looped
      by_cases more : produced < metadata.size
      case neg =>
        exact .inl ⟨[], produced, if_pos (UInt64.not_lt.mp more)⟩
      have moreBytes := UInt64.lt_iff_toNat_lt.mp more
      have sizeLt := metadata.size.toNat_lt
      have narrow : (UInt64.ofNat first).toNat = first :=
        toNat_ofNat_of_lt (by omega)
      have stoppedHere
          (stops : ¬Decryptable metadata index bevy segment.toNat first) :
          StoppedAt metadata index bevy segment.toNat before first (entries + 1)
            0 :=
        ⟨Nat.succ_pos _, fun _ below => absurd below (Nat.not_lt_zero _),
          by rw [Nat.add_zero]; omega, stops⟩
      have pass := decryptChunk_cases wide cipher indexShort bevyShort segment
        more (by rw [narrow]; omega)
      rw [narrow] at pass
      simp only [looped, segmentLoop, if_neg (UInt64.not_le.mpr more)]
      rcases pass with
        ⟨reads, decrypted⟩ | ⟨short, panics⟩ | ⟨unreadable, long, error, fails⟩
      · rw [← narrow] at reads
        obtain ⟨next, counted, -, reached⟩ :=
          addU64_appended platform cipher bevy more reads
        rw [narrow] at reads reached
        have step := storedBytes_succ index first
        rw [decrypted, Outcome.ok_bind]
        simp only [counted, Outcome.ok_bind]
        rcases @inductionHypothesis (first + 1) (by omega) next (by omega) with
          ⟨visits, total, returns⟩ |
            ⟨distance, stopped, ⟨short, panics⟩ | ⟨long, error, fails⟩⟩
        · rw [returns]
          exact .inl ⟨_, _, rfl⟩
        · rw [panics]
          refine .inr ⟨distance + 1, stopped.succ reads, .inl ⟨?_, rfl⟩⟩
          rwa [show first + (distance + 1) = first + 1 + distance by omega]
        · rw [fails]
          refine .inr ⟨distance + 1, stopped.succ reads, .inr ⟨?_, error, rfl⟩⟩
          rwa [show first + (distance + 1) = first + 1 + distance by omega]
      · rw [panics, Outcome.panic_bind]
        exact .inr ⟨0, stoppedHere short.not_decryptable, .inl ⟨short, rfl⟩⟩
      · rw [fails, Outcome.err_bind]
        exact .inr ⟨0, stoppedHere unreadable, .inr ⟨long, error, rfl⟩⟩

/-- A loop is stopped at one entry at most. -/
theorem StoppedAt.unique
    {segment first entries distance other : Nat}
    (stopped : StoppedAt metadata index bevy segment before first entries
      distance)
    (stoppedToo : StoppedAt metadata index bevy segment before first entries
      other) :
    distance = other := by
  rcases Nat.lt_trichotomy distance other with less | equal | greater
  · exact absurd (stoppedToo.earlier distance less) stopped.not_decryptable
  · exact equal
  · exact absurd (stopped.earlier other greater) stoppedToo.not_decryptable

/-- A loop that returns is not stopped. -/
theorem SegmentRun.not_stoppedAt
    {entries : Nat} {produced total : UInt64} {visits : List Visit}
    (run : SegmentRun metadata cipher index bevy segment before entries 0
      produced visits total) (distance : Nat) :
    ¬StoppedAt metadata index bevy segment.toNat before 0 entries distance := by
  intro stopped
  have below := stopped.below
  rcases Nat.lt_or_ge distance visits.length with visited | beyond
  · obtain ⟨_, decryptable, -⟩ :=
      run.visit_eq distance _ (List.getElem?_eq_getElem visited)
    exact stopped.not_decryptable decryptable
  · have reached := run.ended.resolve_left (by omega)
    rw [UInt64.le_iff_toNat_le, run.total_eq] at reached
    have needed := stopped.needed
    rw [Nat.zero_add] at needed reached
    have mono := storedBytes_mono index beyond
    omega

end Run

/-! ## The first sector that is too short -/

section Stream

variable (archive : ZipArchive) (zipBase : Text) (metadata : EncryptedMeta)

/-- Every chunk a segment lists is decrypted, and there is one. -/
structure DecryptsWhole (segment : Nat) : Prop where
  readable : Readable archive zipBase segment
  nonempty : 0 < entriesIn archive zipBase segment
  decryptable : ∀ chunkInSeg, chunkInSeg < entriesIn archive zipBase segment →
    Decryptable metadata (indexFile archive zipBase segment)
      (bevyFile archive zipBase segment) segment chunkInSeg

/-- An entry whose sector is too short is met before the declared size is
reached: everything before it is decrypted. -/
structure MeetsShortSector (segment chunkInSeg : Nat) : Prop where
  readable : Readable archive zipBase segment
  earlier : ∀ previous, previous < chunkInSeg →
    Decryptable metadata (indexFile archive zipBase segment)
      (bevyFile archive zipBase segment) segment previous
  needed : bytesBefore archive zipBase segment +
      storedBytes (indexFile archive zipBase segment) chunkInSeg <
    metadata.size.toNat
  short : ShortSector metadata (indexFile archive zipBase segment)
    (bevyFile archive zipBase segment) segment chunkInSeg

variable {archive zipBase metadata}

theorem meetsShortSector_iff
    {segment chunkInSeg : Nat} :
    MeetsShortSector archive zipBase metadata segment chunkInSeg ↔
      Readable archive zipBase segment ∧
        StoppedAt metadata (indexFile archive zipBase segment)
          (bevyFile archive zipBase segment) segment
          (bytesBefore archive zipBase segment) 0
          (entriesIn archive zipBase segment) chunkInSeg ∧
        ShortSector metadata (indexFile archive zipBase segment)
          (bevyFile archive zipBase segment) segment chunkInSeg := by
  constructor
  · intro meets
    have listed := meets.short.listed
    refine ⟨meets.readable, ⟨?_, ?_, ?_, ?_⟩, meets.short⟩
    · unfold entriesIn
      omega
    · intro previous below
      rw [Nat.zero_add]
      exact meets.earlier previous below
    · rw [Nat.zero_add]
      exact meets.needed
    · rw [Nat.zero_add]
      exact meets.short.not_decryptable
  · rintro ⟨readable, stopped, short⟩
    refine ⟨readable, fun previous below => ?_, ?_, short⟩
    · have decryptable := stopped.earlier previous below
      rwa [Nat.zero_add] at decryptable
    · have needed := stopped.needed
      rwa [Nat.zero_add] at needed

variable (archive zipBase metadata) in
/-- From a segment on, every segment is decrypted as a whole up to one in which a
sector that is too short is met. -/
def ShortSectorFrom (first : Nat) : Prop :=
  ∃ segment chunkInSeg, first ≤ segment ∧
    (∀ previous, first ≤ previous → previous < segment →
      DecryptsWhole archive zipBase metadata previous) ∧
    MeetsShortSector archive zipBase metadata segment chunkInSeg

/-- The short sector is met in a segment itself or behind it. -/
theorem shortSectorFrom_iff {first : Nat} :
    ShortSectorFrom archive zipBase metadata first ↔
      (∃ chunkInSeg,
        MeetsShortSector archive zipBase metadata first chunkInSeg) ∨
      DecryptsWhole archive zipBase metadata first ∧
        ShortSectorFrom archive zipBase metadata (first + 1) := by
  constructor
  · rintro ⟨segment, chunkInSeg, le, whole, meets⟩
    rcases Nat.eq_or_lt_of_le le with rfl | less
    · exact .inl ⟨chunkInSeg, meets⟩
    · exact .inr ⟨whole first le_rfl less, segment, chunkInSeg, less,
        fun previous above => whole previous (by omega), meets⟩
  · rintro (⟨chunkInSeg, meets⟩ | ⟨here, segment, chunkInSeg, less, whole, meets⟩)
    · exact ⟨first, chunkInSeg, le_rfl, fun _ above below => by omega, meets⟩
    · refine ⟨segment, chunkInSeg, by omega, fun previous above below => ?_, meets⟩
      rcases Nat.eq_or_lt_of_le above with rfl | beyond
      · exact here
      · exact whole previous beyond below

theorem ShortSectorFrom.readable {first : Nat}
    (from_ : ShortSectorFrom archive zipBase metadata first) :
    Readable archive zipBase first := by
  rcases shortSectorFrom_iff.mp from_ with ⟨_, meets⟩ | ⟨whole, -⟩
  · exact meets.readable
  · exact whole.readable

theorem ShortSectorFrom.nonempty {first : Nat}
    (from_ : ShortSectorFrom archive zipBase metadata first) :
    0 < entriesIn archive zipBase first := by
  rcases shortSectorFrom_iff.mp from_ with ⟨_, meets⟩ | ⟨whole, -⟩
  · have listed := meets.short.listed
    unfold entriesIn
    omega
  · exact whole.nonempty

/-- No short sector is met once the declared size is reached. -/
theorem ShortSectorFrom.bytesBefore_lt {first : Nat}
    (from_ : ShortSectorFrom archive zipBase metadata first) :
    bytesBefore archive zipBase first < metadata.size.toNat := by
  obtain ⟨segment, chunkInSeg, le, -, meets⟩ := from_
  have mono : bytesBefore archive zipBase first ≤
      bytesBefore archive zipBase segment := bytesBefore_mono le
  have needed := meets.needed
  omega

/-- A short sector is met in a segment that has a number. -/
theorem ShortSectorFrom.lt
    (nonzero : metadata.chunksPerSegment ≠ 0) {first : Nat}
    (from_ : ShortSectorFrom archive zipBase metadata first) :
    first < 2 ^ 64 := by
  obtain ⟨segment, chunkInSeg, le, -, meets⟩ := from_
  have positive : 0 < metadata.chunksPerSegment.toNat :=
    Nat.pos_of_ne_zero fun zero => nonzero (UInt64.toNat_inj.mp zero)
  have numbered := meets.short.numbered
  have atLeast := Nat.le_mul_of_pos_right segment positive
  unfold chunkId at numbered
  omega

/-- A segment that is decrypted as a whole does not stop the loop. -/
theorem DecryptsWhole.not_stoppedAt {segment before distance : Nat}
    (whole : DecryptsWhole archive zipBase metadata segment) :
    ¬StoppedAt metadata (indexFile archive zipBase segment)
      (bevyFile archive zipBase segment) segment before 0
      (entriesIn archive zipBase segment) distance := by
  intro stopped
  apply stopped.not_decryptable
  rw [Nat.zero_add]
  exact whole.decryptable distance stopped.below

/-- A run that leaves bytes to the next segment decrypts its segment as a
whole. -/
theorem SegmentRun.decryptsWhole
    {cipher : Xts} {segment produced total : UInt64} {visits : List Visit}
    (run : SegmentRun metadata cipher (indexFile archive zipBase segment.toNat)
      (bevyFile archive zipBase segment.toNat) segment
      (bytesBefore archive zipBase segment.toNat)
      (entriesIn archive zipBase segment.toNat) 0 produced visits total)
    (readable : Readable archive zipBase segment.toNat)
    (nonempty : 0 < entriesIn archive zipBase segment.toNat)
    (more : bytesBefore archive zipBase (segment.toNat + 1) <
      metadata.size.toNat) :
    DecryptsWhole archive zipBase metadata segment.toNat := by
  have used : visits.length = entriesIn archive zipBase segment.toNat := by
    rcases run.ended with used | reached
    · exact used
    · have total_eq := run.total_eq
      have mono := storedBytes_mono (indexFile archive zipBase segment.toNat)
        run.length_le
      rw [UInt64.le_iff_toNat_le] at reached
      rw [bytesBefore_succ] at more
      rw [Nat.zero_add] at total_eq
      omega
  refine ⟨readable, nonempty, fun chunkInSeg below => ?_⟩
  obtain ⟨_, decryptable, -⟩ :=
    run.visit_eq chunkInSeg _ (List.getElem?_eq_getElem (by omega))
  rwa [Nat.zero_add] at decryptable

/-- Behind a segment that the loop got through, a short sector is met behind it. -/
theorem SegmentRun.shortSectorFrom_iff
    {cipher : Xts} {segment produced total : UInt64} {visits : List Visit}
    (run : SegmentRun metadata cipher (indexFile archive zipBase segment.toNat)
      (bevyFile archive zipBase segment.toNat) segment
      (bytesBefore archive zipBase segment.toNat)
      (entriesIn archive zipBase segment.toNat) 0 produced visits total)
    (readable : Readable archive zipBase segment.toNat)
    (nonempty : 0 < entriesIn archive zipBase segment.toNat) :
    ShortSectorFrom archive zipBase metadata segment.toNat ↔
      ShortSectorFrom archive zipBase metadata (segment.toNat + 1) := by
  rw [Decrypt.shortSectorFrom_iff, or_iff_right, and_iff_right_of_imp]
  · intro from_
    exact run.decryptsWhole readable nonempty from_.bytesBefore_lt
  · rintro ⟨chunkInSeg, meets⟩
    exact run.not_stoppedAt chunkInSeg (meetsShortSector_iff.mp meets).2.1

/-- In a segment that stops the loop, a short sector is met if that is what stopped
it. -/
theorem StoppedAt.shortSectorFrom_iff {segment chunkInSeg : Nat}
    (stopped : StoppedAt metadata (indexFile archive zipBase segment)
      (bevyFile archive zipBase segment) segment
      (bytesBefore archive zipBase segment) 0
      (entriesIn archive zipBase segment) chunkInSeg)
    (readable : Readable archive zipBase segment) :
    ShortSectorFrom archive zipBase metadata segment ↔
      ShortSector metadata (indexFile archive zipBase segment)
        (bevyFile archive zipBase segment) segment chunkInSeg := by
  rw [Decrypt.shortSectorFrom_iff]
  constructor
  · rintro (⟨other, meets⟩ | ⟨whole, -⟩)
    · obtain ⟨-, stoppedToo, short⟩ := meetsShortSector_iff.mp meets
      rwa [stoppedToo.unique stopped] at short
    · exact absurd stopped whole.not_stoppedAt
  · intro short
    exact .inl ⟨chunkInSeg, meetsShortSector_iff.mpr ⟨readable, stopped, short⟩⟩

variable {platform : Platform}

/-- The segment loop panics exactly when it meets a sector that is too short. -/
theorem streamLoop_eq_panic
    (wide : platform.Is64Bit) (cipher : Xts)
    (nonzero : metadata.chunksPerSegment ≠ 0)
    {passes : Nat} {segment produced : UInt64}
    (enough : metadata.size.toNat - produced.toNat ≤ passes)
    (start : produced.toNat =
      min metadata.size.toNat (bytesBefore archive zipBase segment.toNat))
    {reason : Panic} :
    streamLoop platform archive zipBase metadata cipher passes segment
        produced = .panic reason ↔
      reason = shortSector ∧
        ShortSectorFrom archive zipBase metadata segment.toNat := by
  induction passes generalizing segment produced with
  | zero =>
      apply iff_of_false (fun panics => by cases panics)
      rintro ⟨-, from_⟩
      have needed := from_.bytesBefore_lt
      omega
  | succ passes inductionHypothesis =>
      by_cases more : produced < metadata.size
      case neg =>
        rw [streamLoop, if_pos (UInt64.not_lt.mp more)]
        rw [UInt64.lt_iff_toNat_lt] at more
        apply iff_of_false (fun panics => by cases panics)
        rintro ⟨-, from_⟩
        have needed := from_.bytesBefore_lt
        omega
      rw [streamLoop, if_neg (UInt64.not_le.mpr more)]
      cases indexRead : archive.readEntry (indexName zipBase segment) with
      | error error =>
          apply iff_of_false (fun panics => by cases panics)
          rintro ⟨-, from_⟩
          have read := from_.readable.1
          rw [UInt64.ofNat_toNat, indexRead] at read
          cases read
      | ok index =>
      cases bevyRead : archive.readEntry (segmentName zipBase segment) with
      | error error =>
          apply iff_of_false (fun panics => by cases panics)
          rintro ⟨-, from_⟩
          have read := from_.readable.2
          rw [UInt64.ofNat_toNat, bevyRead] at read
          cases read
      | ok bevy =>
      obtain ⟨rfl, rfl, readable⟩ := readable_of_readEntry indexRead bevyRead
      have indexShort := ZipArchive.length_lt_of_readEntry_eq_ok indexRead
      have bevyShort := ZipArchive.length_lt_of_readEntry_eq_ok bevyRead
      rw [Outcome.ofExcept_ok, Outcome.ok_bind, Outcome.ofExcept_ok,
        Outcome.ok_bind]
      dsimp only
      by_cases empty : (indexFile archive zipBase segment.toNat).length / 12 = 0
      case pos =>
        rw [if_pos empty]
        apply iff_of_false (fun panics => by cases panics)
        rintro ⟨-, from_⟩
        exact absurd empty (Nat.pos_iff_ne_zero.mp from_.nonempty)
      rw [if_neg empty]
      have nonempty := Nat.pos_of_ne_zero empty
      have listed : 0 + (indexFile archive zipBase segment.toNat).length / 12 ≤
          (indexFile archive zipBase segment.toNat).length / 12 := by omega
      have startHere : produced.toNat = min metadata.size.toNat
          (bytesBefore archive zipBase segment.toNat +
            storedBytes (indexFile archive zipBase segment.toNat) 0) := start
      rcases segmentLoop_cases wide cipher indexShort bevyShort listed startHere
        with ⟨visits, total, returns⟩ |
          ⟨chunkInSeg, stopped, ⟨short, panics⟩ | ⟨long, error, fails⟩⟩
      · have run :=
          segmentLoop_run wide indexShort bevyShort listed startHere returns
        rw [returns, Outcome.ok_bind]
        rw [run.shortSectorFrom_iff readable nonempty]
        dsimp only
        by_cases fits : segment.toNat + 1 < 2 ^ 64
        · have next_eq : (segment + 1).toNat = segment.toNat + 1 :=
            toNat_add_of_lt fits
          have ahead := (run.lt_total start more nonempty).2
          have rest := inductionHypothesis (by omega) (run.next_start next_eq)
          rw [next_eq] at rest
          rw [checkedAddU64, UInt64.toNat_one, if_pos fits, Outcome.okOr_some, Outcome.ok_bind,
            ← rest]
          cases streamLoop platform archive zipBase metadata cipher passes
            (segment + 1) total <;> simp
        · rw [checkedAddU64, UInt64.toNat_one, if_neg fits, Outcome.okOr_none, Outcome.err_bind]
          apply iff_of_false (fun panics => by cases panics)
          rintro ⟨-, from_⟩
          exact fits (from_.lt nonzero)
      · rw [Nat.zero_add] at short
        rw [panics, Outcome.panic_bind, Outcome.panic.injEq,
          stopped.shortSectorFrom_iff readable, and_iff_left short, eq_comm]
      · rw [Nat.zero_add] at long
        rw [fails, Outcome.err_bind, stopped.shortSectorFrom_iff readable]
        exact iff_of_false (fun panics => by cases panics) fun meets => long meets.2

end Stream
end Decrypt

open Rust

namespace EncryptedContainer

variable {platform : Platform} {crates : Crates} {backing : Bytes}

/-- The password opens the keybag, memory for the plaintext can be asked for, and
a sector that is too short is met before the declared size is reached. -/
def MeetsShortSector
    (container : EncryptedContainer platform crates backing)
    (crypto : CryptoCrates) (password : Text) : Prop :=
  (∃ vek, deriveVek crypto password container.metadata = .ok vek) ∧
    container.metadata.size.toNat ≤ platform.isizeMax ∧
    ∃ segment chunkInSeg,
      (∀ previous, previous < segment →
        Decrypt.DecryptsWhole container.archive container.zipBase
          container.metadata previous) ∧
      Decrypt.MeetsShortSector container.archive container.zipBase
        container.metadata segment chunkInSeg

/-- Decryption panics when memory for the plaintext cannot be asked for, and when
a sector that is too short is met. -/
theorem decryptVisits_eq_panic
    (container : EncryptedContainer platform crates backing)
    (wide : platform.Is64Bit) {crypto : CryptoCrates} {password : Text}
    {reason : Panic} :
    decryptVisits platform crates crypto backing password = .panic reason ↔
      (reason = .capacityOverflow ∧
        (∃ vek, deriveVek crypto password container.metadata = .ok vek) ∧
        platform.isizeMax < container.metadata.size.toNat) ∨
      (reason = Decrypt.shortSector ∧
        container.MeetsShortSector crypto password) := by
  have size_eq := asUsize_of_is64Bit wide container.metadata.size
  rw [container.decryptVisits_eq, size_eq]
  cases opened : deriveVek crypto password container.metadata with
  | error error =>
      apply iff_of_false (fun panics => by cases panics)
      rintro (⟨-, ⟨vek, returns⟩, -⟩ | ⟨-, ⟨vek, returns⟩, -⟩)
      · cases returns
      · rw [opened] at returns
        cases returns
  | ok vek =>
      rw [Outcome.ofExcept_ok, Outcome.ok_bind]
      by_cases fits : container.metadata.size.toNat ≤ platform.isizeMax
      · have nonzero := parseEncryptedMeta_chunksPerSegment container.metadata_eq
        rw [withCapacity_of_le fits, Outcome.ok_bind, decryptWith,
          Decrypt.streamLoop_eq_panic wide _ nonzero (Nat.sub_le _ _)
            Decrypt.start_streamLoop,
          or_iff_right (fun oversized => absurd fits (by omega))]
        apply and_congr_right
        intro _
        simp only [Decrypt.ShortSectorFrom, UInt64.toNat_zero, Nat.zero_le,
          true_and, forall_const, MeetsShortSector, opened, Except.ok.injEq,
          exists_eq', fits]
      · rw [withCapacity, if_neg fits, Outcome.panic_bind, Outcome.panic.injEq]
        have oversized := Nat.lt_of_not_le fits
        constructor
        · rintro rfl
          exact .inl ⟨rfl, ⟨vek, rfl⟩, oversized⟩
        · rintro (⟨rfl, -⟩ | ⟨-, meets⟩)
          · rfl
          · exact absurd meets.2.1 fits

/-- Whatever panics during decryption has a container. -/
theorem of_decryptVisits_eq_panic
    {crypto : CryptoCrates} {password : Text} {reason : Panic}
    (panics :
      decryptVisits platform crates crypto backing password = .panic reason) :
    Nonempty (EncryptedContainer platform crates backing) := by
  rcases Outcome.bind_eq_panic.mp panics with impossible | ⟨archive, archive_eq, panics⟩
  · exact absurd impossible Outcome.ofExcept_ne_panic
  rcases Outcome.bind_eq_panic.mp panics with impossible | ⟨turtle, turtle_eq, panics⟩
  · exact absurd impossible Outcome.ofExcept_ne_panic
  rcases Outcome.bind_eq_panic.mp panics with impossible | ⟨metadata, metadata_eq, -⟩
  · exact absurd impossible Outcome.ofExcept_ne_panic
  rw [Outcome.ofExcept_eq_ok] at archive_eq turtle_eq metadata_eq
  rw [mapError_eq_ok] at archive_eq
  exact ⟨{ archive, turtle, metadata, archive_eq, turtle_eq, metadata_eq }⟩

theorem decryptReader_eq_panic
    {crypto : CryptoCrates} {password : Text} {reason : Panic} :
    decryptReader platform crates crypto backing password = .panic reason ↔
      decryptVisits platform crates crypto backing password = .panic reason := by
  rw [decryptReader]
  cases decryptVisits platform crates crypto backing password <;> simp

/-- No sector is too short for the cipher exactly when none is met on the way to
the declared size. -/
theorem decryptReader_ne_shortSector_iff
    (wide : platform.Is64Bit) (crates : Crates) (crypto : CryptoCrates)
    (backing : Bytes) (password : Text) :
    decryptReader platform crates crypto backing password ≠
        .panic Decrypt.shortSector ↔
      ∀ container : EncryptedContainer platform crates backing,
        ¬container.MeetsShortSector crypto password := by
  rw [Ne, decryptReader_eq_panic]
  constructor
  · intro runs container meets
    exact runs ((container.decryptVisits_eq_panic wide).mpr (.inr ⟨rfl, meets⟩))
  · intro none panics
    obtain ⟨container⟩ := of_decryptVisits_eq_panic panics
    rcases (container.decryptVisits_eq_panic wide).mp panics with
      ⟨reason, -⟩ | ⟨-, meets⟩
    · cases reason
    · exact none container meets

end EncryptedContainer

/-! A volume whose first index entry has length zero. -/

namespace EncryptedSample

def zeroEntries : List (Text × Bytes) :=
  [("information.turtle".toList, Str.asBytes turtle),
    ("aff4://e/00000000.index".toList, indexEntry 0 0),
    ("aff4://e/00000000".toList, [])]

theorem zeroEntries_short :
    ∀ entry ∈ zeroEntries, entry.2.length < 2 ^ 63 := by
  simp only [zeroEntries, List.forall_mem_cons]
  exact ⟨length_asBytes_turtle_lt, by decide, by decide, fun _ none => by cases none⟩

def zeroArchive : ZipArchive := .ofEntries zeroEntries zeroEntries_short

def zeroContainer : EncryptedContainer .debug64 (.opening zeroArchive) [] where
  archive := zeroArchive
  turtle := turtle
  metadata := metadata
  archive_eq := rfl
  turtle_eq := ZipArchive.readEntryToString_of_asBytes turtle
    (ZipArchive.readEntry_ofEntries rfl)
  metadata_eq := metadata_eq

theorem decryptReader_shortSector_zeroEntry :
    decryptReader .debug64 (.opening zeroArchive) crypto [] password =
      .panic Decrypt.shortSector := by
  have opened : deriveVek crypto password zeroContainer.metadata = .ok vek := rfl
  have allocated : (withCapacity .debug64
      (asUsize .debug64 zeroContainer.metadata.size) :
      Outcome Aff4Error Unit) = .ok () := withCapacity_of_le (by
    change asUsize .debug64 metadata.size ≤ _
    decide)
  rw [EncryptedContainer.decryptReader_eq_panic, zeroContainer.decryptVisits_eq,
    opened, Outcome.ofExcept_ok, Outcome.ok_bind, allocated, Outcome.ok_bind]
  decide +kernel

theorem decryptReader_ne_shortSector_iff_zeroEntry :
    decryptReader .debug64 (.opening zeroArchive) crypto [] password ≠
        .panic Decrypt.shortSector ↔
      ∀ container : EncryptedContainer .debug64 (.opening zeroArchive) [],
        ¬container.MeetsShortSector crypto password :=
  EncryptedContainer.decryptReader_ne_shortSector_iff Platform.is64Bit_debug64
    _ _ _ _

end EncryptedSample
end Aff4
