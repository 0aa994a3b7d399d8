import Mathlib.Algebra.BigOperators.Group.Finset.Basic
import Mathlib.Algebra.Order.BigOperators.Group.Finset
import Aff4.Crypto

/-!
# The numbers of the decrypted chunks

The decrypt loop takes the entries of each index file as they come, whereas the
tweak of an entry is computed from the declared chunks per segment.  The two
agree exactly when each index that is used up lists as many entries as a segment
is declared to have.
-/

namespace Aff4
namespace Decrypt

open Rust

/-- The stored size of an entry. -/
def entryBytes (index : Bytes) (chunkInSeg : Nat) : Nat :=
  (entryLength (indexEntryAt index chunkInSeg)).toNat

/-- The stored size of the first entries of an index. -/
def storedBytes (index : Bytes) (count : Nat) : Nat :=
  ∑ chunkInSeg ∈ Finset.range count, entryBytes index chunkInSeg

theorem storedBytes_succ (index : Bytes) (count : Nat) :
    storedBytes index (count + 1) =
      storedBytes index count + entryBytes index count :=
  Finset.sum_range_succ _ _

theorem storedBytes_mono (index : Bytes) {few many : Nat} (le : few ≤ many) :
    storedBytes index few ≤ storedBytes index many := by
  apply Finset.sum_le_sum_of_subset
  exact Finset.range_subset_range.mpr le

section Run

variable {platform : Platform} {metadata : EncryptedMeta} {cipher : Xts}

theorem length_appended_visitAt
    {index bevy : Bytes} {segment chunkInSeg produced : UInt64}
    (decryptable :
      Decryptable metadata index bevy segment.toNat chunkInSeg.toNat) :
    (visitAt metadata cipher index bevy segment chunkInSeg
        produced).appended.length =
      min (metadata.size.toNat - produced.toNat)
        (entryBytes index chunkInSeg.toNat) := by
  rw [visitAt, List.length_take, cipher.decryptSector_length,
    length_storedChunk decryptable.inside, entryBytes]

/-- The count of bytes produced behind a chunk that is decrypted. -/
theorem addU64_appended
    (platform : Platform) (cipher : Xts) {index : Bytes} (bevy : Bytes)
    {segment chunkInSeg produced : UInt64} (more : produced < metadata.size)
    (decryptable :
      Decryptable metadata index bevy segment.toNat chunkInSeg.toNat) :
    let visit :=
      visitAt metadata cipher index bevy segment chunkInSeg produced
    ∃ next : UInt64,
      (addU64 platform produced (UInt64.ofNat visit.appended.length) :
        Outcome Aff4Error UInt64) = .ok next ∧
      next.toNat = produced.toNat + visit.appended.length ∧
      next.toNat = min metadata.size.toNat
        (produced.toNat + entryBytes index chunkInSeg.toNat) := by
  intro visit
  have moreBytes := UInt64.lt_iff_toNat_lt.mp more
  have sizeLt := metadata.size.toNat_lt
  have length : visit.appended.length =
      min (metadata.size.toNat - produced.toNat)
        (entryBytes index chunkInSeg.toNat) :=
    length_appended_visitAt decryptable
  have narrow : (UInt64.ofNat visit.appended.length).toNat =
      visit.appended.length := toNat_ofNat_of_lt (by omega)
  have next_eq := toNat_add_of_lt (a := produced)
    (b := UInt64.ofNat visit.appended.length) (by omega)
  refine ⟨_, addU64_of_lt (by omega), ?_, ?_⟩
  · rw [next_eq, narrow]
  · rw [next_eq, narrow, length]
    omega

/-- What the chunk loop does in a segment when `before` bytes are stored in the
segments before it: the entries from `first` on are decrypted one after another
until the declared size is reached or the index is used up. -/
structure SegmentRun
    (metadata : EncryptedMeta) (cipher : Xts) (index bevy : Bytes)
    (segment : UInt64) (before entries first : Nat) (produced : UInt64)
    (visits : List Visit) (total : UInt64) : Prop where
  visit_eq : ∀ distance visit, visits[distance]? = some visit →
    ∃ produced : UInt64,
      Decryptable metadata index bevy segment.toNat (first + distance) ∧
      visit = visitAt metadata cipher index bevy segment
        (UInt64.ofNat (first + distance)) produced
  more : ∀ distance, distance < visits.length →
    before + storedBytes index (first + distance) < metadata.size.toNat
  length_le : visits.length ≤ entries
  total_eq : total.toNat =
    min metadata.size.toNat (before + storedBytes index (first + visits.length))
  appended : total.toNat =
    produced.toNat + (visits.flatMap Visit.appended).length
  ended : visits.length = entries ∨ metadata.size ≤ total

namespace SegmentRun

variable {index bevy : Bytes} {segment : UInt64} {before entries first : Nat}
  {produced : UInt64}

/-- The loop is over when the size is reached or no entry is left. -/
theorem nil
    (start : produced.toNat =
      min metadata.size.toNat (before + storedBytes index first))
    (ended : 0 = entries ∨ metadata.size ≤ produced) :
    SegmentRun metadata cipher index bevy segment before entries first produced
      [] produced where
  visit_eq := fun _ _ found => by cases found
  more := fun _ below => absurd below (Nat.not_lt_zero _)
  length_le := Nat.zero_le _
  total_eq := start
  appended := rfl
  ended := ended

/-- One pass of the loop, followed by the others. -/
theorem cons
    {visit : Visit} {visits : List Visit} {next total : UInt64}
    (decryptable : Decryptable metadata index bevy segment.toNat first)
    (visit_eq : visit = visitAt metadata cipher index bevy segment
      (UInt64.ofNat first) produced)
    (more : before + storedBytes index first < metadata.size.toNat)
    (next_eq : next.toNat = produced.toNat + visit.appended.length)
    (run : SegmentRun metadata cipher index bevy segment before entries
      (first + 1) next visits total) :
    SegmentRun metadata cipher index bevy segment before (entries + 1) first
      produced (visit :: visits) total where
  visit_eq := by
    intro distance other found
    cases distance with
    | zero =>
        cases found
        exact ⟨produced, decryptable, visit_eq⟩
    | succ distance =>
        rw [show first + (distance + 1) = first + 1 + distance by omega]
        exact run.visit_eq distance other found
  more := by
    intro distance below
    cases distance with
    | zero => exact more
    | succ distance =>
        rw [show first + (distance + 1) = first + 1 + distance by omega]
        exact run.more distance (Nat.lt_of_succ_lt_succ below)
  length_le := Nat.succ_le_succ run.length_le
  total_eq := by
    rw [run.total_eq, List.length_cons]
    congr 3
    omega
  appended := by
    rw [run.appended, next_eq, List.flatMap_cons, List.length_append]
    omega
  ended := run.ended.imp (congrArg Nat.succ) id

/-- A run in a segment with an entry gets ahead. -/
theorem lt_total
    {visits : List Visit} {total : UInt64}
    (run : SegmentRun metadata cipher index bevy segment before entries 0
      produced visits total)
    (start : produced.toNat = min metadata.size.toNat before)
    (more : produced < metadata.size) (nonempty : 0 < entries) :
    0 < visits.length ∧ produced.toNat < total.toNat := by
  have moreBytes := UInt64.lt_iff_toNat_lt.mp more
  have total_eq := run.total_eq
  rw [Nat.zero_add] at total_eq
  have some : 0 < visits.length := by
    rcases run.ended with used | reached
    · omega
    · rw [UInt64.le_iff_toNat_le] at reached
      by_contra none
      rw [Nat.eq_zero_of_not_pos none, storedBytes, Finset.sum_range_zero] at total_eq
      omega
  refine ⟨some, ?_⟩
  obtain ⟨_, decryptable, -⟩ :=
    run.visit_eq 0 _ (List.getElem?_eq_getElem some)
  have block : 16 ≤ storedBytes index 1 := by
    rw [storedBytes_succ, storedBytes, Finset.sum_range_zero, Nat.zero_add]
    exact decryptable.block
  have mono : storedBytes index 1 ≤ storedBytes index visits.length :=
    storedBytes_mono index some
  omega

end SegmentRun

/-- One pass of the chunk loop decrypts the chunk of one entry. -/
theorem segmentLoop_step
    (wide : platform.Is64Bit)
    {index bevy : Bytes} (indexShort : index.length < 2 ^ 63)
    (bevyShort : bevy.length < 2 ^ 63)
    {segment : UInt64} {entries first : Nat}
    (listed : first + (entries + 1) ≤ index.length / 12)
    {produced : UInt64} (more : produced < metadata.size)
    {visits : List Visit} {total : UInt64}
    (returns : segmentLoop platform metadata cipher index bevy segment
      (entries + 1) first produced = .ok (visits, total)) :
    let visit := visitAt metadata cipher index bevy segment
      (UInt64.ofNat first) produced
    ∃ next later,
      Decryptable metadata index bevy segment.toNat first ∧
      next.toNat = produced.toNat + visit.appended.length ∧
      next.toNat =
        min metadata.size.toNat (produced.toNat + entryBytes index first) ∧
      segmentLoop platform metadata cipher index bevy segment entries (first + 1)
        next = .ok (later, total) ∧
      visits = visit :: later := by
  rw [segmentLoop, if_neg (UInt64.not_le.mpr more)] at returns
  obtain ⟨visit, decrypted, returns⟩ := Outcome.bind_eq_ok.mp returns
  obtain ⟨next, added, returns⟩ := Outcome.bind_eq_ok.mp returns
  obtain ⟨⟨later, final⟩, looped, returns⟩ := Outcome.bind_eq_ok.mp returns
  cases returns
  have narrow : (UInt64.ofNat first).toNat = first :=
    toNat_ofNat_of_lt (by omega)
  obtain ⟨decryptable, visit_eq⟩ :=
    (decryptChunk_eq_ok wide indexShort bevyShort more).mp decrypted
  obtain ⟨ahead, counted, next_eq, reached⟩ :=
    addU64_appended platform cipher bevy more decryptable
  rw [visit_eq, counted, Outcome.ok.injEq] at added
  subst added
  rw [narrow] at decryptable reached
  exact ⟨ahead, later, decryptable, next_eq, reached, looped, by rw [visit_eq]⟩

theorem segmentLoop_run
    (wide : platform.Is64Bit)
    {index bevy : Bytes} (indexShort : index.length < 2 ^ 63)
    (bevyShort : bevy.length < 2 ^ 63)
    {segment : UInt64} {before entries first : Nat}
    (listed : first + entries ≤ index.length / 12)
    {produced : UInt64}
    (start : produced.toNat =
      min metadata.size.toNat (before + storedBytes index first))
    {visits : List Visit} {total : UInt64}
    (returns : segmentLoop platform metadata cipher index bevy segment entries
      first produced = .ok (visits, total)) :
    SegmentRun metadata cipher index bevy segment before entries first produced
      visits total := by
  induction entries generalizing first produced visits total with
  | zero =>
      cases returns
      exact .nil start (.inl rfl)
  | succ entries inductionHypothesis =>
      by_cases more : produced < metadata.size
      case neg =>
        have reached := UInt64.not_lt.mp more
        rw [segmentLoop, if_pos reached] at returns
        cases returns
        exact .nil start (.inr reached)
      have moreBytes := UInt64.lt_iff_toNat_lt.mp more
      have step := storedBytes_succ index first
      obtain ⟨next, later, decryptable, next_eq, reached, looped, rfl⟩ :=
        segmentLoop_step wide indexShort bevyShort listed more returns
      exact .cons decryptable rfl (by omega) next_eq
        (inductionHypothesis (by omega) (by omega) looped)

end Run

/-! ## The segments of a stream -/

section Stream

variable (archive : ZipArchive) (zipBase : Text) (metadata : EncryptedMeta)

/-- The index file of a segment, empty where it cannot be read. -/
def indexFile (segment : Nat) : Bytes :=
  (archive.readEntry (indexName zipBase (UInt64.ofNat segment))).toOption.getD []

/-- The bevy of a segment, empty where it cannot be read. -/
def bevyFile (segment : Nat) : Bytes :=
  (archive.readEntry (segmentName zipBase (UInt64.ofNat segment))).toOption.getD []

/-- Both files of a segment can be read. -/
def Readable (segment : Nat) : Prop :=
  archive.readEntry (indexName zipBase (UInt64.ofNat segment)) =
      .ok (indexFile archive zipBase segment) ∧
    archive.readEntry (segmentName zipBase (UInt64.ofNat segment)) =
      .ok (bevyFile archive zipBase segment)

/-- The number of entries a segment's index lists. -/
def entriesIn (segment : Nat) : Nat :=
  (indexFile archive zipBase segment).length / 12

/-- The stored size of everything the segments before a segment list. -/
def bytesBefore (segment : Nat) : Nat :=
  ∑ earlier ∈ Finset.range segment,
    storedBytes (indexFile archive zipBase earlier)
      (entriesIn archive zipBase earlier)

/-- The index of a segment lists exactly the chunks a segment has, unless the
declared size is reached before that matters. -/
def FullAt (segment : Nat) : Prop :=
  bytesBefore archive zipBase segment +
      storedBytes (indexFile archive zipBase segment)
        (min (entriesIn archive zipBase segment)
          metadata.chunksPerSegment.toNat) < metadata.size.toNat →
    entriesIn archive zipBase segment = metadata.chunksPerSegment.toNat

variable {archive zipBase metadata}

theorem readable_of_readEntry
    {segment : UInt64} {index bevy : Bytes}
    (indexRead : archive.readEntry (indexName zipBase segment) = .ok index)
    (bevyRead : archive.readEntry (segmentName zipBase segment) = .ok bevy) :
    indexFile archive zipBase segment.toNat = index ∧
      bevyFile archive zipBase segment.toNat = bevy ∧
      Readable archive zipBase segment.toNat := by
  have index_eq : indexFile archive zipBase segment.toNat = index := by
    rw [indexFile, UInt64.ofNat_toNat, indexRead]
    rfl
  have bevy_eq : bevyFile archive zipBase segment.toNat = bevy := by
    rw [bevyFile, UInt64.ofNat_toNat, bevyRead]
    rfl
  refine ⟨index_eq, bevy_eq, ?_⟩
  rw [Readable, UInt64.ofNat_toNat, index_eq, bevy_eq]
  exact ⟨indexRead, bevyRead⟩

/-- The loop starts with nothing produced. -/
theorem start_streamLoop :
    (0 : UInt64).toNat =
      min metadata.size.toNat
        (bytesBefore archive zipBase (0 : UInt64).toNat) :=
  (Nat.min_zero _).symm

theorem bytesBefore_succ (segment : Nat) :
    bytesBefore archive zipBase (segment + 1) =
      bytesBefore archive zipBase segment +
        storedBytes (indexFile archive zipBase segment)
          (entriesIn archive zipBase segment) :=
  Finset.sum_range_succ _ _

theorem bytesBefore_mono {segment later : Nat} (le : segment ≤ later) :
    bytesBefore archive zipBase segment ≤ bytesBefore archive zipBase later := by
  apply Finset.sum_le_sum_of_subset
  exact Finset.range_subset_range.mpr le

/-- Segments behind the declared size do not matter. -/
theorem fullAt_of_le
    {segment later : Nat} (le : segment ≤ later)
    (reached : metadata.size.toNat ≤ bytesBefore archive zipBase segment) :
    FullAt archive zipBase metadata later := by
  intro below
  have mono : bytesBefore archive zipBase segment ≤
      bytesBefore archive zipBase later := bytesBefore_mono le
  omega

variable {platform : Platform} {cipher : Xts}

/-- One pass of the segment loop decrypts the chunks of one segment. -/
theorem streamLoop_step
    (wide : platform.Is64Bit)
    {passes : Nat} {segment produced : UInt64} {visits : List Visit}
    (more : produced < metadata.size)
    (start : produced.toNat =
      min metadata.size.toNat (bytesBefore archive zipBase segment.toNat))
    (returns : streamLoop platform archive zipBase metadata cipher (passes + 1)
      segment produced = .ok visits) :
    ∃ here total next rest,
      Readable archive zipBase segment.toNat ∧
      0 < entriesIn archive zipBase segment.toNat ∧
      segmentLoop platform metadata cipher
          (indexFile archive zipBase segment.toNat)
          (bevyFile archive zipBase segment.toNat) segment
          (entriesIn archive zipBase segment.toNat) 0 produced =
        .ok (here, total) ∧
      SegmentRun metadata cipher (indexFile archive zipBase segment.toNat)
        (bevyFile archive zipBase segment.toNat) segment
        (bytesBefore archive zipBase segment.toNat)
        (entriesIn archive zipBase segment.toNat) 0 produced here total ∧
      next.toNat = segment.toNat + 1 ∧
      streamLoop platform archive zipBase metadata cipher passes next total =
        .ok rest ∧
      visits = here ++ rest := by
  rw [streamLoop, if_neg (UInt64.not_le.mpr more)] at returns
  obtain ⟨index, indexRead, returns⟩ := Outcome.bind_eq_ok.mp returns
  obtain ⟨bevy, bevyRead, returns⟩ := Outcome.bind_eq_ok.mp returns
  rw [Outcome.ofExcept_eq_ok] at indexRead bevyRead
  obtain ⟨rfl, rfl, readable⟩ := readable_of_readEntry indexRead bevyRead
  dsimp only at returns
  split at returns
  next => cases returns
  next nonempty =>
    obtain ⟨⟨here, total⟩, looped, returns⟩ := Outcome.bind_eq_ok.mp returns
    obtain ⟨next, added, returns⟩ := Outcome.bind_eq_ok.mp returns
    obtain ⟨rest, continued, returns⟩ := Outcome.bind_eq_ok.mp returns
    cases returns
    rw [Outcome.okOr_eq_ok, checkedAddU64] at added
    split at added
    case isFalse => cases added
    next fits =>
      cases added
      refine ⟨here, total, segment + 1, rest, readable, Nat.pos_of_ne_zero nonempty,
        looped, ?_, toNat_add_of_lt fits, continued, rfl⟩
      exact segmentLoop_run wide
        (ZipArchive.length_lt_of_readEntry_eq_ok indexRead)
        (ZipArchive.length_lt_of_readEntry_eq_ok bevyRead)
        (Nat.le_of_eq (Nat.zero_add _)) start looped

/-- The next segment begins with the bytes of all segments up to it. -/
theorem SegmentRun.next_start
    {bevy : Bytes} {segment next produced total : UInt64} {visits : List Visit}
    (run : SegmentRun metadata cipher (indexFile archive zipBase segment.toNat)
      bevy segment (bytesBefore archive zipBase segment.toNat)
      (entriesIn archive zipBase segment.toNat) 0 produced visits total)
    (next_eq : next.toNat = segment.toNat + 1) :
    total.toNat =
      min metadata.size.toNat (bytesBefore archive zipBase next.toNat) := by
  have total_eq := run.total_eq
  rw [Nat.zero_add] at total_eq
  rw [next_eq, bytesBefore_succ]
  rcases run.ended with used | reached
  · rw [total_eq, used]
  · rw [UInt64.le_iff_toNat_le] at reached
    have mono := storedBytes_mono (indexFile archive zipBase segment.toNat)
      run.length_le
    omega

/-- The loop ends with as many bytes as were declared. -/
theorem length_streamLoop
    (wide : platform.Is64Bit)
    {passes : Nat} {segment produced : UInt64} {visits : List Visit}
    (enough : metadata.size.toNat - produced.toNat ≤ passes)
    (start : produced.toNat =
      min metadata.size.toNat (bytesBefore archive zipBase segment.toNat))
    (returns : streamLoop platform archive zipBase metadata cipher passes
      segment produced = .ok visits) :
    produced.toNat + (visits.flatMap Visit.appended).length =
      metadata.size.toNat := by
  induction passes generalizing segment produced visits with
  | zero =>
      cases returns
      rw [List.flatMap_nil, List.length_nil]
      omega
  | succ passes inductionHypothesis =>
      by_cases more : produced < metadata.size
      · obtain ⟨here, total, next, rest, -, nonempty, -, run, next_eq, continued,
          rfl⟩ := streamLoop_step wide more start returns
        have ahead := (run.lt_total start more nonempty).2
        have tail := inductionHypothesis (by omega) (run.next_start next_eq)
          continued
        rw [run.appended] at tail
        rw [List.flatMap_append, List.length_append]
        omega
      · rw [streamLoop, if_pos (UInt64.not_lt.mp more)] at returns
        cases returns
        rw [UInt64.lt_iff_toNat_lt] at more
        rw [List.flatMap_nil, List.length_nil]
        omega

/-! ## Numbering -/

/-- A visit is the one of chunk `index` of the stream. -/
structure Visit.IsChunk
    (chunksPerSegment : UInt64) (index : Nat) (visit : Visit) : Prop where
  segment : visit.segment.toNat = index / chunksPerSegment.toNat
  chunkInSeg : visit.chunkInSeg.toNat = index % chunksPerSegment.toNat
  tweak : visit.tweak.toNat = index

/-- The visits are those of the stream's chunks from chunk `first` on. -/
def NumberedFrom
    (chunksPerSegment : UInt64) (first : Nat) (visits : List Visit) : Prop :=
  ∀ distance (visit : Visit), visits[distance]? = some visit →
    visit.IsChunk chunksPerSegment (first + distance)

theorem numberedFrom_append
    {chunksPerSegment : UInt64} {first : Nat} {here rest : List Visit} :
    NumberedFrom chunksPerSegment first (here ++ rest) ↔
      NumberedFrom chunksPerSegment first here ∧
        NumberedFrom chunksPerSegment (first + here.length) rest := by
  constructor
  · intro numbered
    refine ⟨fun distance visit found => numbered distance visit ?_,
      fun distance visit found => ?_⟩
    · rw [List.getElem?_append_left (List.getElem?_eq_some_iff.mp found).1, found]
    · rw [Nat.add_assoc]
      apply numbered
      rw [List.getElem?_append_right (Nat.le_add_right _ _),
        Nat.add_sub_cancel_left, found]
  · rintro ⟨hereNumbered, restNumbered⟩ distance visit found
    rcases Nat.lt_or_ge distance here.length with below | beyond
    · rw [List.getElem?_append_left below] at found
      exact hereNumbered distance visit found
    · rw [List.getElem?_append_right beyond] at found
      have isChunk := restNumbered (distance - here.length) visit found
      rwa [Nat.add_assoc, Nat.add_sub_cancel' beyond] at isChunk

namespace SegmentRun

variable {index bevy : Bytes} {segment : UInt64} {before entries : Nat}
  {produced total : UInt64} {visits : List Visit}
variable (run : SegmentRun metadata cipher index bevy segment before entries 0
  produced visits total)

include run in
/-- The visit of an entry has the entry's number. -/
theorem visit_at
    {chunkInSeg : Nat} {visit : Visit}
    (found : visits[chunkInSeg]? = some visit) :
    visit.segment = segment ∧ visit.chunkInSeg.toNat = chunkInSeg ∧
      visit.tweak.toNat = chunkId metadata segment.toNat chunkInSeg := by
  obtain ⟨produced, decryptable, rfl⟩ := run.visit_eq chunkInSeg visit found
  rw [Nat.zero_add] at decryptable ⊢
  have numbered := decryptable.numbered
  have narrow : (UInt64.ofNat chunkInSeg).toNat = chunkInSeg := by
    apply toNat_ofNat_of_lt
    unfold chunkId at numbered
    omega
  refine ⟨rfl, narrow, ?_⟩
  rw [visitAt, narrow, toNat_ofNat_of_lt numbered]

include run in
/-- Within a segment the numbers are right up to the declared number of chunks,
and wrong from there on. -/
theorem numberedFrom_iff (nonzero : metadata.chunksPerSegment ≠ 0) :
    NumberedFrom metadata.chunksPerSegment
        (segment.toNat * metadata.chunksPerSegment.toNat) visits ↔
      visits.length ≤ metadata.chunksPerSegment.toNat := by
  have positive : 0 < metadata.chunksPerSegment.toNat :=
    Nat.pos_of_ne_zero fun zero => nonzero (UInt64.toNat_inj.mp zero)
  constructor
  · intro numbered
    by_contra longer
    -- the entry behind the last chunk of the segment
    obtain ⟨visit, found⟩ : ∃ visit,
        visits[metadata.chunksPerSegment.toNat]? = some visit :=
      ⟨_, List.getElem?_eq_getElem (by omega)⟩
    have isChunk := (numbered _ visit found).segment
    rw [(run.visit_at found).1, ← Nat.succ_mul,
      Nat.mul_div_cancel _ positive] at isChunk
    omega
  · intro short chunkInSeg visit found
    have below := (List.getElem?_eq_some_iff.mp found).1
    obtain ⟨segment_eq, chunkInSeg_eq, tweak_eq⟩ := run.visit_at found
    refine ⟨?_, ?_, tweak_eq⟩
    · rw [segment_eq, Nat.add_comm, Nat.add_mul_div_right _ _ positive,
        Nat.div_eq_of_lt (by omega), Nat.zero_add]
    · rw [chunkInSeg_eq, Nat.add_comm, Nat.add_mul_mod_self_right,
        Nat.mod_eq_of_lt (by omega)]

end SegmentRun

section Segment

variable {bevy : Bytes} {segment produced total : UInt64} {visits : List Visit}
variable
  (run : SegmentRun metadata cipher (indexFile archive zipBase segment.toNat)
    bevy segment (bytesBefore archive zipBase segment.toNat)
    (entriesIn archive zipBase segment.toNat) 0 produced visits total)

include run in
/-- In the segment where the declared size is reached, the chunks that are
decrypted are chunks of the segment exactly when its index is full. -/
theorem SegmentRun.fullAt_of_reached (reached : metadata.size ≤ total) :
    visits.length ≤ metadata.chunksPerSegment.toNat ↔
      FullAt archive zipBase metadata segment.toNat := by
  have total_eq := run.total_eq
  have used := run.length_le
  rw [UInt64.le_iff_toNat_le] at reached
  rw [Nat.zero_add] at total_eq
  constructor
  · intro short below
    have mono : storedBytes (indexFile archive zipBase segment.toNat) visits.length ≤
        storedBytes (indexFile archive zipBase segment.toNat)
          (min (entriesIn archive zipBase segment.toNat)
            metadata.chunksPerSegment.toNat) :=
      storedBytes_mono _ (by omega)
    omega
  · intro full
    by_contra longer
    have more := run.more metadata.chunksPerSegment.toNat (by omega)
    rw [Nat.zero_add] at more
    rw [FullAt, Nat.min_eq_right (by omega)] at full
    have := full more
    omega

include run in
/-- A segment that is used up is full when it lists what it should. -/
theorem SegmentRun.fullAt_of_not_reached (notReached : total < metadata.size) :
    FullAt archive zipBase metadata segment.toNat ↔
      visits.length = metadata.chunksPerSegment.toNat := by
  have total_eq := run.total_eq
  have used : visits.length = entriesIn archive zipBase segment.toNat :=
    run.ended.resolve_right (UInt64.not_le.mpr notReached)
  rw [UInt64.lt_iff_toNat_lt] at notReached
  rw [Nat.zero_add, used] at total_eq
  rw [used]
  constructor
  · intro full
    apply full
    have mono := storedBytes_mono (indexFile archive zipBase segment.toNat)
      (Nat.min_le_left (entriesIn archive zipBase segment.toNat)
        metadata.chunksPerSegment.toNat)
    omega
  · intro full _
    exact full

end Segment

/-- The first chunk that is decrypted belongs to the segment the loop is at. -/
theorem head_streamLoop
    (wide : platform.Is64Bit)
    {passes : Nat} {segment produced : UInt64} {visits : List Visit}
    (enough : metadata.size.toNat - produced.toNat ≤ passes)
    (more : produced < metadata.size)
    (start : produced.toNat =
      min metadata.size.toNat (bytesBefore archive zipBase segment.toNat))
    (returns : streamLoop platform archive zipBase metadata cipher passes
      segment produced = .ok visits) :
    ∃ visit, visits[0]? = some visit ∧ visit.segment = segment := by
  cases passes with
  | zero =>
      rw [UInt64.lt_iff_toNat_lt] at more
      omega
  | succ passes =>
      obtain ⟨here, total, next, rest, -, nonempty, -, run, -, -, rfl⟩ :=
        streamLoop_step wide more start returns
      have some := (run.lt_total start more nonempty).1
      have found := List.getElem?_eq_getElem some
      refine ⟨here[0], ?_, (run.visit_at found).1⟩
      rw [List.getElem?_append_left some, found]

/-- From a segment on, the visits have the numbers of the stream's chunks exactly
when the segments list the chunks they should. -/
theorem numberedFrom_streamLoop
    (wide : platform.Is64Bit)
    (nonzero : metadata.chunksPerSegment ≠ 0)
    {passes : Nat} {segment produced : UInt64} {visits : List Visit}
    (enough : metadata.size.toNat - produced.toNat ≤ passes)
    (start : produced.toNat =
      min metadata.size.toNat (bytesBefore archive zipBase segment.toNat))
    (returns : streamLoop platform archive zipBase metadata cipher passes
      segment produced = .ok visits) :
    NumberedFrom metadata.chunksPerSegment
        (segment.toNat * metadata.chunksPerSegment.toNat) visits ↔
      ∀ later, segment.toNat ≤ later → FullAt archive zipBase metadata later := by
  have positive : 0 < metadata.chunksPerSegment.toNat :=
    Nat.pos_of_ne_zero fun zero => nonzero (UInt64.toNat_inj.mp zero)
  induction passes generalizing segment produced visits with
  | zero =>
      cases returns
      exact iff_of_true (fun _ _ found => by cases found)
        fun later le => fullAt_of_le le (by omega)
  | succ passes inductionHypothesis =>
      by_cases more : produced < metadata.size
      case neg =>
        rw [streamLoop, if_pos (UInt64.not_lt.mp more)] at returns
        cases returns
        rw [UInt64.lt_iff_toNat_lt] at more
        exact iff_of_true (fun _ _ found => by cases found)
          fun later le => fullAt_of_le le (by omega)
      obtain ⟨here, total, next, rest, -, nonempty, -, run, next_eq, continued,
        rfl⟩ := streamLoop_step wide more start returns
      have ahead := (run.lt_total start more nonempty).2
      have nextStart := run.next_start next_eq
      have fromHere :
          (∀ later, segment.toNat ≤ later →
            FullAt archive zipBase metadata later) ↔
          FullAt archive zipBase metadata segment.toNat ∧
            ∀ later, next.toNat ≤ later →
              FullAt archive zipBase metadata later := by
        constructor
        · intro full
          exact ⟨full _ le_rfl, fun later le => full later (by omega)⟩
        · rintro ⟨here, rest⟩ later le
          rcases Nat.eq_or_lt_of_le le with rfl | beyond
          · exact here
          · exact rest later (by omega)
      have tail : NumberedFrom metadata.chunksPerSegment
          (next.toNat * metadata.chunksPerSegment.toNat) rest ↔
            ∀ later, next.toNat ≤ later →
              FullAt archive zipBase metadata later :=
        inductionHypothesis (by omega) nextStart continued
      rw [fromHere, ← tail, numberedFrom_append, run.numberedFrom_iff nonzero]
      by_cases reached : metadata.size ≤ total
      · -- nothing is left to be decrypted
        have done : rest = [] := by
          cases passes <;>
            simpa [streamLoop, if_pos reached] using continued.symm
        have numbered (first : Nat) :
            NumberedFrom metadata.chunksPerSegment first rest := by
          rw [done]
          exact fun _ _ found => by cases found
        rw [run.fullAt_of_reached reached]
        exact and_congr_right fun _ => iff_of_true (numbered _) (numbered _)
      · have notReached := UInt64.not_le.mp reached
        rw [run.fullAt_of_not_reached notReached]
        by_cases full : here.length = metadata.chunksPerSegment.toNat
        · rw [full, next_eq, Nat.succ_mul]
          exact and_congr_left fun _ => iff_of_true le_rfl rfl
        · refine iff_of_false (fun numbered => ?_) fun numbered => full numbered.1
          -- the next segment begins before the chunks of this one are complete
          obtain ⟨visit, found, segment_eq⟩ := head_streamLoop wide (by omega)
            notReached nextStart continued
          have isChunk : next.toNat =
              (here.length + segment.toNat * metadata.chunksPerSegment.toNat) /
                metadata.chunksPerSegment.toNat := by
            rw [Nat.add_comm, ← segment_eq]
            exact (numbered.2 0 visit found).segment
          rw [next_eq, Nat.add_mul_div_right _ _ positive,
            Nat.div_eq_of_lt (lt_of_le_of_ne numbered.1 full)] at isChunk
          omega

end Stream

/-- Every visit is the one of the stream's chunk with its position, so the tweaks
are the numbers from zero on, each of them once. -/
structure NumberedAsStream
    (chunksPerSegment : UInt64) (visits : List Visit) : Prop where
  chunks : NumberedFrom chunksPerSegment 0 visits
  tweaks : (visits.map fun visit => visit.tweak.toNat) =
    List.range visits.length

theorem numberedAsStream_iff {chunksPerSegment : UInt64} {visits : List Visit} :
    NumberedAsStream chunksPerSegment visits ↔
      NumberedFrom chunksPerSegment 0 visits := by
  refine ⟨NumberedAsStream.chunks, fun chunks => ⟨chunks, ?_⟩⟩
  apply List.ext_getElem (by rw [List.length_map, List.length_range])
  intro index below _
  rw [List.length_map] at below
  rw [List.getElem_map, List.getElem_range,
    (chunks index _ (List.getElem?_eq_getElem below)).tweak, Nat.zero_add]

end Decrypt

open Rust

namespace EncryptedContainer

variable {platform : Platform} {crates : Crates} {backing : Bytes}

/-- Whatever is decrypted has a container. -/
theorem of_decryptVisits_eq_ok
    {crypto : CryptoCrates} {password : Text} {visits : List Decrypt.Visit}
    (returns :
      decryptVisits platform crates crypto backing password = .ok visits) :
    Nonempty (EncryptedContainer platform crates backing) := by
  obtain ⟨archive, archive_eq, returns⟩ := Outcome.bind_eq_ok.mp returns
  obtain ⟨turtle, turtle_eq, returns⟩ := Outcome.bind_eq_ok.mp returns
  obtain ⟨metadata, metadata_eq, -⟩ := Outcome.bind_eq_ok.mp returns
  rw [Outcome.ofExcept_eq_ok] at archive_eq turtle_eq metadata_eq
  rw [mapError_eq_ok] at archive_eq
  exact ⟨{ archive, turtle, metadata, archive_eq, turtle_eq, metadata_eq }⟩

variable (container : EncryptedContainer platform crates backing)
variable {crypto : CryptoCrates} {password : Text}

/-- What returns went through the segment loop. -/
theorem decryptWith_of_decryptVisits
    {visits : List Decrypt.Visit}
    (returns :
      decryptVisits platform crates crypto backing password = .ok visits) :
    ∃ vek, container.decryptWith crypto vek = .ok visits := by
  rw [container.decryptVisits_eq] at returns
  obtain ⟨vek, -, returns⟩ := Outcome.bind_eq_ok.mp returns
  obtain ⟨-, -, returns⟩ := Outcome.bind_eq_ok.mp returns
  exact ⟨vek, returns⟩

/-- The plaintext has the declared size. -/
theorem length_decryptReader
    (wide : platform.Is64Bit) {plain : Bytes}
    (returns : decryptReader platform crates crypto backing password = .ok plain) :
    plain.length = container.metadata.size.toNat := by
  obtain ⟨visits, visited, returns⟩ := Outcome.bind_eq_ok.mp returns
  cases returns
  obtain ⟨vek, returns⟩ := container.decryptWith_of_decryptVisits visited
  have length := Decrypt.length_streamLoop wide (Nat.sub_le _ _)
    Decrypt.start_streamLoop returns
  rwa [UInt64.toNat_zero, Nat.zero_add] at length

/-- The decrypted chunks are the stream's chunks in order exactly when each index
that is used up lists as many entries as a segment has chunks. -/
theorem decryptReader_numbered_iff
    (wide : platform.Is64Bit) {plain : Bytes}
    (returns : decryptReader platform crates crypto backing password = .ok plain) :
    ∃ visits,
      decryptVisits platform crates crypto backing password = .ok visits ∧
      plain = visits.flatMap Decrypt.Visit.appended ∧
      (Decrypt.NumberedAsStream container.metadata.chunksPerSegment visits ↔
        ∀ segment, Decrypt.FullAt container.archive container.zipBase
          container.metadata segment) := by
  obtain ⟨visits, visited, returns⟩ := Outcome.bind_eq_ok.mp returns
  cases returns
  refine ⟨visits, visited, rfl, ?_⟩
  obtain ⟨vek, returns⟩ := container.decryptWith_of_decryptVisits visited
  have nonzero := parseEncryptedMeta_chunksPerSegment container.metadata_eq
  have numbered := Decrypt.numberedFrom_streamLoop wide nonzero
    (Nat.sub_le _ _) Decrypt.start_streamLoop returns
  rw [UInt64.toNat_zero, Nat.zero_mul] at numbered
  rw [Decrypt.numberedAsStream_iff, numbered]
  exact forall_congr' fun segment => ⟨fun full => full (Nat.zero_le _),
    fun full _ => full⟩

end EncryptedContainer

/-! A first index that lists one of the two chunks of its segment: the other one
is found in the next segment, where it is decrypted with the tweak of the third. -/

namespace EncryptedSample

theorem short_shortIndex :
    ∀ entry ∈ entries [0] [1, 2], entry.2.length < 2 ^ 63 :=
  entries_short [0] [1, 2] (by decide)

def shortVisits : List Decrypt.Visit :=
  [{ segment := 0, chunkInSeg := 0, tweak := 0, appended := plainChunk 0 },
    { segment := 1, chunkInSeg := 0, tweak := 2
      appended :=
        [23, 248, 4, 25, 126, 72, 53, 33, 161, 23, 199, 190, 180, 133, 46, 173] },
    { segment := 1, chunkInSeg := 1, tweak := 3
      appended := [44, 164, 174, 193, 128, 117, 135, 179] }]

theorem decryptVisits_shortIndex :
    decryptVisits .debug64 (.opening (archive [0] [1, 2] short_shortIndex)) crypto
      [] password = .ok shortVisits := by
  rw [decryptVisits_eq]
  decide +kernel

theorem decryptReader_shortIndex :
    decryptReader .debug64 (.opening (archive [0] [1, 2] short_shortIndex)) crypto
      [] password = .ok (shortVisits.flatMap Decrypt.Visit.appended) := by
  rw [decryptReader, decryptVisits_shortIndex]
  rfl

theorem not_numberedAsStream_shortIndex :
    ∃ visits plain,
      decryptVisits .debug64 (.opening (archive [0] [1, 2] short_shortIndex))
        crypto [] password = .ok visits ∧
      decryptReader .debug64 (.opening (archive [0] [1, 2] short_shortIndex))
        crypto [] password = .ok plain ∧
      ¬Decrypt.NumberedAsStream metadata.chunksPerSegment visits := by
  refine ⟨shortVisits, _, decryptVisits_shortIndex, decryptReader_shortIndex, ?_⟩
  intro numbered
  exact absurd numbered.tweaks (by decide)

theorem decryptReader_numbered_iff_shortIndex :
    ∃ visits,
      decryptVisits .debug64 (.opening (archive [0] [1, 2] short_shortIndex))
        crypto [] password = .ok visits ∧
      shortVisits.flatMap Decrypt.Visit.appended =
        visits.flatMap Decrypt.Visit.appended ∧
      (Decrypt.NumberedAsStream metadata.chunksPerSegment visits ↔
        ∀ segment, Decrypt.FullAt (archive [0] [1, 2] short_shortIndex)
          (container [0] [1, 2] short_shortIndex).zipBase metadata segment) :=
  (container [0] [1, 2] short_shortIndex).decryptReader_numbered_iff
    Platform.is64Bit_debug64 decryptReader_shortIndex

end EncryptedSample
end Aff4
