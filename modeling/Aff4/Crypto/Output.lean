import Aff4.Crypto.Sectors
import Aff4.Storage.Blocks

/-!
# What decryption returns

The chunks of all segments, decrypted one after another, are one long text.  A
decryption that returns has produced the beginning of it, as long as was
declared, and has looked at nothing behind it; what it cannot read, decode or
find before that point is an error.
-/

namespace Aff4
namespace Decrypt

open Rust Storage

/-- What is cut from two pieces, the second one after what the first one left. -/
theorem take_append_take (left right : List α) (count : Nat) :
    left.take count ++ right.take (count - (left.take count).length) =
      (left ++ right).take count := by
  rw [List.take_append, List.length_take]
  congr 2
  omega

/-! ## A segment -/

section Run

variable {platform : Platform} (metadata : EncryptedMeta) (cipher : Xts)
variable (index bevy : Bytes)

/-- The stored chunk of an entry, decrypted with the entry's number for its
tweak. -/
def decryptedChunk (segment chunkInSeg : Nat) : Bytes :=
  cipher.decryptSector
    (cipher.getTweakDefault (chunkId metadata segment chunkInSeg))
    (storedChunk index bevy chunkInSeg)

/-- The chunks of consecutive entries, decrypted one after another. -/
def decryptedEntries (segment first entries : Nat) : Bytes :=
  (List.range' first entries).flatMap
    (decryptedChunk metadata cipher index bevy segment)

variable {metadata cipher index bevy}

theorem decryptedEntries_succ (segment first entries : Nat) :
    decryptedEntries metadata cipher index bevy segment first (entries + 1) =
      decryptedChunk metadata cipher index bevy segment first ++
        decryptedEntries metadata cipher index bevy segment (first + 1)
          entries := by
  rw [decryptedEntries, List.range'_succ, List.flatMap_cons]
  rfl

/-- What the chunk loop does in a segment: it puts out the beginning of the
decrypted entries, up to the declared size, and comes to no entry once that is
reached. -/
theorem segmentLoop_output
    (wide : platform.Is64Bit)
    (indexShort : index.length < 2 ^ 63) (bevyShort : bevy.length < 2 ^ 63)
    {segment : UInt64} {entries first : Nat}
    (listed : first + entries ≤ index.length / 12)
    {produced : UInt64} {visits : List Visit} {total : UInt64}
    (returns : segmentLoop platform metadata cipher index bevy segment entries
      first produced = .ok (visits, total)) :
    visits.flatMap Visit.appended =
        (decryptedEntries metadata cipher index bevy segment.toNat first
          entries).take (metadata.size.toNat - produced.toNat) ∧
      ∀ visited, visited < visits.length →
        produced.toNat + ((visits.take visited).flatMap Visit.appended).length <
          metadata.size.toNat := by
  induction entries generalizing first produced visits total with
  | zero =>
      cases returns
      exact ⟨by simp [decryptedEntries], fun _ below => by cases below⟩
  | succ entries inductionHypothesis =>
      by_cases more : produced < metadata.size
      case neg =>
        have reached := UInt64.not_lt.mp more
        rw [segmentLoop, if_pos reached] at returns
        cases returns
        rw [UInt64.le_iff_toNat_le] at reached
        rw [Nat.sub_eq_zero_of_le reached, List.take_zero]
        exact ⟨rfl, fun _ below => by cases below⟩
      have moreBytes := UInt64.lt_iff_toNat_lt.mp more
      have sizeLt := metadata.size.toNat_lt
      obtain ⟨next, others, decryptable, next_eq, -, looped, rfl⟩ :=
        segmentLoop_step wide indexShort bevyShort listed more returns
      have narrow : (UInt64.ofNat first).toNat = first := by
        apply toNat_ofNat_of_lt
        have inside := decryptable.listed
        omega
      obtain ⟨output, notReached⟩ := inductionHypothesis (by omega) looped
      have here : (visitAt metadata cipher index bevy segment (UInt64.ofNat first)
          produced).appended =
            (decryptedChunk metadata cipher index bevy segment.toNat first).take
              (metadata.size.toNat - produced.toNat) := by
        rw [visitAt, narrow]
        rfl
      constructor
      · rw [List.flatMap_cons, output, here, next_eq, here, Nat.sub_add_eq,
          take_append_take, decryptedEntries_succ]
      · intro visited below
        cases visited with
        | zero => exact moreBytes
        | succ visited =>
            have before := notReached visited (Nat.lt_of_succ_lt_succ below)
            rw [List.take_succ_cons, List.flatMap_cons, List.length_append]
            omega

end Run

/-! ## The stream -/

/-- Which entry of which segment a visit was made for. -/
def Visit.position (visit : Visit) : Nat × Nat :=
  (visit.segment.toNat, visit.chunkInSeg.toNat)

section Stream

variable (archive : ZipArchive) (zipBase : Text) (metadata : EncryptedMeta)
  (cipher : Xts)

/-- The chunks of a segment, decrypted one after another. -/
def decryptedSegment (segment : Nat) : Bytes :=
  decryptedEntries metadata cipher (indexFile archive zipBase segment)
    (bevyFile archive zipBase segment) segment 0
    (entriesIn archive zipBase segment)

/-- The chunks of consecutive segments, decrypted one after another. -/
def decryptedSegments (first count : Nat) : Bytes :=
  (List.range' first count).flatMap
    (decryptedSegment archive zipBase metadata cipher)

/-- The entries of consecutive segments, in order. -/
def entriesFrom (first count : Nat) : List (Nat × Nat) :=
  (List.range' first count).flatMap fun segment =>
    (List.range (entriesIn archive zipBase segment)).map fun chunkInSeg =>
      (segment, chunkInSeg)

/-- What the segment loop does from a segment on: in so many passes it puts out
the beginning of the decrypted segments, up to the declared size, going through
their entries in order.  It neither begins a pass nor comes to an entry once the
size is reached. -/
structure StreamRun
    (first produced passes : Nat) (visits : List Visit) : Prop where
  output : visits.flatMap Visit.appended =
    (decryptedSegments archive zipBase metadata cipher first passes).take
      (metadata.size.toNat - produced)
  reaches : metadata.size.toNat ≤ produced +
    (decryptedSegments archive zipBase metadata cipher first passes).length
  started : ∀ count, count < passes →
    produced +
        (decryptedSegments archive zipBase metadata cipher first count).length <
      metadata.size.toNat
  passes_le : passes ≤ metadata.size.toNat - produced
  order : visits.map Visit.position <+: entriesFrom archive zipBase first passes
  visited : ∀ visited, visited < visits.length →
    produced + ((visits.take visited).flatMap Visit.appended).length <
      metadata.size.toNat
  tweak : ∀ visit ∈ visits, visit.tweak.toNat =
    chunkId metadata visit.segment.toNat visit.chunkInSeg.toNat

variable {archive zipBase metadata cipher}

theorem decryptedSegments_succ (first count : Nat) :
    decryptedSegments archive zipBase metadata cipher first (count + 1) =
      decryptedSegment archive zipBase metadata cipher first ++
        decryptedSegments archive zipBase metadata cipher (first + 1) count := by
  rw [decryptedSegments, List.range'_succ, List.flatMap_cons]
  rfl

theorem StreamRun.nil {first produced : Nat}
    (reached : metadata.size.toNat ≤ produced) :
    StreamRun archive zipBase metadata cipher first produced 0 [] where
  output := List.take_nil.symm
  reaches := reached
  started := fun _ below => absurd below (Nat.not_lt_zero _)
  passes_le := Nat.zero_le _
  order := List.nil_prefix
  visited := fun _ below => absurd below (Nat.not_lt_zero _)
  tweak := fun _ none => by cases none

/-- The positions of the visits of a segment are those of its first entries. -/
theorem SegmentRun.map_position
    {index bevy : Bytes} {segment produced total : UInt64}
    {before entries : Nat} {visits : List Visit}
    (run : SegmentRun metadata cipher index bevy segment before entries 0 produced
      visits total) :
    visits.map Visit.position =
      (List.range visits.length).map fun chunkInSeg =>
        (segment.toNat, chunkInSeg) := by
  apply List.ext_getElem (by simp)
  intro chunkInSeg below _
  rw [List.length_map] at below
  obtain ⟨segment_eq, chunkInSeg_eq, -⟩ :=
    run.visit_at (List.getElem?_eq_getElem below)
  rw [List.getElem_map, List.getElem_map, List.getElem_range, Visit.position,
    segment_eq, chunkInSeg_eq]

/-- The visits of a segment go through its entries in order, and the others follow if
it has no more. -/
theorem SegmentRun.order
    {index bevy : Bytes} {segment produced total : UInt64}
    {before entries : Nat} {visits rest : List Visit}
    (run : SegmentRun metadata cipher index bevy segment before entries 0 produced
      visits total)
    {following : List (Nat × Nat)} (others : rest.map Visit.position <+: following)
    (used : rest ≠ [] → visits.length = entries) :
    (visits ++ rest).map Visit.position <+:
      ((List.range entries).map fun chunkInSeg => (segment.toNat, chunkInSeg)) ++
        following := by
  rw [List.map_append, run.map_position]
  by_cases ended : rest = []
  · rw [ended, List.map_nil, List.append_nil]
    apply List.IsPrefix.trans _ (List.prefix_append _ _)
    apply List.IsPrefix.map
    rw [List.prefix_iff_eq_take, List.length_range, List.take_range,
      Nat.min_eq_left run.length_le]
  · rw [used ended]
    exact (List.prefix_append_right_inj _).mpr others

theorem entriesFrom_succ (first passes : Nat) :
    entriesFrom archive zipBase first (passes + 1) =
      ((List.range (entriesIn archive zipBase first)).map fun chunkInSeg =>
        (first, chunkInSeg)) ++ entriesFrom archive zipBase (first + 1) passes := by
  rw [entriesFrom, List.range'_succ, List.flatMap_cons]
  rfl

/-- One pass of the segment loop, followed by the others. -/
theorem StreamRun.cons
    {segment next produced total : UInt64} {passes : Nat}
    {here rest : List Visit}
    (more : produced < metadata.size)
    (run : SegmentRun metadata cipher (indexFile archive zipBase segment.toNat)
      (bevyFile archive zipBase segment.toNat) segment
      (bytesBefore archive zipBase segment.toNat)
      (entriesIn archive zipBase segment.toNat) 0 produced here total)
    (ahead : produced.toNat < total.toNat)
    (output : here.flatMap Visit.appended =
      (decryptedSegment archive zipBase metadata cipher segment.toNat).take
        (metadata.size.toNat - produced.toNat))
    (visited : ∀ visited, visited < here.length →
      produced.toNat + ((here.take visited).flatMap Visit.appended).length <
        metadata.size.toNat)
    (next_eq : next.toNat = segment.toNat + 1)
    (others : StreamRun archive zipBase metadata cipher next.toNat total.toNat
      passes rest) :
    StreamRun archive zipBase metadata cipher segment.toNat produced.toNat
      (passes + 1) (here ++ rest) := by
  have moreBytes := UInt64.lt_iff_toNat_lt.mp more
  have total_eq := run.appended
  have length := congrArg List.length output
  rw [List.length_take] at length
  have otherSegments (count : Nat) :
      decryptedSegments archive zipBase metadata cipher segment.toNat (count + 1) =
        decryptedSegment archive zipBase metadata cipher segment.toNat ++
          decryptedSegments archive zipBase metadata cipher next.toNat count := by
    rw [decryptedSegments_succ, next_eq]
  constructor
  · rw [List.flatMap_append, others.output, total_eq, output, Nat.sub_add_eq,
      take_append_take, otherSegments]
  · have reaches := others.reaches
    rw [otherSegments, List.length_append]
    omega
  · intro count below
    cases count with
    | zero => exact moreBytes
    | succ count =>
        have started := others.started count (Nat.lt_of_succ_lt_succ below)
        rw [otherSegments, List.length_append]
        omega
  · have passes_le := others.passes_le
    have le := run.total_eq
    omega
  · rw [entriesFrom_succ, ← next_eq]
    apply run.order others.order
    intro continued
    -- the size is not reached, so all entries of the segment were used
    have before := others.visited 0 (List.length_pos_of_ne_nil continued)
    apply run.ended.resolve_right
    rw [UInt64.le_iff_toNat_le]
    simp only [List.take_zero, List.flatMap_nil, List.length_nil] at before
    omega
  · intro count below
    rw [List.take_append, List.flatMap_append, List.length_append]
    rcases Nat.lt_or_ge count here.length with inside | beyond
    · have before := visited count inside
      rw [Nat.sub_eq_zero_of_le inside.le, List.take_zero, List.flatMap_nil,
        List.length_nil, Nat.add_zero]
      exact before
    · rw [List.length_append] at below
      have before := others.visited (count - here.length) (by omega)
      rw [List.take_of_length_le beyond]
      omega
  · intro visit member
    rcases List.mem_append.mp member with inHere | inRest
    · obtain ⟨chunkInSeg, found⟩ := List.mem_iff_getElem?.mp inHere
      obtain ⟨segment_eq, chunkInSeg_eq, tweak_eq⟩ := run.visit_at found
      rw [segment_eq, chunkInSeg_eq, tweak_eq]
    · exact others.tweak visit inRest

variable {platform : Platform}

theorem streamLoop_run
    (wide : platform.Is64Bit)
    {fuel : Nat} {segment produced : UInt64} {visits : List Visit}
    (enough : metadata.size.toNat - produced.toNat ≤ fuel)
    (start : produced.toNat =
      min metadata.size.toNat (bytesBefore archive zipBase segment.toNat))
    (returns : streamLoop platform archive zipBase metadata cipher fuel
      segment produced = .ok visits) :
    ∃ passes, StreamRun archive zipBase metadata cipher segment.toNat
      produced.toNat passes visits := by
  induction fuel generalizing segment produced visits with
  | zero =>
      cases returns
      exact ⟨0, .nil (by omega)⟩
  | succ fuel inductionHypothesis =>
      by_cases more : produced < metadata.size
      case neg =>
        rw [streamLoop, if_pos (UInt64.not_lt.mp more)] at returns
        cases returns
        rw [UInt64.lt_iff_toNat_lt] at more
        exact ⟨0, .nil (by omega)⟩
      obtain ⟨here, total, next, rest, readable, nonempty, looped, run, next_eq,
        continued, rfl⟩ := streamLoop_step wide more start returns
      have ahead := (run.lt_total start more nonempty).2
      obtain ⟨output, visited⟩ := segmentLoop_output wide
        (ZipArchive.length_lt_of_readEntry_eq_ok readable.1)
        (ZipArchive.length_lt_of_readEntry_eq_ok readable.2)
        (Nat.le_of_eq (Nat.zero_add _)) looped
      obtain ⟨passes, others⟩ :=
        inductionHypothesis (by omega) (run.next_start next_eq) continued
      exact ⟨passes + 1, .cons more run ahead output visited next_eq others⟩

theorem streamLoop_of_le {segment produced : UInt64}
    (reached : metadata.size ≤ produced) (fuel : Nat) :
    streamLoop platform archive zipBase metadata cipher fuel segment produced =
      .ok [] := by
  cases fuel with
  | zero => rfl
  | succ fuel => rw [streamLoop, if_pos reached]

/-- As many passes as there are bytes to produce are enough: more of them make no
difference. -/
theorem streamLoop_congr
    (wide : platform.Is64Bit) {fuel other : Nat} {segment produced : UInt64}
    (enough : metadata.size.toNat - produced.toNat ≤ fuel)
    (enoughToo : metadata.size.toNat - produced.toNat ≤ other)
    (start : produced.toNat =
      min metadata.size.toNat (bytesBefore archive zipBase segment.toNat)) :
    streamLoop platform archive zipBase metadata cipher fuel segment produced =
      streamLoop platform archive zipBase metadata cipher other segment
        produced := by
  induction fuel generalizing other segment produced with
  | zero =>
      have reached : metadata.size ≤ produced := by
        rw [UInt64.le_iff_toNat_le]
        omega
      rw [streamLoop_of_le reached, streamLoop_of_le reached]
  | succ fuel inductionHypothesis =>
      by_cases more : produced < metadata.size
      case neg =>
        have reached := UInt64.not_lt.mp more
        rw [streamLoop_of_le reached, streamLoop_of_le reached]
      have moreBytes := UInt64.lt_iff_toNat_lt.mp more
      obtain ⟨other, rfl⟩ := Nat.exists_eq_succ_of_ne_zero
        (show other ≠ 0 by omega)
      rw [streamLoop, streamLoop, if_neg (UInt64.not_le.mpr more),
        if_neg (UInt64.not_le.mpr more)]
      apply Outcome.bind_congr
      intro index indexRead
      apply Outcome.bind_congr
      intro bevy bevyRead
      rw [Outcome.ofExcept_eq_ok] at indexRead bevyRead
      obtain ⟨rfl, rfl, -⟩ := readable_of_readEntry indexRead bevyRead
      dsimp only
      split
      · rfl
      next nonempty =>
        apply Outcome.bind_congr
        rintro ⟨here, total⟩ looped
        have run : SegmentRun metadata cipher
            (indexFile archive zipBase segment.toNat)
            (bevyFile archive zipBase segment.toNat) segment
            (bytesBefore archive zipBase segment.toNat)
            (entriesIn archive zipBase segment.toNat) 0 produced here total :=
          segmentLoop_run wide
            (ZipArchive.length_lt_of_readEntry_eq_ok indexRead)
            (ZipArchive.length_lt_of_readEntry_eq_ok bevyRead)
            (Nat.le_of_eq (Nat.zero_add _)) start looped
        have ahead := (run.lt_total start more (Nat.pos_of_ne_zero nonempty)).2
        apply Outcome.bind_congr
        intro next added
        rw [Outcome.okOr_eq_ok, checkedAddU64] at added
        split at added
        case isFalse => cases added
        next fits =>
          cases added
          rw [@inductionHypothesis other (segment + 1) total (by omega) (by omega)
            (run.next_start (toNat_add_of_lt fits))]

/-! ## What stops the stream -/

/-- A segment is served up to the declared size: its files can be read, it has an
entry, and every entry that begins before the size is reached is decrypted. -/
structure ServedAt
    (archive : ZipArchive) (zipBase : Text) (metadata : EncryptedMeta)
    (segment : Nat) : Prop where
  readable : Readable archive zipBase segment
  nonempty : 0 < entriesIn archive zipBase segment
  decryptable : ∀ chunkInSeg, chunkInSeg < entriesIn archive zipBase segment →
    bytesBefore archive zipBase segment +
        storedBytes (indexFile archive zipBase segment) chunkInSeg <
      metadata.size.toNat →
    Decryptable metadata (indexFile archive zipBase segment)
      (bevyFile archive zipBase segment) segment chunkInSeg

theorem SegmentRun.decryptable_of_lt
    {index bevy : Bytes} {segment produced total : UInt64}
    {before entries chunkInSeg : Nat} {visits : List Visit}
    (run : SegmentRun metadata cipher index bevy segment before entries 0 produced
      visits total)
    (below : chunkInSeg < entries)
    (needed : before + storedBytes index chunkInSeg < metadata.size.toNat) :
    Decryptable metadata index bevy segment.toNat chunkInSeg := by
  have inside : chunkInSeg < visits.length := by
    rcases run.ended with used | reached
    · omega
    · by_contra beyond
      have mono := storedBytes_mono index (Nat.le_of_not_lt beyond)
      rw [UInt64.le_iff_toNat_le, run.total_eq, Nat.zero_add] at reached
      omega
  obtain ⟨_, decryptable, -⟩ :=
    run.visit_eq chunkInSeg _ (List.getElem?_eq_getElem inside)
  rwa [Nat.zero_add] at decryptable

/-- A stream that is decrypted was served in every segment that it came to. -/
theorem servedAt_of_streamLoop
    (wide : platform.Is64Bit)
    {fuel : Nat} {segment produced : UInt64} {visits : List Visit}
    (enough : metadata.size.toNat - produced.toNat ≤ fuel)
    (start : produced.toNat =
      min metadata.size.toNat (bytesBefore archive zipBase segment.toNat))
    (returns : streamLoop platform archive zipBase metadata cipher fuel
      segment produced = .ok visits)
    {later : Nat} (le : segment.toNat ≤ later)
    (needed : bytesBefore archive zipBase later < metadata.size.toNat) :
    ServedAt archive zipBase metadata later := by
  have mono : bytesBefore archive zipBase segment.toNat ≤
      bytesBefore archive zipBase later := bytesBefore_mono le
  induction fuel generalizing segment produced visits with
  | zero => omega
  | succ fuel inductionHypothesis =>
      have more : produced < metadata.size := by
        rw [UInt64.lt_iff_toNat_lt]
        omega
      obtain ⟨here, total, next, rest, readable, nonempty, -, run, next_eq,
        continued, -⟩ := streamLoop_step wide more start returns
      rcases Nat.eq_or_lt_of_le le with rfl | beyond
      · exact ⟨readable, nonempty, fun chunkInSeg below => run.decryptable_of_lt below⟩
      · have ahead := (run.lt_total start more nonempty).2
        exact inductionHypothesis (by omega) (run.next_start next_eq) continued
          (by omega) (bytesBefore_mono (by omega))

/-- What stops the stream before the declared size is reached, other than a sector
that is too short: all segments before this one are decrypted as a whole, and one
of its files is missing, its index is empty, or the bounds of an entry lie beyond
the bevy. -/
structure MeetsObstacle
    (archive : ZipArchive) (zipBase : Text) (metadata : EncryptedMeta)
    (segment : Nat) : Prop where
  earlier : ∀ previous, previous < segment →
    DecryptsWhole archive zipBase metadata previous
  needed : bytesBefore archive zipBase segment < metadata.size.toNat
  obstacle : ¬Readable archive zipBase segment ∨
    entriesIn archive zipBase segment = 0 ∨
    ∃ chunkInSeg, chunkInSeg < entriesIn archive zipBase segment ∧
      (∀ previous, previous < chunkInSeg →
        Decryptable metadata (indexFile archive zipBase segment)
          (bevyFile archive zipBase segment) segment previous) ∧
      bytesBefore archive zipBase segment +
          storedBytes (indexFile archive zipBase segment) chunkInSeg <
        metadata.size.toNat ∧
      (bevyFile archive zipBase segment).length <
        (entryOffset (indexEntryAt (indexFile archive zipBase segment)
            chunkInSeg)).toNat +
          (entryLength (indexEntryAt (indexFile archive zipBase segment)
            chunkInSeg)).toNat

/-- A segment with an obstacle is not served. -/
theorem MeetsObstacle.not_servedAt {segment : Nat}
    (meets : MeetsObstacle archive zipBase metadata segment) :
    ¬ServedAt archive zipBase metadata segment := by
  intro served
  rcases meets.obstacle with unreadable | empty | ⟨chunkInSeg, below, -, needed, beyond⟩
  · exact unreadable served.readable
  · exact absurd empty (Nat.pos_iff_ne_zero.mp served.nonempty)
  · have inside := (served.decryptable chunkInSeg below needed).inside
    omega

/-- A stream with an obstacle meets no sector that is too short. -/
theorem MeetsObstacle.not_shortSectorFrom {segment : Nat}
    (meets : MeetsObstacle archive zipBase metadata segment) :
    ¬ShortSectorFrom archive zipBase metadata 0 := by
  rintro ⟨shortSegment, shortEntry, -, whole, short⟩
  rcases Nat.lt_trichotomy segment shortSegment with less | rfl | greater
  · have here := whole segment (Nat.zero_le _) less
    exact meets.not_servedAt ⟨here.readable, here.nonempty,
      fun chunkInSeg below _ => here.decryptable chunkInSeg below⟩
  · have listed := short.short.listed
    rcases meets.obstacle with unreadable | empty |
      ⟨chunkInSeg, below, earlier, needed, beyond⟩
    · exact unreadable short.readable
    · unfold entriesIn at empty
      omega
    · rcases Nat.lt_trichotomy chunkInSeg shortEntry with less | rfl | greater
      · have inside := (short.earlier chunkInSeg less).inside
        omega
      · have inside := short.short.inside
        omega
      · exact short.short.not_decryptable (earlier shortEntry greater)
  · have listed := short.short.listed
    have here := meets.earlier shortSegment greater
    apply short.short.not_decryptable
    apply here.decryptable
    unfold entriesIn
    omega

end Stream
end Decrypt

open Rust

namespace EncryptedContainer

variable {platform : Platform} {crates : Crates} {backing : Bytes}

/-- How an output came about: in so many passes of the segment loop, which are all
it makes, the beginning of the decrypted segments was put out, as long as was
declared. -/
structure Produces
    (container : EncryptedContainer platform crates backing)
    (crypto : CryptoCrates) (password : Text) (vek : Vector UInt8 32)
    (visits : List Decrypt.Visit) (passes : Nat) (out : Bytes) : Prop where
  opened : deriveVek crypto password container.metadata = .ok vek
  visits_eq : decryptVisits platform crates crypto backing password = .ok visits
  out_eq : out = visits.flatMap Decrypt.Visit.appended
  length_eq : out.length = container.metadata.size.toNat
  take_eq : out =
    (Decrypt.decryptedSegments container.archive container.zipBase
      container.metadata (Decrypt.xts crypto vek) 0 passes).take
      container.metadata.size.toNat
  passes_le : passes ≤ container.metadata.size.toNat
  run : Decrypt.StreamRun container.archive container.zipBase container.metadata
    (Decrypt.xts crypto vek) 0 0 passes visits
  enough : ∀ fuel, container.metadata.size.toNat ≤ fuel →
    Decrypt.streamLoop platform container.archive container.zipBase
      container.metadata (Decrypt.xts crypto vek) fuel 0 0 = .ok visits

theorem exists_produces
    (container : EncryptedContainer platform crates backing)
    (wide : platform.Is64Bit) {crypto : CryptoCrates} {password : Text}
    {out : Bytes}
    (returns : decryptReader platform crates crypto backing password = .ok out) :
    ∃ vek visits passes,
      container.Produces crypto password vek visits passes out := by
  have length_eq := container.length_decryptReader wide returns
  obtain ⟨visits, visited, returns⟩ := Outcome.bind_eq_ok.mp returns
  cases returns
  have loop := visited
  rw [container.decryptVisits_eq] at loop
  obtain ⟨vek, opened, loop⟩ := Outcome.bind_eq_ok.mp loop
  obtain ⟨-, -, loop⟩ := Outcome.bind_eq_ok.mp loop
  rw [Outcome.ofExcept_eq_ok] at opened
  obtain ⟨passes, run⟩ := Decrypt.streamLoop_run wide (Nat.sub_le _ _)
    Decrypt.start_streamLoop loop
  refine ⟨vek, visits, passes, opened, visited, rfl, length_eq, run.output,
    run.passes_le, run, ?_⟩
  intro fuel enough
  rw [← loop]
  exact Decrypt.streamLoop_congr wide enough (Nat.sub_le _ _)
    Decrypt.start_streamLoop

/-- What is in the way of the stream before the declared size is reached makes the
decryption fail with an error, unless no buffer of that size can be allocated. -/
theorem decryptReader_of_meetsObstacle
    (container : EncryptedContainer platform crates backing)
    (wide : platform.Is64Bit) {crypto : CryptoCrates} {password : Text}
    {segment : Nat}
    (meets : Decrypt.MeetsObstacle container.archive container.zipBase
      container.metadata segment) :
    (∃ error,
      decryptReader platform crates crypto backing password = .err error) ∨
    platform.isizeMax < container.metadata.size.toNat ∧
      decryptReader platform crates crypto backing password =
        .panic .capacityOverflow := by
  cases decrypted : decryptReader platform crates crypto backing password with
  | ok out =>
      obtain ⟨visits, visited, -⟩ := Outcome.bind_eq_ok.mp decrypted
      obtain ⟨vek, returns⟩ := container.decryptWith_of_decryptVisits visited
      have served := Decrypt.servedAt_of_streamLoop wide (Nat.sub_le _ _)
        Decrypt.start_streamLoop returns (Nat.zero_le segment) meets.needed
      exact absurd served meets.not_servedAt
  | err error => exact .inl ⟨error, rfl⟩
  | panic reason =>
      rw [decryptReader_eq_panic, container.decryptVisits_eq_panic wide] at decrypted
      rcases decrypted with ⟨rfl, -, oversized⟩ | ⟨-, -, -, shortSegment, shortEntry,
        whole, short⟩
      · exact .inr ⟨oversized, rfl⟩
      · apply absurd _ meets.not_shortSectorFrom
        exact ⟨shortSegment, shortEntry, Nat.zero_le _, fun previous _ => whole previous,
          short⟩

/-- A decryption that returns has put out the beginning of the decrypted segments,
and one that meets an obstacle on the way fails with an error, unless its buffer
cannot be allocated. -/
theorem decryptReader_output
    (wide : platform.Is64Bit) (crates : Crates) (crypto : CryptoCrates)
    (backing : Bytes) (password : Text) :
    (∀ out, decryptReader platform crates crypto backing password = .ok out →
      ∃ (container : EncryptedContainer platform crates backing) (vek : _)
        (visits : _) (passes : _),
        container.Produces crypto password vek visits passes out) ∧
      ∀ (container : EncryptedContainer platform crates backing) (segment : Nat),
        Decrypt.MeetsObstacle container.archive container.zipBase
          container.metadata segment →
        (∃ error,
          decryptReader platform crates crypto backing password = .err error) ∨
        platform.isizeMax < container.metadata.size.toNat ∧
          decryptReader platform crates crypto backing password =
            .panic .capacityOverflow := by
  constructor
  · intro out returns
    obtain ⟨visits, visited, -⟩ := Outcome.bind_eq_ok.mp returns
    obtain ⟨container⟩ := of_decryptVisits_eq_ok visited
    exact ⟨container, container.exists_produces wide returns⟩
  · intro container segment meets
    exact container.decryptReader_of_meetsObstacle wide meets

end EncryptedContainer

/-! The first chunk alone in its segment, the others in the next one, where the
declared size is reached in the middle of the last chunk. -/

namespace EncryptedSample

theorem decryptReader_output_shortIndex :
    (∀ out, decryptReader .debug64
        (.opening (archive [0] [1, 2] short_shortIndex)) crypto [] password =
          .ok out →
      ∃ (container : EncryptedContainer .debug64
          (.opening (archive [0] [1, 2] short_shortIndex)) [])
        (vek : _) (visits : _) (passes : _),
        container.Produces crypto password vek visits passes out) ∧
      ∀ (container : EncryptedContainer .debug64
          (.opening (archive [0] [1, 2] short_shortIndex)) []) (segment : Nat),
        Decrypt.MeetsObstacle container.archive container.zipBase
          container.metadata segment →
        (∃ error, decryptReader .debug64
          (.opening (archive [0] [1, 2] short_shortIndex)) crypto [] password =
            .err error) ∨
        Platform.debug64.isizeMax < container.metadata.size.toNat ∧
          decryptReader .debug64
            (.opening (archive [0] [1, 2] short_shortIndex)) crypto [] password =
              .panic .capacityOverflow :=
  EncryptedContainer.decryptReader_output Platform.is64Bit_debug64 _ crypto _ password

end EncryptedSample
end Aff4
