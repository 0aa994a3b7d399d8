import Aff4.Crypto.RoundTrip
import Aff4.Reader.Frame
import Aff4.Rust.Alike

/-!
# What decryption depends on

Nothing authenticates the ciphertext of a volume.  A chunk that is altered in its
bevy is decrypted to other bytes, but no further: the chunks around it keep their
number, their place in the output and their plaintext.
-/

namespace Aff4

open Rust

namespace ZipArchive

variable {archive other : ZipArchive}

/-- An entry without altered bytes is read alike. -/
theorem readEntry_eq_of_not_altered
    (shape : archive.SameShape other) {name : Text}
    (unaltered : ∀ position, ¬archive.Altered other name position) :
    other.readEntry name = archive.readEntry name := by
  rcases shape.cases name with
    ⟨error, fails, failsToo⟩ | ⟨data, altered, read, readOther, -⟩
  · rw [fails, failsToo]
  · rw [read, readOther]
    apply congrArg
    apply List.ext_getElem?
    intro position
    exact (getElem?_eq_of_not_altered read readOther (unaltered position)).symm

end ZipArchive

namespace Decrypt

section

variable (platform : Platform) (archive other : ZipArchive) (zipBase : Text)

/-- The stored bytes of an entry of a segment, between the bounds its index gives,
are the same in another archive. -/
def StoredAlike (segment chunkInSeg : UInt64) : Prop :=
  ∀ index bounds, archive.readEntry (indexName zipBase segment) = .ok index →
    chunkBoundsFromIndex platform index chunkInSeg = .ok bounds →
    ∀ position, bounds.1 ≤ position → position < bounds.2 →
      ¬archive.Altered other (segmentName zipBase segment) position

/-- One chunk, decrypted from two archives. -/
structure SameChunk (visit forged : Visit) : Prop where
  segment : forged.segment = visit.segment
  chunkInSeg : forged.chunkInSeg = visit.chunkInSeg
  tweak : forged.tweak = visit.tweak
  appended : AlteredCopy
    (StoredAlike platform archive other zipBase visit.segment visit.chunkInSeg)
    visit.appended forged.appended

/-- Outside the chunks that are stored differently, two plaintexts are the same. -/
structure SameOutside (visits : List Visit) (plain forged : Bytes) : Prop where
  length : forged.length = plain.length
  kept : ∀ before visit after, visits = before ++ visit :: after →
    StoredAlike platform archive other zipBase visit.segment visit.chunkInSeg →
      ∀ position, (before.flatMap Visit.appended).length ≤ position →
        position < (before.flatMap Visit.appended).length + visit.appended.length →
          forged[position]? = plain[position]?

end

variable {platform : Platform} {archive other : ZipArchive} {zipBase : Text}
variable {metadata : EncryptedMeta} {cipher : Xts}

/-- A chunk that is stored differently is decrypted to as many other bytes. -/
theorem decryptSector_alike {kept : Prop} {sector image : Bytes}
    (copy : AlteredCopy kept sector image) (tweak : UInt64) :
    Outcome.Alike (AlteredCopy kept) (decryptSector cipher sector tweak)
      (decryptSector cipher image tweak) := by
  unfold decryptSector
  rw [copy.length]
  split
  · exact .panic _
  · refine .ok ⟨?_, fun untouched => by rw [copy.eq_of_kept untouched]⟩
    rw [cipher.decryptSector_length, cipher.decryptSector_length, copy.length]

/-- Between given bounds, a bevy and its altered copy hold a chunk and a copy of
it. -/
theorem slice_bevy_alike {segment chunkInSeg : UInt64} {index bevy forged : Bytes}
    {bounds : Nat × Nat}
    (readIndex : archive.readEntry (indexName zipBase segment) = .ok index)
    (readBevy : archive.readEntry (segmentName zipBase segment) = .ok bevy)
    (readForged : other.readEntry (segmentName zipBase segment) = .ok forged)
    (sameLength : bevy.length = forged.length)
    (decoded : chunkBoundsFromIndex platform index chunkInSeg = .ok bounds) :
    Outcome.Alike
      (AlteredCopy (StoredAlike platform archive other zipBase segment chunkInSeg))
      (slice bevy bounds.1 bounds.2 : Outcome Aff4Error Bytes)
      (slice forged bounds.1 bounds.2) := by
  apply AlteredCopy.slice_of_kept sameLength.symm
  intro stored
  apply take_drop_congr
  intro position atLeast below
  exact (ZipArchive.getElem?_eq_of_not_altered readBevy readForged
    (stored index bounds readIndex decoded position atLeast below)).symm

/-- The chunk of one index entry is decrypted alike from an altered bevy. -/
theorem decryptChunk_alike {segment : UInt64} {index bevy forged : Bytes}
    (readIndex : archive.readEntry (indexName zipBase segment) = .ok index)
    (readBevy : archive.readEntry (segmentName zipBase segment) = .ok bevy)
    (readForged : other.readEntry (segmentName zipBase segment) = .ok forged)
    (sameLength : bevy.length = forged.length) (chunkInSeg produced : UInt64) :
    Outcome.Alike (SameChunk platform archive other zipBase)
      (decryptChunk platform metadata cipher index bevy segment chunkInSeg produced)
      (decryptChunk platform metadata cipher index forged segment chunkInSeg
        produced) := by
  refine Outcome.Alike.bind_same _ fun bounds decoded => ?_
  dsimp only
  rw [← sameLength]
  split
  · exact .err _
  refine Outcome.Alike.bind
    (slice_bevy_alike readIndex readBevy readForged sameLength decoded)
    fun stored storedForged copy => ?_
  refine Outcome.Alike.bind_same _ fun tweak _ => ?_
  refine Outcome.Alike.bind (decryptSector_alike copy tweak)
    fun sector sectorForged decrypted => ?_
  refine Outcome.Alike.bind_same _ fun remaining _ => ?_
  rw [decrypted.length]
  refine Outcome.Alike.bind (decrypted.slice 0 _) fun appended appendedForged cut => ?_
  exact .ok ⟨rfl, rfl, rfl, cut⟩

/-- The chunks of one segment are decrypted alike from an altered bevy, and make
the output as long. -/
theorem segmentLoop_alike {segment : UInt64} {index bevy forged : Bytes}
    (readIndex : archive.readEntry (indexName zipBase segment) = .ok index)
    (readBevy : archive.readEntry (segmentName zipBase segment) = .ok bevy)
    (readForged : other.readEntry (segmentName zipBase segment) = .ok forged)
    (sameLength : bevy.length = forged.length)
    (entries chunkInSeg : Nat) (produced : UInt64) :
    Outcome.Alike
      (fun run runForged =>
        List.Forall₂ (SameChunk platform archive other zipBase) run.1 runForged.1 ∧
          runForged.2 = run.2)
      (segmentLoop platform metadata cipher index bevy segment entries chunkInSeg
        produced)
      (segmentLoop platform metadata cipher index forged segment entries chunkInSeg
        produced) := by
  induction entries generalizing chunkInSeg produced with
  | zero => exact .ok ⟨.nil, rfl⟩
  | succ entries inductionHypothesis =>
      unfold segmentLoop
      split
      · exact .ok ⟨.nil, rfl⟩
      refine Outcome.Alike.bind
        (decryptChunk_alike readIndex readBevy readForged sameLength _ _)
        fun visit visitForged chunk => ?_
      rw [chunk.appended.length]
      refine Outcome.Alike.bind_same _ fun next _ => ?_
      refine Outcome.Alike.bind (inductionHypothesis (chunkInSeg + 1) next)
        fun run runForged rest => ?_
      exact .ok ⟨.cons chunk rest.1, rest.2⟩

/-- The stream is decrypted alike from an archive with altered bevies. -/
theorem streamLoop_alike
    (shape : archive.SameShape other)
    (indexKept : ∀ segment position,
      ¬archive.Altered other (indexName zipBase segment) position)
    (passes : Nat) (segment produced : UInt64) :
    Outcome.Alike (List.Forall₂ (SameChunk platform archive other zipBase))
      (streamLoop platform archive zipBase metadata cipher passes segment produced)
      (streamLoop platform other zipBase metadata cipher passes segment produced) := by
  induction passes generalizing segment produced with
  | zero => exact .ok .nil
  | succ passes inductionHypothesis =>
      unfold streamLoop
      split
      · exact .ok .nil
      rw [ZipArchive.readEntry_eq_of_not_altered shape (indexKept segment)]
      refine Outcome.Alike.bind_same _ fun index readIndex => ?_
      rw [Outcome.ofExcept_eq_ok] at readIndex
      rcases shape.cases (segmentName zipBase segment) with
        ⟨error, fails, failsToo⟩ | ⟨bevy, forged, readBevy, readForged, sameLength⟩
      · rw [fails, failsToo]
        exact .err _
      rw [readBevy, readForged]
      dsimp only [Outcome.ofExcept_ok, Outcome.ok_bind]
      split
      · exact .err _
      refine Outcome.Alike.bind
        (segmentLoop_alike readIndex readBevy readForged sameLength _ _ _)
        fun run runForged segmentRun => ?_
      refine Outcome.Alike.bind_same _ fun next _ => ?_
      rw [segmentRun.2]
      refine Outcome.Alike.bind (inductionHypothesis next run.2)
        fun rest restForged others => ?_
      exact .ok (List.rel_append segmentRun.1 others)

/-- Chunks that are decrypted alike make plaintexts that are the same outside the
altered chunks. -/
theorem sameOutside_of_forall₂ {visits forgedVisits : List Visit}
    (chunks : List.Forall₂ (SameChunk platform archive other zipBase) visits
      forgedVisits) :
    SameOutside platform archive other zipBase visits (visits.flatMap Visit.appended)
      (forgedVisits.flatMap Visit.appended) := by
  induction chunks with
  | nil =>
      refine ⟨rfl, fun before visit after split => ?_⟩
      exact absurd split.symm (List.append_ne_nil_of_right_ne_nil before (by simp))
  | @cons first firstForged rest restForged chunk _ inductionHypothesis =>
      have front := chunk.appended.length
      constructor
      · rw [List.flatMap_cons, List.flatMap_cons, List.length_append,
          List.length_append, front, inductionHypothesis.length]
      · intro before visit after split stored position atLeast below
        rw [List.flatMap_cons, List.flatMap_cons]
        cases before with
        | nil =>
            cases split
            have inside : position < first.appended.length := by
              simpa using below
            rw [chunk.appended.eq_of_kept stored, List.getElem?_append_left inside,
              List.getElem?_append_left inside]
        | cons head before =>
            rw [List.cons_append, List.cons.injEq] at split
            obtain ⟨rfl, split⟩ := split
            rw [List.flatMap_cons, List.length_append] at atLeast below
            rw [List.getElem?_append_right (by omega),
              List.getElem?_append_right (by omega), front]
            exact inductionHypothesis.kept before visit after split stored _ (by omega)
              (by omega)

end Decrypt

namespace EncryptedContainer

variable {platform : Platform} {crates : Crates} {backing altered : Bytes}
variable (container : EncryptedContainer platform crates backing)
variable {other : ZipArchive}

/-- The container over another archive that holds the same document. -/
def withArchive
    (opens : crates.zipArchiveNew altered = .ok other)
    (sameTurtle : other.readEntryToString "information.turtle".toList =
      container.archive.readEntryToString "information.turtle".toList) :
    EncryptedContainer platform crates altered where
  archive := other
  turtle := container.turtle
  metadata := container.metadata
  archive_eq := opens
  turtle_eq := sameTurtle.trans container.turtle_eq
  metadata_eq := container.metadata_eq

/-- An encrypted container whose bevies were altered in place is decrypted alike
under every password: it fails as before, or every chunk has the number and the
length it had, and the plaintext is the same outside the chunks that were
altered. -/
theorem decryptReader_outside_alterations
    (opens : crates.zipArchiveNew altered = .ok other)
    (shape : container.archive.SameShape other)
    (sameNames : other.fileNames = container.archive.fileNames)
    (turtleKept : ∀ position,
      ¬container.archive.Altered other "information.turtle".toList position)
    (indexKept : ∀ segment position,
      ¬container.archive.Altered other (indexName container.zipBase segment) position)
    (crypto : CryptoCrates) (password : Text) :
    Outcome.Alike
        (List.Forall₂ (Decrypt.SameChunk platform container.archive other
          container.zipBase))
        (decryptVisits platform crates crypto backing password)
        (decryptVisits platform crates crypto altered password) ∧
      Outcome.Alike
        (fun plain forged => ∃ visits,
          decryptVisits platform crates crypto backing password = .ok visits ∧
            Decrypt.SameOutside platform container.archive other container.zipBase
              visits plain forged)
        (decryptReader platform crates crypto backing password)
        (decryptReader platform crates crypto altered password) := by
  have sameTurtle : other.readEntryToString "information.turtle".toList =
      container.archive.readEntryToString "information.turtle".toList := by
    rw [ZipArchive.readEntryToString, ZipArchive.readEntryToString,
      ZipArchive.readEntry_eq_of_not_altered shape turtleKept]
  have sameBase : (container.withArchive opens sameTurtle).zipBase =
      container.zipBase :=
    ZipArchive.detectZipBase_eq_of_fileNames_eq sameNames _
  have visitsAlike : Outcome.Alike
      (List.Forall₂ (Decrypt.SameChunk platform container.archive other
        container.zipBase))
      (decryptVisits platform crates crypto backing password)
      (decryptVisits platform crates crypto altered password) := by
    rw [container.decryptVisits_eq,
      (container.withArchive opens sameTurtle).decryptVisits_eq]
    refine Outcome.Alike.bind_same _ fun vek _ => ?_
    refine Outcome.Alike.bind_same _ fun _ _ => ?_
    rw [decryptWith, decryptWith, sameBase]
    exact Decrypt.streamLoop_alike shape indexKept _ _ _
  refine ⟨visitsAlike, ?_⟩
  exact visitsAlike.map fun visits forgedVisits returned chunks =>
    ⟨visits, returned, Decrypt.sameOutside_of_forall₂ chunks⟩

end EncryptedContainer

/-! A volume whose second chunk was overwritten with the stored third one. -/

namespace OverwrittenSample

open EncryptedSample

theorem short_overwritten : ∀ entry ∈ entries [0, 2] [2], entry.2.length < 2 ^ 63 :=
  entries_short [0, 2] [2] (by decide)

/-- Crates that find the volume in the empty file, and the altered one in others. -/
def crates : Crates :=
  { Crates.opening (archive [0, 1] [2] short_full) with
    zipArchiveNew := fun backing =>
      .ok (if backing = [] then archive [0, 1] [2] short_full
        else archive [0, 2] [2] short_overwritten) }

def volume : EncryptedContainer .debug64 crates [] where
  archive := archive [0, 1] [2] short_full
  turtle := turtle
  metadata := metadata
  archive_eq := rfl
  turtle_eq := (container [0, 1] [2] short_full).turtle_eq
  metadata_eq := metadata_eq

theorem opens :
    crates.zipArchiveNew [0] = .ok (archive [0, 2] [2] short_overwritten) := rfl

theorem sameShape_archive :
    volume.archive.SameShape (archive [0, 2] [2] short_overwritten) :=
  @ZipArchive.sameShape_overwritten
    [("information.turtle".toList, Str.asBytes turtle),
      ("aff4://e/00000000.index".toList, indexOf [0, 1])]
    [("aff4://e/00000001.index".toList, indexOf [2]),
      ("aff4://e/00000001".toList, [2].flatMap sealedChunk)]
    "aff4://e/00000000".toList ([0, 1].flatMap sealedChunk) ([0, 2].flatMap sealedChunk)
    rfl short_full short_overwritten

/-- Only the first bevy was altered. -/
theorem name_of_altered {name : Text} {position : Nat}
    (altered : volume.archive.Altered (archive [0, 2] [2] short_overwritten) name
      position) :
    name = "aff4://e/00000000".toList :=
  (@ZipArchive.altered_overwritten
    [("information.turtle".toList, Str.asBytes turtle),
      ("aff4://e/00000000.index".toList, indexOf [0, 1])]
    [("aff4://e/00000001.index".toList, indexOf [2]),
      ("aff4://e/00000001".toList, [2].flatMap sealedChunk)]
    "aff4://e/00000000".toList ([0, 1].flatMap sealedChunk) ([0, 2].flatMap sealedChunk)
    short_full short_overwritten name position altered).1

theorem turtleKept (position : Nat) :
    ¬volume.archive.Altered (archive [0, 2] [2] short_overwritten)
      "information.turtle".toList position :=
  fun altered => absurd (name_of_altered altered) (by decide)

theorem indexKept (segment : UInt64) (position : Nat) :
    ¬volume.archive.Altered (archive [0, 2] [2] short_overwritten)
      (indexName volume.zipBase segment) position := by
  intro altered
  have last := congrArg List.getLast? (name_of_altered altered)
  rw [indexName, List.getLast?_append] at last
  have ending : some 'x' = some '0' := last
  exact absurd ending (by decide)

theorem decryptReader_outside_alterations_sample :
    Outcome.Alike
        (List.Forall₂ (Decrypt.SameChunk .debug64 volume.archive
          (archive [0, 2] [2] short_overwritten) volume.zipBase))
        (decryptVisits .debug64 crates crypto [] password)
        (decryptVisits .debug64 crates crypto [0] password) ∧
      Outcome.Alike
        (fun plain forged => ∃ visits,
          decryptVisits .debug64 crates crypto [] password = .ok visits ∧
            Decrypt.SameOutside .debug64 volume.archive
              (archive [0, 2] [2] short_overwritten) volume.zipBase visits plain forged)
        (decryptReader .debug64 crates crypto [] password)
        (decryptReader .debug64 crates crypto [0] password) :=
  volume.decryptReader_outside_alterations opens sameShape_archive rfl turtleKept
    indexKept crypto password

end OverwrittenSample

end Aff4
