import Aff4.Kind
import Aff4.Logical.Metadata
import Aff4.Logical.Segments

/-!
# Written collections

A container of logical files is written from captured files: a document that
describes them, and an entry for the content of each.  This file shows that the
files come back, in order and in full, exactly when no other entry is mistaken for
that of a file.
-/

namespace Aff4

open Rust Rust.Str

instance (path name : Text) : Decidable (EndsIn path name) :=
  inferInstanceAs (Decidable (_ ∧ _))

/-- A captured file, and the entry its content is written to. -/
structure CapturedFile extends LogicalFile where
  segment : Text
  content : Bytes

/-- What a captured file is listed as. -/
def CapturedFile.entry (captured : CapturedFile) : LogicalEntry where
  segment := captured.segment
  originalFileName := captured.originalFileName
  size := captured.size
  hashes := captured.hashes
  lastWritten := some captured.lastWritten

/-- A container that was written from captured files, beside whatever else it
holds. -/
structure WrittenCollection
    (crates : Crates) (backing : Bytes) (files : List CapturedFile) where
  archive : ZipArchive
  archive_eq : crates.zipArchiveNew backing = .ok archive
  nonempty : files ≠ []
  storedTurtle : archive.readEntry "information.turtle".toList =
    .ok (asBytes (document (files.map CapturedFile.toLogicalFile)))
  stored : ∀ captured ∈ files,
    archive.readEntry captured.segment = .ok captured.content
  endsIn : ∀ captured ∈ files, EndsIn (arnTail captured.arn) captured.segment
  legible : ∀ captured ∈ files, captured.Legible

namespace WrittenCollection

variable {crates : Crates} {backing : Bytes} {files : List CapturedFile}
variable (collection : WrittenCollection crates backing files)

include collection in
theorem informationTurtle_eq :
    informationTurtle crates backing =
      .ok (document (files.map CapturedFile.toLogicalFile)) := by
  have turtle := ZipArchive.readEntryToString_of_asBytes _ collection.storedTurtle
  simp only [informationTurtle, collection.archive_eq, Except.mapError, bind,
    Except.bind, turtle]

include collection in
/-- The document is parsed as the records of the files. -/
theorem parseLogicalFiles_eq_ok :
    parseLogicalFiles (document (files.map CapturedFile.toLogicalFile)) =
      .ok (files.map fun captured => captured.record) := by
  have parsed : (files.map CapturedFile.toLogicalFile).map LogicalFile.record =
      files.map fun captured => captured.record :=
    List.map_map
  rw [parseLogicalFiles_eq, fileImageNodes_document, ← parsed,
    except_mapM_flatMap_eq_ok LogicalFile.fileImageNodes_ne_nil]
  intro file member
  obtain ⟨captured, inside, rfl⟩ := List.mem_map.mp member
  exact captured.exists_parseLogicalFile_iff.mpr (collection.legible captured inside)

/-- No other entry is mistaken for that of a file. -/
def Unambiguous : Prop :=
  ∀ captured ∈ files,
    Unmistakable collection.archive.fileNames captured.arn captured.segment

/-- The record of a file is resolved to the entry it was written to exactly when no
other entry is mistaken for it. -/
theorem resolveLogicalFile_eq_iff {captured : CapturedFile} (member : captured ∈ files) :
    resolveLogicalFile collection.archive.fileNames captured.record =
        .ok captured.entry ↔
      Unmistakable collection.archive.fileNames captured.arn captured.segment := by
  have listed := ZipArchive.mem_fileNames_of_readEntry_eq_ok
    (collection.stored captured member)
  have arn : captured.record.arn = captured.arn := rfl
  rw [← resolveSegment_eq_some_iff listed (collection.endsIn captured member), ← arn,
    resolveLogicalFile]
  cases resolveSegment collection.archive.fileNames captured.record.arn with
  | none => simp
  | some segment =>
      simp only [Except.ok.injEq, Option.some.injEq]
      constructor
      · intro same
        exact congrArg LogicalEntry.segment same
      · rintro rfl
        rfl

/-- The files of the container are resolved one by one. -/
theorem resolveLogicalFiles_eq_iff :
    (files.map fun captured => captured.record).mapM
        (resolveLogicalFile collection.archive.fileNames) =
          .ok (files.map CapturedFile.entry) ↔ collection.Unambiguous := by
  rw [except_mapM_eq_ok, List.forall₂_map_left_iff, List.forall₂_map_right_iff,
    List.forall₂_same]
  exact forall₂_congr fun captured member => collection.resolveLogicalFile_eq_iff member

/-- The container opens as what its records are resolved to. -/
theorem openReader_eq :
    LogicalContainer.openReader crates backing =
      ((files.map fun captured => captured.record).mapM
          (resolveLogicalFile collection.archive.fileNames) >>= fun files =>
        .ok { archive := collection.archive, files }) := by
  have turtle := ZipArchive.readEntryToString_of_asBytes _ collection.storedTurtle
  have some : (files.map fun captured => captured.record) ≠ [] := by
    rw [ne_eq, List.map_eq_nil_iff]
    exact collection.nonempty
  simp only [LogicalContainer.openReader, collection.archive_eq, Except.mapError, bind,
    Except.bind, turtle, collection.parseLogicalFiles_eq_ok, some, if_false]
  rfl

/-- The content of every file is read back. -/
theorem map_readFile :
    (files.map CapturedFile.entry).map
        (LogicalContainer.readFile ⟨collection.archive, files.map CapturedFile.entry⟩) =
      files.map fun captured => .ok captured.content := by
  rw [List.map_map]
  exact List.map_congr_left collection.stored

include collection in
/-- The container is recognized as a collection of files. -/
theorem containerKind_eq : containerKind crates backing = .ok .logical := by
  rw [containerKind_eq_ok]
  refine ⟨_, _, collection.informationTurtle_eq, collection.parseLogicalFiles_eq_ok, ?_⟩
  rw [ne_eq, List.map_eq_nil_iff]
  exact collection.nonempty

/-- The files of an unambiguous container are listed as they were described, and read
back. -/
theorem exists_openReader_eq (unambiguous : collection.Unambiguous) :
    ∃ container,
      LogicalContainer.openReader crates backing = .ok container ∧
      container.files = files.map CapturedFile.entry ∧
      container.files.map container.readFile =
        files.map fun captured => .ok captured.content := by
  have resolved := collection.resolveLogicalFiles_eq_iff.mpr unambiguous
  refine ⟨_, ?_, rfl, collection.map_readFile⟩
  rw [collection.openReader_eq]
  exact except_bind_eq_ok.mpr ⟨_, resolved, rfl⟩

/-- A container of captured files is recognized as one.  It lists every file as it was
described, in order, and returns the content of each, exactly when no other entry is
mistaken for that of a file. -/
theorem opens_as_written_iff :
    containerKind crates backing = .ok .logical ∧
    ((∃ container,
        LogicalContainer.openReader crates backing = .ok container ∧
        container.files = files.map CapturedFile.entry ∧
        container.files.map container.readFile =
          files.map fun captured => .ok captured.content) ↔
      collection.Unambiguous) := by
  refine ⟨collection.containerKind_eq, ?_, collection.exists_openReader_eq⟩
  rintro ⟨container, opened, listed, -⟩
  rw [collection.openReader_eq] at opened
  obtain ⟨entries, resolved, rest⟩ := except_bind_eq_ok.mp opened
  cases rest
  rw [← collection.resolveLogicalFiles_eq_iff, resolved]
  exact congrArg Except.ok listed

end WrittenCollection

/-! Two files, one of them in a directory and with two digests, beside an entry that is
neither. -/

namespace CollectionSample

def note : LogicalFile where
  arn := "aff4://v/note.txt".toList
  originalFileName := "./note.txt".toList
  size := 2
  hashes := []
  lastWritten := "2018-09-17T13:42:19+10:00".toList
  isIri := by decide
  declarable := List.forall_mem_nil _
  timestamp := by decide

def hashes : List StoredHash :=
  [{ algorithm := "MD5".toList, hex := "0f".toList },
    { algorithm := "SHA1".toList, hex := "1e".toList }]

theorem declarable : ∀ hash ∈ hashes, hash.Declarable := by
  rw [hashes, List.forall_mem_cons, List.forall_mem_singleton]
  constructor
  · exact ⟨by decide, by decide, by decide, by decide, by decide, by decide⟩
  · exact ⟨by decide, by decide, by decide, by decide, by decide, by decide⟩

def nested : LogicalFile where
  arn := "aff4://v/d/x".toList
  originalFileName := "./d/x".toList
  size := 1
  hashes := hashes
  lastWritten := "2018-09-17T13:42:21+10:00".toList
  isIri := by decide
  declarable := declarable
  timestamp := by decide

def files : List CapturedFile :=
  [⟨note, "note.txt".toList, [0x68, 0x69]⟩, ⟨nested, "v/d/x".toList, [0x2A]⟩]

def entries : List (Text × Bytes) :=
  [("information.turtle".toList,
      asBytes (document (files.map CapturedFile.toLogicalFile))),
    ("note.txt".toList, [0x68, 0x69]), ("v/d/x".toList, [0x2A]),
    ("version.txt".toList, [0x31])]

def archive : ZipArchive := .ofEntries entries (by decide +kernel)

theorem legible : ∀ captured ∈ files, captured.Legible := by
  have noSize (file : LogicalFile) (absent : "aff4:size".toList ∉ words file.leading) :
      file.SizeLegible := fun before value after leading _ =>
    absurd (leading ▸ List.mem_append_right _ (List.mem_cons_self ..)) absent
  rw [files, List.forall_mem_cons, List.forall_mem_singleton]
  constructor
  · exact ⟨by decide, by decide, by decide +kernel, noSize _ (by decide +kernel),
      by decide +kernel, by decide +kernel⟩
  · exact ⟨by decide, by decide, by decide +kernel, noSize _ (by decide +kernel),
      by decide +kernel, by decide +kernel⟩

/-- The sample, in whatever file the archive is found. -/
def collection {crates : Crates} {backing : Bytes}
    (opens : crates.zipArchiveNew backing = .ok archive) :
    WrittenCollection crates backing files where
  archive := archive
  archive_eq := opens
  nonempty := List.cons_ne_nil _ _
  storedTurtle := ZipArchive.readEntry_ofEntries rfl
  stored := by
    rw [files, List.forall_mem_cons, List.forall_mem_singleton]
    exact ⟨ZipArchive.readEntry_ofEntries rfl, ZipArchive.readEntry_ofEntries rfl⟩
  endsIn := by
    rw [files, List.forall_mem_cons, List.forall_mem_singleton]
    exact ⟨⟨by decide, by decide⟩, ⟨by decide, by decide⟩⟩
  legible := legible

theorem unambiguous {crates : Crates} {backing : Bytes}
    (opens : crates.zipArchiveNew backing = .ok archive) :
    (collection opens).Unambiguous := by
  have names : archive.fileNames = ["information.turtle".toList, "note.txt".toList,
      "v/d/x".toList, "version.txt".toList] := rfl
  change ∀ captured ∈ files, Unmistakable archive.fileNames captured.arn captured.segment
  rw [names, files, List.forall_mem_cons, List.forall_mem_singleton]
  constructor
  · exact ⟨by decide, fun absent => absurd (by decide) absent⟩
  · refine ⟨by decide, fun _ => ⟨["information.turtle".toList, "note.txt".toList],
      ["version.txt".toList], rfl, by decide, by decide⟩⟩

theorem opens_as_written_sample :
    containerKind (.opening archive) [] = .ok .logical ∧
    ∃ container,
      LogicalContainer.openReader (.opening archive) [] = .ok container ∧
      container.files = files.map CapturedFile.entry ∧
      container.files.map container.readFile =
        files.map fun captured => .ok captured.content := by
  obtain ⟨logical, opens⟩ := @WrittenCollection.opens_as_written_iff (.opening archive) []
    files (collection rfl)
  exact ⟨logical, opens.mpr (unambiguous rfl)⟩

end CollectionSample
end Aff4
