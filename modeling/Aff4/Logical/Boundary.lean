import Aff4.Logical.Segments

/-!
# Unrelated entries

The search by suffix compares characters, not components of a path.  This file
says exactly when it stays within the entries whose path is that of the file, and
when a container with a missing segment is refused.
-/

namespace Aff4

open Rust

/-- An entry name ends with a slash and the whole path of an ARN. -/
def EndsInPath (arn name : Text) : Prop :=
  trimSlashes (arnTail arn) ≠ [] ∧ '/' :: trimSlashes (arnTail arn) <:+ name

/-- An entry name is one of the spellings of an ARN, or ends in its path. -/
def BelongsTo (arn name : Text) : Prop :=
  name ∈ exactSpellings arn ∨ EndsInPath arn name

/-- Whatever an ARN resolves to is an entry that belongs to it. -/
def ResolvesToOwn (names : List Text) (arn : Text) : Prop :=
  ∀ name, resolveSegment names arn = some name →
    name ∈ names ∧ BelongsTo arn name

/-- An entry has one of the spellings of an ARN. -/
def SpellingListed (names : List Text) (arn : Text) : Prop :=
  ∃ spelling ∈ exactSpellings arn, spelling ∈ names

section Resolution

variable {names : List Text} {arn : Text}

/-- A spelling that is listed is what an ARN resolves to. -/
theorem resolveSegment_of_spellingListed (listed : SpellingListed names arn) :
    ∃ spelling ∈ exactSpellings arn,
      spelling ∈ names ∧ resolveSegment names arn = some spelling := by
  rw [resolveSegment_eq]
  cases found : (exactSpellings arn).find? fun candidate =>
      names.contains candidate with
  | some spelling =>
      have inside := List.mem_of_find?_eq_some found
      have present := List.find?_some found
      exact ⟨spelling, inside, by simpa using present, Option.some_or⟩
  | none =>
      obtain ⟨spelling, inside, present⟩ := listed
      have absent := List.find?_eq_none.mp found spelling inside
      simp [present] at absent

/-- Without one, the search by suffix decides. -/
theorem resolveSegment_of_not_spellingListed (absent : ¬SpellingListed names arn) :
    resolveSegment names arn =
      maxByKey Str.len (suffixMatches names (arnTail arn)) := by
  have none : ((exactSpellings arn).find? fun candidate =>
      names.contains candidate) = none := by
    apply List.find?_eq_none.mpr
    intro spelling inside present
    exact absent ⟨spelling, inside, by simpa using present⟩
  rw [resolveSegment_eq, none, Option.none_or]

theorem mem_suffixMatches {path name : Text} :
    name ∈ suffixMatches names path ↔ name ∈ names ∧ EndsIn path name := by
  rw [suffixMatches, List.mem_filter, keeps_iff_endsIn]

theorem maxByKey_suffixMatches_eq_some_iff {path name : Text} :
    maxByKey Str.len (suffixMatches names path) = some name ↔
      EndsIn path name ∧ WinsBySuffix names path name := by
  by_cases endsIn : EndsIn path name
  · have wins := @maxByKey_filter_eq_some_iff Text Str.len names name
      (fun name => !(['/'].isSuffixOf name) && (trimSlashes path).isSuffixOf name)
      (keeps_iff_endsIn.mpr endsIn)
    simp only [keeps_iff_endsIn] at wins
    rw [and_iff_right endsIn, suffixMatches, wins, WinsBySuffix]
  · refine iff_of_false (fun found => endsIn ?_) fun both => endsIn both.1
    obtain ⟨before, after, split, -⟩ := maxByKey_eq_some_iff.mp found
    have member : name ∈ suffixMatches names path := by
      rw [split]
      exact List.mem_append_right _ (List.mem_cons_self ..)
    exact (mem_suffixMatches.mp member).2

/-- An ARN resolves to nothing if and only if no spelling is listed and no name
ends in its path's characters. -/
theorem resolveSegment_eq_none_iff :
    resolveSegment names arn = none ↔
      ¬SpellingListed names arn ∧
        ∀ name ∈ names, ¬EndsIn (arnTail arn) name := by
  by_cases listed : SpellingListed names arn
  · obtain ⟨spelling, -, -, resolved⟩ := resolveSegment_of_spellingListed listed
    rw [resolved]
    exact iff_of_false (fun impossible => by cases impossible)
      fun both => both.1 listed
  · rw [resolveSegment_of_not_spellingListed listed, and_iff_right listed]
    have empty_iff {values : List Text} :
        maxByKey Str.len values = none ↔ values = [] := by
      cases values <;> simp [maxByKey]
    rw [empty_iff, List.eq_nil_iff_forall_not_mem]
    refine forall_congr' fun name => ?_
    rw [mem_suffixMatches, not_and]

/-- An ARN resolves to its own entries only, if and only if one of its spellings
is listed or the longest of the names that end in the characters of its path, the
last one of that length, ends in the path. -/
theorem resolvesToOwn_iff (names : List Text) (arn : Text) :
    ResolvesToOwn names arn ↔
      SpellingListed names arn ∨
        ∀ name, EndsIn (arnTail arn) name →
          WinsBySuffix names (arnTail arn) name → EndsInPath arn name := by
  by_cases listed : SpellingListed names arn
  · refine iff_of_true ?_ (.inl listed)
    obtain ⟨spelling, inside, present, resolved⟩ :=
      resolveSegment_of_spellingListed listed
    intro name resolves
    rw [resolved] at resolves
    cases resolves
    exact ⟨present, .inl inside⟩
  · rw [or_iff_right listed, ResolvesToOwn,
      resolveSegment_of_not_spellingListed listed]
    refine forall_congr' fun name => ?_
    rw [maxByKey_suffixMatches_eq_some_iff, and_imp]
    refine imp_congr_right fun endsIn => imp_congr_right fun wins => ?_
    have member : name ∈ names := by
      obtain ⟨before, after, rfl, -⟩ := wins
      exact List.mem_append_right _ (List.mem_cons_self ..)
    rw [and_iff_right member, BelongsTo, or_iff_right]
    exact fun inside => listed ⟨name, inside, member⟩

end Resolution

/-! ## Missing segments -/

/-- The files of a container, as its metadata describes them. -/
structure DescribedFiles (crates : Crates) (backing : Bytes) where
  archive : ZipArchive
  turtle : Text
  parsed : List LogicalFileMeta
  archive_eq : crates.zipArchiveNew backing = .ok archive
  turtle_eq : archive.readEntryToString "information.turtle".toList = .ok turtle
  parsed_eq : parseLogicalFiles turtle = .ok parsed
  nonempty : parsed ≠ []

namespace DescribedFiles

variable {crates : Crates} {backing : Bytes}
variable (described : DescribedFiles crates backing)

/-- The segment of a file is absent, and no entry ends with its path. -/
def Missing (file : LogicalFileMeta) : Prop :=
  ∀ name ∈ described.archive.fileNames, ¬BelongsTo file.arn name

/-- A container with a missing segment is not opened. -/
def RefusesMissing : Prop :=
  (∃ file ∈ described.parsed, described.Missing file) →
    ∃ error, LogicalContainer.openReader crates backing = .error error

/-- Opening fails if and only if some file resolves to nothing. -/
theorem openReader_eq_error_iff :
    (∃ error, LogicalContainer.openReader crates backing = .error error) ↔
      ∃ file ∈ described.parsed,
        resolveSegment described.archive.fileNames file.arn = none := by
  have resolves (file : LogicalFileMeta) :
      (∃ error, resolveLogicalFile described.archive.fileNames file =
        .error error) ↔
          resolveSegment described.archive.fileNames file.arn = none := by
    unfold resolveLogicalFile
    cases resolveSegment described.archive.fileNames file.arn with
    | none => exact iff_of_true ⟨_, rfl⟩ rfl
    | some segment =>
        refine iff_of_false ?_ fun impossible => by cases impossible
        rintro ⟨_, impossible⟩
        cases impossible
  have opened : LogicalContainer.openReader crates backing =
      ((described.parsed.mapM
        (resolveLogicalFile described.archive.fileNames)) >>= fun files =>
          .ok { archive := described.archive, files }) := by
    simp only [LogicalContainer.openReader, described.archive_eq, Except.mapError,
      bind, Except.bind, described.turtle_eq, described.parsed_eq,
      described.nonempty, if_false]
    rfl
  simp only [← resolves]
  rw [opened, ← except_mapM_eq_error_iff]
  cases described.parsed.mapM
      (resolveLogicalFile described.archive.fileNames) with
  | error failure => exact iff_of_true ⟨failure, rfl⟩ ⟨failure, rfl⟩
  | ok files =>
      refine iff_of_false ?_ ?_
      · rintro ⟨_, impossible⟩
        cases impossible
      · rintro ⟨_, impossible⟩
        cases impossible

end DescribedFiles

/-- When an ARN resolves to its own entries only, and when a container with a
missing segment is refused. -/
theorem resolveSegment_belongs_iff (names : List Text) (arn : Text) :
    (ResolvesToOwn names arn ↔
      SpellingListed names arn ∨
        ∀ name, EndsIn (arnTail arn) name →
          WinsBySuffix names (arnTail arn) name → EndsInPath arn name) ∧
    ∀ crates backing (described : DescribedFiles crates backing),
      described.RefusesMissing ↔
        ((∃ file ∈ described.parsed, described.Missing file) →
          ∃ file ∈ described.parsed,
            ¬SpellingListed described.archive.fileNames file.arn ∧
              ∀ name ∈ described.archive.fileNames,
                ¬EndsIn (arnTail file.arn) name) := by
  refine ⟨resolvesToOwn_iff names arn, fun crates backing described => ?_⟩
  rw [DescribedFiles.RefusesMissing, described.openReader_eq_error_iff]
  simp only [resolveSegment_eq_none_iff]

/-! A file whose segment is missing, in a container with an entry whose name ends in
the same letter. -/

namespace StraySample

def turtle : Text := "<aff4://v/a> a aff4:FileImage . ".toList

def entries : List (Text × Bytes) :=
  [("information.turtle".toList, Str.asBytes turtle), ("ba".toList, [0x42])]

def archive : ZipArchive := .ofEntries entries (by decide +kernel)

def described : DescribedFiles (.opening archive) [] where
  archive := archive
  turtle := turtle
  parsed :=
    [{ arn := "aff4://v/a".toList, originalFileName := "aff4://v/a".toList
       size := 0, hashes := [], lastWritten := none }]
  archive_eq := rfl
  turtle_eq := ZipArchive.readEntryToString_of_asBytes turtle
    (ZipArchive.readEntry_ofEntries rfl)
  parsed_eq := by decide +kernel
  nonempty := List.cons_ne_nil _ _

theorem not_resolvesToOwn_stray :
    ¬ResolvesToOwn archive.fileNames "aff4://v/a".toList ∧
      ¬described.RefusesMissing := by
  have strays : ¬BelongsTo "aff4://v/a".toList "ba".toList := by
    unfold BelongsTo EndsInPath
    decide +kernel
  constructor
  · intro own
    have resolved : resolveSegment archive.fileNames "aff4://v/a".toList =
        some "ba".toList := by
      decide +kernel
    exact strays (own _ resolved).2
  · intro refuses
    obtain ⟨error, fails⟩ := refuses ⟨_, List.mem_cons_self .., by
      unfold DescribedFiles.Missing BelongsTo EndsInPath
      decide +kernel⟩
    have opened : (LogicalContainer.openReader (.opening archive) []).isOk = true := by
      decide +kernel
    rw [fails] at opened
    cases opened

end StraySample

end Aff4
