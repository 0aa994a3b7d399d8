import Aff4.Logical

/-!
# The segments of logical files

A captured file is found by its ARN: under one of three exact spellings, and
otherwise under the longest entry name that ends in its path.  The search knows
nothing of the other files, so it finds a file's own entry exactly when no other
entry has an earlier spelling or, for the search by suffix, a name that wins.
-/

namespace Aff4

open Rust

/-! ## Resolution -/

/-- The exact spellings, in the order in which they are tried. -/
def exactSpellings (arn : Text) : List Text :=
  [arnTail arn, trimSlashes (arnTail arn), urlencodeArn arn]

/-- A name the search by suffix considers. -/
def EndsIn (path name : Text) : Prop :=
  ¬['/'] <:+ name ∧ trimSlashes path <:+ name

/-- The search by suffix ends at a name: no name it considers is longer, and none
behind the last occurrence is as long. -/
def WinsBySuffix (names : List Text) (path own : Text) : Prop :=
  ∃ before after, names = before ++ own :: after ∧
    (∀ name ∈ before, EndsIn path name → Str.len name ≤ Str.len own) ∧
    ∀ name ∈ after, EndsIn path name → Str.len name < Str.len own

/-- No other entry is mistaken for an ARN's own one. -/
structure Unmistakable (names : List Text) (arn own : Text) : Prop where
  exact : ∀ spelling ∈ (exactSpellings arn).takeWhile (· ≠ own), spelling ∉ names
  bySuffix : own ∉ exactSpellings arn → WinsBySuffix names (arnTail arn) own

/-- The names the search by suffix considers. -/
def suffixMatches (names : List Text) (path : Text) : List Text :=
  names.filter fun name =>
    !(['/'].isSuffixOf name) && (trimSlashes path).isSuffixOf name

theorem keeps_iff_endsIn {path name : Text} :
    (!(['/'].isSuffixOf name) && (trimSlashes path).isSuffixOf name) = true ↔
      EndsIn path name := by
  rw [Bool.and_eq_true, Bool.not_eq_true', ← Bool.not_eq_true,
    List.isSuffixOf_iff_suffix, List.isSuffixOf_iff_suffix, EndsIn]

/-- The search by suffix comes second. -/
theorem resolveSegment_eq (names : List Text) (arn : Text) :
    resolveSegment names arn =
      ((exactSpellings arn).find? fun candidate => names.contains candidate).or
        (maxByKey Str.len (suffixMatches names (arnTail arn))) := by
  unfold resolveSegment exactSpellings
  dsimp only
  split
  next candidate found => rw [found, Option.some_or]
  next missing =>
    rw [missing, Option.none_or]
    rfl

/-- An entry is found by the ARN it ends like exactly when no other entry is
mistaken for it. -/
theorem resolveSegment_eq_some_iff
    {names : List Text} {arn own : Text}
    (listed : own ∈ names) (endsIn : EndsIn (arnTail arn) own) :
    resolveSegment names arn = some own ↔ Unmistakable names arn own := by
  have contains (name : Text) : names.contains name ↔ name ∈ names := by simp
  rw [resolveSegment_eq]
  cases found : (exactSpellings arn).find? fun candidate =>
      names.contains candidate with
  | some candidate =>
      obtain ⟨present, before, after, split, absent⟩ :=
        List.find?_eq_some_iff_append.mp found
      have absent : ∀ spelling ∈ before, spelling ∉ names := by
        simpa using absent
      have candidateListed := (contains candidate).mp present
      rw [Option.some_or]
      rw [Option.some.injEq]
      constructor
      · rintro rfl
        have beforeOwn : (exactSpellings arn).takeWhile (· ≠ candidate) = before := by
          rw [split, List.takeWhile_append_of_pos, List.takeWhile_cons_of_neg,
            List.append_nil]
          · simp
          · intro spelling inside
            have differs : spelling ≠ candidate := by
              rintro rfl
              exact absent spelling inside candidateListed
            simpa using differs
        refine ⟨?_, fun missing => absurd ?_ missing⟩
        · rw [beforeOwn]
          exact absent
        · rw [split]
          simp
      · intro unmistakable
        by_contra different
        refine unmistakable.exact candidate ?_ candidateListed
        rw [split, List.takeWhile_append_of_pos, List.takeWhile_cons_of_pos]
        · simp
        · simpa using different
        · intro spelling inside
          have differs : spelling ≠ own := by
            rintro rfl
            exact absent spelling inside listed
          simpa using differs
  | none =>
      have absent : ∀ spelling ∈ exactSpellings arn, spelling ∉ names := by
        simpa using List.find?_eq_none.mp found
      have missing : own ∉ exactSpellings arn := fun inside => absent own inside listed
      have wins := @maxByKey_filter_eq_some_iff Text Str.len names own
        (fun name => !(['/'].isSuffixOf name) &&
          (trimSlashes (arnTail arn)).isSuffixOf name)
        (keeps_iff_endsIn.mpr endsIn)
      simp only [keeps_iff_endsIn] at wins
      rw [Option.none_or, suffixMatches, wins]
      constructor
      · intro winner
        refine ⟨fun spelling inside => ?_, fun _ => winner⟩
        exact absent spelling (List.takeWhile_subset _ inside)
      · intro unmistakable
        exact unmistakable.bySuffix missing

/-! ## Stored volumes -/

/-- The conventions by which imagers name the entry of a captured file. -/
inductive SegmentNaming
  | encoded
  | literal
  | barePath
  | volumePath
  deriving DecidableEq, Repr

/-- What a convention puts before the path of a file. -/
def SegmentNaming.root (volume : Text) : SegmentNaming → Text
  | .encoded => "aff4%3A%2F%2F".toList ++ volume ++ ['/']
  | .literal => "aff4://".toList ++ volume ++ ['/']
  | .barePath => []
  | .volumePath => volume ++ ['/']

/-- The name of a file's entry. -/
def SegmentNaming.entryName (naming : SegmentNaming) (volume path : Text) : Text :=
  naming.root volume ++ path

/-- The ARN of a file of a volume. -/
def fileArn (volume path : Text) : Text :=
  "aff4://".toList ++ (volume ++ '/' :: path)

theorem stripPrefix_fileArn (volume path : Text) :
    Str.stripPrefix (fileArn volume path) "aff4://".toList =
      some (volume ++ '/' :: path) := by
  apply Str.stripPrefix_eq_some.mpr
  unfold fileArn
  rfl

theorem arnTail_fileArn {volume : Text} (noSlash : '/' ∉ volume) (path : Text) :
    arnTail (fileArn volume path) = '/' :: path := by
  simp only [arnTail, stripPrefix_fileArn, Option.getD_some,
    Str.find_char_append path noSlash, List.drop_left]

@[simp] theorem trimSlashes_cons (path : Text) :
    trimSlashes ('/' :: path) = trimSlashes path :=
  List.dropWhile_cons_of_pos (by decide)

theorem SegmentNaming.entryName_injective (naming : SegmentNaming) (volume : Text) :
    Function.Injective (naming.entryName volume) := fun _ _ equal =>
  List.append_cancel_left equal

/-- The entry of a file ends like its ARN. -/
theorem SegmentNaming.endsIn_entryName
    (naming : SegmentNaming) {volume path : Text} (noSlash : '/' ∉ volume)
    (nonempty : path ≠ []) (isFile : ¬['/'] <:+ path) :
    EndsIn (arnTail (fileArn volume path)) (naming.entryName volume path) := by
  have suffix : path <:+ naming.entryName volume path := List.suffix_append _ _
  constructor
  · intro slash
    apply isFile
    exact List.suffix_of_suffix_length_le slash suffix
      (List.length_pos_of_ne_nil nonempty)
  · rw [arnTail_fileArn noSlash, trimSlashes_cons]
    exact (List.dropWhile_suffix _).trans suffix

/-- A captured file. -/
structure StoredFile where
  path : Text
  content : Bytes

/-- A container that describes the files of one volume and stores each of them
under one and the same naming convention, beside whatever else it holds. -/
structure LogicalVolume (crates : Crates) (backing : Bytes) where
  archive : ZipArchive
  turtle : Text
  parsed : List LogicalFileMeta
  volume : Text
  naming : SegmentNaming
  files : List StoredFile
  archive_eq : crates.zipArchiveNew backing = .ok archive
  turtle_eq : archive.readEntryToString "information.turtle".toList = .ok turtle
  parsed_eq : parseLogicalFiles turtle = .ok parsed
  nonempty : files ≠ []
  noSlash : '/' ∉ volume
  distinct : (files.map StoredFile.path).Nodup
  path_ne_nil : ∀ file ∈ files, file.path ≠ []
  isFile : ∀ file ∈ files, ¬['/'] <:+ file.path
  arns : parsed.map LogicalFileMeta.arn =
    files.map fun file => fileArn volume file.path
  stored : ∀ file ∈ files,
    archive.readEntry (naming.entryName volume file.path) = .ok file.content

namespace LogicalVolume

variable {crates : Crates} {backing : Bytes}
variable (volume : LogicalVolume crates backing)

/-- The entry that holds a file. -/
def ownEntry (file : StoredFile) : Text :=
  volume.naming.entryName volume.volume file.path

/-- The container opens, every file has its own segment, no two files share one,
and reading a file returns its content. -/
def ReadsOwnFiles : Prop :=
  ∃ container,
    LogicalContainer.openReader crates backing = .ok container ∧
    container.files.map LogicalEntry.segment = volume.files.map volume.ownEntry ∧
    (container.files.map LogicalEntry.segment).Nodup ∧
    container.files.map container.readFile =
      volume.files.map fun file => .ok file.content

theorem ownEntry_mem {file : StoredFile} (member : file ∈ volume.files) :
    volume.ownEntry file ∈ volume.archive.fileNames :=
  ZipArchive.mem_fileNames_of_readEntry_eq_ok (volume.stored file member)

theorem nodup_ownEntry : (volume.files.map volume.ownEntry).Nodup := by
  have injective := volume.naming.entryName_injective volume.volume
  have names := volume.distinct.map injective
  rwa [List.map_map] at names

end LogicalVolume

/-- Resolving a file is resolving its ARN. -/
theorem exists_resolveLogicalFile_iff
    {names : List Text} {parsed : LogicalFileMeta} {segment : Text} :
    (∃ entry, resolveLogicalFile names parsed = .ok entry ∧
        entry.segment = segment) ↔
      resolveSegment names parsed.arn = some segment := by
  unfold resolveLogicalFile
  cases resolveSegment names parsed.arn with
  | none =>
      constructor
      · rintro ⟨entry, impossible, -⟩
        cases impossible
      · intro impossible
        cases impossible
  | some found =>
      constructor
      · rintro ⟨entry, resolved, rfl⟩
        cases resolved
        rfl
      · intro equal
        cases equal
        exact ⟨_, rfl, rfl⟩

/-- The files of a container are resolved one by one. -/
theorem exists_resolveLogicalFiles_iff
    {names : List Text} {parsed : List LogicalFileMeta} {segments : List Text} :
    (∃ entries, parsed.mapM (resolveLogicalFile names) = .ok entries ∧
        entries.map LogicalEntry.segment = segments) ↔
      (parsed.map fun file => resolveSegment names file.arn) =
        segments.map some := by
  induction parsed generalizing segments with
  | nil =>
      constructor
      · rintro ⟨entries, mapped, rfl⟩
        cases mapped
        rfl
      · intro equal
        rw [List.map_nil, eq_comm, List.map_eq_nil_iff] at equal
        exact ⟨[], rfl, equal.symm⟩
  | cons file parsed inductionHypothesis =>
      constructor
      · rintro ⟨entries, mapped, rfl⟩
        cases except_mapM_eq_ok.mp mapped with
        | cons resolved others =>
            have rest := inductionHypothesis.mp
              ⟨_, except_mapM_eq_ok.mpr others, rfl⟩
            have first := exists_resolveLogicalFile_iff.mp ⟨_, resolved, rfl⟩
            rw [List.map_cons, List.map_cons, List.map_cons, first, rest]
      · intro equal
        cases segments with
        | nil => cases equal
        | cons segment segments =>
            rw [List.map_cons, List.map_cons, List.cons.injEq] at equal
            obtain ⟨entry, resolved, rfl⟩ :=
              exists_resolveLogicalFile_iff.mpr equal.1
            obtain ⟨entries, mapped, rfl⟩ := inductionHypothesis.mpr equal.2
            refine ⟨entry :: entries, except_mapM_eq_ok.mpr ?_, rfl⟩
            exact .cons resolved (except_mapM_eq_ok.mp mapped)

namespace LogicalVolume

variable {crates : Crates} {backing : Bytes}
variable (volume : LogicalVolume crates backing)

/-- What a volume opens as. -/
theorem openReader_eq :
    LogicalContainer.openReader crates backing =
      ((volume.parsed.mapM (resolveLogicalFile volume.archive.fileNames)) >>=
        fun files => .ok { archive := volume.archive, files }) := by
  have parsed_ne_nil : volume.parsed ≠ [] := by
    intro empty
    have arns := volume.arns
    rw [empty, List.map_nil, eq_comm, List.map_eq_nil_iff] at arns
    exact volume.nonempty arns
  simp only [LogicalContainer.openReader, volume.archive_eq, Except.mapError, bind,
    Except.bind, volume.turtle_eq, volume.parsed_eq, parsed_ne_nil, if_false]
  rfl

/-- Files with their own segments are read in full. -/
theorem readsOwnFiles_iff_exists :
    volume.ReadsOwnFiles ↔
      ∃ entries,
        volume.parsed.mapM (resolveLogicalFile volume.archive.fileNames) =
          .ok entries ∧
        entries.map LogicalEntry.segment = volume.files.map volume.ownEntry := by
  constructor
  · rintro ⟨container, opened, segments, -, -⟩
    rw [volume.openReader_eq] at opened
    obtain ⟨entries, mapped, rest⟩ := except_bind_eq_ok.mp opened
    cases rest
    exact ⟨entries, mapped, segments⟩
  · rintro ⟨entries, mapped, segments⟩
    refine ⟨{ archive := volume.archive, files := entries }, ?_, segments, ?_, ?_⟩
    · rw [volume.openReader_eq]
      exact except_bind_eq_ok.mpr ⟨entries, mapped, rfl⟩
    · rw [segments]
      exact volume.nodup_ownEntry
    · calc entries.map (fun entry => volume.archive.readEntry entry.segment)
          = (entries.map LogicalEntry.segment).map volume.archive.readEntry := by
            rw [List.map_map]
            rfl
        _ = volume.files.map fun file =>
              volume.archive.readEntry (volume.ownEntry file) := by
            rw [segments, List.map_map]
            rfl
        _ = volume.files.map fun file => .ok file.content :=
            List.map_congr_left volume.stored

/-- Every file is read from its own segment exactly when no other entry of the
archive is mistaken for that of a file. -/
theorem readsOwnFiles_iff :
    volume.ReadsOwnFiles ↔
      ∀ file ∈ volume.files,
        Unmistakable volume.archive.fileNames (fileArn volume.volume file.path)
          (volume.ownEntry file) := by
  have resolved := congrArg
    (List.map (resolveSegment volume.archive.fileNames)) volume.arns
  rw [List.map_map, List.map_map] at resolved
  have pointwise : (volume.parsed.map fun file =>
      resolveSegment volume.archive.fileNames file.arn) =
        (volume.files.map volume.ownEntry).map some ↔
      ∀ file ∈ volume.files,
        resolveSegment volume.archive.fileNames
          (fileArn volume.volume file.path) = some (volume.ownEntry file) := by
    rw [List.map_map]
    change volume.parsed.map (resolveSegment volume.archive.fileNames ∘
      LogicalFileMeta.arn) = _ ↔ _
    rw [resolved, List.map_inj_left]
    rfl
  rw [volume.readsOwnFiles_iff_exists, exists_resolveLogicalFiles_iff, pointwise]
  refine forall₂_congr fun file member => ?_
  apply resolveSegment_eq_some_iff (volume.ownEntry_mem member)
  exact volume.naming.endsIn_entryName volume.noSlash
    (volume.path_ne_nil file member) (volume.isFile file member)

end LogicalVolume

/-! Two files of one name, one of them in a directory, stored under their literal
ARNs: the entry of the nested file is taken for both. -/

namespace NestedSample

def turtle : Text :=
  "<aff4://v/a> a aff4:FileImage . <aff4://v/b/a> a aff4:FileImage . ".toList

def parsed : List LogicalFileMeta :=
  ["aff4://v/a".toList, "aff4://v/b/a".toList].map fun arn =>
    { arn, originalFileName := arn, size := 0, hashes := [], lastWritten := none }

def entries : List (Text × Bytes) :=
  [("information.turtle".toList, Str.asBytes turtle),
    ("aff4://v/a".toList, [0x41]),
    ("aff4://v/b/a".toList, [0x42])]

def archive : ZipArchive := .ofEntries entries (by decide +kernel)

def volume : LogicalVolume (.opening archive) [] where
  archive := archive
  turtle := turtle
  parsed := parsed
  volume := "v".toList
  naming := .literal
  files := [⟨"a".toList, [0x41]⟩, ⟨"b/a".toList, [0x42]⟩]
  archive_eq := rfl
  turtle_eq := ZipArchive.readEntryToString_of_asBytes turtle
    (ZipArchive.readEntry_ofEntries rfl)
  parsed_eq := by decide +kernel
  nonempty := by simp
  noSlash := by decide
  distinct := by decide
  path_ne_nil := by decide
  isFile := by decide
  arns := by decide
  stored := by decide

def opened : LogicalContainer where
  archive := archive
  files := ["aff4://v/a".toList, "aff4://v/b/a".toList].map fun arn =>
    { segment := "aff4://v/b/a".toList, originalFileName := arn, size := 0
      hashes := [], lastWritten := none }

theorem openReader_eq :
    LogicalContainer.openReader (.opening archive) [] = .ok opened := by
  have resolved : parsed.mapM (resolveLogicalFile archive.fileNames) =
      .ok opened.files := by
    decide +kernel
  rw [volume.openReader_eq]
  exact except_bind_eq_ok.mpr ⟨_, resolved, rfl⟩

/-- The first file is read from the segment of the second. -/
theorem not_readsOwnFiles_nested :
    ¬volume.ReadsOwnFiles ∧
      ∃ container,
        LogicalContainer.openReader (.opening archive) [] = .ok container ∧
        container.files.map container.readFile = [.ok [0x42], .ok [0x42]] := by
  refine ⟨?_, opened, openReader_eq, by decide +kernel⟩
  rintro ⟨container, returns, segments, -, -⟩
  rw [openReader_eq] at returns
  cases returns
  exact absurd segments (by decide +kernel)

theorem readsOwnFiles_iff_nested :
    volume.ReadsOwnFiles ↔
      ∀ file ∈ volume.files,
        Unmistakable archive.fileNames (fileArn "v".toList file.path)
          (volume.ownEntry file) :=
  volume.readsOwnFiles_iff

end NestedSample

end Aff4
