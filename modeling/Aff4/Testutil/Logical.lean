import Aff4.Logical.Written
import Aff4.Testutil

/-!
# The fixture of a collection

`test_aff4_logical` writes a container with one file under a name of the test's
choice.  This file shows which names it can be given so that the file comes back.
-/

namespace Aff4

open Rust Rust.Str

namespace Testutil

/-- The volume of the fixture, without its scheme. -/
def volume : Text := "issen-test-logical-volume".toList

/-- The node of the file, as it is written. -/
def fileImageStatement (segment md5Hex : Text) (size : Nat) : Text :=
  "<aff4://issen-test-logical-volume/".toList ++ segment ++
    "> rdf:type aff4:FileImage , aff4:Image , aff4:zip_segment ; ".toList ++
    "aff4:originalFileName \"./".toList ++ segment ++ "\"^^xsd:string ; ".toList ++
    "aff4:size ".toList ++ showNat size ++ " ; ".toList ++
    "aff4:lastWritten \"2018-09-17T13:42:20+10:00\"^^xsd:datetime ; ".toList ++
    "aff4:hash \"".toList ++ md5Hex ++ "\"^^aff4:MD5 ; ".toList ++
    "aff4:stored <aff4://issen-test-logical-volume> .\n".toList

/-- `test_aff4_logical`. -/
def testAff4Logical (segment : Text) (content : Bytes) (md5Hex : Text) :
    List (Text × Bytes) :=
  [("information.turtle".toList,
      asBytes (prefixes ++ "@prefix xsd: <http://www.w3.org/2001/XMLSchema#> .\n".toList ++
        fileImageStatement segment md5Hex content.length)),
    (segment, content),
    ("version.txt".toList, asBytes "major=1\nminor=1\ntool=issen-test\n".toList)]

/-- A name that the fixture can be given: the path of an IRI without white space and
semicolons, which neither begins nor ends with a slash and does not look like the
time of the last write. -/
structure Nameable (segment : Text) : Prop where
  ne_nil : segment ≠ []
  chars : ∀ c ∈ segment, IsIriChar c ∧ IsWordChar c
  relative : segment.head? ≠ some '/'
  isFile : segment.getLast? ≠ some '/'
  noTime : ¬"aff4:lastWritten".toList <:+: segment

/-- The digest of the fixture. -/
def md5 (md5Hex : Text) : StoredHash where
  algorithm := "MD5".toList
  hex := md5Hex

namespace Nameable

variable {segment : Text} (nameable : Nameable segment)

include nameable in
theorem not_mem {c : Char} (foreign : ¬IsIriChar c ∨ ¬IsWordChar c) : c ∉ segment := by
  intro member
  obtain ⟨isIri, isWord⟩ := nameable.chars c member
  exact foreign.elim (· isIri) (· isWord)

include nameable in
theorem trimSlashes_eq : trimSlashes segment = segment := by
  cases segment with
  | nil => rfl
  | cons c rest =>
      apply List.dropWhile_cons_of_neg
      have relative := nameable.relative
      simpa using relative

theorem dated : ∀ c ∈ "2018-09-17T13:42:20+10:00".toList,
    isWhitespace c = false ∧ c ∉ "\"\\;".toList := by
  decide

/-- What the fixture describes. -/
def file {md5Hex : Text} (declarable : (md5 md5Hex).Declarable) (content : Bytes) :
    LogicalFile where
  arn := fileArn volume segment
  originalFileName := "./".toList ++ segment
  size := UInt64.ofNat content.length
  hashes := [md5 md5Hex]
  lastWritten := "2018-09-17T13:42:20+10:00".toList
  isIri := by
    have scheme : ∀ c ∈ "aff4://issen-test-logical-volume/".toList, IsIriChar c := by
      decide
    have arn : fileArn volume segment =
        "aff4://issen-test-logical-volume/".toList ++ segment := by
      unfold fileArn volume
      simp only [String.reduceToList, List.cons_append, List.nil_append]
    rw [arn, List.forall_mem_append]
    exact ⟨scheme, fun c member => (nameable.chars c member).1⟩
  declarable := by
    rw [List.forall_mem_singleton]
    exact declarable
  timestamp := dated

variable {md5Hex : Text} (declarable : (md5 md5Hex).Declarable) (content : Bytes)

/-- The name is written as it is. -/
theorem escape_name :
    escape (nameable.file declarable content).originalFileName =
      "./".toList ++ segment := by
  apply LogicalFile.escape_eq_self
  change ∀ c ∈ "./".toList ++ segment, _
  rw [List.forall_mem_append]
  constructor
  · decide
  · intro c member
    constructor
    · rintro rfl
      exact nameable.not_mem (.inl (by decide)) member
    · rintro rfl
      exact nameable.not_mem (.inl (by decide)) member

set_option maxRecDepth 4096 in
/-- The document of the fixture describes the file. -/
theorem document_eq (small : content.length < 2 ^ 64) :
    document [nameable.file declarable content] =
      prefixes ++ "@prefix xsd: <http://www.w3.org/2001/XMLSchema#> .\n".toList ++
        fileImageStatement segment md5Hex content.length := by
  have size : (nameable.file declarable content).size.toNat = content.length :=
    toNat_ofNat_of_lt small
  have declared : (nameable.file declarable content).hashes = [md5 md5Hex] := rfl
  have lines : declarations.flatMap (· ++ " .\n".toList) =
      prefixes ++ "@prefix xsd: <http://www.w3.org/2001/XMLSchema#> .\n".toList := by
    unfold declarations prefixes
    simp only [String.reduceToList]
    decide +kernel
  rw [document, lines, List.flatMap_singleton]
  refine congrArg (prefixes ++ _ ++ ·) ?_
  unfold LogicalFile.node LogicalFile.statement LogicalFile.leading LogicalFile.opening
    LogicalFile.middle LogicalFile.closing
  rw [nameable.escape_name declarable content, size, declared, hashList,
    if_neg (List.cons_ne_nil _ _), List.map_singleton, List.intercalate_singleton]
  unfold hashTerm quoted fileImageStatement md5 file fileArn volume
  simp only [String.reduceToList]
  simp only [List.append_assoc, List.cons_append, List.nil_append]

/-- No word up to the name is the predicate of a size. -/
theorem size_not_mem_words :
    "aff4:size".toList ∉ words (nameable.file declarable content).leading := by
  have segmentWord : ∀ c ∈ segment, IsWordChar c := fun c member =>
    (nameable.chars c member).2
  have arnWord : IsWord ('<' :: (fileArn volume segment ++ ['>'])) := by
    have scheme : IsWord "<aff4://issen-test-logical-volume/".toList :=
      ⟨by decide, by decide⟩
    have word := (scheme.append segmentWord).append
      (show ∀ c ∈ ['>'], IsWordChar c by decide)
    unfold fileArn volume
    simp only [String.reduceToList, List.cons_append, List.nil_append] at word ⊢
    exact word
  have nameWord : IsWord ("\"./".toList ++ segment ++ "\"^^xsd:string".toList) := by
    have dot : IsWord "\"./".toList := ⟨by decide, by decide⟩
    exact (dot.append segmentWord).append
      (show ∀ c ∈ "\"^^xsd:string".toList, IsWordChar c by decide)
  have layout : (nameable.file declarable content).leading =
      ('<' :: (fileArn volume segment ++ ['>'])) ++ (" ".toList ++
        ("rdf:type aff4:FileImage , aff4:Image , aff4:zip_segment".toList ++
          (" ; ".toList ++ ("aff4:originalFileName".toList ++ (" ".toList ++
            ("\"./".toList ++ segment ++ "\"^^xsd:string".toList)))))) := by
    unfold LogicalFile.leading LogicalFile.opening
    rw [nameable.escape_name declarable content]
    unfold quoted file
    simp only [String.reduceToList]
    simp only [List.append_assoc, List.cons_append, List.nil_append]
  have types : "aff4:size".toList ∉
      words "rdf:type aff4:FileImage , aff4:Image , aff4:zip_segment".toList := by
    decide
  have predicate : words "aff4:originalFileName".toList =
      ["aff4:originalFileName".toList] := by
    decide
  rw [layout, words_append_space, words_of_isWord arnWord, words_append_semicolon,
    words_append_space, predicate, words_of_isWord nameWord]
  simp only [List.mem_append, List.mem_singleton]
  rintro (equal | typed | equal | equal)
  · cases equal
  · exact types typed
  · cases equal
  · cases equal

/-- The IRI of the file does not look like the time of the last write either. -/
theorem noTime_arn :
    ¬"aff4:lastWritten".toList <:+: (nameable.file declarable content).arn := by
  have nonempty : "aff4:lastWritten".toList ≠ [] := by decide
  have noVolume : ¬"aff4:lastWritten".toList <:+: "aff4://".toList ++ volume := by
    unfold volume
    simp only [String.reduceToList]
    decide +kernel
  change ¬_ <:+: "aff4://".toList ++ (volume ++ '/' :: segment)
  rw [← List.append_assoc, infix_append_cons_iff nonempty (by decide), not_or]
  exact ⟨noVolume, nameable.noTime⟩

/-- The name of a file that the fixture can be given is read back. -/
theorem legible : (nameable.file declarable content).Legible where
  arn := by
    have front : ';' ∉ "aff4://".toList ++ volume := by decide
    have noSegment : ';' ∉ segment := nameable.not_mem (.inr (by decide))
    change ';' ∉ "aff4://".toList ++ (volume ++ '/' :: segment)
    rw [← List.append_assoc, List.mem_append, List.mem_cons]
    rintro (inFront | equal | inSegment)
    · exact front inFront
    · cases equal
    · exact noSegment inSegment
  name := by
    change ∀ c ∈ "./".toList ++ segment, c ∉ '"' :: '\\' :: becomesSpace
    rw [List.forall_mem_append]
    refine ⟨by decide, fun c member special => ?_⟩
    simp only [becomesSpace, List.mem_cons, List.not_mem_nil, or_false] at special
    rcases special with rfl | rfl | rfl | rfl | rfl | rfl
    all_goals exact absurd member (nameable.not_mem (by decide))
  whole := by
    intro inside
    have space : ' ' ∈ "./".toList ++ segment := inside.subset (by decide)
    rcases List.mem_append.mp space with front | behind
    · exact absurd front (by decide)
    · exact nameable.not_mem (.inl (by decide)) behind
  size := fun before value after leading _ =>
    absurd (leading ▸ List.mem_append_right _ (List.mem_cons_self ..))
      (nameable.size_not_mem_words declarable content)
  lastWritten_arn := fun inArn =>
    absurd inArn (nameable.noTime_arn declarable content)
  lastWritten_name := by
    intro _ inName
    have nonempty : "aff4:lastWritten".toList ≠ [] := by decide
    change _ <:+: ['.'] ++ '/' :: segment at inName
    rw [infix_append_cons_iff nonempty (by decide)] at inName
    rcases inName with inDot | inSegment
    · exact absurd inDot (by decide)
    · exact nameable.noTime inSegment

include nameable in
/-- The entry of the file ends like its IRI. -/
theorem endsIn : EndsIn (arnTail (fileArn volume segment)) segment := by
  constructor
  · rintro ⟨front, rfl⟩
    exact nameable.isFile (List.getLast?_concat ..)
  · rw [arnTail_fileArn (by decide), trimSlashes_cons, nameable.trimSlashes_eq]

include nameable in
/-- No other entry of the fixture is mistaken for that of the file. -/
theorem unmistakable :
    Unmistakable ["information.turtle".toList, segment, "version.txt".toList]
      (fileArn volume segment) segment := by
  have spellings : exactSpellings (fileArn volume segment) =
      ['/' :: segment, segment, urlencodeArn (fileArn volume segment)] := by
    rw [exactSpellings, arnTail_fileArn (by decide), trimSlashes_cons,
      nameable.trimSlashes_eq]
  have longer : '/' :: segment ≠ segment := List.cons_ne_self _ _
  have earlier : (exactSpellings (fileArn volume segment)).takeWhile (· ≠ segment) =
      ['/' :: segment] := by
    simp [spellings, longer]
  constructor
  · rw [earlier, List.forall_mem_singleton]
    simp only [List.mem_cons, List.not_mem_nil, or_false, not_or]
    refine ⟨fun equal => ?_, longer, fun equal => ?_⟩
    · cases equal
    · cases equal
  · intro missing
    rw [spellings] at missing
    exact absurd (List.mem_cons_of_mem _ (List.mem_cons_self ..)) missing

end Nameable

section Written

variable {archive : ZipArchive} {segment md5Hex : Text} {content : Bytes}

theorem readEntry_segment
    (holds : archive.Holds (testAff4Logical segment content md5Hex)) :
    archive.readEntry segment = .ok content :=
  holds.readEntry (segment, content) (List.mem_cons_of_mem _ (List.mem_cons_self ..))

theorem length_content_lt
    (holds : archive.Holds (testAff4Logical segment content md5Hex)) :
    content.length < 2 ^ 64 := by
  have fits := ZipArchive.length_lt_of_readEntry_eq_ok (readEntry_segment holds)
  omega

variable {crates : Crates} {backing : Bytes}
variable (nameable : Nameable segment) (declarable : (md5 md5Hex).Declarable)

/-- The fixture is a written collection of one file. -/
def writtenCollection
    (opens : crates.zipArchiveNew backing = .ok archive)
    (holds : archive.Holds (testAff4Logical segment content md5Hex)) :
    WrittenCollection crates backing
      [⟨nameable.file declarable content, segment, content⟩] where
  archive := archive
  archive_eq := opens
  nonempty := List.cons_ne_nil _ _
  storedTurtle := by
    rw [List.map_singleton,
      nameable.document_eq declarable content (length_content_lt holds)]
    exact holds.readEntry _ (List.mem_cons_self ..)
  stored := by
    rw [List.forall_mem_singleton]
    exact readEntry_segment holds
  endsIn := by
    rw [List.forall_mem_singleton]
    exact nameable.endsIn
  legible := by
    rw [List.forall_mem_singleton]
    exact nameable.legible declarable content

include nameable declarable in
/-- Whatever file the fixture is written with, under a name it can be given: the
container is a collection of this one file, with its name, its size and its digest,
and its content is read back. -/
theorem testAff4Logical_files
    (opens : crates.zipArchiveNew backing = .ok archive)
    (holds : archive.Holds (testAff4Logical segment content md5Hex)) :
    containerKind crates backing = .ok .logical ∧
    ∃ container entry,
      LogicalContainer.openReader crates backing = .ok container ∧
      container.files = [entry] ∧
      entry.originalFileName = "./".toList ++ segment ∧
      entry.size.toNat = content.length ∧
      entry.hashes = [md5 md5Hex] ∧
      container.readFile entry = .ok content := by
  let collection := writtenCollection nameable declarable opens holds
  have unambiguous : collection.Unambiguous := by
    change ∀ captured ∈ [_], Unmistakable archive.fileNames _ _
    rw [List.forall_mem_singleton, holds.fileNames]
    exact nameable.unmistakable
  obtain ⟨container, opened, listed, contents⟩ :=
    collection.exists_openReader_eq unambiguous
  rw [listed] at contents
  exact ⟨collection.containerKind_eq, container, _, opened, listed, rfl,
    toNat_ofNat_of_lt (length_content_lt holds), rfl, (List.cons.inj contents).1⟩

end Written

/-! The fixture with a file in a directory. -/

namespace LogicalSample

theorem nameable : Nameable "d/dream.txt".toList :=
  ⟨by decide, by decide, by decide, by decide, by decide +kernel⟩

theorem declarable : (md5 "5eb63bbbe01eeed093cb22bb8f5acdc3".toList).Declarable :=
  ⟨by decide, by decide, by decide, by decide, by decide, by decide⟩

def entries : List (Text × Bytes) :=
  testAff4Logical "d/dream.txt".toList [0x68, 0x69]
    "5eb63bbbe01eeed093cb22bb8f5acdc3".toList

theorem entries_short : ∀ entry ∈ entries, entry.2.length < 2 ^ 63 := by
  decide +kernel

theorem testAff4Logical_files_sample :
    containerKind (.opening (.ofEntries entries entries_short)) [] = .ok .logical ∧
    ∃ container entry,
      LogicalContainer.openReader (.opening (.ofEntries entries entries_short)) [] =
        .ok container ∧
      container.files = [entry] ∧
      entry.originalFileName = "./".toList ++ "d/dream.txt".toList ∧
      entry.size.toNat = 2 ∧
      entry.hashes = [md5 "5eb63bbbe01eeed093cb22bb8f5acdc3".toList] ∧
      container.readFile entry = .ok [0x68, 0x69] :=
  testAff4Logical_files nameable declarable rfl
    (ZipArchive.holds_ofEntries entries_short (by decide +kernel))

end LogicalSample
end Testutil
end Aff4
