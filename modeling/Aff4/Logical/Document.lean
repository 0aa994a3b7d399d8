import Aff4.Turtle

/-!
# Documents of logical files

A captured file is described by one `aff4:FileImage` node, which gives its name
as a quoted literal.  This is how such documents are written, and which words
they have for the parser.
-/

namespace Aff4

open Rust Rust.Str

/-! ## Written documents -/

/-- A character that an IRI may have. -/
def IsIriChar (c : Char) : Prop :=
  ' ' < c ∧ c ∉ "<>\"\x7b\x7d|^`\\".toList

instance (c : Char) : Decidable (IsIriChar c) :=
  inferInstanceAs (Decidable (_ ∧ _))

/-- A digest as a document declares it. -/
structure StoredHash.Declarable (hash : StoredHash) : Prop where
  hex_ne_nil : hash.hex ≠ []
  hexdigits : ∀ c ∈ hash.hex, isAsciiHexdigit c = true
  lowercase : toAsciiLowercase hash.hex = hash.hex
  algorithm_ne_nil : hash.algorithm ≠ []
  algorithm_word : ∀ c ∈ hash.algorithm, isWhitespace c = false ∧ c ≠ ';'
  algorithm_ends : ∀ nonempty : hash.algorithm ≠ [],
    isAsciiAlphanumeric (hash.algorithm.getLast nonempty) = true

/-- The metadata of a captured file.  Only its name is an arbitrary text. -/
structure LogicalFile where
  arn : Text
  originalFileName : Text
  size : UInt64
  hashes : List StoredHash
  lastWritten : Text
  isIri : ∀ c ∈ arn, IsIriChar c
  declarable : ∀ hash ∈ hashes, hash.Declarable
  timestamp : ∀ c ∈ lastWritten, isWhitespace c = false ∧ c ∉ "\"\\;".toList

/-- The text of a Turtle literal: quotes and backslashes are escaped. -/
def escape (text : Text) : Text :=
  text.flatMap fun c => if c = '"' ∨ c = '\\' then ['\\', c] else [c]

/-- A text between quotes. -/
def quoted (text : Text) : Text := '"' :: (text ++ ['"'])

/-- One object of `aff4:hash`. -/
def hashTerm (hash : StoredHash) : Text :=
  quoted hash.hex ++ "^^aff4:".toList ++ hash.algorithm

/-- The digests of a node; a file without digests has no `aff4:hash`. -/
def hashList (hashes : List StoredHash) : Text :=
  if hashes = [] then []
  else
    "aff4:hash ".toList ++ " , ".toList.intercalate (hashes.map hashTerm) ++
      " ; ".toList

namespace LogicalFile

variable (file : LogicalFile)

/-- A node up to the name: its subject and its types. -/
def opening : Text :=
  "<".toList ++ file.arn ++
    "> rdf:type aff4:FileImage , aff4:Image , aff4:zip_segment ; ".toList ++
    "aff4:originalFileName ".toList

/-- A node up to and with the name. -/
def leading : Text :=
  file.opening ++ quoted (escape file.originalFileName) ++ "^^xsd:string".toList

/-- What stands between the name and the time of the last write. -/
def middle : Text :=
  " ; aff4:size ".toList ++ showNat file.size.toNat ++
    " ; aff4:lastWritten ".toList

/-- A node from the time of the last write on. -/
def closing : Text :=
  quoted file.lastWritten ++ "^^xsd:datetime ; ".toList ++
    hashList file.hashes ++
    "aff4:stored <aff4://issen-test-logical-volume>".toList

/-- A node without its full stop. -/
def statement : Text := file.leading ++ (file.middle ++ file.closing)

/-- The `aff4:FileImage` node of a file. -/
def node : Text := file.statement ++ " .\n".toList

/-- The record a file's node is read as. -/
def record : LogicalFileMeta where
  arn := file.arn
  originalFileName := file.originalFileName
  size := file.size
  hashes := file.hashes
  lastWritten := some file.lastWritten

end LogicalFile

/-- The declarations that every document begins with. -/
def declarations : List Text :=
  ["@prefix rdf: <http://www.w3.org/1999/02/22-rdf-syntax-ns#>".toList,
    "@prefix aff4: <http://aff4.org/Schema#>".toList,
    "@prefix xsd: <http://www.w3.org/2001/XMLSchema#>".toList]

/-- The `information.turtle` of a container of logical files. -/
def document (files : List LogicalFile) : Text :=
  declarations.flatMap (· ++ " .\n".toList) ++ files.flatMap LogicalFile.node

theorem normalizeTurtle_quoted (text : Text) :
    normalizeTurtle (quoted text) = quoted (normalizeTurtle text) := by
  have closed := normalizeTurtle_append text ['"']
  exact congrArg ('"' :: ·) closed

theorem quoted_append (text after : Text) :
    quoted text ++ after = '"' :: (text ++ '"' :: after) := by
  simp [quoted]

/-! ## Digests -/

/-- A declared digest is read back. -/
theorem parseHashTerm_hashTerm {hash : StoredHash} (declarable : hash.Declarable) :
    parseHashTerm (hashTerm hash) = some hash := by
  have parsed := parseHashTerm_append declarable.hex_ne_nil declarable.hexdigits
    declarable.algorithm_ne_nil declarable.algorithm_ends (List.forall_mem_nil _)
  rw [List.append_nil, declarable.lowercase] at parsed
  rw [← parsed]
  simp [hashTerm, quoted]

theorem isWord_hashTerm {hash : StoredHash} (declarable : hash.Declarable) :
    IsWord (hashTerm hash) := by
  have opening : IsWord ['"'] := ⟨List.cons_ne_nil _ _, forall_mem_of_all rfl⟩
  have hex : ∀ c ∈ hash.hex, IsWordChar c := fun c member =>
    isWordChar_of_isAsciiHexdigit (declarable.hexdigits c member)
  have dtype : ∀ c ∈ "\"^^aff4:".toList, IsWordChar c := forall_mem_of_all rfl
  have term := ((opening.append hex).append dtype).append declarable.algorithm_word
  simpa [hashTerm, quoted] using term

theorem hashTerm_ne_comma (hash : StoredHash) : hashTerm hash ≠ [','] := by
  intro equal
  cases equal

/-- A list of digests is read back. -/
theorem scanImageHashes_hashTerms
    {hashes : List StoredHash} (declarable : ∀ hash ∈ hashes, hash.Declarable)
    (rest : List Text) :
    scanImageHashes true ((hashes.map hashTerm).intersperse [','] ++ rest) =
      hashes ++ scanImageHashes true rest := by
  induction hashes with
  | nil => rfl
  | cons hash hashes inductionHypothesis =>
      rw [List.forall_mem_cons] at declarable
      have others := inductionHypothesis declarable.2
      have term := parseHashTerm_hashTerm declarable.1
      cases hashes with
      | nil =>
          simp only [List.map_cons, List.map_nil, List.intersperse_singleton,
            List.cons_append, List.nil_append, scanImageHashes,
            hashTerm_ne_comma, if_false, term]
      | cons next hashes =>
          rw [List.map_cons] at others
          simp only [List.map_cons, List.intersperse_cons_cons, List.cons_append,
            scanImageHashes, hashTerm_ne_comma, if_false, term, if_true] at others ⊢
          rw [others]

/-! ## The words of a node -/

/-- The words of a list of digests. -/
def hashWords (hashes : List StoredHash) : List Text :=
  if hashes = [] then []
  else "aff4:hash".toList :: (hashes.map hashTerm).intersperse [',']

theorem words_hashTerms
    {hash : StoredHash} {hashes : List StoredHash}
    (declarable : ∀ term ∈ hash :: hashes, term.Declarable) (after : Text) :
    words (" , ".toList.intercalate ((hash :: hashes).map hashTerm) ++
        (" ; ".toList ++ after)) =
      ((hash :: hashes).map hashTerm).intersperse [','] ++ words after := by
  induction hashes generalizing hash with
  | nil =>
      rw [List.forall_mem_cons] at declarable
      have term := words_of_isWord (isWord_hashTerm declarable.1)
      rw [List.map_cons, List.map_nil, List.intercalate_singleton,
        words_append_semicolon, term, List.intersperse_singleton]
  | cons next hashes inductionHypothesis =>
      rw [List.forall_mem_cons] at declarable
      have others := inductionHypothesis declarable.2
      have term := words_of_isWord (isWord_hashTerm declarable.1)
      rw [List.map_cons] at others
      rw [List.map_cons, List.map_cons, List.intercalate_cons_cons,
        List.append_assoc, List.append_assoc, words_append_comma, term, others,
        List.intersperse_cons_cons]
      rfl

theorem words_hashList
    {hashes : List StoredHash} (declarable : ∀ hash ∈ hashes, hash.Declarable)
    (after : Text) :
    words (hashList hashes ++ after) = hashWords hashes ++ words after := by
  cases hashes with
  | nil => rfl
  | cons hash hashes =>
      have predicate : "aff4:hash ".toList = "aff4:hash".toList ++ " ".toList := rfl
      have word : words "aff4:hash".toList = ["aff4:hash".toList] := by decide
      have nonempty := List.cons_ne_nil hash hashes
      rw [hashList, hashWords, if_neg nonempty, if_neg nonempty, predicate]
      simp only [List.append_assoc]
      rw [words_append_space, word, words_hashTerms declarable]
      rfl

theorem isWord_showNat (n : Nat) : IsWord (showNat n) where
  ne_nil := showNat_ne_nil n
  chars := fun c member => isWordChar_of_isAsciiHexdigit (by
    rw [isAsciiHexdigit, isAsciiDigit_of_mem_showNat member]
    rfl)

namespace LogicalFile

variable (file : LogicalFile)

/-- The word that holds the time of the last write. -/
def lastWrittenWord : Text := quoted file.lastWritten ++ "^^xsd:datetime".toList

theorem isWord_lastWrittenWord : IsWord file.lastWrittenWord := by
  have opening : IsWord ['"'] := ⟨List.cons_ne_nil _ _, forall_mem_of_all rfl⟩
  have value : ∀ c ∈ file.lastWritten, IsWordChar c := by
    intro c member
    obtain ⟨noSpace, plain⟩ := file.timestamp c member
    refine ⟨noSpace, ?_⟩
    rintro rfl
    exact plain (by decide)
  have dtype : ∀ c ∈ "\"^^xsd:datetime".toList, IsWordChar c := forall_mem_of_all rfl
  simpa [lastWrittenWord, quoted] using (opening.append value).append dtype

/-- The words behind the name. -/
def followingWords : List Text :=
  showNat file.size.toNat :: "aff4:lastWritten".toList :: file.lastWrittenWord ::
    (hashWords file.hashes ++
      ["aff4:stored".toList, "<aff4://issen-test-logical-volume>".toList])

theorem words_append_middle (before : Text) :
    words (before ++ (file.middle ++ file.closing)) =
      words before ++ "aff4:size".toList :: file.followingWords := by
  have middle : file.middle =
      " ; ".toList ++ ("aff4:size".toList ++ (" ".toList ++
        (showNat file.size.toNat ++ (" ; ".toList ++
          ("aff4:lastWritten".toList ++ " ".toList))))) := by
    unfold LogicalFile.middle
    rw [List.append_assoc]
    rfl
  have closing : file.closing =
      file.lastWrittenWord ++ (" ; ".toList ++
        (hashList file.hashes ++
          ("aff4:stored".toList ++ (" ".toList ++
            "<aff4://issen-test-logical-volume>".toList)))) := by
    unfold LogicalFile.closing lastWrittenWord
    simp only [List.append_assoc]
    rfl
  have size : words "aff4:size".toList = ["aff4:size".toList] := by decide
  have written : words "aff4:lastWritten".toList =
      ["aff4:lastWritten".toList] := by decide
  have stored : words "aff4:stored".toList = ["aff4:stored".toList] := by decide
  have volume : words "<aff4://issen-test-logical-volume>".toList =
      ["<aff4://issen-test-logical-volume>".toList] := by decide
  rw [middle]
  simp only [List.append_assoc]
  rw [words_append_semicolon, words_append_space, size, words_append_semicolon,
    words_of_isWord (isWord_showNat _), words_append_space, written, closing,
    words_append_semicolon, words_of_isWord file.isWord_lastWrittenWord,
    words_hashList file.declarable, words_append_space, stored, volume]
  rfl

/-- The words of a node: those up to its name, and those that follow. -/
theorem words_statement :
    words file.statement =
      words file.leading ++ "aff4:size".toList :: file.followingWords :=
  file.words_append_middle file.leading

/-! ## The layout the parser sees -/

/-- A node as the parser sees it. -/
def block : Text := normalizeTurtle file.statement

/-- The name as the parser sees it. -/
def literal : Text := normalizeTurtle (escape file.originalFileName)

/-- What stands between the subject and the name. -/
def heading : Text :=
  " rdf:type aff4:FileImage , aff4:Image , aff4:zip_segment   ".toList ++
    "aff4:originalFileName ".toList

/-- What stands between the name and the time of the last write. -/
def interval : Text := "^^xsd:string".toList ++ normalizeTurtle file.middle

theorem normalizeTurtle_opening :
    normalizeTurtle file.opening =
      '<' :: (normalizeTurtle file.arn ++ '>' :: heading) := by
  unfold opening
  simp only [normalizeTurtle_append, List.append_assoc]
  rfl

theorem normalizeTurtle_leading :
    normalizeTurtle file.leading =
      normalizeTurtle file.opening ++
        '"' :: (file.literal ++ '"' :: "^^xsd:string".toList) := by
  have word : IsWord "^^xsd:string".toList := ⟨by decide, forall_mem_of_all rfl⟩
  unfold leading literal
  rw [normalizeTurtle_append, normalizeTurtle_append, normalizeTurtle_quoted,
    word.normalizeTurtle_eq, List.append_assoc, quoted_append]

theorem block_eq :
    file.block =
      normalizeTurtle file.opening ++
        '"' :: (file.literal ++
          '"' :: (file.interval ++ normalizeTurtle file.closing)) := by
  unfold block statement interval
  rw [normalizeTurtle_append, normalizeTurtle_append, normalizeTurtle_leading]
  simp only [List.append_assoc, List.cons_append]

theorem normalizeTurtle_lastWritten :
    normalizeTurtle file.lastWritten = file.lastWritten := by
  apply normalizeTurtle_eq_self
  intro c member rewritten
  obtain ⟨noSpace, plain⟩ := file.timestamp c member
  have noSemicolon : c ≠ ';' := by
    rintro rfl
    exact plain (by decide)
  rw [isWhitespace_of_mem_becomesSpace rewritten noSemicolon] at noSpace
  cases noSpace

/-- A node closes with the quoted time of the last write. -/
theorem normalizeTurtle_closing :
    ∃ after, normalizeTurtle file.closing =
      '"' :: (file.lastWritten ++ '"' :: after) := by
  unfold closing
  rw [normalizeTurtle_append, normalizeTurtle_append, normalizeTurtle_append,
    normalizeTurtle_quoted, normalizeTurtle_lastWritten, List.append_assoc,
    List.append_assoc, quoted_append]
  exact ⟨_, rfl⟩

end LogicalFile

end Aff4
