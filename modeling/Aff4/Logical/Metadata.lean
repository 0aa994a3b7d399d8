import Aff4.Logical.Document

/-!
# The metadata of logical files

The parser rewrites characters and cuts a document into nodes and nodes into
words before it looks for quotes, and it does not undo escapes.  A document is
read back exactly when no file's IRI or name is rewritten, escaped, or taken for
something else.
-/

namespace Aff4

open Rust Rust.Str

namespace LogicalFile

variable (file : LogicalFile)

/-! ## What is read -/

theorem ne_of_mem_arn {c : Char} (member : c ∈ file.arn) :
    c ≠ ' ' ∧ c ≠ '>' ∧ c ≠ '"' ∧ c ≠ '\\' := by
  obtain ⟨printable, allowed⟩ := file.isIri c member
  refine ⟨?_, ?_, ?_, ?_⟩
  · rintro rfl
    exact absurd printable (by decide)
  all_goals
    rintro rfl
    exact allowed (by decide)

theorem not_mem_normalizeTurtle_arn {c : Char} (absent : c ∉ file.arn)
    (noSpace : c ≠ ' ') : c ∉ normalizeTurtle file.arn := fun member =>
  absent (mem_of_mem_normalizeTurtle noSpace member)

theorem noQuote_opening : '"' ∉ normalizeTurtle file.opening := by
  have noQuote : '"' ∉ normalizeTurtle file.arn :=
    file.not_mem_normalizeTurtle_arn
      (fun member => (file.ne_of_mem_arn member).2.2.1 rfl) (by decide)
  rw [normalizeTurtle_opening, List.mem_cons, List.mem_append, List.mem_cons]
  rintro (equal | inArn | equal | inHeading)
  · cases equal
  · exact noQuote inArn
  · cases equal
  · exact absurd inHeading (by decide)

/-- The subject is read from between the first angle brackets. -/
theorem extractIri_block : extractIri file.block = some (normalizeTurtle file.arn) := by
  have closed : '>' ∉ normalizeTurtle file.arn :=
    file.not_mem_normalizeTurtle_arn
      (fun member => (file.ne_of_mem_arn member).2.1 rfl) (by decide)
  rw [block_eq, normalizeTurtle_opening]
  simp only [List.cons_append, List.append_assoc]
  exact extractIri_append List.not_mem_nil closed _

theorem heading_suffix_opening : heading <:+ normalizeTurtle file.opening := by
  rw [normalizeTurtle_opening]
  exact (List.suffix_cons _ _).trans
    ((List.suffix_append _ _).trans (List.suffix_cons _ _))

/-- What stands between the subject and the name contains the type and the
predicate of the name, and neither a full stop nor the predicate of the time. -/
theorem contains_heading :
    contains heading "aff4:originalFileName".toList = true ∧
      contains heading "aff4:FileImage".toList = true ∧
      contains heading "aff4:lastWritten".toList = false ∧
      contains heading " . ".toList = false := by
  -- The kernel compares lists of characters faster than it unfolds string literals.
  unfold heading
  simp only [String.reduceToList]
  decide +kernel

theorem originalFileName_infix_opening :
    "aff4:originalFileName".toList <:+: normalizeTurtle file.opening := by
  have inHeading : "aff4:originalFileName".toList <:+: heading :=
    contains_iff.mp contains_heading.1
  exact inHeading.trans file.heading_suffix_opening.isInfix

/-- The name is read from between the first quotes. -/
theorem originalFileName_block (closed : '"' ∉ file.literal) :
    extractPredQuoted file.block "aff4:originalFileName".toList =
      some file.literal := by
  rw [block_eq]
  exact extractPredQuoted_closed (by decide) file.originalFileName_infix_opening
    file.noQuote_opening closed _

/-- No word up to the name declares a digest. -/
theorem parseHashTerm_leading (closed : '"' ∉ file.literal)
    {word : Text} (member : word ∈ words file.leading) : parseHashTerm word = none := by
  rw [Option.eq_none_iff_forall_ne_some]
  intro hash parsed
  obtain ⟨rest, rfl, dtype⟩ := of_parseHashTerm parsed
  have inside := infix_of_mem_splitWhitespace member
  rw [normalizeTurtle_leading, infix_append_of_not_mem file.noQuote_opening] at inside
  have behind := dtype.trans (infix_of_cons_infix_cons inside)
  have last := (infix_append_of_not_mem closed _).mp behind
  exact absurd last (by decide)

/-- The digests are read back. -/
theorem hashes_block (closed : '"' ∉ file.literal) :
    parseImageHashes file.block = file.hashes := by
  have leading : ∀ word ∈ words file.leading, parseHashTerm word = none :=
    fun word member => file.parseHashTerm_leading closed member
  have size : parseHashTerm "aff4:size".toList = none := by decide
  have noHash : decide ("aff4:size".toList = "aff4:hash".toList) = false := by decide
  have number : showNat file.size.toNat ≠ "aff4:hash".toList := by
    intro equal
    have inside : 'a' ∈ showNat file.size.toNat := by
      rw [equal]
      decide
    have digit := isAsciiDigit_of_mem_showNat inside
    cases digit
  have passed : parseImageHashes file.block =
      scanImageHashes false (hashWords file.hashes ++
        ["aff4:stored".toList, "<aff4://issen-test-logical-volume>".toList]) := by
    rw [parseImageHashes, block, ← words, words_statement,
      scanImageHashes_append leading (by decide) size, noHash, followingWords]
    simp only [scanImageHashes, number, decide_false]
    rfl
  rw [passed, hashWords]
  split
  next empty =>
    rw [empty]
    decide
  next nonempty =>
    have terms := scanImageHashes_hashTerms file.declarable
      ["aff4:stored".toList, "<aff4://issen-test-logical-volume>".toList]
    have ended : scanImageHashes true
        ["aff4:stored".toList, "<aff4://issen-test-logical-volume>".toList] = [] := by
      decide
    rw [ended, List.append_nil] at terms
    exact terms

/-- The word behind the first `aff4:size` that is written in front of a file's own
reads as the file's size. -/
def SizeLegible : Prop :=
  ∀ before value after,
    words file.leading = before ++ "aff4:size".toList :: value :: after →
    "aff4:size".toList ∉ before →
    (parsePredU64 "aff4:size".toList value).toOption.getD 0 = file.size

/-- The last word up to the name is not a predicate. -/
theorem exists_word_behind {before after : List Text}
    (leading : words file.leading = before ++ "aff4:size".toList :: after) :
    ∃ value rest, after = value :: rest := by
  have isToken : IsToken "^^xsd:string".toList := ⟨by decide, forall_mem_of_all rfl⟩
  obtain ⟨tokens, beginning, split⟩ := splitWhitespace_append_isToken
    (normalizeTurtle file.opening ++ '"' :: (file.literal ++ ['"'])) isToken
  have same : words file.leading =
      tokens ++ [beginning ++ "^^xsd:string".toList] := by
    rw [words, normalizeTurtle_leading, ← split]
    simp only [List.append_assoc, List.cons_append, List.nil_append]
  cases after with
  | cons value rest => exact ⟨value, rest, rfl⟩
  | nil =>
      rw [leading] at same
      have last := List.append_inj_right' same rfl
      rw [List.cons.injEq] at last
      have ending : "^^xsd:string".toList <:+ "aff4:size".toList :=
        ⟨beginning, last.1.symm⟩
      exact absurd ending.length_le (by decide)

/-- The size is read from the first word `aff4:size`. -/
theorem size_block :
    (extractPredU64 file.block "aff4:size".toList).toOption.getD 0 = file.size ↔
      file.SizeLegible := by
  have split : splitWhitespace file.block =
      words file.leading ++ "aff4:size".toList :: file.followingWords :=
    file.words_statement
  constructor
  · intro read before value after leading absent
    rw [leading, List.append_assoc] at split
    rwa [extractPredU64_of_splitWhitespace split absent] at read
  · intro legible
    by_cases decoy : "aff4:size".toList ∈ words file.leading
    · obtain ⟨before, after, leading, absent⟩ := List.eq_append_cons_of_mem decoy
      obtain ⟨value, rest, rfl⟩ := file.exists_word_behind leading
      rw [leading, List.append_assoc] at split
      rw [extractPredU64_of_splitWhitespace split absent]
      exact legible before value rest leading absent
    · rw [followingWords] at split
      rw [extractPredU64_of_splitWhitespace split decoy, parsePredU64_showNat]
      rfl

/-- An IRI without semicolons has nothing that is escaped or rewritten. -/
theorem plain_arn (noSemicolon : ';' ∉ file.arn) :
    ∀ c ∈ file.arn, c ∉ '"' :: '\\' :: becomesSpace := by
  intro c member special
  have printable := (file.isIri c member).1
  have allowed := file.ne_of_mem_arn member
  simp only [becomesSpace, List.mem_cons, List.not_mem_nil, or_false] at special
  rcases special with rfl | rfl | rfl | rfl | rfl | rfl
  · exact allowed.2.2.1 rfl
  · exact allowed.2.2.2 rfl
  · exact absurd printable (by decide)
  · exact absurd printable (by decide)
  · exact absurd printable (by decide)
  · exact noSemicolon member

theorem normalizeTurtle_arn (noSemicolon : ';' ∉ file.arn) :
    normalizeTurtle file.arn = file.arn := by
  apply normalizeTurtle_eq_self
  intro c member rewritten
  exact file.plain_arn noSemicolon c member
    (List.mem_cons_of_mem _ (List.mem_cons_of_mem _ rewritten))

theorem noQuote_lastWritten : '"' ∉ file.lastWritten := fun member =>
  (file.timestamp '"' member).2 (by decide)

theorem interval_eq :
    file.interval =
      "^^xsd:string   aff4:size ".toList ++
        (showNat file.size.toNat ++ "   aff4:lastWritten ".toList) := by
  have number := (isWord_showNat file.size.toNat).normalizeTurtle_eq
  unfold interval middle
  rw [normalizeTurtle_append, normalizeTurtle_append, number, List.append_assoc]
  rfl

theorem noQuote_interval : '"' ∉ file.interval := by
  rw [interval_eq, List.mem_append, List.mem_append]
  rintro (before | number | behind)
  · exact absurd before (by decide)
  · have digit := isAsciiDigit_of_mem_showNat number
    cases digit
  · exact absurd behind (by decide)

theorem space_mem_interval : ' ' ∈ file.interval := by
  rw [interval_eq]
  exact List.mem_append_left _ (by decide)

theorem lastWritten_infix_interval : "aff4:lastWritten".toList <:+: file.interval := by
  have ending : "aff4:lastWritten".toList <:+: "   aff4:lastWritten ".toList := by
    simp only [String.reduceToList]
    decide +kernel
  rw [interval_eq]
  exact ending.trans
    ((List.suffix_append _ _).trans (List.suffix_append _ _)).isInfix

/-- The time of the last write is read from the first quotes behind the first
`aff4:lastWritten`. -/
theorem lastWritten_block (closed : '"' ∉ file.literal) (noSemicolon : ';' ∉ file.arn) :
    extractPredQuoted file.block "aff4:lastWritten".toList = some file.lastWritten ↔
      ("aff4:lastWritten".toList <:+: file.arn → file.literal = file.lastWritten) ∧
      (¬"aff4:lastWritten".toList <:+: file.arn →
        ¬"aff4:lastWritten".toList <:+: file.literal) := by
  have nonempty : "aff4:lastWritten".toList ≠ [] := by decide
  have noQuote : '"' ∉ "aff4:lastWritten".toList := by decide
  have opening : "aff4:lastWritten".toList <:+: normalizeTurtle file.opening ↔
      "aff4:lastWritten".toList <:+: file.arn := by
    have noHeading : ¬"aff4:lastWritten".toList <:+: heading := by
      rw [← contains_iff, contains_heading.2.2.1]
      exact Bool.false_ne_true
    have noSubject : ¬"aff4:lastWritten".toList <:+: [] := by decide
    rw [normalizeTurtle_opening, file.normalizeTurtle_arn noSemicolon,
      ← List.nil_append ('<' :: _), infix_append_cons_iff nonempty (by decide),
      or_iff_right noSubject, infix_append_cons_iff nonempty (by decide),
      or_iff_left noHeading]
  obtain ⟨after, closing⟩ := file.normalizeTurtle_closing
  by_cases inArn : "aff4:lastWritten".toList <:+: file.arn
  · have read := extractPredQuoted_closed nonempty (opening.mpr inArn)
      file.noQuote_opening closed (file.interval ++ normalizeTurtle file.closing)
    rw [block_eq, read, Option.some.injEq]
    simp only [inArn, true_implies, not_true_eq_false, false_implies, and_true]
  · rw [block_eq, extractPredQuoted_append_cons nonempty noQuote
      (fun inside => inArn (opening.mp inside)), closing]
    simp only [inArn, false_implies, not_false_eq_true, true_implies, true_and]
    by_cases inName : "aff4:lastWritten".toList <:+: file.literal
    · have decoy := extractPredQuoted_closed nonempty inName closed
        file.noQuote_interval (file.lastWritten ++ '"' :: after)
      rw [decoy, Option.some.injEq]
      refine iff_of_false (fun equal => ?_) (fun absent => absent inName)
      have space := file.space_mem_interval
      rw [equal] at space
      exact absurd (file.timestamp ' ' space).1 (by decide)
    · rw [extractPredQuoted_append_cons nonempty noQuote inName]
      refine iff_of_true ?_ inName
      exact extractPredQuoted_closed nonempty file.lastWritten_infix_interval
        file.noQuote_interval file.noQuote_lastWritten after

/-! ## Where a node is cut -/

theorem not_infix_opening (noSemicolon : ';' ∉ file.arn) :
    ¬" . ".toList <:+: normalizeTurtle file.opening := by
  have nonempty : " . ".toList ≠ [] := by decide
  have noHeading : ¬" . ".toList <:+: heading := by
    rw [← contains_iff, contains_heading.2.2.2]
    exact Bool.false_ne_true
  have noSpace : ' ' ∉ '<' :: file.arn := by
    rw [List.mem_cons]
    rintro (equal | member)
    · cases equal
    · exact (file.ne_of_mem_arn member).1 rfl
  rw [normalizeTurtle_opening, file.normalizeTurtle_arn noSemicolon,
    ← List.cons_append, infix_append_cons_iff nonempty (by decide)]
  rintro (inSubject | inHeading)
  · exact noSpace (inSubject.subset (by decide))
  · exact noHeading inHeading

theorem stop_not_mem_hashTerms (hashes : List StoredHash) :
    ['.'] ∉ (hashes.map hashTerm).intersperse [','] := by
  have noTerm (hash : StoredHash) : ['.'] ≠ hashTerm hash := by
    intro equal
    cases equal
  induction hashes with
  | nil => exact List.not_mem_nil
  | cons hash hashes inductionHypothesis =>
      cases hashes with
      | nil => simpa using noTerm hash
      | cons next hashes =>
          rw [List.map_cons] at inductionHypothesis
          rw [List.map_cons, List.map_cons, List.intersperse_cons_cons, List.mem_cons,
            List.mem_cons]
          rintro (first | comma | behind)
          · exact noTerm hash first
          · cases comma
          · exact inductionHypothesis behind

theorem stop_not_mem_followingWords : ['.'] ∉ file.followingWords := by
  have noHash : ['.'] ∉ hashWords file.hashes := by
    unfold hashWords
    split
    · exact List.not_mem_nil
    · rw [List.mem_cons]
      rintro (equal | inTerms)
      · cases equal
      · exact stop_not_mem_hashTerms file.hashes inTerms
  unfold followingWords
  simp only [List.mem_cons, List.mem_append, List.not_mem_nil, or_false]
  rintro (number | equal | equal | inHashes | equal | equal)
  · have inside : '.' ∈ showNat file.size.toNat := by
      rw [← number]
      exact List.mem_cons_self ..
    have digit := isAsciiDigit_of_mem_showNat inside
    cases digit
  · cases equal
  · cases equal
  · exact noHash inHashes
  · cases equal
  · cases equal

/-- A node is not cut behind its name. -/
theorem not_infix_behind :
    ¬" . ".toList <:+: file.interval ++ normalizeTurtle file.closing := by
  intro inside
  have isToken : IsToken ['.'] := ⟨by decide, forall_mem_of_all rfl⟩
  have word : IsWord "^^xsd:string".toList := ⟨by decide, forall_mem_of_all rfl⟩
  have written : normalizeTurtle ("^^xsd:string".toList ++ (file.middle ++ file.closing)) =
      file.interval ++ normalizeTurtle file.closing := by
    unfold interval
    rw [normalizeTurtle_append, normalizeTurtle_append, word.normalizeTurtle_eq,
      List.append_assoc]
  rw [← written] at inside
  have member : ['.'] ∈ words ("^^xsd:string".toList ++ (file.middle ++ file.closing)) :=
    mem_splitWhitespace_of_infix isToken inside
  rw [words_append_middle, List.mem_append, List.mem_cons] at member
  rcases member with typed | equal | following
  · exact absurd typed (by decide)
  · cases equal
  · exact file.stop_not_mem_followingWords following

/-- A node is whole exactly when its name is. -/
theorem infix_block_iff (noSemicolon : ';' ∉ file.arn) :
    " . ".toList <:+: file.block ↔ " . ".toList <:+: file.literal := by
  have nonempty : " . ".toList ≠ [] := by decide
  have foreign : '"' ∉ " . ".toList := by decide
  rw [block_eq, infix_append_cons_iff nonempty foreign,
    infix_append_cons_iff nonempty foreign,
    or_iff_right (file.not_infix_opening noSemicolon),
    or_iff_left file.not_infix_behind]

/-- Every node is recognized by what it has in front of the name. -/
theorem contains_opening (after : Text) :
    contains (normalizeTurtle file.opening ++ after) "aff4:FileImage".toList = true := by
  have inHeading : "aff4:FileImage".toList <:+: heading :=
    contains_iff.mp contains_heading.2.1
  rw [contains_iff]
  exact (inHeading.trans file.heading_suffix_opening.isInfix).trans
    (List.prefix_append _ after).isInfix

/-! ## Escapes -/

theorem mem_of_mem_escape {c : Char} {text : Text} (member : c ∈ escape text) :
    c = '\\' ∨ c ∈ text := by
  obtain ⟨source, inside, written⟩ := List.mem_flatMap.mp member
  split at written
  · rcases List.mem_cons.mp written with rfl | same
    · exact .inl rfl
    · rw [List.mem_singleton.mp same]
      exact .inr inside
  · rw [List.mem_singleton.mp written]
    exact .inr inside

theorem escape_eq_self {text : Text} (plain : ∀ c ∈ text, c ≠ '"' ∧ c ≠ '\\') :
    escape text = text := by
  induction text with
  | nil => rfl
  | cons c text inductionHypothesis =>
      rw [List.forall_mem_cons] at plain
      have rest := inductionHypothesis plain.2
      rw [escape] at rest ⊢
      rw [List.flatMap_cons, rest, if_neg (by simpa using plain.1)]
      rfl

/-- Escapes lengthen a text. -/
theorem length_escape (text : Text) :
    (escape text).length =
      text.length + text.countP fun c => decide (c = '"' ∨ c = '\\') := by
  induction text with
  | nil => rfl
  | cons c text inductionHypothesis =>
      rw [escape] at inductionHypothesis ⊢
      rw [List.flatMap_cons, List.length_append, inductionHypothesis,
        List.countP_cons, List.length_cons]
      by_cases special : c = '"' ∨ c = '\\'
      · simp only [special, if_true, decide_true, List.length_cons, List.length_nil]
        omega
      · simp only [special, if_false, decide_false, List.length_cons, List.length_nil]
        simp
        omega

/-- A name is kept exactly when it has no character that is escaped or rewritten. -/
theorem literal_eq_iff :
    file.literal = file.originalFileName ↔
      ∀ c ∈ file.originalFileName, c ∉ '"' :: '\\' :: becomesSpace := by
  constructor
  · intro same c member special
    have lengths := congrArg List.length same
    rw [literal, normalizeTurtle, List.length_map, length_escape] at lengths
    have none := List.countP_eq_zero.mp (Nat.add_eq_left.mp lengths) c member
    rw [List.mem_cons, List.mem_cons] at special
    rcases special with quote | backslash | rewritten
    · simp [quote] at none
    · simp [backslash] at none
    · rw [← same] at member
      exact not_mem_normalizeTurtle rewritten _ member
  · intro plain
    have unescaped : escape file.originalFileName = file.originalFileName := by
      apply escape_eq_self
      intro c member
      have absent := plain c member
      rw [List.mem_cons, List.mem_cons, not_or, not_or] at absent
      exact ⟨absent.1, absent.2.1⟩
    rw [literal, unescaped]
    apply normalizeTurtle_eq_self
    intro c member rewritten
    exact plain c member (List.mem_cons_of_mem _ (List.mem_cons_of_mem _ rewritten))

/-- Quotes reach the parser from the name only. -/
theorem noQuote_literal (noQuote : '"' ∉ file.originalFileName) : '"' ∉ file.literal := by
  intro member
  rcases mem_of_mem_escape (mem_of_mem_normalizeTurtle (by decide) member) with
    equal | inName
  · cases equal
  · exact noQuote inName

/-! ## The round trip -/

/-- A file whose node is read back: nothing in its IRI or its name is rewritten,
escaped, or taken for the end of a node, a size or a time. -/
structure Legible : Prop where
  arn : ';' ∉ file.arn
  name : ∀ c ∈ file.originalFileName, c ∉ '"' :: '\\' :: becomesSpace
  whole : ¬" . ".toList <:+: file.originalFileName
  size : file.SizeLegible
  lastWritten_arn : "aff4:lastWritten".toList <:+: file.arn →
    file.originalFileName = file.lastWritten
  lastWritten_name : ¬"aff4:lastWritten".toList <:+: file.arn →
    ¬"aff4:lastWritten".toList <:+: file.originalFileName

/-- What the parser makes of a whole node. -/
theorem parseLogicalFile_block
    (closed : '"' ∉ file.literal) (noSemicolon : ';' ∉ file.arn) :
    parseLogicalFile file.block = .ok file.record ↔
      file.literal = file.originalFileName ∧ file.SizeLegible ∧
        ("aff4:lastWritten".toList <:+: file.arn → file.literal = file.lastWritten) ∧
        (¬"aff4:lastWritten".toList <:+: file.arn →
          ¬"aff4:lastWritten".toList <:+: file.literal) := by
  rw [← file.lastWritten_block closed noSemicolon, ← file.size_block]
  simp only [parseLogicalFile, extractIri_block, file.normalizeTurtle_arn noSemicolon,
    file.originalFileName_block closed, file.hashes_block closed, record,
    Option.getD_some, pure, Except.pure, Except.ok.injEq, LogicalFileMeta.mk.injEq,
    true_and]

/-- Characters of the document that are rewritten reach no piece of it. -/
theorem not_mem_of_mem_fileImageNodes {c : Char} (rewritten : c ∈ becomesSpace)
    {turtle piece : Text} (member : piece ∈ fileImageNodes turtle) : c ∉ piece := by
  intro inside
  have foreign : ∀ d ∈ " . ".toList, d ∉ [c] := by
    simp only [becomesSpace, List.mem_cons, List.not_mem_nil, or_false] at rewritten
    rcases rewritten with rfl | rfl | rfl | rfl <;> exact forall_mem_of_all rfl
  have whole := (exists_mem_split_infix_iff (List.cons_ne_nil c []) (by decide) foreign
    (normalizeTurtle turtle)).mp
      ⟨piece, List.mem_of_mem_filter member, (List.singleton_infix_iff _ _).mpr inside⟩
  exact not_mem_normalizeTurtle rewritten turtle ((List.singleton_infix_iff _ _).mp whole)

theorem fileImageNodes_of_whole (whole : ¬" . ".toList <:+: file.block) :
    fileImageNodes file.statement = [file.block] := by
  have recognized : contains file.block "aff4:FileImage".toList = true := by
    rw [block_eq]
    exact file.contains_opening _
  have uncut : turtleBlocks file.statement = [file.block] := split_of_not_infix whole
  rw [fileImageNodes, uncut]
  exact List.filter_cons_of_pos recognized

/-- Where the name is cut, the first piece of the node has no closing quote. -/
theorem fileImageNodes_of_cut (closed : '"' ∉ file.literal)
    (noSemicolon : ';' ∉ file.arn) (cut : " . ".toList <:+: file.literal) :
    ∃ beginning, '"' ∉ beginning ∧
      (fileImageNodes file.statement).head? =
        some (normalizeTurtle file.opening ++ '"' :: beginning) := by
  have nonempty : " . ".toList ≠ [] := by decide
  have foreign : '"' ∉ " . ".toList := by decide
  obtain ⟨beginning, rest, literal, first⟩ := exists_first_of_infix nonempty cut
  have unclosed : '"' ∉ beginning := by
    intro member
    rw [literal, List.append_assoc] at closed
    exact closed (List.mem_append_left _ member)
  have firstOfNode : ¬" . ".toList <:+:
      normalizeTurtle file.opening ++ '"' :: beginning ++ (" . ".toList).dropLast := by
    rw [List.append_assoc, List.cons_append, infix_append_cons_iff nonempty foreign]
    rintro (inOpening | inName)
    · exact file.not_infix_opening noSemicolon inOpening
    · exact first inName
  have layout : file.block =
      normalizeTurtle file.opening ++ '"' :: beginning ++ " . ".toList ++
        (rest ++ '"' :: (file.interval ++ normalizeTurtle file.closing)) := by
    rw [block_eq, literal]
    simp only [List.append_assoc, List.cons_append]
  have pieces : turtleBlocks file.statement =
      (normalizeTurtle file.opening ++ '"' :: beginning) ::
        split (rest ++ '"' :: (file.interval ++ normalizeTurtle file.closing))
          " . ".toList := by
    have cutHere := split_append (normalizeTurtle file.opening ++ '"' :: beginning)
      (rest ++ '"' :: (file.interval ++ normalizeTurtle file.closing)) firstOfNode
    rw [← layout] at cutHere
    exact cutHere
  refine ⟨beginning, unclosed, ?_⟩
  rw [fileImageNodes, pieces, List.filter_cons, if_pos (file.contains_opening _),
    List.head?_cons]

/-- What a record tells about the node it was read from. -/
theorem of_parseLogicalFile {piece : Text}
    (parsed : parseLogicalFile piece = .ok file.record) :
    extractIri piece = some file.arn ∧
      (extractPredQuoted piece "aff4:originalFileName".toList).getD file.arn =
        file.originalFileName := by
  cases iri : extractIri piece with
  | none =>
      rw [parseLogicalFile, iri] at parsed
      cases parsed
  | some arn =>
      simp only [parseLogicalFile, iri, record, pure, Except.pure, Except.ok.injEq,
        LogicalFileMeta.mk.injEq] at parsed
      obtain ⟨rfl, name, -⟩ := parsed
      exact ⟨rfl, name⟩

/-- A node is read back exactly when the file is legible. -/
theorem exists_parseLogicalFile_iff :
    (∃ piece, fileImageNodes file.statement = [piece] ∧
        parseLogicalFile piece = .ok file.record) ↔ file.Legible := by
  constructor
  · rintro ⟨piece, alone, parsed⟩
    have member : piece ∈ fileImageNodes file.statement := by
      rw [alone]
      exact List.mem_cons_self ..
    obtain ⟨arn, name⟩ := file.of_parseLogicalFile parsed
    have noSemicolon : ';' ∉ file.arn := fun inside =>
      not_mem_of_mem_fileImageNodes (by decide) member
        ((infix_of_extractIri arn).subset inside)
    have noQuote : '"' ∉ file.originalFileName := by
      cases read : extractPredQuoted piece "aff4:originalFileName".toList with
      | some value =>
          rw [read, Option.getD_some] at name
          rw [← name]
          exact (of_extractPredQuoted read).2
      | none =>
          rw [read, Option.getD_none] at name
          rw [← name]
          exact fun inside => (file.ne_of_mem_arn inside).2.2.1 rfl
    have closed := file.noQuote_literal noQuote
    have whole : ¬" . ".toList <:+: file.literal := by
      intro cut
      obtain ⟨beginning, unclosed, first⟩ :=
        file.fileImageNodes_of_cut closed noSemicolon cut
      rw [alone, List.head?_cons, Option.some.injEq] at first
      have unread := extractPredQuoted_unclosed (by decide)
        file.originalFileName_infix_opening file.noQuote_opening unclosed
      rw [first, unread, Option.getD_none] at name
      have same : file.literal = file.originalFileName := by
        rw [literal_eq_iff, ← name]
        exact file.plain_arn noSemicolon
      have space : ' ' ∈ file.arn := by
        rw [name, ← same]
        exact cut.subset (by decide)
      exact (file.ne_of_mem_arn space).1 rfl
    have uncut : ¬" . ".toList <:+: file.block := by
      rwa [file.infix_block_iff noSemicolon]
    rw [file.fileImageNodes_of_whole uncut, List.singleton_inj] at alone
    rw [← alone, file.parseLogicalFile_block closed noSemicolon] at parsed
    obtain ⟨same, size, inArn, inName⟩ := parsed
    rw [same] at whole inArn inName
    exact ⟨noSemicolon, file.literal_eq_iff.mp same, whole, size, inArn, inName⟩
  · intro legible
    have same := file.literal_eq_iff.mpr legible.name
    have closed : '"' ∉ file.literal := by
      rw [same]
      exact fun member => legible.name '"' member (List.mem_cons_self ..)
    have whole : ¬" . ".toList <:+: file.block := by
      rw [file.infix_block_iff legible.arn, same]
      exact legible.whole
    refine ⟨file.block, file.fileImageNodes_of_whole whole, ?_⟩
    rw [file.parseLogicalFile_block closed legible.arn, same]
    exact ⟨rfl, legible.size, legible.lastWritten_arn, legible.lastWritten_name⟩

theorem fileImageNodes_ne_nil : fileImageNodes file.statement ≠ [] := by
  have inside : "aff4:FileImage".toList <:+: file.block := by
    have recognized := contains_iff.mp
      (file.contains_opening ('"' :: (file.literal ++
        '"' :: (file.interval ++ normalizeTurtle file.closing))))
    rwa [block_eq]
  have nonempty : "aff4:FileImage".toList ≠ [] := by decide
  have separated : " . ".toList ≠ [] := by decide
  have foreign : ∀ c ∈ " . ".toList, c ∉ "aff4:FileImage".toList :=
    forall_mem_of_all rfl
  obtain ⟨piece, member, found⟩ :=
    (exists_mem_split_infix_iff nonempty separated foreign file.block).mpr inside
  exact List.ne_nil_of_mem (List.mem_filter.mpr ⟨member, contains_iff.mpr found⟩)

/-- A node ends with the IRI of the volume. -/
theorem getLast?_statement : file.statement.getLast? = some '>' := by
  have volume : "aff4:stored <aff4://issen-test-logical-volume>".toList.getLast? =
      some '>' := by
    decide
  unfold statement closing
  rw [List.getLast?_append, List.getLast?_append, List.getLast?_append, volume]
  rfl

end LogicalFile

/-- Statements that end with IRIs have their own nodes. -/
theorem fileImageNodes_flatMap
    {statement : α → Text} {inputs : List α}
    (ends : ∀ input ∈ inputs, (statement input).getLast? = some '>') (after : Text) :
    fileImageNodes (inputs.flatMap (fun input => statement input ++ " .\n".toList) ++
        after) =
      (inputs.flatMap fun input => fileImageNodes (statement input)) ++
        fileImageNodes after := by
  induction inputs with
  | nil => rfl
  | cons input inputs inductionHypothesis =>
      rw [List.forall_mem_cons] at ends
      rw [List.flatMap_cons, List.append_assoc, List.append_assoc,
        fileImageNodes_append ends.1, inductionHypothesis ends.2, List.flatMap_cons,
        List.append_assoc]

/-- The nodes of a document are those of its files. -/
theorem fileImageNodes_document (files : List LogicalFile) :
    fileImageNodes (document files) =
      files.flatMap fun file => fileImageNodes file.statement := by
  have ends : ∀ declaration ∈ declarations, declaration.getLast? = some '>' := by
    decide
  have none : (declarations.flatMap fun declaration => fileImageNodes declaration) = [] := by
    decide +kernel
  have nodes := fileImageNodes_flatMap (fun file (_ : file ∈ files) =>
    file.getLast?_statement) []
  rw [List.append_nil] at nodes
  rw [document, fileImageNodes_flatMap ends, none, List.nil_append]
  exact nodes.trans (List.append_nil _)

/-- The parser gets back every file of a document, in order, exactly when all of
them are legible. -/
theorem parseLogicalFiles_document_iff (files : List LogicalFile) :
    parseLogicalFiles (document files) = .ok (files.map LogicalFile.record) ↔
      ∀ file ∈ files, file.Legible := by
  rw [parseLogicalFiles_eq, fileImageNodes_document,
    except_mapM_flatMap_eq_ok LogicalFile.fileImageNodes_ne_nil]
  exact forall₂_congr fun file _ => file.exists_parseLogicalFile_iff

/-! A file whose name ends its node and begins another one. -/

namespace ForgedSample

def file : LogicalFile where
  arn := "aff4://v/a".toList
  originalFileName := "x . <aff4://v/forged> aff4:FileImage . y".toList
  size := 5
  hashes := []
  lastWritten := "2018-09-17T13:42:20+10:00".toList
  isIri := forall_mem_of_all rfl
  declarable := fun _ member => absurd member List.not_mem_nil
  timestamp := forall_mem_of_all rfl

/-- The name adds a record, and takes the name, the size and the time from the
file's own. -/
theorem not_parseLogicalFiles_document_forged :
    parseLogicalFiles (document [file]) =
        .ok [{ arn := file.arn, originalFileName := file.arn, size := 0,
               hashes := [], lastWritten := none },
             { arn := "aff4://v/forged".toList,
               originalFileName := "aff4://v/forged".toList, size := 0,
               hashes := [], lastWritten := none }] ∧
      parseLogicalFiles (document [file]) ≠ .ok ([file].map LogicalFile.record) := by
  have parsed : parseLogicalFiles (document [file]) =
      .ok [{ arn := file.arn, originalFileName := file.arn, size := 0,
             hashes := [], lastWritten := none },
           { arn := "aff4://v/forged".toList,
             originalFileName := "aff4://v/forged".toList, size := 0,
             hashes := [], lastWritten := none }] := by
    rw [parseLogicalFiles_eq, fileImageNodes_document]
    decide +kernel
  refine ⟨parsed, ?_⟩
  rw [parsed]
  decide +kernel

end ForgedSample

end Aff4
