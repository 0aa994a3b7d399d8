import Aff4.Meta

/-!
# Laws of the metadata parser

What the parser reads off a text depends on three things only: the nodes a
normalized text is cut into, its words, and its quotes.
-/

namespace Aff4

open Rust Rust.Str

/-! ## Normalized texts -/

/-- The characters that become spaces. -/
def becomesSpace : List Char := ['\n', '\r', '\t', ';']

theorem normalizeTurtle_append (before after : Text) :
    normalizeTurtle (before ++ after) =
      normalizeTurtle before ++ normalizeTurtle after :=
  List.map_append

theorem normalizeTurtle_eq_self {text : Text} (kept : ∀ c ∈ text, c ∉ becomesSpace) :
    normalizeTurtle text = text := by
  have same : ∀ c ∈ text,
      (if c = '\n' ∨ c = '\r' ∨ c = '\t' ∨ c = ';' then ' ' else c) = c := by
    intro c member
    apply if_neg
    simpa [becomesSpace] using kept c member
  rw [normalizeTurtle, List.map_congr_left same, List.map_id']

theorem not_mem_normalizeTurtle {c : Char} (member : c ∈ becomesSpace) (text : Text) :
    c ∉ normalizeTurtle text := by
  intro inside
  obtain ⟨source, -, rfl⟩ := List.mem_map.mp inside
  split at member
  · exact absurd member (by decide)
  next kept => exact kept (by simpa [becomesSpace] using member)

theorem mem_of_mem_normalizeTurtle {c : Char} {text : Text} (noSpace : c ≠ ' ')
    (inside : c ∈ normalizeTurtle text) : c ∈ text := by
  obtain ⟨source, member, rfl⟩ := List.mem_map.mp inside
  split at noSpace
  · exact absurd rfl noSpace
  next kept =>
    rw [if_neg kept]
    exact member

/-! ## Nodes -/

/-- The nodes that describe logical files. -/
def fileImageNodes (turtle : Text) : List Text :=
  (turtleBlocks turtle).filter (contains · "aff4:FileImage".toList)

theorem parseLogicalFiles_eq (turtle : Text) :
    parseLogicalFiles turtle = (fileImageNodes turtle).mapM parseLogicalFile := rfl

/-- A full stop behind an IRI ends a node. -/
theorem fileImageNodes_append {text : Text} (ends : text.getLast? = some '>')
    (after : Text) :
    fileImageNodes (text ++ (" .\n".toList ++ after)) =
      fileImageNodes text ++ fileImageNodes after := by
  obtain ⟨before, rfl⟩ := List.getLast?_eq_some_iff.mp ends
  have foreign : '>' ∉ " . ".toList := by decide
  have cut := split_append_of_foreign (by decide) foreign (normalizeTurtle before)
    (normalizeTurtle after)
  have behind : normalizeTurtle (before ++ ['>']) = normalizeTurtle before ++ ['>'] :=
    normalizeTurtle_append before ['>']
  have all : normalizeTurtle (before ++ ['>'] ++ (" .\n".toList ++ after)) =
      normalizeTurtle before ++ ['>'] ++ " . ".toList ++ normalizeTurtle after := by
    rw [normalizeTurtle_append (before ++ ['>']), behind, normalizeTurtle_append,
      List.append_assoc, List.append_assoc, List.append_assoc]
    rfl
  unfold fileImageNodes turtleBlocks
  rw [behind, all, cut, List.filter_append]

/-! ## Words -/

/-- The words of a text: its tokens once it is normalized. -/
def words (text : Text) : List Text := splitWhitespace (normalizeTurtle text)

/-- A character that belongs to a word. -/
def IsWordChar (c : Char) : Prop := isWhitespace c = false ∧ c ≠ ';'

instance (c : Char) : Decidable (IsWordChar c) :=
  inferInstanceAs (Decidable (_ ∧ _))

/-- A text that is one word. -/
structure IsWord (text : Text) : Prop where
  ne_nil : text ≠ []
  chars : ∀ c ∈ text, IsWordChar c

theorem IsWord.isToken {word : Text} (isWord : IsWord word) : IsToken word :=
  ⟨isWord.ne_nil, fun c member => (isWord.chars c member).1⟩

/-- A literal word stays one in front of word characters. -/
theorem IsWord.append {word ending : Text} (isWord : IsWord word)
    (chars : ∀ c ∈ ending, IsWordChar c) : IsWord (word ++ ending) where
  ne_nil := List.append_ne_nil_of_left_ne_nil isWord.ne_nil ending
  chars := List.forall_mem_append.mpr ⟨isWord.chars, chars⟩

theorem isAsciiAlphanumeric_of_isAsciiHexdigit {c : Char}
    (digit : isAsciiHexdigit c = true) : isAsciiAlphanumeric c = true := by
  simp only [isAsciiHexdigit, Bool.or_eq_true, Bool.and_eq_true,
    decide_eq_true_eq] at digit
  simp only [isAsciiAlphanumeric, Bool.or_eq_true, Bool.and_eq_true,
    decide_eq_true_eq]
  rcases digit with (decimal | ⟨low, high⟩) | ⟨low, high⟩
  · exact .inl (.inl decimal)
  · exact .inl (.inr ⟨low, Char.le_trans high (by decide)⟩)
  · exact .inr ⟨low, Char.le_trans high (by decide)⟩

theorem isWhitespace_of_isAsciiAlphanumeric {c : Char}
    (letter : isAsciiAlphanumeric c = true) : isWhitespace c = false := by
  simp only [isAsciiAlphanumeric, isAsciiDigit, Bool.or_eq_true, Bool.and_eq_true,
    decide_eq_true_eq, Char.le_def, UInt32.le_iff_toNat_le] at letter
  simp only [isWhitespace, Bool.or_eq_false_iff, Bool.and_eq_false_iff,
    decide_eq_false_iff_not, beq_eq_false_iff_ne, Char.toNat]
  have code : c.val.toNat = c.toNat := rfl
  simp at letter
  omega

theorem isWordChar_of_isAsciiHexdigit {c : Char} (digit : isAsciiHexdigit c = true) :
    IsWordChar c := by
  constructor
  · exact isWhitespace_of_isAsciiAlphanumeric
      (isAsciiAlphanumeric_of_isAsciiHexdigit digit)
  · rintro rfl
    cases digit

theorem isWhitespace_of_mem_becomesSpace {c : Char} (member : c ∈ becomesSpace)
    (noSemicolon : c ≠ ';') : isWhitespace c = true := by
  simp only [becomesSpace, List.mem_cons, List.not_mem_nil, or_false] at member
  rcases member with rfl | rfl | rfl | rfl
  · decide
  · decide
  · decide
  · exact absurd rfl noSemicolon

theorem IsWord.normalizeTurtle_eq {word : Text} (isWord : IsWord word) :
    normalizeTurtle word = word := by
  apply normalizeTurtle_eq_self
  intro c member rewritten
  have noSemicolon : c ≠ ';' := by
    rintro rfl
    exact (isWord.chars ';' member).2 rfl
  have space := isWhitespace_of_mem_becomesSpace rewritten noSemicolon
  rw [(isWord.chars c member).1] at space
  cases space

theorem words_append_space (before after : Text) :
    words (before ++ (" ".toList ++ after)) = words before ++ words after := by
  unfold words
  rw [normalizeTurtle_append, normalizeTurtle_append]
  exact splitWhitespace_append_cons _ _ (by decide)

theorem words_append_semicolon (before after : Text) :
    words (before ++ (" ; ".toList ++ after)) = words before ++ words after := by
  have space : isWhitespace ' ' = true := by decide
  have blanks : words ("; ".toList ++ after) = words after := by
    unfold words
    rw [normalizeTurtle_append]
    exact (splitWhitespace_cons _ space).trans (splitWhitespace_cons _ space)
  rw [← blanks]
  exact words_append_space before ("; ".toList ++ after)

theorem words_append_comma (before after : Text) :
    words (before ++ (" , ".toList ++ after)) =
      words before ++ [','] :: words after := by
  have comma : words [','] = [[',']] := by decide
  have behind := words_append_space [','] after
  rw [comma] at behind
  exact (words_append_space before (", ".toList ++ after)).trans
    (congrArg (words before ++ ·) behind)

theorem words_of_isWord {word : Text} (isWord : IsWord word) : words word = [word] := by
  rw [words, isWord.normalizeTurtle_eq, splitWhitespace_of_isToken isWord.isToken]

/-- The first word equal to a predicate, and the word behind it. -/
theorem find?_windows2
    {name : Text} {before : List Text} (absent : name ∉ before)
    (value : Text) (after : List Text) :
    (windows2 (before ++ name :: value :: after)).find? (·.1 = name) =
      some (name, value) := by
  induction before with
  | nil => simp [windows2]
  | cons word before inductionHypothesis =>
      rw [List.mem_cons, not_or] at absent
      have rest := inductionHypothesis absent.2
      cases before with
      | nil => simp [windows2, Ne.symm absent.1]
      | cons next before => simpa [windows2, Ne.symm absent.1] using rest

theorem extractPredU64_of_splitWhitespace
    {block predicate : Text} {before : List Text} {value : Text} {after : List Text}
    (split : splitWhitespace block = before ++ predicate :: value :: after)
    (absent : predicate ∉ before) :
    extractPredU64 block predicate = parsePredU64 predicate value := by
  rw [extractPredU64, split, find?_windows2 absent]

/-- A number in decimal is read back. -/
theorem parsePredU64_showNat (predicate : Text) (n : UInt64) :
    parsePredU64 predicate (showNat n.toNat) = .ok n := by
  have digits : ((showNat n.toNat).dropWhile (· == '"')).takeWhile isAsciiDigit =
      showNat n.toNat := by
    rw [List.dropWhile_eq_self_iff.mpr, List.takeWhile_eq_self_iff.mpr]
    · exact fun c member => isAsciiDigit_of_mem_showNat member
    · intro nonempty quote
      have digit := isAsciiDigit_of_mem_showNat (List.getElem_mem nonempty)
      rw [beq_iff_eq.mp quote] at digit
      cases digit
  simp only [parsePredU64, digits, showNat_ne_nil, if_false, parseU64_showNat]

/-! ## Quoted values -/

section Quoted

variable {predicate before : Text}

/-- A value begins behind the first quote that follows a predicate. -/
theorem extractPredQuoted_append
    (nonempty : predicate ≠ []) (inside : predicate <:+: before)
    (noQuote : '"' ∉ before) (rest : Text) :
    extractPredQuoted (before ++ '"' :: rest) predicate =
      (find rest ['"']).map rest.take := by
  obtain ⟨first, between, rfl, isFirst⟩ := exists_first_of_infix nonempty inside
  have noQuoteBehind : '"' ∉ between := fun member =>
    noQuote (List.mem_append_right _ member)
  have afterPred : (first ++ predicate ++ between ++ '"' :: rest).drop
      (first.length + predicate.length) = between ++ '"' :: rest := by
    rw [List.append_assoc, ← List.length_append, List.drop_left]
  have afterQuote : (between ++ '"' :: rest).drop (between.length + 1) = rest := by
    rw [List.drop_length_add_append]
    rfl
  have found : find (first ++ predicate ++ between ++ '"' :: rest) predicate =
      some first.length := by
    rw [List.append_assoc (first ++ predicate)]
    exact find_append first _ isFirst
  simp only [extractPredQuoted, found, Option.bind_eq_bind, Option.bind_some,
    afterPred, find_char_append rest noQuoteBehind, afterQuote]
  cases find rest ['"'] <;> rfl

/-- A value ends at the quote that follows. -/
theorem extractPredQuoted_closed
    (nonempty : predicate ≠ []) (inside : predicate <:+: before)
    (noQuote : '"' ∉ before) {value : Text} (closed : '"' ∉ value) (after : Text) :
    extractPredQuoted (before ++ '"' :: (value ++ '"' :: after)) predicate =
      some value := by
  rw [extractPredQuoted_append nonempty inside noQuote,
    find_char_append after closed, Option.map_some, List.take_left]

/-- A value without a closing quote is none. -/
theorem extractPredQuoted_unclosed
    (nonempty : predicate ≠ []) (inside : predicate <:+: before)
    (noQuote : '"' ∉ before) {rest : Text} (unclosed : '"' ∉ rest) :
    extractPredQuoted (before ++ '"' :: rest) predicate = none := by
  rw [extractPredQuoted_append nonempty inside noQuote,
    find_char_eq_none unclosed, Option.map_none]

/-- A text without the predicate is skipped. -/
theorem extractPredQuoted_append_cons
    {c : Char} (nonempty : predicate ≠ []) (foreign : c ∉ predicate)
    (absent : ¬predicate <:+: before) (after : Text) :
    extractPredQuoted (before ++ c :: after) predicate =
      extractPredQuoted after predicate := by
  simp only [extractPredQuoted,
    find_append_cons_of_not_infix nonempty foreign absent]
  cases find after predicate with
  | none => rfl
  | some position =>
      have skipped : (before ++ c :: after).drop
          (position + (before.length + 1) + predicate.length) =
            after.drop (position + predicate.length) := by
        rw [show position + (before.length + 1) + predicate.length =
          before.length + ((position + predicate.length) + 1) by omega,
          List.drop_length_add_append, List.drop_succ_cons]
      simp only [Option.map_some, Option.bind_eq_bind, Option.bind_some, skipped]

/-- A value is a piece of the node, and has no quotes. -/
theorem of_extractPredQuoted {block value : Text}
    (read : extractPredQuoted block predicate = some value) :
    value <:+: block ∧ '"' ∉ value := by
  simp only [extractPredQuoted, Option.bind_eq_bind, Option.bind_eq_some_iff,
    Option.pure_def, Option.some.injEq] at read
  obtain ⟨start, -, quote, -, close, closed, rfl⟩ := read
  refine ⟨?_, not_mem_take_of_find_char closed⟩
  exact (List.take_prefix _ _).isInfix.trans
    ((List.drop_suffix _ _).trans (List.drop_suffix _ _)).isInfix

end Quoted

/-- An IRI is read from between the first angle brackets. -/
theorem extractIri_append
    {before iri : Text} (noSubject : '<' ∉ before) (closed : '>' ∉ iri) (after : Text) :
    extractIri (before ++ '<' :: (iri ++ '>' :: after)) = some iri := by
  have behind : (before ++ '<' :: (iri ++ '>' :: after)).drop (before.length + 1) =
      iri ++ '>' :: after := by
    rw [List.drop_length_add_append]
    rfl
  simp only [extractIri, find_char_append _ noSubject, Option.bind_eq_bind,
    Option.bind_some, behind, find_char_append _ closed, Option.pure_def,
    List.take_left]

/-- An IRI is a piece of the text. -/
theorem infix_of_extractIri {text iri : Text} (read : extractIri text = some iri) :
    iri <:+: text := by
  simp only [extractIri, Option.bind_eq_bind, Option.bind_eq_some_iff,
    Option.pure_def, Option.some.injEq] at read
  obtain ⟨start, -, length, -, rfl⟩ := read
  exact (List.take_prefix _ _).isInfix.trans (List.drop_suffix _ _).isInfix

/-! ## Digests -/

/-- A word that declares a digest is quoted and has the quote of its datatype. -/
theorem of_parseHashTerm {token : Text} {hash : StoredHash}
    (parsed : parseHashTerm token = some hash) :
    ∃ rest, token = '"' :: rest ∧ "\"^^aff4:".toList <:+: rest := by
  simp only [parseHashTerm, splitOnce, Option.bind_eq_bind,
    Option.bind_eq_some_iff] at parsed
  obtain ⟨rest, stripped, ⟨hex, dtype⟩, split, -⟩ := parsed
  refine ⟨rest, Str.stripPrefix_eq_some.mp stripped, ?_⟩
  rw [← contains_iff, contains]
  cases found : find rest "\"^^aff4:".toList with
  | some position => rfl
  | none =>
      rw [found] at split
      cases split

/-- A hex string between quotes and a datatype is a digest; what follows the
datatype without letters or digits is dropped. -/
theorem parseHashTerm_append
    {hex algorithm trailing : Text}
    (hex_ne_nil : hex ≠ []) (hexdigits : ∀ c ∈ hex, isAsciiHexdigit c = true)
    (algorithm_ne_nil : algorithm ≠ [])
    (ends : ∀ nonempty : algorithm ≠ [],
      isAsciiAlphanumeric (algorithm.getLast nonempty) = true)
    (dropped : ∀ c ∈ trailing, isAsciiAlphanumeric c = false) :
    parseHashTerm
        ('"' :: (hex ++ "\"^^aff4:".toList ++ (algorithm ++ trailing))) =
      some { algorithm, hex := toAsciiLowercase hex } := by
  have noQuote : '"' ∉ hex := by
    intro member
    have digit := hexdigits '"' member
    cases digit
  have first : ¬"\"^^aff4:".toList <:+: hex ++ ("\"^^aff4:".toList).dropLast := by
    intro inside
    have tail := (infix_append_of_not_mem noQuote _).mp inside
    exact absurd tail.length_le (by decide)
  have split : splitOnce (hex ++ "\"^^aff4:".toList ++ (algorithm ++ trailing))
      "\"^^aff4:".toList = some (hex, algorithm ++ trailing) := by
    rw [splitOnce, find_append hex (algorithm ++ trailing) first, Option.map_some,
      List.append_assoc, List.take_left, ← List.append_assoc, ← List.length_append,
      List.drop_left]
  have stripped : Str.stripPrefix
      ('"' :: (hex ++ "\"^^aff4:".toList ++ (algorithm ++ trailing))) ['"'] =
        some (hex ++ "\"^^aff4:".toList ++ (algorithm ++ trailing)) := by
    rw [Str.stripPrefix_eq_some]
    rfl
  have kept : (algorithm ++ trailing).rdropWhile
      (fun c => !isAsciiAlphanumeric c) = algorithm := by
    rw [List.rdropWhile, List.reverse_append, List.dropWhile_append_of_pos]
    · rw [← List.rdropWhile, List.rdropWhile_eq_self_iff]
      intro nonempty
      simpa using ends nonempty
    · intro c member
      simpa using dropped c (List.mem_reverse.mp member)
  have allHexdigits : hex.all isAsciiHexdigit = true := List.all_eq_true.mpr hexdigits
  simp only [parseHashTerm, stripped, split, Option.bind_eq_bind, Option.bind_some,
    kept, allHexdigits, hex_ne_nil, algorithm_ne_nil, not_true_eq_false, or_self,
    if_false]

/-- A token that is neither a comma nor a term ends a list, and begins one if it is
`aff4:hash`. -/
theorem scanImageHashes_cons
    {token : Text} (noComma : token ≠ [',']) (noTerm : parseHashTerm token = none)
    (inList : Bool) (rest : List Text) :
    scanImageHashes inList (token :: rest) =
      scanImageHashes (token = "aff4:hash".toList) rest := by
  cases inList with
  | false => rfl
  | true => rw [scanImageHashes, if_neg noComma, noTerm]

/-- Words that declare no digest are passed over, whatever has been read. -/
theorem scanImageHashes_append
    {tokens : List Text} (others : ∀ token ∈ tokens, parseHashTerm token = none)
    {token : Text} (noComma : token ≠ [',']) (noTerm : parseHashTerm token = none)
    (inList : Bool) (rest : List Text) :
    scanImageHashes inList (tokens ++ token :: rest) =
      scanImageHashes (token = "aff4:hash".toList) rest := by
  induction tokens generalizing inList with
  | nil => exact scanImageHashes_cons noComma noTerm inList rest
  | cons word tokens inductionHypothesis =>
      rw [List.forall_mem_cons] at others
      cases inList with
      | false => exact inductionHypothesis others.2 _
      | true =>
          rw [List.cons_append, scanImageHashes, others.1]
          split
          · exact inductionHypothesis others.2 _
          · exact inductionHypothesis others.2 _

end Aff4
