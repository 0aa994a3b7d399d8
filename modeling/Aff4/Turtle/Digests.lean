import Aff4.Turtle

/-!
# Lists of digests

The content digests of a node follow `aff4:hash` as a list with commas.  The
parser sees the words of the list only, so what it reads depends on how the
commas are set, and on where it takes the list to end.
-/

namespace Aff4

open Rust Rust.Str

/-- A digest as it is written on a node. -/
structure DigestLiteral where
  hex : Text
  algorithm : Text
  hex_ne_nil : hex ≠ []
  hexdigits : ∀ c ∈ hex, isAsciiHexdigit c = true
  algorithm_ne_nil : algorithm ≠ []
  alphanumeric : ∀ c ∈ algorithm, isAsciiAlphanumeric c = true

namespace DigestLiteral

/-- The term `"<hex>"^^aff4:<ALGO>`. -/
def term (digest : DigestLiteral) : Text :=
  '"' :: (digest.hex ++ "\"^^aff4:".toList ++ digest.algorithm)

/-- What the term is read as. -/
def hash (digest : DigestLiteral) : StoredHash where
  algorithm := digest.algorithm
  hex := toAsciiLowercase digest.hex

variable (digest : DigestLiteral)

theorem parseHashTerm_append {trailing : Text}
    (dropped : ∀ c ∈ trailing, isAsciiAlphanumeric c = false) :
    parseHashTerm (digest.term ++ trailing) = some digest.hash := by
  have ends (nonempty : digest.algorithm ≠ []) :=
    digest.alphanumeric _ (List.getLast_mem nonempty)
  have parsed := Aff4.parseHashTerm_append digest.hex_ne_nil digest.hexdigits
    digest.algorithm_ne_nil ends dropped
  rw [term, List.cons_append, List.append_assoc]
  exact parsed

theorem parseHashTerm_term : parseHashTerm digest.term = some digest.hash := by
  have parsed := digest.parseHashTerm_append (List.forall_mem_nil _)
  rwa [List.append_nil] at parsed

theorem parseHashTerm_comma :
    parseHashTerm (digest.term ++ [',']) = some digest.hash :=
  digest.parseHashTerm_append (forall_mem_of_all rfl)

theorem isToken_term : IsToken digest.term := by
  refine ⟨List.cons_ne_nil _ _, ?_⟩
  rw [term, List.forall_mem_cons, List.forall_mem_append, List.forall_mem_append]
  refine ⟨by decide, ⟨?_, forall_mem_of_all rfl⟩, ?_⟩
  · exact fun c member =>
      (isWordChar_of_isAsciiHexdigit (digest.hexdigits c member)).1
  · exact fun c member =>
      isWhitespace_of_isAsciiAlphanumeric (digest.alphanumeric c member)

theorem term_ne_comma (trailing : Text) : digest.term ++ trailing ≠ [','] := by
  intro equal
  cases equal

end DigestLiteral

/-! ## Where the commas stand -/

/-- What separates two terms: a comma and the whitespace on its sides. -/
structure CommaGap where
  left : Text
  right : Text
  left_spaces : ∀ c ∈ left, isWhitespace c = true
  right_spaces : ∀ c ∈ right, isWhitespace c = true

def CommaGap.text (gap : CommaGap) : Text := gap.left ++ ',' :: gap.right

/-- The rest of a list behind its first term. -/
def commaRest (rest : List (CommaGap × DigestLiteral)) : Text :=
  rest.flatMap fun (gap, digest) => gap.text ++ digest.term

/-- The tokens of a list that begins with a given one.  A comma belongs to the
tokens it touches. -/
def commaTokens : Text → List (CommaGap × DigestLiteral) → List Text
  | token, [] => [token]
  | token, (gap, digest) :: rest =>
      if gap.left = [] then
        if gap.right = [] then commaTokens (token ++ ',' :: digest.term) rest
        else (token ++ [',']) :: commaTokens digest.term rest
      else if gap.right = [] then token :: commaTokens (',' :: digest.term) rest
      else token :: [','] :: commaTokens digest.term rest

theorem isToken_append {token ending : Text} (isToken : IsToken token)
    (solid : ∀ c ∈ ending, isWhitespace c = false) : IsToken (token ++ ending) :=
  ⟨List.append_ne_nil_of_left_ne_nil isToken.1 ending,
    List.forall_mem_append.mpr ⟨isToken.2, solid⟩⟩

theorem isToken_comma : IsToken [','] :=
  ⟨List.cons_ne_nil _ _, forall_mem_of_all rfl⟩

/-- A text that ends a token: it is empty or begins with whitespace. -/
def EndsToken (text : Text) : Prop :=
  text = [] ∨ ∃ c rest, text = c :: rest ∧ isWhitespace c = true

theorem splitWhitespace_isToken_endsToken
    {token after : Text} (isToken : IsToken token) (ends : EndsToken after) :
    splitWhitespace (token ++ after) = token :: splitWhitespace after := by
  rcases ends with rfl | ⟨c, rest, rfl, space⟩
  · rw [List.append_nil, splitWhitespace_of_isToken isToken]
    rfl
  · rw [splitWhitespace_isToken_append isToken rest space,
      splitWhitespace_cons rest space]

/-- The tokens of a list, whatever whitespace stands around its commas. -/
theorem splitWhitespace_commaRest
    (rest : List (CommaGap × DigestLiteral)) {token after : Text}
    (isToken : IsToken token) (ends : EndsToken after) :
    splitWhitespace (token ++ (commaRest rest ++ after)) =
      commaTokens token rest ++ splitWhitespace after := by
  induction rest generalizing token with
  | nil => exact splitWhitespace_isToken_endsToken isToken ends
  | cons head rest inductionHypothesis =>
      obtain ⟨gap, digest⟩ := head
      have solid := digest.isToken_term.2
      have commaTerm : IsToken (',' :: digest.term) := isToken_append isToken_comma solid
      have shape : token ++ (commaRest ((gap, digest) :: rest) ++ after) =
          token ++ (gap.left ++ ',' :: (gap.right ++
            (digest.term ++ (commaRest rest ++ after)))) := by
        simp [commaRest, CommaGap.text]
      rw [shape, commaTokens]
      by_cases left : gap.left = []
      · rw [if_pos left, left, List.nil_append]
        by_cases right : gap.right = []
        · rw [if_pos right, right, List.nil_append]
          have merged := inductionHypothesis (isToken_append isToken commaTerm.2)
          rw [List.append_assoc] at merged
          exact merged
        · rw [if_neg right]
          have first := splitWhitespace_isToken_spaces
            (isToken_append isToken isToken_comma.2) right gap.right_spaces
            (digest.term ++ (commaRest rest ++ after))
          rw [List.append_assoc] at first
          rw [List.cons_append, ← inductionHypothesis digest.isToken_term]
          exact first
      · rw [if_neg left,
          splitWhitespace_isToken_spaces isToken left gap.left_spaces]
        by_cases right : gap.right = []
        · rw [if_pos right, right, List.nil_append, List.cons_append]
          exact congrArg (token :: ·) (inductionHypothesis commaTerm)
        · rw [if_neg right, List.cons_append, List.cons_append,
            ← inductionHypothesis digest.isToken_term]
          exact congrArg (token :: ·) (splitWhitespace_isToken_spaces isToken_comma
            right gap.right_spaces _)

/-- The tokens of a node with a list of digests behind `aff4:hash`. -/
theorem splitWhitespace_listing
    {before gap after : Text}
    (before_ends : before = [] ∨ ∃ start c, before = start ++ [c] ∧ isWhitespace c = true)
    (gap_ne_nil : gap ≠ []) (gap_spaces : ∀ c ∈ gap, isWhitespace c = true)
    (first : DigestLiteral) (rest : List (CommaGap × DigestLiteral))
    (after_begins : EndsToken after) :
    splitWhitespace (before ++ ("aff4:hash".toList ++ (gap ++
        (first.term ++ (commaRest rest ++ after))))) =
      splitWhitespace before ++ "aff4:hash".toList ::
        (commaTokens first.term rest ++ splitWhitespace after) := by
  have hash : IsToken "aff4:hash".toList :=
    ⟨List.cons_ne_nil _ _, forall_mem_of_all rfl⟩
  have behind := splitWhitespace_isToken_spaces hash gap_ne_nil gap_spaces
    (first.term ++ (commaRest rest ++ after))
  rw [splitWhitespace_commaRest rest first.isToken_term after_begins] at behind
  rcases before_ends with none | ⟨start, c, ends, space⟩
  · rw [none, List.nil_append]
    exact behind
  · rw [ends, List.append_assoc, List.singleton_append,
      splitWhitespace_append_cons start _ space, behind,
      splitWhitespace_append_cons start [] space, splitWhitespace_nil,
      List.append_nil]

/-! ## Reading a list -/

/-- Whatever a scan has read so far, an `aff4:hash` begins a new list. -/
theorem mem_scanImageHashes_of_list
    {hash : StoredHash} {rest : List Text}
    (listed : hash ∈ scanImageHashes true rest)
    (inList : Bool) (before : List Text) :
    hash ∈ scanImageHashes inList (before ++ "aff4:hash".toList :: rest) := by
  have predicate : parseHashTerm "aff4:hash".toList = none := by decide
  induction before generalizing inList with
  | nil =>
      cases inList with
      | false => simpa [scanImageHashes] using listed
      | true =>
          rw [List.nil_append, scanImageHashes, if_neg (by decide), predicate]
          simpa using listed
  | cons token before inductionHypothesis =>
      rw [List.cons_append]
      cases inList with
      | false => exact inductionHypothesis _
      | true =>
          rw [scanImageHashes]
          split
          · exact inductionHypothesis _
          · split
            · exact List.mem_cons_of_mem _ (inductionHypothesis _)
            · exact inductionHypothesis _

/-- Outside a list, tokens other than `aff4:hash` are skipped. -/
theorem scanImageHashes_append_of_not_mem
    {tokens : List Text} (absent : "aff4:hash".toList ∉ tokens) (rest : List Text) :
    scanImageHashes false (tokens ++ rest) = scanImageHashes false rest := by
  induction tokens with
  | nil => rfl
  | cons token tokens inductionHypothesis =>
      rw [List.mem_cons, not_or] at absent
      rw [List.cons_append, scanImageHashes,
        decide_eq_false (Ne.symm absent.1)]
      exact inductionHypothesis absent.2

theorem scanImageHashes_of_not_mem
    {tokens : List Text} (absent : "aff4:hash".toList ∉ tokens) :
    scanImageHashes false tokens = [] := by
  have skipped := scanImageHashes_append_of_not_mem absent []
  rwa [List.append_nil] at skipped

/-- Terms are collected in order as long as no comma touches the term behind
it. -/
theorem scanImageHashes_commaTokens
    {rest : List (CommaGap × DigestLiteral)} (apart : ∀ item ∈ rest, item.1.right ≠ [])
    (digest : DigestLiteral) (tokens : List Text) :
    scanImageHashes true (commaTokens digest.term rest ++ tokens) =
      digest.hash :: rest.map (·.2.hash) ++ scanImageHashes true tokens := by
  have noComma : digest.term ≠ [','] := fun equal => by cases equal
  induction rest generalizing digest with
  | nil =>
      rw [commaTokens, List.singleton_append, scanImageHashes, if_neg noComma,
        digest.parseHashTerm_term]
      rfl
  | cons head rest inductionHypothesis =>
      obtain ⟨gap, next⟩ := head
      rw [List.forall_mem_cons] at apart
      have others := inductionHypothesis apart.2 next (fun equal => by cases equal)
      rw [commaTokens, if_neg apart.1]
      by_cases left : gap.left = []
      · rw [if_pos left, List.cons_append, scanImageHashes,
          if_neg (digest.term_ne_comma [',']), digest.parseHashTerm_comma]
        exact congrArg (digest.hash :: ·) others
      · rw [if_neg left, if_neg apart.1, List.cons_append, List.cons_append,
          scanImageHashes, if_neg noComma, digest.parseHashTerm_term]
        dsimp only
        rw [scanImageHashes, if_pos rfl]
        exact congrArg (digest.hash :: ·) others

/-- A token that begins with a quote. -/
def isQuoted (token : Text) : Bool := token.head? = some '"'

theorem parseHashTerm_of_isQuoted_eq_false {token : Text}
    (unquoted : isQuoted token = false) : parseHashTerm token = none := by
  cases parsed : parseHashTerm token with
  | none => rfl
  | some hash =>
      obtain ⟨rest, rfl, -⟩ := of_parseHashTerm parsed
      cases unquoted

/-- No more digests are read than there are tokens that begin with a quote. -/
theorem length_scanImageHashes_le
    {after : List Text} (nothing : ∀ inList, scanImageHashes inList after = [])
    (tokens : List Text) (inList : Bool) :
    (scanImageHashes inList (tokens ++ after)).length ≤
      tokens.countP isQuoted := by
  induction tokens generalizing inList with
  | nil => simp [nothing]
  | cons token tokens inductionHypothesis =>
      rw [List.cons_append, List.countP_cons]
      cases inList with
      | false => exact (inductionHypothesis _).trans (Nat.le_add_right _ _)
      | true =>
          rw [scanImageHashes]
          split
          · exact (inductionHypothesis _).trans (Nat.le_add_right _ _)
          cases parsed : parseHashTerm token with
          | none => exact (inductionHypothesis _).trans (Nat.le_add_right _ _)
          | some hash =>
              have quoted : isQuoted token = true := by
                by_contra unquoted
                rw [parseHashTerm_of_isQuoted_eq_false
                  (Bool.not_eq_true _ ▸ unquoted)] at parsed
                cases parsed
              rw [if_pos quoted, List.length_cons]
              exact Nat.succ_le_succ (inductionHypothesis _)

/-- Each comma that touches the term behind it hides a quote. -/
theorem countP_commaTokens
    (rest : List (CommaGap × DigestLiteral)) {token : Text} (nonempty : token ≠ []) :
    (commaTokens token rest).countP isQuoted =
      (if isQuoted token then 1 else 0) +
        rest.countP fun item => !item.1.right.isEmpty := by
  induction rest generalizing token with
  | nil => simp [commaTokens, List.countP_cons]
  | cons item rest inductionHypothesis =>
      obtain ⟨gap, digest⟩ := item
      have head (ending : Text) : isQuoted (token ++ ending) = isQuoted token := by
        cases token with
        | nil => exact absurd rfl nonempty
        | cons c rest => rfl
      have comma (ending : Text) : isQuoted (',' :: ending) = false := rfl
      have quote : isQuoted digest.term = true := rfl
      have term := inductionHypothesis digest.isToken_term.1
      have glued (text : Text) := inductionHypothesis (List.cons_ne_nil ',' text)
      have merged := inductionHypothesis
        (List.append_ne_nil_of_left_ne_nil nonempty (',' :: digest.term))
      rw [quote, if_pos rfl] at term
      rw [commaTokens, List.countP_cons]
      by_cases left : gap.left = []
      · by_cases right : gap.right = []
        · rw [if_pos left, if_pos right, merged, head, right]
          rfl
        · rw [if_pos left, if_neg right, List.countP_cons, head, term]
          simp [right]
          omega
      · by_cases right : gap.right = []
        · rw [if_neg left, if_pos right, List.countP_cons, glued, comma, right]
          simp
          omega
        · rw [if_neg left, if_neg right, List.countP_cons, List.countP_cons, comma,
            term]
          simp [right]
          omega

/-- A node with one list of digests, whatever whitespace stands around its
commas. -/
structure HashListing where
  before : Text
  gap : Text
  first : DigestLiteral
  rest : List (CommaGap × DigestLiteral)
  after : Text
  before_ends : before = [] ∨ ∃ start c, before = start ++ [c] ∧ isWhitespace c = true
  before_tokens : "aff4:hash".toList ∉ splitWhitespace before
  gap_ne_nil : gap ≠ []
  gap_spaces : ∀ c ∈ gap, isWhitespace c = true
  after_begins : EndsToken after
  after_tokens : "aff4:hash".toList ∉ splitWhitespace after
  /-- The list ends before `after`. -/
  after_first : ∀ token ∈ (splitWhitespace after).head?,
    token ≠ [','] ∧ isQuoted token = false

namespace HashListing

variable (listing : HashListing)

/-- The text of the node. -/
def block : Text :=
  listing.before ++ ("aff4:hash".toList ++ (listing.gap ++
    (listing.first.term ++ (commaRest listing.rest ++ listing.after))))

/-- The digests of the list. -/
def digests : List DigestLiteral := listing.first :: listing.rest.map (·.2)

theorem splitWhitespace_block :
    splitWhitespace listing.block =
      splitWhitespace listing.before ++ "aff4:hash".toList ::
        (commaTokens listing.first.term listing.rest ++
          splitWhitespace listing.after) :=
  splitWhitespace_listing listing.before_ends listing.gap_ne_nil listing.gap_spaces
    listing.first listing.rest listing.after_begins

/-- Behind the list nothing is read, whether the scanner takes it to go on or
not. -/
theorem scanImageHashes_after (inList : Bool) :
    scanImageHashes inList (splitWhitespace listing.after) = [] := by
  have tokens := listing.after_tokens
  have first := listing.after_first
  cases split : splitWhitespace listing.after with
  | nil => cases inList <;> rfl
  | cons token rest =>
      rw [split] at tokens first
      rw [List.mem_cons, not_or] at tokens
      obtain ⟨noComma, unquoted⟩ := first token rfl
      rw [scanImageHashes_cons noComma
        (parseHashTerm_of_isQuoted_eq_false unquoted),
        decide_eq_false (Ne.symm tokens.1)]
      exact scanImageHashes_of_not_mem tokens.2

/-- The digests of a list are read in order if and only if every comma is
followed by whitespace. -/
theorem parseImageHashes_block_iff :
    parseImageHashes listing.block = listing.digests.map DigestLiteral.hash ↔
      ∀ item ∈ listing.rest, item.1.right ≠ [] := by
  have read : parseImageHashes listing.block =
      scanImageHashes true (commaTokens listing.first.term listing.rest ++
        splitWhitespace listing.after) := by
    rw [parseImageHashes, listing.splitWhitespace_block,
      scanImageHashes_append_of_not_mem listing.before_tokens, scanImageHashes]
    rfl
  rw [read]
  constructor
  · intro equal
    have most := length_scanImageHashes_le listing.scanImageHashes_after
      (commaTokens listing.first.term listing.rest) true
    rw [equal, countP_commaTokens listing.rest listing.first.isToken_term.1,
      digests, List.length_map, List.length_cons, List.length_map] at most
    have all : listing.rest.countP (fun item => !item.1.right.isEmpty) =
        listing.rest.length := by
      have upTo := List.countP_le_length
        (p := fun item : CommaGap × DigestLiteral => !item.1.right.isEmpty)
        (l := listing.rest)
      have quoted : isQuoted listing.first.term = true := rfl
      rw [quoted, if_pos rfl] at most
      omega
    intro item member empty
    have apart := List.countP_eq_length.mp all item member
    rw [empty] at apart
    cases apart
  · intro apart
    rw [scanImageHashes_commaTokens apart, listing.scanImageHashes_after,
      List.append_nil, digests, List.map_cons, List.map_map]
    rfl

end HashListing

/-- A list of digests somewhere in a node, with whitespace behind each comma.  The
node may hold other lists. -/
structure DigestList where
  before : Text
  gap : Text
  first : DigestLiteral
  rest : List (CommaGap × DigestLiteral)
  after : Text
  before_ends : before = [] ∨ ∃ start c, before = start ++ [c] ∧ isWhitespace c = true
  gap_ne_nil : gap ≠ []
  gap_spaces : ∀ c ∈ gap, isWhitespace c = true
  after_begins : EndsToken after
  apart : ∀ item ∈ rest, item.1.right ≠ []

/-- A node declares a digest in one of its lists. -/
def DeclaresDigest (node : Text) (digest : DigestLiteral) : Prop :=
  ∃ list : DigestList,
    node = list.before ++ ("aff4:hash".toList ++ (list.gap ++
      (list.first.term ++ (commaRest list.rest ++ list.after)))) ∧
    digest ∈ list.first :: list.rest.map (·.2)

/-- Every declared digest is parsed. -/
theorem mem_parseImageHashes {node : Text} {digest : DigestLiteral}
    (declared : DeclaresDigest node digest) : digest.hash ∈ parseImageHashes node := by
  obtain ⟨list, rfl, member⟩ := declared
  rw [parseImageHashes, splitWhitespace_listing list.before_ends list.gap_ne_nil
    list.gap_spaces list.first list.rest list.after_begins]
  apply mem_scanImageHashes_of_list
  rw [scanImageHashes_commaTokens list.apart]
  apply List.mem_append_left
  rcases List.mem_cons.mp member with rfl | later
  · exact List.mem_cons_self ..
  · obtain ⟨item, inRest, rfl⟩ := List.mem_map.mp later
    exact List.mem_cons_of_mem _ (List.mem_map.mpr ⟨item, inRest, rfl⟩)

/-! Two digests with whitespace before the comma and none behind it: the second
one is dropped. -/

namespace CommaSample

def md5 : DigestLiteral where
  hex := "aa".toList
  algorithm := "MD5".toList
  hex_ne_nil := List.cons_ne_nil _ _
  hexdigits := forall_mem_of_all rfl
  algorithm_ne_nil := List.cons_ne_nil _ _
  alphanumeric := forall_mem_of_all rfl

def sha1 : DigestLiteral where
  hex := "BB".toList
  algorithm := "SHA1".toList
  hex_ne_nil := List.cons_ne_nil _ _
  hexdigits := forall_mem_of_all rfl
  algorithm_ne_nil := List.cons_ne_nil _ _
  alphanumeric := forall_mem_of_all rfl

def listing : HashListing where
  before := "<i> a aff4:ImageStream ".toList
  gap := [' ']
  first := md5
  rest :=
    [({ left := [' ']
        right := []
        left_spaces := forall_mem_of_all rfl
        right_spaces := forall_mem_of_all rfl }, sha1)]
  after := []
  before_ends := .inr ⟨"<i> a aff4:ImageStream".toList, ' ', rfl, rfl⟩
  before_tokens := by decide +kernel
  gap_ne_nil := List.cons_ne_nil _ _
  gap_spaces := forall_mem_of_all rfl
  after_begins := .inl rfl
  after_tokens := List.not_mem_nil
  after_first := fun _ impossible => by cases impossible

theorem parseImageHashes_listing_ne :
    parseImageHashes listing.block ≠ listing.digests.map DigestLiteral.hash := by
  decide +kernel

/-- The list with a comma that is attached to the first term. -/
def attached : HashListing :=
  { listing with
    rest :=
      [({ left := []
          right := [' ']
          left_spaces := List.forall_mem_nil _
          right_spaces := forall_mem_of_all rfl }, sha1)] }

theorem parseImageHashes_attached :
    parseImageHashes attached.block = [md5.hash, sha1.hash] :=
  attached.parseImageHashes_block_iff.mpr
    (List.forall_mem_singleton.mpr (List.cons_ne_nil _ _))

end CommaSample

/-! ## Predicates of a node -/

/-- A token of a list of objects: a comma on its own, or an object, which may have
a comma attached to its end. -/
inductive ListToken (α : Type)
  | comma
  | object (value : α) (attached : Bool)

namespace ListToken

/-- The text of a token, given the texts of objects. -/
def text (write : α → Text) : ListToken α → Text
  | .comma => [',']
  | .object value attached => write value ++ if attached then [','] else []

/-- The object in a token. -/
def value? : ListToken α → Option α
  | .comma => none
  | .object value _ => some value

end ListToken

/-- A predicate other than `aff4:hash` with its objects. -/
structure OtherPredicate where
  name : Text
  objects : List (ListToken Text)
  name_ne_hash : name ≠ "aff4:hash".toList
  name_ne_comma : name ≠ [',']
  name_unquoted : isQuoted name = false
  objects_ne_hash : ∀ token ∈ objects, token.value? ≠ some "aff4:hash".toList

/-- A predicate of a node with its objects. -/
inductive Predicate
  | hash (objects : List (ListToken DigestLiteral))
  | other (predicate : OtherPredicate)

namespace Predicate

def isHash : Predicate → Bool
  | .hash _ => true
  | .other _ => false

/-- The tokens of a predicate: its name and its objects. -/
def tokens : Predicate → List Text
  | .hash objects => "aff4:hash".toList :: objects.map (·.text DigestLiteral.term)
  | .other predicate => predicate.name :: predicate.objects.map (·.text id)

/-- The digests that are listed under an `aff4:hash`. -/
def digests : Predicate → List DigestLiteral
  | .hash objects => objects.filterMap ListToken.value?
  | .other _ => []

end Predicate

/-- A node is written as a subject and predicates, with any whitespace between its
tokens. -/
structure WrittenAs (block subject : Text) (predicates : List Predicate) : Prop where
  tokens : splitWhitespace block = subject :: predicates.flatMap Predicate.tokens
  isIri : subject.head? = some '<' ∧ subject.getLast? = some '>'

/-- The terms of a list are collected in order, however their commas stand. -/
theorem scanImageHashes_objects
    (objects : List (ListToken DigestLiteral)) (rest : List Text) :
    scanImageHashes true (objects.map (·.text DigestLiteral.term) ++ rest) =
      (objects.filterMap ListToken.value?).map DigestLiteral.hash ++
        scanImageHashes true rest := by
  induction objects with
  | nil => rfl
  | cons token objects inductionHypothesis =>
      rw [List.map_cons, List.cons_append, scanImageHashes]
      cases token with
      | comma => exact inductionHypothesis
      | object digest attached =>
          have parsed : parseHashTerm
              (digest.term ++ if attached then [','] else []) =
                some digest.hash := by
            apply digest.parseHashTerm_append
            cases attached <;> exact forall_mem_of_all rfl
          rw [ListToken.text, if_neg (digest.term_ne_comma _), parsed]
          exact congrArg (digest.hash :: ·) inductionHypothesis

/-- An object with a comma attached to it is no `aff4:hash`. -/
theorem OtherPredicate.hash_not_mem (predicate : OtherPredicate) :
    "aff4:hash".toList ∉ predicate.objects.map (·.text id) := by
  intro member
  obtain ⟨token, inside, equal⟩ := List.mem_map.mp member
  cases token with
  | comma => cases equal
  | object value attached =>
      cases attached with
      | false =>
          refine predicate.objects_ne_hash _ inside ?_
          rw [← equal]
          exact congrArg some (List.append_nil value).symm
      | true =>
          have last := congrArg List.getLast? equal
          have comma : (ListToken.text id (.object value true)).getLast? = some ',' :=
            List.getLast?_concat
          rw [comma] at last
          exact absurd last (by decide)

/-- Whether a list is being read or not, exactly the terms listed under the
`aff4:hash` predicates that follow are collected. -/
theorem scanImageHashes_predicates (predicates : List Predicate) (inList : Bool) :
    scanImageHashes inList (predicates.flatMap Predicate.tokens) =
      (predicates.flatMap Predicate.digests).map DigestLiteral.hash := by
  induction predicates generalizing inList with
  | nil => cases inList <;> rfl
  | cons predicate predicates inductionHypothesis =>
      rw [List.flatMap_cons, List.flatMap_cons, List.map_append]
      cases predicate with
      | hash objects =>
          have noTerm : parseHashTerm "aff4:hash".toList = none :=
            parseHashTerm_of_isQuoted_eq_false rfl
          rw [Predicate.tokens, List.cons_append,
            scanImageHashes_cons (by decide) noTerm, decide_eq_true rfl,
            scanImageHashes_objects, inductionHypothesis]
          rfl
      | other predicate =>
          have noTerm := parseHashTerm_of_isQuoted_eq_false predicate.name_unquoted
          rw [Predicate.tokens, List.cons_append,
            scanImageHashes_cons predicate.name_ne_comma noTerm,
            decide_eq_false predicate.name_ne_hash,
            scanImageHashes_append_of_not_mem predicate.hash_not_mem,
            inductionHypothesis]
          rfl

/-- Predicates other than `aff4:hash` do not matter for the digests. -/
theorem flatMap_digests_filter (predicates : List Predicate) :
    (predicates.filter Predicate.isHash).flatMap Predicate.digests =
      predicates.flatMap Predicate.digests := by
  induction predicates with
  | nil => rfl
  | cons predicate predicates inductionHypothesis =>
      cases predicate with
      | hash objects =>
          rw [List.filter_cons_of_pos rfl, List.flatMap_cons, List.flatMap_cons,
            inductionHypothesis]
      | other predicate =>
          rw [List.filter_cons_of_neg Bool.false_ne_true, List.flatMap_cons,
            inductionHypothesis]
          rfl

/-- The digests of a node are the terms listed under its `aff4:hash` predicates, in
order, and no other predicates change them. -/
theorem parseImageHashes_of_writtenAs
    {block subject : Text} {predicates : List Predicate}
    (written : WrittenAs block subject predicates) :
    parseImageHashes block =
        (predicates.flatMap Predicate.digests).map DigestLiteral.hash ∧
      ∀ otherBlock otherSubject others,
        WrittenAs otherBlock otherSubject others →
        others.filter Predicate.isHash = predicates.filter Predicate.isHash →
        parseImageHashes otherBlock = parseImageHashes block := by
  have read {block subject : Text} {predicates : List Predicate}
      (written : WrittenAs block subject predicates) :
      parseImageHashes block =
        (predicates.flatMap Predicate.digests).map DigestLiteral.hash := by
    have noHash : subject ≠ "aff4:hash".toList := by
      rintro rfl
      exact absurd written.isIri.1 (by decide)
    rw [parseImageHashes, written.tokens, scanImageHashes, decide_eq_false noHash]
    exact scanImageHashes_predicates predicates false
  refine ⟨read written, fun otherBlock otherSubject others otherWritten same => ?_⟩
  rw [read written, read otherWritten, ← flatMap_digests_filter others, same,
    flatMap_digests_filter]

/-! A node with a digest of its content and two of what is stored. -/

namespace CommaSample

def stored : OtherPredicate where
  name := "aff4:imageStreamHash".toList
  objects :=
    [.object "\"cc\"^^aff4:SHA1".toList true, .object "\"dd\"^^aff4:MD5".toList false]
  name_ne_hash := by decide +kernel
  name_ne_comma := by decide
  name_unquoted := rfl
  objects_ne_hash := by decide +kernel

def block : Text :=
  ("<i> aff4:imageStreamHash \"cc\"^^aff4:SHA1, \"dd\"^^aff4:MD5 " ++
    "aff4:hash \"BB\"^^aff4:SHA1").toList

theorem writtenAs_block :
    WrittenAs block "<i>".toList [.other stored, .hash [.object sha1 false]] where
  tokens := by decide +kernel
  isIri := by decide

theorem parseImageHashes_block :
    parseImageHashes block = [sha1.hash] ∧
      ∀ otherBlock otherSubject others,
        WrittenAs otherBlock otherSubject others →
        others.filter Predicate.isHash = [.hash [.object sha1 false]] →
        parseImageHashes otherBlock = parseImageHashes block :=
  parseImageHashes_of_writtenAs writtenAs_block

end CommaSample

end Aff4
