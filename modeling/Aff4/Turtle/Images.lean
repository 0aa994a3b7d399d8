import Aff4.Logical.Document
import Aff4.Turtle.Codec
import Aff4.Turtle.Digests
import Aff4.Turtle.Independence

/-!
# Documents of disk images

A disk image is described by one `aff4:ImageStream` node, and by one `aff4:Map`
node if it is backed by a map.  However such a document is laid out, in whatever
order and between whatever other nodes, it is read back.
-/

namespace Aff4

open Rust Rust.Str

/-! ## Texts that say nothing -/

/-- The texts that nodes and gap defaults are told by. -/
def nodeKeywords : List Text :=
  ["aff4:EncryptedStream".toList, "aff4:Map".toList, "ImageStream".toList,
    "SymbolicStreamFF".toList]

/-- No node is told by this text. -/
def Foreign (text : Text) : Prop :=
  ∀ keyword ∈ nodeKeywords, ¬keyword <:+: text

/-- Nor is a codec. -/
structure Plain (text : Text) : Prop where
  foreign : Foreign text
  names : ∀ codec, ¬Names text codec

theorem isKeyword_of_mem_nodeKeywords {keyword : Text}
    (member : keyword ∈ nodeKeywords) : IsKeyword keyword := by
  simp only [nodeKeywords, List.mem_cons, List.not_mem_nil, or_false] at member
  rcases member with rfl | rfl | rfl | rfl
  · exact isKeyword_encryptedStream
  · exact isKeyword_map
  · exact isKeyword_imageStream
  · exact isKeyword_of_all rfl

/-- The texts that the parser looks for anywhere in a node. -/
def allKeywords : List Text :=
  nodeKeywords ++ Compression.snappy.keywords ++ Compression.deflate.keywords ++
    Compression.lz4.keywords

theorem plain_iff {text : Text} :
    Plain text ↔ ∀ keyword ∈ allKeywords, ¬keyword <:+: text := by
  constructor
  · intro plain keyword member
    simp only [allKeywords, List.mem_append] at member
    intro inside
    have found := contains_iff.mpr inside
    rcases member with ((node | snappy) | deflate) | lz4
    · exact plain.foreign keyword node inside
    · exact plain.names .snappy ⟨keyword, snappy, found⟩
    · exact plain.names .deflate ⟨keyword, deflate, found⟩
    · exact plain.names .lz4 ⟨keyword, lz4, found⟩
  · intro absent
    constructor
    · intro keyword member
      apply absent
      simp only [allKeywords, List.mem_append]
      exact .inl (.inl (.inl member))
    · rintro codec ⟨keyword, member, found⟩
      refine absent keyword ?_ (contains_iff.mp found)
      simp only [allKeywords, List.mem_append]
      cases codec with
      | null => cases member
      | snappy => exact .inl (.inl (.inr member))
      | deflate => exact .inl (.inr member)
      | lz4 => exact .inr member

instance (text : Text) : Decidable (Foreign text) :=
  decidable_of_iff (∀ keyword ∈ nodeKeywords, ¬contains text keyword = true)
    (forall₂_congr fun _ _ => contains_iff.not)

instance (text : Text) : Decidable (Plain text) :=
  decidable_of_iff (∀ keyword ∈ allKeywords, ¬contains text keyword = true)
    ((forall₂_congr fun _ _ => contains_iff.not).trans plain_iff.symm)

/-- Numbers are plain: every keyword has a letter. -/
theorem plain_showNat (n : Nat) : Plain (showNat n) := by
  have letters : ∀ keyword ∈ allKeywords, ∃ c ∈ keyword, isAsciiDigit c = false := by
    decide
  rw [plain_iff]
  intro keyword member inside
  obtain ⟨c, inKeyword, noDigit⟩ := letters keyword member
  rw [isAsciiDigit_of_mem_showNat (inside.subset inKeyword)] at noDigit
  cases noDigit

/-- Brackets around a text add no keyword. -/
theorem infix_brackets {keyword : Text} (member : keyword ∈ allKeywords) (text : Text) :
    keyword <:+: '<' :: (text ++ ['>']) ↔ keyword <:+: text := by
  have noBrackets : ∀ keyword ∈ allKeywords,
      keyword ≠ [] ∧ '<' ∉ keyword ∧ '>' ∉ keyword := by
    decide
  obtain ⟨nonempty, noOpening, noClosing⟩ := noBrackets keyword member
  have opening := infix_append_cons_iff nonempty noOpening [] (text ++ ['>'])
  rw [List.nil_append, List.infix_nil, or_iff_right nonempty] at opening
  rw [opening, infix_append_cons_iff nonempty noClosing, List.infix_nil,
    or_iff_left nonempty]

theorem plain_brackets {text : Text} (plain : Plain text) :
    Plain ('<' :: (text ++ ['>'])) := by
  rw [plain_iff] at plain ⊢
  exact fun keyword member => (infix_brackets member text).not.mpr
    (plain keyword member)

/-! ## Tokens -/

/-- An ARN: a word without brackets. -/
def IsArn (arn : Text) : Prop := ∀ c ∈ arn, IsWordChar c ∧ c ≠ '<' ∧ c ≠ '>'

instance (arn : Text) : Decidable (IsArn arn) :=
  inferInstanceAs (Decidable (∀ c ∈ arn, _))

theorem isClosed_of_not_mem {text : Text} (absent : '<' ∉ text) : IsClosed text := by
  rintro before after rfl
  exact absurd (List.mem_append_right _ (List.mem_cons_self ..)) absent

/-- An ARN between brackets. -/
def arnToken (arn : Text) (isArn : IsArn arn) : DocumentToken where
  text := '<' :: (arn ++ ['>'])
  isWord := by
    refine ⟨List.cons_ne_nil _ _, ?_⟩
    rw [List.forall_mem_cons, List.forall_mem_append, List.forall_mem_singleton]
    exact ⟨by decide, fun c member => (isArn c member).1, by decide⟩
  ne_stop := by simp
  isClosed := by
    rw [isClosed_cons_iff]
    refine ⟨fun _ => List.mem_append_right _ (List.mem_singleton.mpr rfl),
      isClosed_of_not_mem fun opening => ?_⟩
    rw [List.mem_append, List.mem_singleton] at opening
    rcases opening with inside | closing
    · exact (isArn _ inside).2.1 rfl
    · cases closing

theorem isWordChar_of_isAsciiDigit {c : Char} (digit : isAsciiDigit c = true) :
    IsWordChar c :=
  isWordChar_of_isAsciiHexdigit (by rw [isAsciiHexdigit, digit]; rfl)

/-- A number in decimal. -/
def numberToken (n : UInt64) : DocumentToken where
  text := showNat n.toNat
  isWord := ⟨showNat_ne_nil _, fun c member =>
    isWordChar_of_isAsciiDigit (isAsciiDigit_of_mem_showNat member)⟩
  ne_stop := by
    intro stop
    have digit : isAsciiDigit '.' = true :=
      isAsciiDigit_of_mem_showNat (by rw [stop]; exact List.mem_singleton.mpr rfl)
    cases digit
  isClosed := by
    apply isClosed_of_not_mem
    intro opening
    cases isAsciiDigit_of_mem_showNat opening

/-- A declared digest. -/
def hashToken (hash : StoredHash) (declarable : hash.Declarable)
    (isClosed : IsClosed (hashTerm hash)) : DocumentToken where
  text := hashTerm hash
  isWord := isWord_hashTerm declarable
  ne_stop := by
    intro stop
    cases stop
  isClosed := isClosed

/-! ## Descriptions -/

/-- A digest that can be declared on a node without telling anything else. -/
structure DeclaredHash where
  hash : StoredHash
  declarable : hash.Declarable
  isClosed : IsClosed (hashTerm hash)
  plain : Plain (hashTerm hash)

def DeclaredHash.token (declared : DeclaredHash) : DocumentToken :=
  hashToken declared.hash declared.declarable declared.isClosed

/-- What the ImageStream node of an image says. -/
structure StreamDescription where
  arn : Text
  size : UInt64
  chunkSize : UInt64
  chunksPerSegment : UInt64
  /-- The object of `aff4:compressionMethod`. -/
  method : DocumentToken
  hashes : List DeclaredHash
  isArn : IsArn arn
  plain : Plain arn
  foreign : Foreign method.text
  method_ne_hash : method.text ≠ "aff4:hash".toList

/-- What the Map node of an image says. -/
structure MapDescription where
  arn : Text
  size : UInt64
  gapIsSymbolicFf : Bool
  isArn : IsArn arn
  plain : Plain arn

/-- A disk image: a stream, and a map over it if there is one. -/
structure ImageDescription where
  stream : StreamDescription
  map : Option MapDescription

namespace StreamDescription

variable (stream : StreamDescription)

/-- The `aff4:hash` predicate with its objects, if there are any. -/
def hashTokens : List DocumentToken :=
  if stream.hashes = [] then []
  else
    .ofText "aff4:hash".toList (.refl true) ::
      (stream.hashes.map DeclaredHash.token).intersperse (.ofText [','] (.refl true))

/-- The tokens in front of the digests. -/
def describingTokens : List DocumentToken :=
  [arnToken stream.arn stream.isArn, .ofText "rdf:type".toList (.refl true),
    .ofText "aff4:ImageStream".toList (.refl true), .ofText "aff4:size".toList (.refl true),
    numberToken stream.size, .ofText "aff4:chunkSize".toList (.refl true),
    numberToken stream.chunkSize, .ofText "aff4:chunksInSegment".toList (.refl true),
    numberToken stream.chunksPerSegment,
    .ofText "aff4:compressionMethod".toList (.refl true), stream.method]

/-- The `aff4:ImageStream` node. -/
def node : DocumentNode where
  tokens := stream.describingTokens ++ stream.hashTokens
  ne_nil := List.cons_ne_nil _ _

/-- There are chunks, and segments of them. -/
def Nondegenerate : Prop := stream.chunkSize ≠ 0 ∧ stream.chunksPerSegment ≠ 0

instance : Decidable stream.Nondegenerate :=
  inferInstanceAs (Decidable (_ ∧ _))

/-- The metadata of the stream, or of a map over it. -/
def metadata (mapOverride : Option (MapMeta × UInt64)) : StreamMeta where
  streamArn := stream.arn
  virtualSize := (mapOverride.map Prod.snd).getD stream.size
  imageStreamSize := stream.size
  chunkSize := stream.chunkSize
  chunksPerSegment := stream.chunksPerSegment
  compression := .named stream.method.text
  imageHashes := stream.hashes.map DeclaredHash.hash
  mapMeta := mapOverride.map Prod.fst

end StreamDescription

namespace MapDescription

variable (map : MapDescription)

/-- The object of `aff4:mapGapDefaultStream`. -/
def gapToken : DocumentToken :=
  if map.gapIsSymbolicFf then .ofText "aff4:SymbolicStreamFF".toList (.refl true)
  else .ofText "aff4:Zero".toList (.refl true)

/-- The `aff4:Map` node of a map over a stream. -/
def node (stream : StreamDescription) : DocumentNode where
  tokens :=
    [arnToken map.arn map.isArn, .ofText "rdf:type".toList (.refl true),
      .ofText "aff4:Map".toList (.refl true), .ofText "aff4:size".toList (.refl true),
      numberToken map.size, .ofText "aff4:dependentStream".toList (.refl true),
      arnToken stream.arn stream.isArn,
      .ofText "aff4:mapGapDefaultStream".toList (.refl true), map.gapToken]
  ne_nil := List.cons_ne_nil _ _

/-- What replaces the size of the stream. -/
def override (stream : StreamDescription) : MapMeta × UInt64 :=
  ({ mapArn := map.arn
     imageStreamArn := stream.arn
     gapIsSymbolicFf := map.gapIsSymbolicFf }, map.size)

end MapDescription

namespace ImageDescription

variable (image : ImageDescription)

/-- The nodes of an image. -/
def nodes : List DocumentNode :=
  image.stream.node :: (image.map.map fun map => map.node image.stream).toList

/-- The metadata of an image. -/
def metadata : StreamMeta :=
  image.stream.metadata (image.map.map fun map => map.override image.stream)

/-- A document describes an image: it has the nodes of the image, and its other
nodes are told to be neither streams nor maps. -/
structure DescribedBy (document : List DocumentNode) : Prop where
  nodes : ∀ node ∈ image.nodes, node ∈ document
  others : ∀ node ∈ document, node ∈ image.nodes ∨
    ∀ text ∈ node.texts, Foreign text

end ImageDescription

/-! ## One stream -/

theorem map_intersperse (change : α → β) (separator : α) (values : List α) :
    (values.intersperse separator).map change =
      (values.map change).intersperse (change separator) := by
  induction values with
  | nil => rfl
  | cons value values inductionHypothesis =>
      cases values with
      | nil => rfl
      | cons next values =>
          rw [List.map_cons] at inductionHypothesis
          rw [List.intersperse_cons_cons, List.map_cons, List.map_cons,
            inductionHypothesis, List.map_cons, List.map_cons,
            List.intersperse_cons_cons]

theorem mem_of_mem_intersperse {separator value : α} {values : List α}
    (member : value ∈ values.intersperse separator) :
    value = separator ∨ value ∈ values := by
  induction values with
  | nil => cases member
  | cons first values inductionHypothesis =>
      cases values with
      | nil => exact .inr member
      | cons next values =>
          rw [List.intersperse_cons_cons, List.mem_cons, List.mem_cons] at member
          rcases member with rfl | rfl | later
          · exact .inr (List.mem_cons_self ..)
          · exact .inl rfl
          · exact (inductionHypothesis later).imp_right (List.mem_cons_of_mem _)

/-- A text that is no number differs from all of them. -/
theorem ne_showNat (text : Text) (letter : ∃ c ∈ text, isAsciiDigit c = false)
    (n : Nat) : text ≠ showNat n := by
  rintro rfl
  obtain ⟨c, member, noDigit⟩ := letter
  rw [isAsciiDigit_of_mem_showNat member] at noDigit
  cases noDigit

/-- A number that a node gives behind a predicate is read. -/
theorem extractPredU64_line
    {node : DocumentNode} {predicate : Text} (before : List Text)
    {after : List Text} {n : UInt64}
    (texts : node.texts = before ++ predicate :: showNat n.toNat :: after)
    (absent : predicate ∉ before) :
    extractPredU64 node.line predicate = .ok n := by
  rw [extractPredU64_of_splitWhitespace ((splitWhitespace_line node).trans texts)
    absent, parsePredU64_showNat]

/-- The subject of a node is its first IRI. -/
theorem extractIri_line
    {node : DocumentNode} {arn : Text} {rest : List Text} (isArn : IsArn arn)
    (texts : node.texts = ('<' :: (arn ++ ['>'])) :: rest) :
    extractIri node.line = some arn := by
  have subject : extractIri ('<' :: (arn ++ ['>'])) = some arn :=
    extractIri_append List.not_mem_nil
      (fun closing => (isArn _ closing).2.2 rfl) []
  rw [extractIri_of_layout (isLayoutOf_line node), texts, List.findSome?_cons, subject]

namespace StreamDescription

variable (stream : StreamDescription)

theorem texts_hashTokens :
    stream.hashTokens.map DocumentToken.text =
      hashWords (stream.hashes.map DeclaredHash.hash) := by
  unfold hashTokens hashWords
  by_cases none : stream.hashes = []
  · rw [none]
    rfl
  · have some : stream.hashes.map DeclaredHash.hash ≠ [] := by
      rwa [Ne, List.map_eq_nil_iff]
    rw [if_neg none, if_neg some, List.map_cons, map_intersperse, List.map_map,
      List.map_map]
    rfl

theorem texts_node :
    stream.node.texts =
      ['<' :: (stream.arn ++ ['>']), "rdf:type".toList, "aff4:ImageStream".toList,
        "aff4:size".toList, showNat stream.size.toNat, "aff4:chunkSize".toList,
        showNat stream.chunkSize.toNat, "aff4:chunksInSegment".toList,
        showNat stream.chunksPerSegment.toNat, "aff4:compressionMethod".toList,
        stream.method.text] ++ hashWords (stream.hashes.map DeclaredHash.hash) := by
  rw [← texts_hashTokens]
  exact List.map_append

/-- Every text of the node but the type and the method is plain. -/
theorem plain_of_mem_texts {text : Text} (member : text ∈ stream.node.texts) :
    text = "aff4:ImageStream".toList ∨ text = stream.method.text ∨ Plain text := by
  rw [texts_node, List.mem_append] at member
  rcases member with member | member
  · simp only [List.mem_cons, List.not_mem_nil, or_false] at member
    rcases member with rfl | rfl | rfl | rfl | rfl | rfl | rfl | rfl | rfl | rfl | rfl
    · exact .inr (.inr (plain_brackets stream.plain))
    · exact .inr (.inr (by decide))
    · exact .inl rfl
    · exact .inr (.inr (by decide))
    · exact .inr (.inr (plain_showNat _))
    · exact .inr (.inr (by decide))
    · exact .inr (.inr (plain_showNat _))
    · exact .inr (.inr (by decide))
    · exact .inr (.inr (plain_showNat _))
    · exact .inr (.inr (by decide))
    · exact .inr (.inl rfl)
  · right; right
    unfold hashWords at member
    split at member
    · cases member
    · rw [List.mem_cons] at member
      rcases member with rfl | member
      · decide
      · rcases mem_of_mem_intersperse member with rfl | term
        · decide
        · obtain ⟨hash, declared, rfl⟩ := List.mem_map.mp term
          obtain ⟨source, -, rfl⟩ := List.mem_map.mp declared
          exact source.plain

/-- The codec of the node is that of its method. -/
theorem detectCompression_line :
    detectCompression stream.node.line = .named stream.method.text := by
  have same (codec : Compression) :
      Names stream.node.line codec ↔ Names stream.method.text codec := by
    constructor
    · rintro ⟨keyword, member, found⟩
      obtain ⟨text, inNode, inside⟩ := (contains_of_layout
        (isLayoutOf_line stream.node) (Compression.isKeyword member)).mp found
      have named : Names text codec := ⟨keyword, member, contains_iff.mpr inside⟩
      rcases stream.plain_of_mem_texts inNode with rfl | rfl | plain
      · have none : ∀ codec, ¬Names "aff4:ImageStream".toList codec := by
          intro codec
          cases codec <;> decide
        exact absurd named (none codec)
      · exact named
      · exact absurd named (plain.names codec)
    · rintro ⟨keyword, member, found⟩
      refine ⟨keyword, member, (contains_of_layout (isLayoutOf_line stream.node)
        (Compression.isKeyword member)).mpr ⟨_, ?_, contains_iff.mp found⟩⟩
      rw [texts_node]
      simp
  rw [detectCompression_eq, Compression.named, Compression.named]
  simp only [same]

theorem imageHashes_line :
    parseImageHashes stream.node.line = stream.hashes.map DeclaredHash.hash := by
  rw [parseImageHashes_of_layout (isLayoutOf_line stream.node), texts_node,
    scanImageHashes_append_of_not_mem]
  · unfold hashWords
    split
    next none =>
      rw [none]
      rfl
    · have collected := @scanImageHashes_hashTerms
        (stream.hashes.map DeclaredHash.hash) (by
          intro hash member
          obtain ⟨source, -, rfl⟩ := List.mem_map.mp member
          exact source.declarable) []
      rwa [List.append_nil, scanImageHashes, List.append_nil] at collected
  · have number := ne_showNat "aff4:hash".toList (by decide)
    have differ := stream.method_ne_hash
    simp only [List.mem_cons, List.not_mem_nil, or_false, not_or]
    exact ⟨by simp, by decide, by decide, by decide, number _, by decide, number _,
      by decide, number _, by decide, differ.symm⟩

/-- The node of a stream is read as the stream, if there are chunks and segments of
them. -/
theorem parseImageStreamBlock_line (mapOverride : Option (MapMeta × UInt64)) :
    outcome (parseImageStreamBlock stream.node.line mapOverride) =
      if stream.Nondegenerate then .ok (stream.metadata mapOverride)
      else .error .badFormat := by
  have texts := stream.texts_node
  have iri := extractIri_line stream.isArn texts
  have size : extractPredU64 stream.node.line "aff4:size".toList = .ok stream.size :=
    extractPredU64_line ['<' :: (stream.arn ++ ['>']), "rdf:type".toList,
      "aff4:ImageStream".toList] texts (by simp)
  have chunkSize : extractPredU64 stream.node.line "aff4:chunkSize".toList =
      .ok stream.chunkSize := by
    have number := ne_showNat "aff4:chunkSize".toList (by decide)
    apply extractPredU64_line ['<' :: (stream.arn ++ ['>']), "rdf:type".toList,
      "aff4:ImageStream".toList, "aff4:size".toList, showNat stream.size.toNat] texts
    simp only [List.mem_cons, List.not_mem_nil, or_false, not_or]
    exact ⟨by simp, by decide, by decide, by decide, number _⟩
  have chunksPerSegment : extractPredU64 stream.node.line
      "aff4:chunksInSegment".toList = .ok stream.chunksPerSegment := by
    have number := ne_showNat "aff4:chunksInSegment".toList (by decide)
    apply extractPredU64_line ['<' :: (stream.arn ++ ['>']), "rdf:type".toList,
      "aff4:ImageStream".toList, "aff4:size".toList, showNat stream.size.toNat,
      "aff4:chunkSize".toList, showNat stream.chunkSize.toNat] texts
    simp only [List.mem_cons, List.not_mem_nil, or_false, not_or]
    exact ⟨by simp, by decide, by decide, by decide, number _, by decide, number _⟩
  simp only [parseImageStreamBlock, iri, chunkSize, chunksPerSegment, size,
    stream.detectCompression_line, stream.imageHashes_line, bind, Except.bind, pure,
    Except.pure]
  by_cases noChunks : stream.chunkSize = 0
  · rw [if_pos noChunks, if_neg (show ¬stream.Nondegenerate from
      fun nondegenerate => nondegenerate.1 noChunks)]
    rfl
  · rw [if_neg noChunks]
    by_cases noSegments : stream.chunksPerSegment = 0
    · rw [if_pos noSegments, if_neg (show ¬stream.Nondegenerate from
        fun nondegenerate => nondegenerate.2 noSegments)]
      rfl
    · rw [if_neg noSegments, if_pos (show stream.Nondegenerate from
        ⟨noChunks, noSegments⟩)]
      cases mapOverride <;> rfl

/-- The node has no keyword but that of its type. -/
theorem eq_of_contains_node {keyword : Text} (member : keyword ∈ nodeKeywords)
    (found : contains stream.node.line keyword = true) :
    keyword = "ImageStream".toList := by
  obtain ⟨text, inNode, inside⟩ := (contains_of_layout (isLayoutOf_line _)
    (isKeyword_of_mem_nodeKeywords member)).mp found
  rcases stream.plain_of_mem_texts inNode with rfl | rfl | plain
  · have type : ∀ keyword ∈ nodeKeywords,
        contains "aff4:ImageStream".toList keyword = true →
          keyword = "ImageStream".toList := by
      decide
    exact type keyword member (contains_iff.mpr inside)
  · exact absurd inside (stream.foreign keyword member)
  · exact absurd inside (plain.foreign keyword member)

theorem contains_imageStream :
    contains stream.node.line "ImageStream".toList = true := by
  rw [contains_of_layout (isLayoutOf_line _) isKeyword_imageStream]
  refine ⟨"aff4:ImageStream".toList, ?_, ⟨"aff4:".toList, [], rfl⟩⟩
  rw [texts_node]
  simp

theorem contains_arn : contains stream.node.line stream.arn = true := by
  have subject : '<' :: (stream.arn ++ ['>']) ∈ splitWhitespace stream.node.line := by
    rw [splitWhitespace_line, texts_node]
    simp
  rw [contains_iff]
  exact List.IsInfix.trans ⟨['<'], ['>'], rfl⟩ (infix_of_mem_splitWhitespace subject)

end StreamDescription

/-! ## One map -/

namespace MapDescription

variable (map : MapDescription) (stream : StreamDescription)

theorem texts_node :
    (map.node stream).texts =
      ['<' :: (map.arn ++ ['>']), "rdf:type".toList, "aff4:Map".toList,
        "aff4:size".toList, showNat map.size.toNat, "aff4:dependentStream".toList,
        '<' :: (stream.arn ++ ['>']), "aff4:mapGapDefaultStream".toList,
        map.gapToken.text] := rfl

/-- Every text of the node but the type and the gap default is plain. -/
theorem plain_of_mem_texts {text : Text} (member : text ∈ (map.node stream).texts) :
    text = "aff4:Map".toList ∨ text = map.gapToken.text ∨ Plain text := by
  rw [texts_node] at member
  simp only [List.mem_cons, List.not_mem_nil, or_false] at member
  rcases member with rfl | rfl | rfl | rfl | rfl | rfl | rfl | rfl | rfl
  · exact .inr (.inr (plain_brackets map.plain))
  · exact .inr (.inr (by decide))
  · exact .inl rfl
  · exact .inr (.inr (by decide))
  · exact .inr (.inr (plain_showNat _))
  · exact .inr (.inr (by decide))
  · exact .inr (.inr (plain_brackets stream.plain))
  · exact .inr (.inr (by decide))
  · exact .inr (.inl rfl)

theorem extractIri_node : extractIri (map.node stream).line = some map.arn :=
  extractIri_line map.isArn (map.texts_node stream)

theorem size_node :
    extractPredU64 (map.node stream).line "aff4:size".toList = .ok map.size :=
  extractPredU64_line ['<' :: (map.arn ++ ['>']), "rdf:type".toList,
    "aff4:Map".toList] (map.texts_node stream) (by simp)

/-- The gap default of the node is its own. -/
theorem contains_symbolicStreamFF :
    contains (map.node stream).line "SymbolicStreamFF".toList =
      map.gapIsSymbolicFf := by
  rw [Bool.eq_iff_iff, contains_of_layout (isLayoutOf_line _) (isKeyword_of_all rfl)]
  have gap : "SymbolicStreamFF".toList <:+: map.gapToken.text ↔
      map.gapIsSymbolicFf = true := by
    rw [← contains_iff]
    unfold gapToken
    cases map.gapIsSymbolicFf <;> decide
  constructor
  · rintro ⟨text, member, inside⟩
    rcases map.plain_of_mem_texts stream member with rfl | rfl | plain
    · exact absurd (contains_iff.mpr inside) (by decide)
    · exact gap.mp inside
    · exact absurd inside (plain.foreign _ (by decide))
  · intro symbolic
    refine ⟨map.gapToken.text, ?_, gap.mpr symbolic⟩
    rw [texts_node]
    simp

/-- The stream of the node is the one it is over. -/
theorem dependentStream_node :
    extractPredIri (map.node stream).line "aff4:dependentStream".toList =
      some stream.arn := by
  have iri : pairIri "aff4:dependentStream".toList
      ("aff4:dependentStream".toList, '<' :: (stream.arn ++ ['>'])) =
        some stream.arn := by
    have ends : ('<' :: (stream.arn ++ ['>'])).getLast? = some '>' := by
      rw [← List.cons_append, List.getLast?_concat]
    have between : (('<' :: (stream.arn ++ ['>'])).take
        (('<' :: (stream.arn ++ ['>'])).length - 1)).drop 1 = stream.arn := by
      simp
    rw [pairIri, if_pos ⟨rfl, rfl, ends⟩, between]
  rw [extractPredIri_of_layout (isLayoutOf_line _), texts_node]
  simp only [windows2, List.tail_cons, List.zip_cons_cons, List.findSome?_cons, iri]
  simp [pairIri]

/-- The node has no keyword but that of its type and that of its gap default. -/
theorem eq_of_contains_node {keyword : Text} (member : keyword ∈ nodeKeywords)
    (found : contains (map.node stream).line keyword = true) :
    keyword = "aff4:Map".toList ∨ keyword = "SymbolicStreamFF".toList := by
  obtain ⟨text, inNode, inside⟩ := (contains_of_layout (isLayoutOf_line _)
    (isKeyword_of_mem_nodeKeywords member)).mp found
  rcases map.plain_of_mem_texts stream inNode with rfl | rfl | plain
  · have type : ∀ keyword ∈ nodeKeywords,
        contains "aff4:Map".toList keyword = true →
          keyword = "aff4:Map".toList := by
      decide
    exact .inl (type keyword member (contains_iff.mpr inside))
  · have gap : ∀ keyword ∈ nodeKeywords, contains map.gapToken.text keyword = true →
        keyword = "SymbolicStreamFF".toList := by
      unfold gapToken
      cases map.gapIsSymbolicFf <;> decide
    exact .inr (gap keyword member (contains_iff.mpr inside))
  · exact absurd inside (plain.foreign keyword member)

theorem contains_map_node :
    contains (map.node stream).line "aff4:Map".toList = true := by
  rw [contains_of_layout (isLayoutOf_line _) isKeyword_map]
  refine ⟨"aff4:Map".toList, ?_, List.infix_refl _⟩
  rw [texts_node]
  simp

end MapDescription

/-! ## One image -/

/-- The only node with a property is found. -/
theorem find?_lines
    {document : List DocumentNode} {node : DocumentNode} {property : Text → Bool}
    (member : node ∈ document) (has : property node.line = true)
    (only : ∀ other ∈ document, property other.line = true → other = node) :
    (lines document).find? property = some node.line := by
  cases found : (lines document).find? property with
  | none =>
      have missed := List.find?_eq_none.mp found node.line (List.mem_map_of_mem member)
      exact absurd has missed
  | some line =>
      obtain ⟨other, inDocument, rfl⟩ :=
        List.mem_map.mp (List.mem_of_find?_eq_some found)
      rw [only other inDocument (List.find?_some found)]

namespace ImageDescription

variable {image : ImageDescription} {document : List DocumentNode}

/-- A node with a keyword is a node of the image. -/
theorem DescribedBy.mem_nodes (described : image.DescribedBy document)
    {node : DocumentNode} (member : node ∈ document) {keyword : Text}
    (isNodeKeyword : keyword ∈ nodeKeywords)
    (found : contains node.line keyword = true) : node ∈ image.nodes := by
  rcases described.others node member with inImage | foreign
  · exact inImage
  · obtain ⟨text, inNode, inside⟩ := (contains_of_layout (isLayoutOf_line node)
      (isKeyword_of_mem_nodeKeywords isNodeKeyword)).mp found
    exact absurd inside (foreign text inNode keyword isNodeKeyword)

theorem mem_nodes_iff {node : DocumentNode} :
    node ∈ image.nodes ↔ node = image.stream.node ∨
      ∃ map, image.map = some map ∧ node = map.node image.stream := by
  simp [nodes, eq_comm]

/-- Only the node of the stream is told to be an ImageStream. -/
theorem DescribedBy.eq_stream (described : image.DescribedBy document)
    {node : DocumentNode} (member : node ∈ document)
    (found : contains node.line "ImageStream".toList = true) :
    node = image.stream.node := by
  have inImage := described.mem_nodes member (by decide) found
  rcases mem_nodes_iff.mp inImage with stream | ⟨map, -, rfl⟩
  · exact stream
  · rcases map.eq_of_contains_node image.stream (by decide) found with type | gap
    · exact absurd type (by decide)
    · exact absurd gap (by decide)

/-- Only the node of the map is told to be a Map. -/
theorem DescribedBy.eq_map (described : image.DescribedBy document)
    {node : DocumentNode} (member : node ∈ document)
    (found : contains node.line "aff4:Map".toList = true) :
    ∃ map, image.map = some map ∧ node = map.node image.stream := by
  have inImage := described.mem_nodes member (by decide) found
  rcases mem_nodes_iff.mp inImage with rfl | map
  · have type := image.stream.eq_of_contains_node (by decide) found
    exact absurd type (by decide)
  · exact map

/-- No node is told to be an encrypted stream. -/
theorem DescribedBy.find?_encryptedStream (described : image.DescribedBy document) :
    (lines document).find? (contains · "aff4:EncryptedStream".toList) = none := by
  rw [List.find?_eq_none]
  intro line member found
  obtain ⟨node, inDocument, rfl⟩ := List.mem_map.mp member
  have inImage := described.mem_nodes inDocument (by decide) found
  rcases mem_nodes_iff.mp inImage with rfl | ⟨map, -, rfl⟩
  · have type := image.stream.eq_of_contains_node (by decide) found
    exact absurd type (by decide)
  · rcases map.eq_of_contains_node image.stream (by decide) found with type | gap
    · exact absurd type (by decide)
    · exact absurd gap (by decide)

theorem DescribedBy.stream_mem (described : image.DescribedBy document) :
    image.stream.node ∈ document :=
  described.nodes _ (mem_nodes_iff.mpr (.inl rfl))

/-- The map of an image depends on a stream that is there. -/
theorem DescribedBy.not_takesStopForStream (described : image.DescribedBy document) :
    ¬TakesStopForStream (lines document) := by
  rintro ⟨-, mapLine, found, stop⟩
  obtain ⟨node, inDocument, rfl⟩ := List.mem_map.mp (List.mem_of_find?_eq_some found)
  have isMap : contains node.line "aff4:Map".toList = true := by
    simpa using List.find?_some found
  obtain ⟨map, -, rfl⟩ := described.eq_map inDocument isMap
  have depends := stop.dependentStream
  rw [map.dependentStream_node, Option.some.injEq] at depends
  have missed := List.find?_eq_none.mp stop.noStream image.stream.node.line
    (List.mem_map_of_mem described.stream_mem)
  rw [isStreamOf, image.stream.contains_imageStream, ← depends,
    image.stream.contains_arn] at missed
  exact missed rfl

/-- The nodes of the document, with single spaces, are read as the image. -/
theorem DescribedBy.outcome_parseBlocks_lines
    (described : image.DescribedBy document) :
    outcome (parseBlocks (lines document)) =
      if image.stream.Nondegenerate then .ok image.metadata
      else .error .badFormat := by
  have plain := described.find?_encryptedStream
  have isStream := image.stream.contains_imageStream
  unfold parseBlocks metadata
  cases isMap : image.map with
  | none =>
      have noMap : (lines document).find? (contains · "aff4:Map".toList) = none := by
        rw [List.find?_eq_none]
        intro line member found
        obtain ⟨node, inDocument, rfl⟩ := List.mem_map.mp member
        obtain ⟨map, isSome, -⟩ := described.eq_map inDocument found
        rw [isMap] at isSome
        cases isSome
      have stream : (lines document).find? (contains · "ImageStream".toList) =
          some image.stream.node.line :=
        find?_lines described.stream_mem isStream fun _ => described.eq_stream
      simp only [plain, noMap, stream]
      exact image.stream.parseImageStreamBlock_line none
  | some map =>
      have inDocument : map.node image.stream ∈ document :=
        described.nodes _ (mem_nodes_iff.mpr (.inr ⟨map, isMap, rfl⟩))
      have isMapLine : (lines document).find? (contains · "aff4:Map".toList) =
          some (map.node image.stream).line := by
        apply find?_lines inDocument (map.contains_map_node image.stream)
        intro other member found
        obtain ⟨own, isSome, rfl⟩ := described.eq_map member found
        rw [isMap] at isSome
        cases isSome
        rfl
      have stream : (lines document).find? (isStreamOf image.stream.arn) =
          some image.stream.node.line := by
        apply find?_lines described.stream_mem
        · rw [isStreamOf, isStream, image.stream.contains_arn]
          rfl
        · intro other member found
          rw [isStreamOf, Bool.and_eq_true] at found
          exact described.eq_stream member found.1
      unfold isStreamOf at stream
      simp only [plain, isMapLine, parseMapTurtle, map.extractIri_node, map.size_node,
        map.dependentStream_node, stream, map.contains_symbolicStreamFF, bind,
        Except.bind]
      exact image.stream.parseImageStreamBlock_line (some (map.override image.stream))

/-- However a document that describes an image is laid out, it is read as the image,
if there are chunks and segments of them. -/
theorem DescribedBy.outcome_parseTurtle (described : image.DescribedBy document)
    {ending : Ending} {turtle : Text}
    (renders : RendersDocument ending document turtle) :
    outcome (parseTurtle turtle) =
      if image.stream.Nondegenerate then .ok image.metadata
      else .error .badFormat := by
  rw [parseTurtle_eq, outcome_parseBlocks_of_laidOut renders.laidOut
    fun _ => described.not_takesStopForStream]
  exact described.outcome_parseBlocks_lines

theorem DescribedBy.parseTurtle_eq_ok (described : image.DescribedBy document)
    (nondegenerate : image.stream.Nondegenerate) {ending : Ending} {turtle : Text}
    (renders : RendersDocument ending document turtle) :
    parseTurtle turtle = .ok image.metadata := by
  rw [← outcome_eq_ok, described.outcome_parseTurtle renders, if_pos nondegenerate]

/-- However a document that describes an image is laid out, it is accepted exactly if
there are chunks and segments of them, and then read as the image. -/
theorem parseTurtle_rendering_iff (described : image.DescribedBy document)
    {ending : Ending} {turtle : Text}
    (renders : RendersDocument ending document turtle) (metadata : StreamMeta) :
    parseTurtle turtle = .ok metadata ↔
      image.stream.Nondegenerate ∧ metadata = image.metadata := by
  rw [← outcome_eq_ok, described.outcome_parseTurtle renders]
  by_cases nondegenerate : image.stream.Nondegenerate
  · rw [if_pos nondegenerate, Except.ok.injEq, and_iff_right nondegenerate, eq_comm]
  · rw [if_neg nondegenerate]
    constructor
    · intro refused
      cases refused
    · intro accepted
      exact absurd accepted.1 nondegenerate

end ImageDescription

/-! A map over a stream with a digest, described behind a declaration and in front of
another node. -/

namespace ImageSample

def hash : DeclaredHash where
  hash := { algorithm := "MD5".toList, hex := "0a1b".toList }
  declarable :=
    { hex_ne_nil := List.cons_ne_nil _ _
      hexdigits := by decide
      lowercase := by decide
      algorithm_ne_nil := List.cons_ne_nil _ _
      algorithm_word := by decide
      algorithm_ends := by decide }
  isClosed := by decide
  plain := by decide

def stream : StreamDescription where
  arn := "aff4://s".toList
  size := 5
  chunkSize := 2
  chunksPerSegment := 2
  method := .ofText "aff4:NullCompressor".toList (.refl true)
  hashes := [hash]
  isArn := by decide
  plain := by decide
  foreign := by decide
  method_ne_hash := by decide

def map : MapDescription where
  arn := "aff4://n".toList
  size := 9
  gapIsSymbolicFf := true
  isArn := by decide
  plain := by decide

def image : ImageDescription where
  stream := stream
  map := some map

def declaration : DocumentNode where
  tokens :=
    [.ofText "@prefix".toList (.refl true), .ofText "xsd:".toList (.refl true),
      .ofText "<http://www.w3.org/2001/XMLSchema#>".toList (.refl true)]
  ne_nil := List.cons_ne_nil _ _

def volume : DocumentNode where
  tokens :=
    [.ofText "<aff4://v>".toList (.refl true), .ofText "a".toList (.refl true),
      .ofText "aff4:ZipVolume".toList (.refl true)]
  ne_nil := List.cons_ne_nil _ _

def document : List DocumentNode :=
  [declaration, map.node stream, stream.node, volume]

theorem describedBy : image.DescribedBy document where
  nodes := by
    intro node member
    rcases ImageDescription.mem_nodes_iff.mp member with rfl | ⟨other, isSome, rfl⟩
    · simp [document, image]
    · cases isSome
      simp [document, image]
  others := by
    have declared : ∀ text ∈ declaration.texts, Foreign text := by decide
    have stored : ∀ text ∈ volume.texts, Foreign text := by decide
    have mapped := (@ImageDescription.mem_nodes_iff image (map.node stream)).mpr
      (.inr ⟨map, rfl, rfl⟩)
    have streamed := (@ImageDescription.mem_nodes_iff image stream.node).mpr (.inl rfl)
    simp only [document, List.forall_mem_cons]
    exact ⟨.inr declared, .inl mapped, .inl streamed, .inr stored,
      List.forall_mem_nil _⟩

/-- The document, one node to a line. -/
def turtle : Text :=
  declaration.line ++ ([' '] ++ '.' :: (['\n'] ++
    ((map.node stream).line ++ ([' '] ++ '.' :: (['\n'] ++
      (stream.node.line ++ ([' '] ++ '.' :: (['\n'] ++
        (volume.line ++ ([' '] ++ ['.']))))))))))

theorem renders : RendersDocument .endOfText document turtle := by
  have lineBreak : IsSeparator ['\n'] := ⟨List.cons_ne_nil _ _, by simp [becomesSpace]⟩
  exact .cons (rendersTokens_line declaration) isSeparator_space lineBreak
    (.cons (rendersTokens_line (map.node stream)) isSeparator_space lineBreak
      (.cons (rendersTokens_line stream.node) isSeparator_space lineBreak
        (.last (rendersTokens_line volume) isSeparator_space)))

theorem parseTurtle_rendering_iff_sample :
    parseTurtle turtle = .ok image.metadata :=
  (ImageDescription.parseTurtle_rendering_iff describedBy renders image.metadata).mpr
    ⟨by decide, rfl⟩

end ImageSample

end Aff4
