import Aff4.Reader
import Aff4.Turtle.Independence

/-!
# The codec of a stream

`aff4:compressionMethod` selects the codec of a stream.  The parser looks for the
names of the codecs in all of the node instead, one codec after the other.
-/

namespace Aff4

open Rust Rust.Str

/-! ## Names of codecs -/

/-- The texts that name a codec. -/
def Compression.keywords : Compression → List Text
  | .snappy => ["snappy".toList, "google.com/p/snappy".toList]
  | .deflate => ["rfc1950".toList, "DeflateCompressor".toList]
  | .lz4 => ["lz4".toList, "github.com/lz4".toList]
  | .null => []

/-- The order in which the codecs are looked for. -/
def Compression.rank : Compression → Nat
  | .snappy => 0
  | .deflate => 1
  | .lz4 => 2
  | .null => 3

theorem Compression.rank_injective : Function.Injective Compression.rank := by
  intro left right same
  cases left <;> cases right <;> first | rfl | cases same

theorem Compression.rank_le_null (codec : Compression) :
    codec.rank ≤ Compression.null.rank := by
  cases codec <;> decide

theorem Compression.isKeyword {codec : Compression} {keyword : Text}
    (member : keyword ∈ codec.keywords) : IsKeyword keyword := by
  have pair {first second : Text} (firstKeyword : IsKeyword first)
      (secondKeyword : IsKeyword second) (inside : keyword ∈ [first, second]) :
      IsKeyword keyword := by
    rcases List.mem_pair.mp inside with rfl | rfl
    · exact firstKeyword
    · exact secondKeyword
  cases codec with
  | null => cases member
  | snappy => exact pair (isKeyword_of_all rfl) (isKeyword_of_all rfl) member
  | deflate => exact pair (isKeyword_of_all rfl) (isKeyword_of_all rfl) member
  | lz4 => exact pair (isKeyword_of_all rfl) (isKeyword_of_all rfl) member

/-- A text names a codec. -/
def Names (text : Text) (codec : Compression) : Prop :=
  ∃ keyword ∈ codec.keywords, contains text keyword = true

instance (text : Text) (codec : Compression) : Decidable (Names text codec) :=
  inferInstanceAs (Decidable (∃ keyword ∈ codec.keywords, _))

theorem not_names_null (text : Text) : ¬Names text .null := by
  rintro ⟨keyword, member, -⟩
  cases member

/-- What a text names ranks before no codec. -/
theorem rank_lt_of_names {text : Text} {codec : Compression} (named : Names text codec) :
    codec.rank < Compression.null.rank := by
  apply lt_of_le_of_ne (Compression.rank_le_null codec)
  intro same
  rw [Compression.rank_injective same] at named
  exact not_names_null text named

/-- The first codec that a text names. -/
def Compression.named (text : Text) : Compression :=
  if Names text .snappy then .snappy
  else if Names text .deflate then .deflate
  else if Names text .lz4 then .lz4
  else .null

/-- The codec of a text is the first one it names. -/
theorem detectCompression_eq (text : Text) : detectCompression text = .named text := by
  have named (first second : Text) :
      (∃ keyword ∈ [first, second], contains text keyword = true) ↔
        (contains text first || contains text second) = true := by
    simp only [List.mem_cons, List.not_mem_nil, or_false, or_and_right, exists_or,
      exists_eq_left, Bool.or_eq_true]
  have snappy : Names text .snappy ↔ _ := named _ _
  have deflate : Names text .deflate ↔ _ := named _ _
  have lz4 : Names text .lz4 ↔ _ := named _ _
  unfold detectCompression Compression.named
  simp only [snappy, deflate, lz4]

/-- The codec of a text is none or is named by it, and ranks before every other one it
names. -/
theorem detectCompression_first (text : Text) :
    (detectCompression text = .null ∨ Names text (detectCompression text)) ∧
      ∀ other, Names text other →
        (detectCompression text).rank ≤ other.rank := by
  rw [detectCompression_eq, Compression.named]
  constructor
  · split
    · next named => exact .inr named
    split
    · next named => exact .inr named
    split
    · next named => exact .inr named
    · exact .inl rfl
  · intro other named
    cases other with
    | null => exact absurd named (not_names_null text)
    | snappy => rw [if_pos named]
    | deflate =>
        rw [if_pos named]
        split <;> decide
    | lz4 =>
        rw [if_pos named]
        split
        · decide
        · split <;> decide

/-- No other codec does so. -/
theorem detectCompression_eq_iff {text : Text} {codec : Compression} :
    detectCompression text = codec ↔
      (codec = .null ∨ Names text codec) ∧
        ∀ other, Names text other → codec.rank ≤ other.rank := by
  obtain ⟨known, least⟩ := detectCompression_first text
  constructor
  · rintro rfl
    exact ⟨known, least⟩
  · rintro ⟨named, first⟩
    apply Compression.rank_injective
    apply Nat.le_antisymm
    · rcases named with rfl | named
      · exact Compression.rank_le_null _
      · exact least codec named
    · rcases known with isNull | named
      · rw [isNull]
        exact Compression.rank_le_null codec
      · exact first _ named

/-! ## The declared method -/

/-- The predicate that selects the codec. -/
def methodPredicate : Text := "aff4:compressionMethod".toList

/-- The object of the predicate among the tokens of a node, where there is one. -/
def methodOf : List Text → Option Text
  | [] => none
  | token :: tokens => if token = methodPredicate then tokens.head? else methodOf tokens

/-- The tokens of a node other than that object. -/
def besideMethod : List Text → List Text
  | [] => []
  | token :: tokens =>
      if token = methodPredicate then token :: tokens.tail
      else token :: besideMethod tokens

/-- The tokens of a node are the object of the predicate and the others. -/
theorem mem_iff_method {tokens : List Text} {text : Text} :
    text ∈ tokens ↔ methodOf tokens = some text ∨ text ∈ besideMethod tokens := by
  induction tokens with
  | nil => exact iff_of_false List.not_mem_nil (by rintro (absent | absent) <;> cases absent)
  | cons token tokens inductionHypothesis =>
      unfold methodOf besideMethod
      split
      · cases tokens with
        | nil => simp
        | cons object after =>
            simp only [List.mem_cons, List.head?_cons, List.tail_cons,
              Option.some.injEq, eq_comm]
            exact or_left_comm
      · rw [List.mem_cons, List.mem_cons, inductionHypothesis]
        exact or_left_comm

theorem methodOf_append
    {before : List Text} (absent : methodPredicate ∉ before) (tokens : List Text) :
    methodOf (before ++ tokens) = methodOf tokens := by
  induction before with
  | nil => rfl
  | cons token before inductionHypothesis =>
      rw [List.mem_cons, not_or] at absent
      rw [List.cons_append, methodOf, if_neg (Ne.symm absent.1)]
      exact inductionHypothesis absent.2

theorem besideMethod_append
    {before : List Text} (absent : methodPredicate ∉ before) (tokens : List Text) :
    besideMethod (before ++ tokens) = before ++ besideMethod tokens := by
  induction before with
  | nil => rfl
  | cons token before inductionHypothesis =>
      rw [List.mem_cons, not_or] at absent
      rw [List.cons_append, besideMethod, if_neg (Ne.symm absent.1)]
      exact congrArg (token :: ·) (inductionHypothesis absent.2)

/-- The declared method names a codec. -/
def MethodNames (method : Option Text) (codec : Compression) : Prop :=
  ∃ object, method = some object ∧ Names object codec

/-- The codec of a method by itself. -/
def methodCodec : Option Text → Compression
  | some object => detectCompression object
  | none => .null

theorem methodCodec_eq_iff {method : Option Text} {codec : Compression} :
    methodCodec method = codec ↔
      (codec = .null ∨ MethodNames method codec) ∧
        ∀ other, MethodNames method other → codec.rank ≤ other.rank := by
  cases method with
  | none =>
      have nothing (codec : Compression) : ¬MethodNames none codec := by
        rintro ⟨object, absent, -⟩
        cases absent
      constructor
      · rintro rfl
        exact ⟨.inl rfl, fun other named => absurd named (nothing other)⟩
      · rintro ⟨isNull | named, -⟩
        · exact isNull.symm
        · exact absurd named (nothing codec)
  | some object =>
      have names (codec : Compression) :
          MethodNames (some object) codec ↔ Names object codec := by
        constructor
        · rintro ⟨same, equal, named⟩
          cases equal
          exact named
        · exact fun named => ⟨object, rfl, named⟩
      rw [methodCodec, detectCompression_eq_iff]
      simp only [names]

/-- A node names the codecs that its method and its other tokens name. -/
theorem names_iff {block : Text} {codec : Compression} :
    Names block codec ↔
      MethodNames (methodOf (splitWhitespace block)) codec ∨
        ∃ token ∈ besideMethod (splitWhitespace block), Names token codec := by
  have inToken {keyword : Text} (member : keyword ∈ codec.keywords) :
      contains block keyword = true ↔
        ∃ token ∈ splitWhitespace block, contains token keyword = true := by
    have isToken := (Compression.isKeyword member).isToken
    simp only [contains_iff]
    exact infix_iff_exists_token isToken.1 isToken.2 block
  constructor
  · rintro ⟨keyword, member, found⟩
    obtain ⟨token, isToken, inside⟩ := (inToken member).mp found
    rcases mem_iff_method.mp isToken with isMethod | beside
    · exact .inl ⟨token, isMethod, keyword, member, inside⟩
    · exact .inr ⟨token, beside, keyword, member, inside⟩
  · rintro (⟨token, isMethod, keyword, member, inside⟩ |
      ⟨token, beside, keyword, member, inside⟩)
    · exact ⟨keyword, member, (inToken member).mpr
        ⟨token, mem_iff_method.mpr (.inl isMethod), inside⟩⟩
    · exact ⟨keyword, member, (inToken member).mpr
        ⟨token, mem_iff_method.mpr (.inr beside), inside⟩⟩

/-! ## One node -/

/-- An ImageStream node that the parser accepts. -/
structure StreamBlock where
  block : Text
  mapOverride : Option (MapMeta × UInt64)
  metadata : StreamMeta
  isImageStream : contains block "ImageStream".toList = true
  metadata_eq : parseImageStreamBlock block mapOverride = .ok metadata

namespace StreamBlock

variable (stream : StreamBlock)

/-- The object of `aff4:compressionMethod`. -/
def method : Option Text := methodOf (splitWhitespace stream.block)

/-- The tokens of the node other than the declared method. -/
def others : List Text := besideMethod (splitWhitespace stream.block)

theorem compression_eq : detectCompression stream.block = stream.metadata.compression :=
  (of_parseImageStreamBlock stream.metadata_eq).2.1.compression

end StreamBlock

/-- The method says that the chunks are stored as they are. -/
def DeclaresNull (method : Option Text) : Prop :=
  method = none ∨ method = some "aff4:NullCompressor".toList

theorem methodCodec_of_declaresNull {method : Option Text}
    (declaresNull : DeclaresNull method) : methodCodec method = .null := by
  rcases declaresNull with rfl | rfl
  · rfl
  · show detectCompression _ = _
    decide +kernel

/-- No other token names a codec that is looked for before those of the method. -/
def NotOutranked (stream : StreamBlock) : Prop :=
  ∀ token ∈ stream.others, ∀ codec, Names token codec →
    ∃ first, MethodNames stream.method first ∧ first.rank ≤ codec.rank

/-- The method is one the parser knows: none, the one without compression, or one
that names a codec. -/
def Recognised (method : Option Text) : Prop :=
  DeclaresNull method ∨ ∃ codec, MethodNames method codec

/-- The codec of a stream is the one of its method, and is none exactly where the
method says so. -/
structure FollowsMethod (stream : StreamBlock) : Prop where
  eq_methodCodec : stream.metadata.compression = methodCodec stream.method
  null_iff : stream.metadata.compression = .null ↔ DeclaresNull stream.method

/-- The codec is the one of the method if and only if no other token outranks it. -/
theorem compression_eq_methodCodec_iff (stream : StreamBlock) :
    stream.metadata.compression = methodCodec stream.method ↔
      NotOutranked stream := by
  obtain ⟨known, first⟩ := methodCodec_eq_iff.mp (Eq.refl (methodCodec stream.method))
  rw [← stream.compression_eq, detectCompression_eq_iff]
  constructor
  · rintro ⟨-, least⟩ token member codec named
    have le := least codec (names_iff.mpr (.inr ⟨token, member, named⟩))
    rcases known with isNull | names
    · rw [isNull] at le
      exact absurd le (Nat.not_le.mpr (rank_lt_of_names named))
    · exact ⟨_, names, le⟩
  · intro usual
    constructor
    · exact known.imp_right fun names => names_iff.mpr (.inl names)
    · intro other named
      rcases names_iff.mp named with names | ⟨token, member, named⟩
      · exact first other names
      · obtain ⟨earlier, names, le⟩ := usual token member other named
        exact (first earlier names).trans le

/-- A stream follows its method if and only if nothing outranks it and it is
recognised. -/
theorem followsMethod_iff (stream : StreamBlock) :
    FollowsMethod stream ↔ NotOutranked stream ∧ Recognised stream.method := by
  have named_of_ne (different : methodCodec stream.method ≠ .null) :
      ∃ codec, MethodNames stream.method codec := by
    rcases (methodCodec_eq_iff.mp (Eq.refl (methodCodec stream.method))).1 with
      isNull | names
    · exact absurd isNull different
    · exact ⟨_, names⟩
  rw [← compression_eq_methodCodec_iff]
  constructor
  · rintro ⟨same, null_iff⟩
    refine ⟨same, ?_⟩
    rw [same] at null_iff
    by_cases isNull : methodCodec stream.method = .null
    · exact .inl (null_iff.mp isNull)
    · exact .inr (named_of_ne isNull)
  · rintro ⟨same, recognised⟩
    refine ⟨same, ?_⟩
    rw [same]
    constructor
    · intro isNull
      rcases recognised with declaresNull | ⟨codec, names⟩
      · exact declaresNull
      · have le := (methodCodec_eq_iff.mp isNull).2 codec names
        obtain ⟨object, -, named⟩ := names
        exact absurd le (Nat.not_le.mpr (rank_lt_of_names named))
    · exact methodCodec_of_declaresNull

/-! ## All nodes with one method -/

/-- The tokens of an ImageStream node in front of its method. -/
def leadingTokens : List Text :=
  ["<i>".toList, "a".toList, "aff4:ImageStream".toList, "aff4:chunkSize".toList,
    "2".toList, "aff4:chunksInSegment".toList, "2".toList, "aff4:size".toList,
    "3".toList]

/-- Those tokens behind the subject. -/
def geometry : Text :=
  " a aff4:ImageStream aff4:chunkSize 2 aff4:chunksInSegment 2 aff4:size 3".toList

def leading : Text := "<i>".toList ++ geometry

theorem imageStream_infix_geometry : "ImageStream".toList <:+: geometry := by
  -- The kernel compares lists of characters faster than it unfolds string literals.
  unfold geometry
  simp only [String.reduceToList]
  decide +kernel

theorem not_mem_leadingTokens : methodPredicate ∉ leadingTokens := by
  unfold methodPredicate leadingTokens
  decide +kernel

theorem splitWhitespace_leading (rest : Text) :
    splitWhitespace (leading ++ ' ' :: rest) =
      leadingTokens ++ splitWhitespace rest := by
  have tokens : splitWhitespace leading = leadingTokens := by
    unfold leading geometry leadingTokens
    simp only [String.reduceToList]
    decide +kernel
  rw [splitWhitespace_append_cons leading rest rfl, tokens]

/-- Whatever follows it, the node has all that a stream needs. -/
theorem describesStream_leading (rest : Text) :
    DescribesStream (leading ++ ' ' :: rest) := by
  have tokens := splitWhitespace_leading rest
  have number (before : List Text) (predicate value : Text) (after : List Text)
      (split : leadingTokens = before ++ predicate :: value :: after)
      (absent : predicate ∉ before) :
      extractPredU64 (leading ++ ' ' :: rest) predicate =
        parsePredU64 predicate value := by
    have cut : splitWhitespace (leading ++ ' ' :: rest) =
        before ++ predicate :: value :: (after ++ splitWhitespace rest) := by
      rw [tokens, split, List.append_assoc]
      rfl
    exact extractPredU64_of_splitWhitespace cut absent
  refine ⟨?_, ⟨2, ?_, by decide⟩, ⟨2, ?_, by decide⟩, 3, ?_⟩
  · have iri := @extractIri_append [] ['i'] List.not_mem_nil (by decide)
      ((leading ++ ' ' :: rest).drop 3)
    exact Option.isSome_iff_exists.mpr ⟨_, iri⟩
  · apply number (leadingTokens.take 3) _ "2".toList (leadingTokens.drop 5) rfl
    decide +kernel
  · apply number (leadingTokens.take 5) _ "2".toList (leadingTokens.drop 7) rfl
    decide +kernel
  · apply number (leadingTokens.take 7) _ "3".toList [] rfl
    decide +kernel

/-- The text that declares a method. -/
def methodText : Option Text → Text
  | none => []
  | some object => methodPredicate ++ ' ' :: object

/-- The node with a method and some more tokens is accepted. -/
theorem exists_streamBlock
    {method : Option Text} (isToken : ∀ object, method = some object → IsToken object)
    {ending : Text} (absent : methodPredicate ∉ splitWhitespace ending) :
    ∃ stream : StreamBlock, stream.method = method ∧
      (∀ token ∈ splitWhitespace ending, token ∈ stream.others) ∧
      ∀ token ∈ stream.others,
        token ∈ methodPredicate :: leadingTokens ∨ token ∈ splitWhitespace ending := by
  let rest := methodText method ++ ' ' :: ending
  have isImageStream : contains (leading ++ ' ' :: rest) "ImageStream".toList = true := by
    rw [contains_iff]
    exact imageStream_infix_geometry.trans
      ((List.suffix_append ..).isInfix.trans (List.prefix_append ..).isInfix)
  obtain ⟨metadata, metadata_eq⟩ :=
    (exists_parseImageStreamBlock_iff _ none).mpr (describesStream_leading rest)
  refine ⟨⟨_, none, metadata, isImageStream, metadata_eq⟩, ?_⟩
  rw [StreamBlock.method, StreamBlock.others, splitWhitespace_leading,
    methodOf_append not_mem_leadingTokens, besideMethod_append not_mem_leadingTokens]
  have noMethod := methodOf_append absent []
  have noneBeside := besideMethod_append absent []
  rw [List.append_nil] at noMethod noneBeside
  cases method with
  | none =>
      have tokens : splitWhitespace rest = splitWhitespace ending :=
        splitWhitespace_cons ending rfl
      rw [tokens, noMethod, noneBeside]
      refine ⟨rfl, fun token member => List.mem_append_right _ ?_, ?_⟩
      · rw [besideMethod, List.append_nil]
        exact member
      · intro token member
        rw [besideMethod, List.append_nil, List.mem_append] at member
        exact member.imp_left (List.mem_cons_of_mem _)
  | some object =>
      have tokens : splitWhitespace rest =
          methodPredicate :: object :: splitWhitespace ending := by
        have predicate : IsToken methodPredicate := (isKeyword_of_all rfl).isToken
        have shape : rest = methodPredicate ++ ' ' :: (object ++ ' ' :: ending) :=
          List.append_assoc _ _ _
        rw [shape, splitWhitespace_isToken_append predicate _ rfl,
          splitWhitespace_isToken_append (isToken object rfl) _ rfl]
      rw [tokens, methodOf, if_pos rfl, besideMethod, if_pos rfl, List.head?_cons,
        List.tail_cons]
      refine ⟨rfl, ?_, ?_⟩
      · intro token member
        exact List.mem_append_right _ (List.mem_cons_of_mem _ member)
      · intro token member
        rcases List.mem_append.mp member with member | member
        · exact .inl (List.mem_cons_of_mem _ member)
        rcases List.mem_cons.mp member with rfl | member
        · exact .inl (List.mem_cons_self ..)
        · exact .inr member

/-- A stream is compressed with Snappy if and only if its node names it. -/
theorem compression_eq_snappy_iff (stream : StreamBlock) :
    stream.metadata.compression = .snappy ↔
      MethodNames stream.method .snappy ∨
        ∃ token ∈ stream.others, Names token .snappy := by
  have named : stream.metadata.compression = .snappy ↔ Names stream.block .snappy := by
    rw [← stream.compression_eq, detectCompression_eq_iff]
    constructor
    · rintro ⟨isNull | named, -⟩
      · cases isNull
      · exact named
    · exact fun named => ⟨.inr named, fun other _ => Nat.zero_le _⟩
  rw [named, names_iff]
  rfl

/-- The codec of a stream is decided by its method alone: all streams with the same
method have it, and it is none exactly where the method says so. -/
structure DecidedByMethod (stream : StreamBlock) : Prop where
  sameCodec : ∀ other : StreamBlock, other.method = stream.method →
    other.metadata.compression = stream.metadata.compression
  null_iff : stream.metadata.compression = .null ↔ DeclaresNull stream.method

/-- An IRI that names a codec, and is no method. -/
def strayName : Text := "aff4:stored <aff4://snappy>".toList

/-- The codec is decided by the method alone if and only if that is Snappy, which is
looked for first. -/
theorem decidedByMethod_iff (stream : StreamBlock) :
    DecidedByMethod stream ↔ MethodNames stream.method .snappy := by
  constructor
  · intro decided
    by_contra unnamed
    have isToken (object : Text) (isMethod : stream.method = some object) :
        IsToken object :=
      isToken_of_mem_splitWhitespace (mem_iff_method.mpr (.inl isMethod))
    have nothing : methodPredicate ∉ splitWhitespace [] := List.not_mem_nil
    have noMethod : methodPredicate ∉ splitWhitespace strayName := by
      decide +kernel
    obtain ⟨plain, plainMethod, -, plainOthers⟩ := exists_streamBlock isToken nothing
    obtain ⟨annotated, method, has, -⟩ := exists_streamBlock isToken noMethod
    have isSnappy : annotated.metadata.compression = .snappy := by
      have named : ∃ token ∈ splitWhitespace strayName, Names token .snappy := by
        decide +kernel
      obtain ⟨token, member, named⟩ := named
      exact (compression_eq_snappy_iff annotated).mpr (.inr ⟨token, has token member, named⟩)
    have same := (decided.sameCodec plain plainMethod).trans
      (decided.sameCodec annotated method).symm
    rw [isSnappy, compression_eq_snappy_iff, plainMethod] at same
    rcases same with named | ⟨token, member, named⟩
    · exact unnamed named
    · have unnamedTokens :
          ∀ token ∈ methodPredicate :: leadingTokens, ¬Names token .snappy := by
        decide +kernel
      rcases plainOthers token member with leads | absent
      · exact unnamedTokens token leads named
      · cases absent
  · intro names
    have isSnappy (other : StreamBlock) (same : other.method = stream.method) :
        other.metadata.compression = .snappy := by
      rw [compression_eq_snappy_iff, same]
      exact .inl names
    constructor
    · intro other same
      rw [isSnappy other same, isSnappy stream rfl]
    · rw [isSnappy stream rfl]
      apply iff_of_false (by decide)
      intro declaresNull
      have least := (methodCodec_eq_iff.mp
        (methodCodec_of_declaresNull declaresNull)).2 .snappy names
      exact absurd least (by decide)

/-- When a method decides the codec of every stream that declares it, and when a
stream has the codec of its method. -/
theorem codec_iff (stream : StreamBlock) :
    (DecidedByMethod stream ↔ MethodNames stream.method .snappy) ∧
      (FollowsMethod stream ↔ NotOutranked stream ∧ Recognised stream.method) :=
  ⟨decidedByMethod_iff stream, followsMethod_iff stream⟩

/-! Two streams without compression, of which the name of one contains the name of a
codec, and a stream with a method that the parser does not know. -/

namespace SnappyNameSample

def metadata (streamArn : Text) (compression : Compression) : StreamMeta where
  streamArn
  virtualSize := 3
  imageStreamSize := 3
  chunkSize := 2
  chunksPerSegment := 2
  compression
  imageHashes := []
  mapMeta := none

def block (subject method : Text) : Text :=
  subject ++ geometry ++ " aff4:compressionMethod ".toList ++ method

theorem isImageStream_block (subject method : Text) :
    contains (block subject method) "ImageStream".toList = true := by
  rw [contains_iff]
  exact (imageStream_infix_geometry.trans (List.suffix_append _ _).isInfix).trans
    ((List.prefix_append _ _).trans (List.prefix_append _ _)).isInfix

theorem parse_plain :
    parseImageStreamBlock (block "<i>".toList "aff4:NullCompressor".toList) none =
      .ok (metadata "i".toList .null) := by
  unfold block geometry
  simp only [String.reduceToList]
  decide +kernel

def plain : StreamBlock where
  block := block "<i>".toList "aff4:NullCompressor".toList
  mapOverride := none
  metadata := metadata "i".toList .null
  isImageStream := isImageStream_block _ _
  metadata_eq := parse_plain

theorem parse_named :
    parseImageStreamBlock (block "<aff4://snappy>".toList "aff4:NullCompressor".toList)
      none = .ok (metadata "aff4://snappy".toList .snappy) := by
  unfold block geometry
  simp only [String.reduceToList]
  decide +kernel

def named : StreamBlock where
  block := block "<aff4://snappy>".toList "aff4:NullCompressor".toList
  mapOverride := none
  metadata := metadata "aff4://snappy".toList .snappy
  isImageStream := isImageStream_block _ _
  metadata_eq := parse_named

theorem parse_unrecognised :
    parseImageStreamBlock (block "<i>".toList "<http://bzip.org>".toList) none =
      .ok (metadata "i".toList .null) := by
  unfold block geometry
  simp only [String.reduceToList]
  decide +kernel

def unrecognised : StreamBlock where
  block := block "<i>".toList "<http://bzip.org>".toList
  mapOverride := none
  metadata := metadata "i".toList .null
  isImageStream := isImageStream_block _ _
  metadata_eq := parse_unrecognised

/-- The codec is no function of the method, and no codec is taken for a method that
does not say so: what is stored is returned as the content. -/
theorem not_function_of_method :
    (¬∃ codecOf : Option Text → Compression, ∀ stream : StreamBlock,
      stream.metadata.compression = codecOf stream.method) ∧
    unrecognised.metadata.compression = .null ∧
    ¬DeclaresNull unrecognised.method ∧
    ∀ platform crates (reader : Aff4Reader) stored,
      reader.compression = unrecognised.metadata.compression →
        reader.decompress platform crates stored = .ok stored := by
  refine ⟨?_, rfl, ?_, ?_⟩
  · rintro ⟨codecOf, decided⟩
    have same : named.method = plain.method := by decide +kernel
    have equal := decided named
    rw [same, ← decided plain] at equal
    cases equal
  · have method : unrecognised.method = some "<http://bzip.org>".toList := by
      decide +kernel
    rw [method]
    rintro (absent | other)
    · cases absent
    · exact absurd other (by decide)
  · intro platform crates reader stored codec
    rw [Aff4Reader.decompress, codec]
    rfl

end SnappyNameSample

end Aff4
