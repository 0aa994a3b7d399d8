import Aff4.Kind
import Aff4.Turtle

/-!
# Which node is bound

A node that another one refers to by its IRI is looked for by substrings: the
first node that contains the IRI and the name of a type is taken for it.  This
file says exactly when that is the node whose subject the IRI is.
-/

namespace Aff4

open Rust Rust.Str

/-- A node describes an IRI: it begins with it. -/
def SubjectOf (node iri : Text) : Prop :=
  '>' ∉ iri ∧ ∃ spaces rest, (∀ c ∈ spaces, isWhitespace c = true) ∧
    node = spaces ++ '<' :: (iri ++ '>' :: rest)

/-- The first IRI of a node is its subject. -/
theorem extractIri_of_subjectOf {node iri : Text} (subject : SubjectOf node iri) :
    extractIri node = some iri := by
  obtain ⟨closed, spaces, rest, allSpaces, rfl⟩ := subject
  have noSubject : '<' ∉ spaces := by
    intro member
    exact absurd (allSpaces '<' member) (by decide)
  exact extractIri_append noSubject closed rest

/-! ## The stream of a Map -/

/-- The node a Map takes for its stream. -/
def streamNode (turtle arn : Text) : Option Text :=
  (turtleBlocks turtle).find? fun node =>
    contains node "ImageStream".toList && contains node arn

/-- A node states the geometry and the digests of a stream. -/
structure StatesGeometry (node : Text) (metadata : StreamMeta) : Prop where
  chunkSize :
    extractPredU64 node "aff4:chunkSize".toList = .ok metadata.chunkSize
  chunksPerSegment :
    extractPredU64 node "aff4:chunksInSegment".toList =
      .ok metadata.chunksPerSegment
  imageStreamSize :
    extractPredU64 node "aff4:size".toList = .ok metadata.imageStreamSize
  compression : detectCompression node = metadata.compression
  imageHashes : parseImageHashes node = metadata.imageHashes

/-- Two nodes state the same geometry and digests. -/
structure SameGeometry (node other : Text) : Prop where
  chunkSize :
    extractPredU64 node "aff4:chunkSize".toList =
      extractPredU64 other "aff4:chunkSize".toList
  chunksPerSegment :
    extractPredU64 node "aff4:chunksInSegment".toList =
      extractPredU64 other "aff4:chunksInSegment".toList
  imageStreamSize :
    extractPredU64 node "aff4:size".toList =
      extractPredU64 other "aff4:size".toList
  compression : detectCompression node = detectCompression other
  imageHashes : parseImageHashes node = parseImageHashes other

theorem SameGeometry.refl (node : Text) : SameGeometry node node :=
  ⟨rfl, rfl, rfl, rfl, rfl⟩

/-- Beside a node that states a geometry, another one states it too if and only if
they state the same. -/
theorem StatesGeometry.iff_same {node other : Text} {metadata : StreamMeta}
    (states : StatesGeometry other metadata) :
    StatesGeometry node metadata ↔ SameGeometry node other := by
  constructor
  · intro same
    exact
      { chunkSize := same.chunkSize.trans states.chunkSize.symm
        chunksPerSegment :=
          same.chunksPerSegment.trans states.chunksPerSegment.symm
        imageStreamSize := same.imageStreamSize.trans states.imageStreamSize.symm
        compression := same.compression.trans states.compression.symm
        imageHashes := same.imageHashes.trans states.imageHashes.symm }
  · intro same
    exact
      { chunkSize := same.chunkSize.trans states.chunkSize
        chunksPerSegment := same.chunksPerSegment.trans states.chunksPerSegment
        imageStreamSize := same.imageStreamSize.trans states.imageStreamSize
        compression := same.compression.trans states.compression
        imageHashes := same.imageHashes.trans states.imageHashes }

/-- What an ImageStream node is read as. -/
theorem of_parseImageStreamBlock
    {node : Text} {mapOverride : Option (MapMeta × UInt64)}
    {metadata : StreamMeta}
    (parsed : parseImageStreamBlock node mapOverride = .ok metadata) :
    extractIri node = some metadata.streamArn ∧
      StatesGeometry node metadata ∧
      metadata.mapMeta = mapOverride.map Prod.fst := by
  simp only [parseImageStreamBlock, bind, Except.bind, pure, Except.pure, throw,
    throwThe, MonadExceptOf.throw] at parsed
  repeat' split at parsed
  all_goals cases parsed
  · next iri _ _ chunkSize _ _ perSegment _ _ _ _ size _ _ _ =>
      exact ⟨iri, ⟨chunkSize, perSegment, size, rfl, rfl⟩, rfl⟩
  · next iri _ _ chunkSize _ _ perSegment _ _ _ _ size _ =>
      exact ⟨iri, ⟨chunkSize, perSegment, size, rfl, rfl⟩, rfl⟩

/-- A Map's metadata is read off the node it takes for its stream. -/
theorem of_parseTurtle
    {turtle : Text} {metadata : StreamMeta} {mapMeta : MapMeta}
    (parsed : parseTurtle turtle = .ok metadata)
    (isMap : metadata.mapMeta = some mapMeta) :
    ∃ node, streamNode turtle mapMeta.imageStreamArn = some node ∧
      extractIri node = some metadata.streamArn ∧
      StatesGeometry node metadata := by
  simp only [parseTurtle, parseMapTurtle, bind, Except.bind, throw, throwThe,
    MonadExceptOf.throw] at parsed
  repeat' split at parsed
  all_goals try cases parsed
  · obtain ⟨iri, states, attached⟩ := of_parseImageStreamBlock parsed
    rw [isMap] at attached
    cases attached
    exact ⟨_, by assumption, iri, states⟩
  · obtain ⟨-, -, attached⟩ := of_parseImageStreamBlock parsed
    rw [isMap] at attached
    cases attached

/-- A Map is bound to its own stream: the stream whose bevies are read is the one
its targets name, and its geometry is that of a node with this subject. -/
structure BindsToOwnStream
    (turtle : Text) (metadata : StreamMeta) (mapMeta : MapMeta) : Prop where
  streamArn : metadata.streamArn = mapMeta.imageStreamArn
  node : ∃ node ∈ turtleBlocks turtle,
    SubjectOf node mapMeta.imageStreamArn ∧ StatesGeometry node metadata

/-- A Map is bound to its own stream if and only if the first node that contains
the stream's ARN and `ImageStream` has the ARN as its first IRI, and as its
subject unless it states the same as a node that has. -/
theorem bindsToOwnStream_iff
    {turtle : Text} {metadata : StreamMeta} {mapMeta : MapMeta}
    (parsed : parseTurtle turtle = .ok metadata)
    (isMap : metadata.mapMeta = some mapMeta) :
    BindsToOwnStream turtle metadata mapMeta ↔
      ∃ first, streamNode turtle mapMeta.imageStreamArn = some first ∧
        extractIri first = some mapMeta.imageStreamArn ∧
        ∃ node ∈ turtleBlocks turtle,
          SubjectOf node mapMeta.imageStreamArn ∧ SameGeometry node first := by
  obtain ⟨first, found, iri, states⟩ := of_parseTurtle parsed isMap
  have same (node : Text) := @StatesGeometry.iff_same node first metadata states
  rw [found]
  constructor
  · rintro ⟨streamArn, node, member, subject, geometry⟩
    refine ⟨first, rfl, ?_, node, member, subject, (same node).mp geometry⟩
    rw [iri, streamArn]
  · rintro ⟨_, equal, own, node, member, subject, geometry⟩
    cases equal
    rw [iri] at own
    exact ⟨Option.some.inj own, node, member, subject, (same node).mpr geometry⟩

/-! Two streams, the ARN of one of which begins with that of the other, which is the
stream of the Map but described behind it. -/

namespace LongerSample

def turtle : Text :=
  "<aff4://m> a aff4:Map ; aff4:size 6 ; aff4:dependentStream <aff4://i> . ".toList ++
    "<aff4://ij> a aff4:ImageStream ; aff4:chunkSize 4 ; ".toList ++
    "aff4:chunksInSegment 2 ; aff4:size 9 . ".toList ++
    "<aff4://i> a aff4:ImageStream ; aff4:chunkSize 2 ; ".toList ++
    "aff4:chunksInSegment 2 ; aff4:size 6 . ".toList

def mapMeta : MapMeta where
  mapArn := "aff4://m".toList
  imageStreamArn := "aff4://i".toList
  gapIsSymbolicFf := false

def metadata : StreamMeta where
  streamArn := "aff4://ij".toList
  virtualSize := 6
  imageStreamSize := 9
  chunkSize := 4
  chunksPerSegment := 2
  compression := .null
  imageHashes := []
  mapMeta := some mapMeta

theorem parseTurtle_turtle : parseTurtle turtle = .ok metadata := by
  -- The kernel compares lists of characters faster than it unfolds string literals.
  unfold turtle
  simp only [String.reduceToList]
  decide +kernel

theorem not_bindsToOwnStream_longer :
    parseTurtle turtle = .ok metadata ∧ metadata.mapMeta = some mapMeta ∧
      ¬BindsToOwnStream turtle metadata mapMeta := by
  refine ⟨parseTurtle_turtle, rfl, fun binds => ?_⟩
  exact absurd binds.streamArn (by decide)

theorem bindsToOwnStream_iff_longer :
    BindsToOwnStream turtle metadata mapMeta ↔
      ∃ first, streamNode turtle "aff4://i".toList = some first ∧
        extractIri first = some "aff4://i".toList ∧
        ∃ node ∈ turtleBlocks turtle,
          SubjectOf node "aff4://i".toList ∧ SameGeometry node first :=
  bindsToOwnStream_iff parseTurtle_turtle rfl

end LongerSample

/-! ## The keybag of an encrypted stream -/

/-- The node an encrypted stream takes for its keybag. -/
def keyBagNode (turtle arn : Text) : Option Text :=
  (turtleBlocks turtle).find? fun node =>
    contains node arn && contains node "KeyBag".toList

/-- A node names a type among its tokens, possibly with a comma behind it. -/
def HasType (node type : Text) : Prop :=
  type ∈ splitWhitespace node ∨ type ++ [','] ∈ splitWhitespace node

theorem contains_of_hasType {node type : Text} (hasType : HasType node type) :
    contains node type = true := by
  rw [contains_iff]
  rcases hasType with alone | attached
  · exact infix_of_mem_splitWhitespace alone
  · exact (List.prefix_append type [',']).isInfix.trans
      (infix_of_mem_splitWhitespace attached)

/-- The object of a predicate is a quoted literal of this value. -/
def StatesLiteral (node predicate value : Text) : Prop :=
  ∃ before rest after,
    splitWhitespace node =
      before ++ predicate :: ('"' :: (value ++ '"' :: rest)) :: after ∧
    predicate ∉ before ∧ '"' ∉ value

/-- The fields of a password-wrapped keybag, as its node states them. -/
structure PasswordWrapped (platform : Platform) (node : Text) where
  saltHex : Text
  salt : Bytes
  iterations : UInt64
  keySize : UInt64
  wrappedKeyHex : Text
  wrappedKey : Bytes
  hasType : HasType node "aff4:PasswordWrappedKeyBag".toList
  states_salt : StatesLiteral node "aff4:salt".toList saltHex
  salt_eq : hexDecode saltHex = some salt
  iterations_eq :
    extractPredU64 node "aff4:iterations".toList = .ok iterations
  iterations_lt : iterations.toNat < 2 ^ 32
  keySize_eq : extractPredU64 node "aff4:keySizeInBytes".toList = .ok keySize
  keySize_lt : keySize.toNat < 2 ^ platform.usizeBits
  states_wrappedKey : StatesLiteral node "aff4:wrappedKey".toList wrappedKeyHex
  wrappedKey_eq : hexDecode wrappedKeyHex = some wrappedKey

/-- What a keybag node is. -/
inductive KeyBag (platform : Platform) (node : Text)
  | passwordWrapped (fields : PasswordWrapped platform node)
  | other (type : Text) (hasType : HasType node type)
      (isKeyBag : "KeyBag".toList <:+ type)
      (noPassword : ¬HasType node "aff4:PasswordWrappedKeyBag".toList)

/-- The node that is taken for an encrypted stream. -/
def encryptedNode (turtle : Text) : Option Text :=
  (turtleBlocks turtle).find? (contains · "aff4:EncryptedStream".toList)

/-- What is read off the node of an encrypted stream. -/
structure StreamFields (node : Text) where
  streamArn : Text
  chunkSize : UInt64
  chunksPerSegment : UInt64
  size : UInt64
  bagArn : Text
  streamArn_eq : extractIri node = some streamArn
  chunkSize_eq : extractPredU64 node "aff4:chunkSize".toList = .ok chunkSize
  chunkSize_ne_zero : chunkSize ≠ 0
  chunksPerSegment_eq :
    extractPredU64 node "aff4:chunksInSegment".toList = .ok chunksPerSegment
  chunksPerSegment_ne_zero : chunksPerSegment ≠ 0
  size_eq : extractPredU64 node "aff4:size".toList = .ok size
  bagArn_eq : extractPredIri node "aff4:keyBag".toList = some bagArn

/-- A document with one node of an encrypted stream, the node of its keybag, and
any other nodes, among them other keybags, in any order. -/
structure EncryptedDocument (platform : Platform) (turtle : Text) where
  streamNode : Text
  stream : StreamFields streamNode
  bagNode : Text
  stream_mem : streamNode ∈ turtleBlocks turtle
  stream_subject : SubjectOf streamNode stream.streamArn
  isStream : HasType streamNode "aff4:EncryptedStream".toList
  /-- No other node is one of an encrypted stream. -/
  onlyStream : ∀ node ∈ turtleBlocks turtle,
    HasType node "aff4:EncryptedStream".toList → node = streamNode
  bag_mem : bagNode ∈ turtleBlocks turtle
  bag_subject : SubjectOf bagNode stream.bagArn
  keyBag : KeyBag platform bagNode

namespace EncryptedDocument

variable {platform : Platform} {turtle : Text}
variable (document : EncryptedDocument platform turtle)

/-- The metadata of the stream and of a password-wrapped keybag. -/
def metadata (fields : PasswordWrapped platform document.bagNode) :
    EncryptedMeta where
  streamArn := document.stream.streamArn
  chunksPerSegment := document.stream.chunksPerSegment
  size := document.stream.size
  salt := fields.salt
  iterations := fields.iterations.toUInt32
  keySize := fields.keySize.toNat
  wrappedKey := fields.wrappedKey

/-- What is parsed is what the stream's own keybag is. -/
def FollowsSubject : Prop :=
  match document.keyBag with
  | .passwordWrapped fields =>
      parseEncryptedMeta platform turtle = .ok (document.metadata fields)
  | .other .. =>
      ∃ message, parseEncryptedMeta platform turtle = .error (.encrypted message)

/-- What the parser reads off two nodes, as a stream and as a keybag, is what the
stream and its own keybag are. -/
def ReadsAlike {first : Text} (read : StreamFields first) (node : Text) : Prop :=
  match document.keyBag with
  | .passwordWrapped fields =>
      contains node "PasswordWrappedKeyBag".toList = true ∧
        read.streamArn = document.stream.streamArn ∧
        read.chunksPerSegment = document.stream.chunksPerSegment ∧
        read.size = document.stream.size ∧
        extractPredU64 node "aff4:iterations".toList = .ok fields.iterations ∧
        extractPredU64 node "aff4:keySizeInBytes".toList = .ok fields.keySize ∧
        (extractPredQuoted node "aff4:salt".toList).bind hexDecode =
          some fields.salt ∧
        (extractPredQuoted node "aff4:wrappedKey".toList).bind hexDecode =
          some fields.wrappedKey
  | .other .. => contains node "PasswordWrappedKeyBag".toList = false

end EncryptedDocument

section Parsing

variable {platform : Platform} {turtle : Text}

/-- A result is not refused as malformed. -/
def IsSettled (result : Except Aff4Error α) : Prop :=
  ∀ message, result ≠ .error (.badFormat message)

theorem not_isSettled_badFormat (message : String) :
    ¬IsSettled (.error (.badFormat message) : Except Aff4Error α) :=
  fun settled => settled message rfl

theorem exists_badFormat_of_extractPredU64 {block predicate : Text} {error : Aff4Error}
    (refused : extractPredU64 block predicate = .error error) :
    ∃ message, error = .badFormat message := by
  unfold extractPredU64 parsePredU64 at refused
  dsimp only at refused
  repeat' split at refused
  all_goals cases refused
  all_goals exact ⟨_, rfl⟩

/-- A number that is needed has been read. -/
theorem IsSettled.extractPredU64_bind
    {block predicate : Text} {next : UInt64 → Except Aff4Error α}
    (settled : IsSettled (extractPredU64 block predicate >>= next)) :
    ∃ value, extractPredU64 block predicate = .ok value ∧ IsSettled (next value) := by
  cases read : extractPredU64 block predicate with
  | error error =>
      obtain ⟨message, rfl⟩ := exists_badFormat_of_extractPredU64 read
      rw [read] at settled
      exact absurd settled (not_isSettled_badFormat message)
  | ok value =>
      rw [read] at settled
      exact ⟨value, rfl, settled⟩

/-- Unless a document is malformed, a stream is read off its first node that
contains the name of the type, and some node is taken for the keybag. -/
theorem exists_streamFields
    (settled : IsSettled (parseEncryptedMeta platform turtle)) :
    ∃ first, encryptedNode turtle = some first ∧
      ∃ (read : StreamFields first) (node : Text),
        keyBagNode turtle read.bagArn = some node := by
  unfold parseEncryptedMeta at settled
  cases isFirst : encryptedNode turtle with
  | none =>
      unfold encryptedNode at isFirst
      simp only [isFirst] at settled
      exact absurd settled (not_isSettled_badFormat _)
  | some first =>
      refine ⟨first, rfl, ?_⟩
      unfold encryptedNode at isFirst
      simp only [isFirst] at settled
      cases streamArn_eq : extractIri first with
      | none =>
          simp only [streamArn_eq] at settled
          exact absurd settled (not_isSettled_badFormat _)
      | some streamArn =>
          simp only [streamArn_eq] at settled
          obtain ⟨chunkSize, chunkSize_eq, settled⟩ := settled.extractPredU64_bind
          obtain ⟨perSegment, perSegment_eq, settled⟩ := settled.extractPredU64_bind
          obtain ⟨size, size_eq, settled⟩ := settled.extractPredU64_bind
          by_cases degenerate : chunkSize = 0 ∨ perSegment = 0
          · rw [if_pos degenerate] at settled
            exact absurd settled (not_isSettled_badFormat _)
          · rw [if_neg degenerate] at settled
            rw [not_or] at degenerate
            cases bagArn_eq : extractPredIri first "aff4:keyBag".toList with
            | none =>
                simp only [bagArn_eq] at settled
                exact absurd settled (not_isSettled_badFormat _)
            | some bagArn =>
                simp only [bagArn_eq] at settled
                refine
                  ⟨{ streamArn, chunkSize, chunksPerSegment := perSegment, size, bagArn,
                     streamArn_eq, chunkSize_eq, chunkSize_ne_zero := degenerate.1,
                     chunksPerSegment_eq := perSegment_eq,
                     chunksPerSegment_ne_zero := degenerate.2, size_eq, bagArn_eq }, ?_⟩
                cases found : keyBagNode turtle bagArn with
                | some node => exact ⟨node, rfl⟩
                | none =>
                    unfold keyBagNode at found
                    simp only [found] at settled
                    exact absurd settled (not_isSettled_badFormat _)

/-- Parse the node that is taken for the keybag of a stream. -/
def parseKeyBag
    (platform : Platform) {first : Text} (read : StreamFields first) (node : Text) :
    Except Aff4Error EncryptedMeta := do
  if !contains node "PasswordWrappedKeyBag".toList then
    throw (.encrypted
      ("only password-wrapped keybags are supported " ++
        "(this container uses another keybag type)"))
  let iterations ← extractPredU64 node "aff4:iterations".toList
  if 2 ^ 32 ≤ iterations.toNat then
    throw (.badFormat "aff4:iterations out of range")
  let keySize ← extractPredU64 node "aff4:keySizeInBytes".toList
  if 2 ^ platform.usizeBits ≤ keySize.toNat then
    throw (.badFormat "aff4:keySizeInBytes out of range")
  let some salt := (extractPredQuoted node "aff4:salt".toList).bind hexDecode
    | throw (.badFormat "aff4:salt missing or not hex")
  let some wrappedKey :=
      (extractPredQuoted node "aff4:wrappedKey".toList).bind hexDecode
    | throw (.badFormat "aff4:wrappedKey missing or not hex")
  return { streamArn := read.streamArn, chunksPerSegment := read.chunksPerSegment,
           size := read.size, salt, iterations := iterations.toUInt32,
           keySize := keySize.toNat, wrappedKey }

section KeyBagNode

variable {first node : Text} (read : StreamFields first)

/-- A node that is not password-wrapped is refused. -/
theorem parseKeyBag_of_not_contains
    (other : contains node "PasswordWrappedKeyBag".toList = false) :
    ∃ message, parseKeyBag platform read node = .error (.encrypted message) := by
  unfold parseKeyBag
  rw [other]
  exact ⟨_, rfl⟩

/-- The fields of any other node are read. -/
theorem parseKeyBag_eq_ok_iff
    (password : contains node "PasswordWrappedKeyBag".toList = true)
    {metadata : EncryptedMeta} :
    parseKeyBag platform read node = .ok metadata ↔
      ∃ iterations keySize salt wrappedKey,
        extractPredU64 node "aff4:iterations".toList = .ok iterations ∧
        iterations.toNat < 2 ^ 32 ∧
        extractPredU64 node "aff4:keySizeInBytes".toList = .ok keySize ∧
        keySize.toNat < 2 ^ platform.usizeBits ∧
        (extractPredQuoted node "aff4:salt".toList).bind hexDecode = some salt ∧
        (extractPredQuoted node "aff4:wrappedKey".toList).bind hexDecode =
          some wrappedKey ∧
        metadata =
          { streamArn := read.streamArn
            chunksPerSegment := read.chunksPerSegment
            size := read.size
            salt
            iterations := iterations.toUInt32
            keySize := keySize.toNat
            wrappedKey } := by
  simp only [parseKeyBag, password, if_false, bind, Except.bind, pure, Except.pure,
    Bool.not_true, Bool.false_eq_true, throw, throwThe, MonadExceptOf.throw]
  constructor
  · intro parsed
    repeat' split at parsed
    all_goals cases parsed
    next readIterations small _ _ readKeySize narrow _ _ readSalt _ _ readKey =>
      exact ⟨_, _, _, _, readIterations, Nat.lt_of_not_le small, readKeySize,
        Nat.lt_of_not_le narrow, readSalt, readKey, rfl⟩
  · rintro ⟨iterations, keySize, salt, wrappedKey, readIterations, small,
      readKeySize, narrow, readSalt, readKey, rfl⟩
    simp only [readIterations, readKeySize, readSalt, readKey,
      Nat.not_le_of_lt small, Nat.not_le_of_lt narrow, if_false]

theorem parseKeyBag_ne_encrypted
    (password : contains node "PasswordWrappedKeyBag".toList = true)
    (message : String) :
    parseKeyBag platform read node ≠ .error (.encrypted message) := by
  intro refused
  simp only [parseKeyBag, password, if_false, bind, Except.bind, pure, Except.pure,
    Bool.not_true, Bool.false_eq_true, throw, throwThe, MonadExceptOf.throw] at refused
  repeat' split at refused
  all_goals cases refused
  all_goals exact extractPredU64_ne_encrypted ‹_›

end KeyBagNode

section Found

variable {first node : Text} (isFirst : encryptedNode turtle = some first)
variable (read : StreamFields first) (found : keyBagNode turtle read.bagArn = some node)

include isFirst found

/-- What is taken for the keybag decides. -/
theorem parseEncryptedMeta_eq :
    parseEncryptedMeta platform turtle = parseKeyBag platform read node := by
  have degenerate : ¬(read.chunkSize = 0 ∨ read.chunksPerSegment = 0) := by
    rw [not_or]
    exact ⟨read.chunkSize_ne_zero, read.chunksPerSegment_ne_zero⟩
  unfold keyBagNode at found
  unfold encryptedNode at isFirst
  simp only [parseEncryptedMeta, isFirst, read.streamArn_eq, read.chunkSize_eq,
    read.chunksPerSegment_eq, read.size_eq, read.bagArn_eq, found, degenerate, bind,
    Except.bind, if_false]
  rfl

/-- The parser follows the subject if and only if what it takes for the stream and
for its keybag reads like them. -/
theorem EncryptedDocument.followsSubject_iff_readsAlike
    (document : EncryptedDocument platform turtle) :
    document.FollowsSubject ↔ document.ReadsAlike read node := by
  rw [EncryptedDocument.FollowsSubject, EncryptedDocument.ReadsAlike,
    parseEncryptedMeta_eq isFirst read found]
  cases document.keyBag with
  | other type hasType isKeyBag noPassword =>
      dsimp only
      cases password : contains node "PasswordWrappedKeyBag".toList with
      | false =>
          exact iff_of_true (parseKeyBag_of_not_contains read password) rfl
      | true =>
          refine iff_of_false ?_ (by decide)
          rintro ⟨message, refused⟩
          exact parseKeyBag_ne_encrypted read password message refused
  | passwordWrapped fields =>
      dsimp only
      cases password : contains node "PasswordWrappedKeyBag".toList with
      | false =>
          obtain ⟨message, refused⟩ :=
            @parseKeyBag_of_not_contains platform _ _ read password
          rw [refused]
          exact iff_of_false (fun impossible => by cases impossible)
            fun reads => by cases reads.1
      | true =>
          rw [parseKeyBag_eq_ok_iff read password, and_iff_right rfl]
          constructor
          · rintro ⟨iterations, keySize, salt, wrappedKey, readIterations, small,
              readKeySize, narrow, readSalt, readKey, equal⟩
            rw [EncryptedDocument.metadata, EncryptedMeta.mk.injEq] at equal
            obtain ⟨sameArn, samePerSegment, sameSize, rfl, sameIterations, sameKeySize,
              rfl⟩ := equal
            have iterationsLt := fields.iterations_lt
            have equalIterations : fields.iterations = iterations := by
              have same := congrArg UInt32.toNat sameIterations
              rw [UInt64.toNat_toUInt32, UInt64.toNat_toUInt32,
                Nat.mod_eq_of_lt iterationsLt, Nat.mod_eq_of_lt small] at same
              exact UInt64.toNat_inj.mp same
            have equalKeySize : fields.keySize = keySize :=
              UInt64.toNat_inj.mp sameKeySize
            rw [equalIterations, equalKeySize]
            exact ⟨sameArn.symm, samePerSegment.symm, sameSize.symm, readIterations,
              readKeySize, readSalt, readKey⟩
          · rintro ⟨sameArn, samePerSegment, sameSize, readIterations, readKeySize,
              readSalt, readKey⟩
            refine ⟨_, _, _, _, readIterations, fields.iterations_lt, readKeySize,
              fields.keySize_lt, readSalt, readKey, ?_⟩
            rw [sameArn, samePerSegment, sameSize]
            rfl

end Found

/-- Keybags are settled: read, or refused as encrypted. -/
theorem EncryptedDocument.FollowsSubject.isSettled
    {document : EncryptedDocument platform turtle} (follows : document.FollowsSubject) :
    IsSettled (parseEncryptedMeta platform turtle) := by
  intro message malformed
  rw [EncryptedDocument.FollowsSubject, malformed] at follows
  split at follows
  · cases follows
  · obtain ⟨_, impossible⟩ := follows
    cases impossible

end Parsing

/-- The parser follows the subject if and only if the first node that contains the
name of the type can be read as a stream like the stream's own node, and the first
node that contains the keybag's ARN and `KeyBag` reads like the node whose subject
the ARN is. -/
theorem EncryptedDocument.followsSubject_iff
    (platform : Platform) (turtle : Text)
    (document : EncryptedDocument platform turtle) :
    document.FollowsSubject ↔
      ∃ first, encryptedNode turtle = some first ∧
        ∃ (read : StreamFields first) (node : Text),
          keyBagNode turtle read.bagArn = some node ∧ document.ReadsAlike read node := by
  constructor
  · intro follows
    obtain ⟨first, isFirst, read, node, found⟩ := exists_streamFields follows.isSettled
    refine ⟨first, isFirst, read, node, found, ?_⟩
    exact (document.followsSubject_iff_readsAlike isFirst read found).mp follows
  · rintro ⟨first, isFirst, read, node, found, alike⟩
    exact (document.followsSubject_iff_readsAlike isFirst read found).mpr alike

/-! A stream that names its keybag by an IRI with `KeyBag` in it: the stream's own
node is taken for the keybag, and refused. -/

namespace KeyBagSample

def turtle : Text :=
  "<s> a aff4:EncryptedStream;aff4:chunkSize 512;aff4:chunksInSegment 2;".toList ++
    "aff4:size 512;aff4:keyBag <KeyBag> . ".toList ++
    "<KeyBag> a aff4:PasswordWrappedKeyBag;aff4:iterations 9;".toList ++
    "aff4:keySizeInBytes 32;aff4:salt \"0a\";aff4:wrappedKey \"0b\" . ".toList

def streamNode : Text :=
  "<s> a aff4:EncryptedStream aff4:chunkSize 512 aff4:chunksInSegment 2 ".toList ++
    "aff4:size 512 aff4:keyBag <KeyBag>".toList

def bagNode : Text :=
  "<KeyBag> a aff4:PasswordWrappedKeyBag aff4:iterations 9 ".toList ++
    "aff4:keySizeInBytes 32 aff4:salt \"0a\" aff4:wrappedKey \"0b\"".toList

def streamTokens : List Text :=
  ["<s>", "a", "aff4:EncryptedStream", "aff4:chunkSize", "512",
    "aff4:chunksInSegment", "2", "aff4:size", "512", "aff4:keyBag",
    "<KeyBag>"].map String.toList

def bagTokens : List Text :=
  ["<KeyBag>", "a", "aff4:PasswordWrappedKeyBag", "aff4:iterations", "9",
    "aff4:keySizeInBytes", "32", "aff4:salt", "\"0a\"", "aff4:wrappedKey",
    "\"0b\""].map String.toList

theorem splitWhitespace_streamNode : splitWhitespace streamNode = streamTokens := by
  unfold streamNode
  simp only [String.reduceToList]
  decide +kernel

theorem splitWhitespace_bagNode : splitWhitespace bagNode = bagTokens := by
  unfold bagNode
  simp only [String.reduceToList]
  decide +kernel

theorem states_salt : StatesLiteral bagNode "aff4:salt".toList "0a".toList := by
  refine ⟨bagTokens.take 7, [], bagTokens.drop 9, ?_, ?_, by decide⟩
  · rw [splitWhitespace_bagNode]
    rfl
  · decide +kernel

theorem states_wrappedKey :
    StatesLiteral bagNode "aff4:wrappedKey".toList "0b".toList := by
  refine ⟨bagTokens.take 9, [], [], ?_, ?_, by decide⟩
  · rw [splitWhitespace_bagNode]
    rfl
  · decide +kernel

def fields : PasswordWrapped .debug64 bagNode where
  saltHex := "0a".toList
  salt := [0x0A]
  iterations := 9
  keySize := 32
  wrappedKeyHex := "0b".toList
  wrappedKey := [0x0B]
  hasType := .inl (by rw [splitWhitespace_bagNode]; decide +kernel)
  states_salt := states_salt
  salt_eq := rfl
  iterations_eq := by
    rw [extractPredU64, splitWhitespace_bagNode]
    decide +kernel
  iterations_lt := by decide
  keySize_eq := by
    rw [extractPredU64, splitWhitespace_bagNode]
    decide +kernel
  keySize_lt := by decide
  states_wrappedKey := states_wrappedKey
  wrappedKey_eq := rfl

theorem turtleBlocks_turtle : turtleBlocks turtle = [streamNode, bagNode, []] := by
  unfold turtle
  simp only [String.reduceToList]
  decide +kernel

theorem subjectOf_streamNode : SubjectOf streamNode "s".toList :=
  ⟨by decide, [], _, List.forall_mem_nil _, rfl⟩

def stream : StreamFields streamNode where
  streamArn := "s".toList
  chunkSize := 512
  chunksPerSegment := 2
  size := 512
  bagArn := "KeyBag".toList
  streamArn_eq := extractIri_of_subjectOf subjectOf_streamNode
  chunkSize_eq := by
    rw [extractPredU64, splitWhitespace_streamNode]
    decide +kernel
  chunkSize_ne_zero := by decide
  chunksPerSegment_eq := by
    rw [extractPredU64, splitWhitespace_streamNode]
    decide +kernel
  chunksPerSegment_ne_zero := by decide
  size_eq := by
    rw [extractPredU64, splitWhitespace_streamNode]
    decide +kernel
  bagArn_eq := by
    rw [extractPredIri, splitWhitespace_streamNode]
    decide +kernel

def document : EncryptedDocument .debug64 turtle where
  streamNode := streamNode
  stream := stream
  bagNode := bagNode
  stream_mem := turtleBlocks_turtle ▸ List.mem_cons_self ..
  stream_subject := subjectOf_streamNode
  isStream := .inl (by rw [splitWhitespace_streamNode]; decide +kernel)
  onlyStream := by
    have absent : contains bagNode "aff4:EncryptedStream".toList = false := by
      unfold bagNode
      simp only [String.reduceToList]
      decide +kernel
    rw [turtleBlocks_turtle, List.forall_mem_cons, List.forall_mem_cons,
      List.forall_mem_singleton]
    refine ⟨fun _ => rfl, fun mentions => ?_, fun mentions => ?_⟩
    · rw [contains_of_hasType mentions] at absent
      cases absent
    · cases contains_of_hasType mentions
  bag_mem := turtleBlocks_turtle ▸ List.mem_cons_of_mem _ (List.mem_cons_self ..)
  bag_subject := ⟨by decide, [], _, List.forall_mem_nil _, rfl⟩
  keyBag := .passwordWrapped fields

theorem parseEncryptedMeta_turtle : (parseEncryptedMeta .debug64 turtle).isOk = false := by
  unfold turtle
  simp only [String.reduceToList]
  decide +kernel

theorem not_followsSubject_keyBag : ¬document.FollowsSubject := by
  intro follows
  have parsed : parseEncryptedMeta .debug64 turtle =
      .ok (document.metadata fields) := follows
  have refused := parseEncryptedMeta_turtle
  rw [parsed] at refused
  cases refused

theorem followsSubject_iff_keyBag :
    ¬∃ first, encryptedNode turtle = some first ∧
      ∃ (read : StreamFields first) (node : Text),
        keyBagNode turtle read.bagArn = some node ∧ document.ReadsAlike read node := by
  intro alike
  have parsed : parseEncryptedMeta .debug64 turtle = .ok (document.metadata fields) :=
    (EncryptedDocument.followsSubject_iff .debug64 turtle document).mpr alike
  have refused := parseEncryptedMeta_turtle
  rw [parsed] at refused
  cases refused

end KeyBagSample

end Aff4
