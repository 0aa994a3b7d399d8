import Aff4.Archive

/-!
# The `information.turtle` parser

The parser is deliberately small.  It turns line breaks, tabs and semicolons
into spaces, cuts the document into nodes at `" . "`, picks the nodes it needs
by the words they contain, and reads each predicate off the node's
whitespace-separated tokens.
-/

namespace Aff4

open Rust Rust.Str

/-- A content digest declared on a node (`aff4:hash`). -/
structure StoredHash where
  /-- The RDF datatype without its `aff4:` prefix. -/
  algorithm : Text
  /-- The stored digest as lowercase hex. -/
  hex : Text
  deriving DecidableEq, Repr

/-- The codec of a stream's chunks. -/
inductive Compression
  | null
  | deflate
  | snappy
  | lz4
  deriving DecidableEq, Repr

/-- Metadata of the Map that wraps an ImageStream. -/
structure MapMeta where
  /-- ARN of the `aff4:Map`, which names `/map` and `/idx`. -/
  mapArn : Text
  /-- ARN of the dependent `aff4:ImageStream`. -/
  imageStreamArn : Text
  /-- Whether the gap default is `SymbolicStreamFF` instead of Zero. -/
  gapIsSymbolicFf : Bool
  deriving DecidableEq, Repr

structure StreamMeta where
  /-- ARN of the `aff4:ImageStream`, which names the bevies. -/
  streamArn : Text
  /-- Size of the virtual disk: the Map's where there is one. -/
  virtualSize : UInt64
  /-- Size of the decompressed ImageStream content. -/
  imageStreamSize : UInt64
  chunkSize : UInt64
  chunksPerSegment : UInt64
  compression : Compression
  /-- Digests declared on the ImageStream node. -/
  imageHashes : List StoredHash
  mapMeta : Option MapMeta
  deriving DecidableEq, Repr

/-! ## Reading a node -/

/-- Line breaks, tabs and semicolons become spaces. -/
def normalizeTurtle (turtle : Text) : Text :=
  turtle.map fun c =>
    if c = '\n' ∨ c = '\r' ∨ c = '\t' ∨ c = ';' then ' ' else c

/-- The nodes of a document. -/
def turtleBlocks (turtle : Text) : List Text :=
  split (normalizeTurtle turtle) " . ".toList

/-- Extract the first IRI (`<...>`) of a text. -/
def extractIri (text : Text) : Option Text := do
  let start := (← find text ['<']) + 1
  let length ← find (text.drop start) ['>']
  return (text.drop start).take length

/-- The pairs of consecutive tokens: `tokens.windows(2)`. -/
def windows2 (tokens : List Text) : List (Text × Text) :=
  tokens.zip tokens.tail

/-- Find `predicate` and extract the IRI that immediately follows it. -/
def extractPredIri (block predicate : Text) : Option Text :=
  (windows2 (splitWhitespace block)).findSome? fun (name, value) =>
    if name = predicate ∧ value.head? = some '<' ∧ value.getLast? = some '>' then
      some ((value.take (value.length - 1)).drop 1)
    else
      none

/-- Parse a plain `512` or a quoted `"512"^^xsd:integer`. -/
def parsePredU64 (predicate value : Text) : Except Aff4Error UInt64 :=
  let digits := (value.dropWhile (· == '"')).takeWhile isAsciiDigit
  let name := String.ofList predicate
  let shown := String.ofList digits
  if digits = [] then
    .error (.badFormat s!"no integer value after {name}")
  else
    match parseU64 digits with
    | some n => .ok n
    | none => .error (.badFormat s!"bad integer after {name}: {shown}")

/-- Find `predicate` among the tokens of a node and parse the next one. -/
def extractPredU64 (block predicate : Text) : Except Aff4Error UInt64 :=
  let name := String.ofList predicate
  match (windows2 (splitWhitespace block)).find? (·.1 = predicate) with
  | some (_, value) => parsePredU64 predicate value
  | none => .error (.badFormat s!"{name} not found in block")

/-- Extract the first quoted string after `predicate`: what lies between the
next `"` and the one that follows it. -/
def extractPredQuoted (block predicate : Text) : Option Text := do
  let afterPred := block.drop ((← find block predicate) + predicate.length)
  let rest := afterPred.drop ((← find afterPred ['"']) + 1)
  let close ← find rest ['"']
  return rest.take close

def detectCompression (block : Text) : Compression :=
  if contains block "snappy".toList ||
      contains block "google.com/p/snappy".toList then .snappy
  else if contains block "rfc1950".toList ||
      contains block "DeflateCompressor".toList then .deflate
  else if contains block "lz4".toList ||
      contains block "github.com/lz4".toList then .lz4
  else .null

/-! ## Declared digests -/

/-- Parse one `"<hex>"^^aff4:<ALGO>` hash term.  The datatype may carry a
trailing comma, written without a space before it. -/
def parseHashTerm (token : Text) : Option StoredHash := do
  let rest ← stripPrefix token ['"']
  let (hex, dtype) ← splitOnce rest "\"^^aff4:".toList
  if hex = [] ∨ ¬hex.all isAsciiHexdigit then none
  else
    let algorithm := dtype.rdropWhile fun c => !isAsciiAlphanumeric c
    if algorithm = [] then none
    else some { algorithm, hex := toAsciiLowercase hex }

/-- Scan tokens for `aff4:hash` and collect the terms that follow it.  The flag
is set while the list after an `aff4:hash` is being read; the first token that
is neither a comma nor a term ends the list and is looked at again, since it may
be another `aff4:hash`. -/
def scanImageHashes : Bool → List Text → List StoredHash
  | _, [] => []
  | false, token :: rest =>
      scanImageHashes (token = "aff4:hash".toList) rest
  | true, token :: rest =>
      if token = [','] then scanImageHashes true rest
      else
        match parseHashTerm token with
        | some hash => hash :: scanImageHashes true rest
        | none => scanImageHashes (token = "aff4:hash".toList) rest

/-- Parse the `aff4:hash` content digests declared on a node. -/
def parseImageHashes (block : Text) : List StoredHash :=
  scanImageHashes false (splitWhitespace block)

/-! ## Disk images -/

/-- Extract chunk geometry from an ImageStream node and assemble `StreamMeta`.
A Map's metadata and virtual size replace the node's own size. -/
def parseImageStreamBlock
    (block : Text) (mapOverride : Option (MapMeta × UInt64)) :
    Except Aff4Error StreamMeta := do
  let some streamArn := extractIri block
    | throw (.badFormat "stream IRI not found in ImageStream block")
  let chunkSize ← extractPredU64 block "aff4:chunkSize".toList
  let chunksPerSegment ← extractPredU64 block "aff4:chunksInSegment".toList
  if chunkSize = 0 then
    throw (.badFormat "aff4:chunkSize must be > 0")
  if chunksPerSegment = 0 then
    throw (.badFormat "aff4:chunksInSegment must be > 0")
  let compression := detectCompression block
  let imageStreamSize ← extractPredU64 block "aff4:size".toList
  let imageHashes := parseImageHashes block
  let (virtualSize, mapMeta) :=
    match mapOverride with
    | some (mapMeta, virtualSize) => (virtualSize, some mapMeta)
    | none => (imageStreamSize, none)
  return { streamArn, virtualSize, imageStreamSize, chunkSize,
           chunksPerSegment, compression, imageHashes, mapMeta }

/-- Parse metadata when a Map node is present. -/
def parseMapTurtle
    (blocks : List Text) (mapBlock : Text) : Except Aff4Error StreamMeta := do
  let some mapArn := extractIri mapBlock
    | throw (.badFormat "Map IRI not found in aff4:Map block")
  let virtualSize ← extractPredU64 mapBlock "aff4:size".toList
  let some depArn := extractPredIri mapBlock "aff4:dependentStream".toList
    | throw (.badFormat "aff4:dependentStream not found in Map block")
  let gapIsSymbolicFf := contains mapBlock "SymbolicStreamFF".toList
  let shown := String.ofList depArn
  let some imageBlock := blocks.find? fun block =>
      contains block "ImageStream".toList && contains block depArn
    | throw (.badFormat s!"dependent ImageStream {shown} not found in turtle")
  let mapMeta := { mapArn, imageStreamArn := depArn, gapIsSymbolicFf }
  parseImageStreamBlock imageBlock (some (mapMeta, virtualSize))

/-- Parse `information.turtle` as a disk image.  An encrypted volume is refused
before anything else is looked at. -/
def parseTurtle (turtle : Text) : Except Aff4Error StreamMeta := do
  let blocks := turtleBlocks turtle
  if let some block :=
      blocks.find? (contains · "aff4:EncryptedStream".toList) then
    let arn := String.ofList ((extractIri block).getD "<unknown stream>".toList)
    throw (.encrypted
      (s!"stream {arn} is an aff4:EncryptedStream (AES-XTS); " ++
        "provide-key decryption is not yet implemented"))
  if let some mapBlock := blocks.find? (contains · "aff4:Map".toList) then
    return ← parseMapTurtle blocks mapBlock
  let some imageBlock := blocks.find? (contains · "ImageStream".toList)
    | throw (.badFormat "no aff4:ImageStream found in metadata")
  parseImageStreamBlock imageBlock none

/-- What the metadata of every accepted disk image satisfies. -/
structure StreamMeta.WellFormed (metadata : StreamMeta) : Prop where
  chunkSize_ne_zero : metadata.chunkSize ≠ 0
  chunksPerSegment_ne_zero : metadata.chunksPerSegment ≠ 0
  virtualSize_of_direct :
    metadata.mapMeta = none → metadata.virtualSize = metadata.imageStreamSize

theorem parseImageStreamBlock_wellFormed
    {block : Text} {mapOverride : Option (MapMeta × UInt64)}
    {metadata : StreamMeta}
    (parsed : parseImageStreamBlock block mapOverride = .ok metadata) :
    metadata.WellFormed := by
  simp only [parseImageStreamBlock, bind, Except.bind, pure, Except.pure, throw,
    throwThe, MonadExceptOf.throw] at parsed
  repeat' split at parsed
  all_goals cases parsed
  · exact ⟨by assumption, by assumption, fun direct => by cases direct⟩
  · exact ⟨by assumption, by assumption, fun _ => rfl⟩

theorem parseMapTurtle_wellFormed
    {blocks : List Text} {mapBlock : Text} {metadata : StreamMeta}
    (parsed : parseMapTurtle blocks mapBlock = .ok metadata) :
    metadata.WellFormed := by
  simp only [parseMapTurtle, bind, Except.bind, throw, throwThe,
    MonadExceptOf.throw] at parsed
  repeat' split at parsed
  all_goals first
    | exact parseImageStreamBlock_wellFormed parsed
    | cases parsed

/-- The metadata of an accepted disk image is well formed. -/
theorem parseTurtle_wellFormed
    {turtle : Text} {metadata : StreamMeta}
    (parsed : parseTurtle turtle = .ok metadata) :
    metadata.WellFormed := by
  simp only [parseTurtle, bind, Except.bind, throw, throwThe,
    MonadExceptOf.throw] at parsed
  repeat' split at parsed
  all_goals first
    | exact parseMapTurtle_wellFormed parsed
    | exact parseImageStreamBlock_wellFormed parsed
    | cases parsed

/-! ## Logical files -/

/-- Parsed metadata of one `aff4:FileImage` node. -/
structure LogicalFileMeta where
  /-- The node's IRI; its path tail names the ZIP segment. -/
  arn : Text
  originalFileName : Text
  size : UInt64
  hashes : List StoredHash
  lastWritten : Option Text
  deriving DecidableEq, Repr

/-- Parse one `aff4:FileImage` node.  The size may be missing, since the length
of the ZIP segment is authoritative; the name defaults to the IRI. -/
def parseLogicalFile (block : Text) : Except Aff4Error LogicalFileMeta := do
  let some arn := extractIri block
    | throw (.badFormat "FileImage node has no IRI subject")
  let size := (extractPredU64 block "aff4:size".toList).toOption.getD 0
  let originalFileName :=
    (extractPredQuoted block "aff4:originalFileName".toList).getD arn
  let hashes := parseImageHashes block
  let lastWritten := extractPredQuoted block "aff4:lastWritten".toList
  return { arn, originalFileName, size, hashes, lastWritten }

/-- Parse all `aff4:FileImage` nodes of a document, in order. -/
def parseLogicalFiles (turtle : Text) :
    Except Aff4Error (List LogicalFileMeta) :=
  ((turtleBlocks turtle).filter (contains · "aff4:FileImage".toList)).mapM
    parseLogicalFile

/-! ## Encrypted streams -/

/-- Metadata of an `aff4:EncryptedStream` and its password-wrapped keybag. -/
structure EncryptedMeta where
  /-- The IRI of the stream, which names its bevies. -/
  streamArn : Text
  chunksPerSegment : UInt64
  /-- Plaintext length of the decrypted stream. -/
  size : UInt64
  /-- PBKDF2 salt. -/
  salt : Bytes
  /-- PBKDF2 iteration count. -/
  iterations : UInt32
  /-- Derived-key size in bytes. -/
  keySize : Nat
  /-- The wrapped volume encryption key. -/
  wrappedKey : Bytes
  deriving DecidableEq, Repr

/-- Decode an even-length ASCII hex string. -/
def hexDecode : Text → Option Bytes
  | [] => some []
  | [_] => none
  | hi :: lo :: rest => do
      let hi ← toDigit16 hi
      let lo ← toDigit16 lo
      return UInt8.ofNat (hi * 16 + lo) :: (← hexDecode rest)

/-- Parse an `aff4:EncryptedStream` and its `aff4:PasswordWrappedKeyBag`. -/
def parseEncryptedMeta
    (platform : Platform) (turtle : Text) : Except Aff4Error EncryptedMeta := do
  let blocks := turtleBlocks turtle
  let some streamBlock :=
      blocks.find? (contains · "aff4:EncryptedStream".toList)
    | throw (.badFormat "no aff4:EncryptedStream in metadata")
  let some streamArn := extractIri streamBlock
    | throw (.badFormat "EncryptedStream has no IRI")
  let chunkSize ← extractPredU64 streamBlock "aff4:chunkSize".toList
  let chunksPerSegment ←
    extractPredU64 streamBlock "aff4:chunksInSegment".toList
  let size ← extractPredU64 streamBlock "aff4:size".toList
  if chunkSize = 0 ∨ chunksPerSegment = 0 then
    throw (.badFormat "EncryptedStream chunk geometry must be > 0")
  let some keybagArn := extractPredIri streamBlock "aff4:keyBag".toList
    | throw (.badFormat "EncryptedStream has no aff4:keyBag")
  let shown := String.ofList keybagArn
  let some keybagBlock := blocks.find? fun block =>
      contains block keybagArn && contains block "KeyBag".toList
    | throw (.badFormat s!"keybag {shown} not found")
  if !contains keybagBlock "PasswordWrappedKeyBag".toList then
    throw (.encrypted
      ("only password-wrapped keybags are supported " ++
        "(this container uses another keybag type)"))
  let iterations ← extractPredU64 keybagBlock "aff4:iterations".toList
  if 2 ^ 32 ≤ iterations.toNat then
    throw (.badFormat "aff4:iterations out of range")
  let keySize ← extractPredU64 keybagBlock "aff4:keySizeInBytes".toList
  if 2 ^ platform.usizeBits ≤ keySize.toNat then
    throw (.badFormat "aff4:keySizeInBytes out of range")
  let some salt :=
      (extractPredQuoted keybagBlock "aff4:salt".toList).bind hexDecode
    | throw (.badFormat "aff4:salt missing or not hex")
  let some wrappedKey :=
      (extractPredQuoted keybagBlock "aff4:wrappedKey".toList).bind hexDecode
    | throw (.badFormat "aff4:wrappedKey missing or not hex")
  return { streamArn, chunksPerSegment, size, salt,
           iterations := iterations.toUInt32, keySize := keySize.toNat,
           wrappedKey }

/-- An accepted encrypted stream has chunks in its segments. -/
theorem parseEncryptedMeta_chunksPerSegment
    {platform : Platform} {turtle : Text} {metadata : EncryptedMeta}
    (parsed : parseEncryptedMeta platform turtle = .ok metadata) :
    metadata.chunksPerSegment ≠ 0 := by
  simp only [parseEncryptedMeta, bind, Except.bind, pure, Except.pure, throw,
    throwThe, MonadExceptOf.throw] at parsed
  repeat' split at parsed
  all_goals cases parsed
  have positive := ‹¬(_ = (0 : UInt64) ∨ _ = (0 : UInt64))›
  exact fun zero => positive (.inr zero)

end Aff4
