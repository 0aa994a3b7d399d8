import Mathlib.Logic.Equiv.Basic
import Aff4.Bevy
import Aff4.Meta

/-!
# Decryption of `aff4:EncryptedStream` containers

The ciphertext is a stream of chunks, each one XTS sector whose tweak is the
chunk's global index.  The volume key is wrapped in a password-derived keybag.
-/

namespace Aff4

open Rust

/-- The cryptographic primitives.  A sector is decrypted in place, so its length
does not change. -/
structure CryptoCrates where
  /-- `pbkdf2_hmac::<Sha256>(password, salt, iterations, &mut kek)`. -/
  pbkdf2HmacSha256 : Bytes → Bytes → UInt32 → Vector UInt8 32
  /-- `KekAes256::unwrap` into a 32-byte buffer. -/
  kekUnwrap : Vector UInt8 32 → Bytes → Option (Vector UInt8 32)
  /-- `Xts128::decrypt_sector` for two 16-byte keys and a 16-byte tweak. -/
  xtsDecryptSector : Bytes → Bytes → Bytes → Bytes → Bytes
  xtsDecryptSector_length : ∀ key1 key2 tweak sector,
    (xtsDecryptSector key1 key2 tweak sector).length = sector.length
  /-- `get_tweak_default`: a sector number as the 16 little-endian bytes of a
  `u128`. -/
  getTweakDefault : Nat → Bytes
  getTweakDefault_eq : ∀ sectorIndex,
    getTweakDefault sectorIndex = LittleEndian.encode 16 sectorIndex

/-- Derive the volume encryption key. -/
def deriveVek
    (crypto : CryptoCrates) (password : Text) (metadata : EncryptedMeta) :
    Except Aff4Error (Vector UInt8 32) :=
  let keySize := metadata.keySize
  if keySize ≠ 32 then
    .error (.encrypted
      (s!"unsupported keySizeInBytes {keySize} " ++
        "(only 32-byte AES-128-XTS keys are supported)"))
  else
    let kek := crypto.pbkdf2HmacSha256 (Str.asBytes password)
      metadata.salt metadata.iterations
    match crypto.kekUnwrap kek metadata.wrappedKey with
    | some vek => .ok vek
    | none =>
        .error (.encrypted
          "wrong password (key-unwrap integrity check failed)")

namespace Decrypt

/-- An XTS cipher keyed with the two halves of the volume key, and the tweak of a
sector. -/
structure Xts where
  decryptSector : Bytes → Bytes → Bytes
  decryptSector_length : ∀ tweak sector,
    (decryptSector tweak sector).length = sector.length
  getTweakDefault : Nat → Bytes

/-- The cipher of a volume key.  Each half of the key has the 16 bytes an AES-128
key needs, so neither key can be refused. -/
def xts (crypto : CryptoCrates) (vek : Vector UInt8 32) : Xts where
  decryptSector :=
    crypto.xtsDecryptSector (vek.toList.take 16) (vek.toList.drop 16)
  decryptSector_length :=
    crypto.xtsDecryptSector_length (vek.toList.take 16) (vek.toList.drop 16)
  getTweakDefault := crypto.getTweakDefault

theorem xts_decryptSector
    (crypto : CryptoCrates) (vek : Vector UInt8 32) (tweak sector : Bytes) :
    (xts crypto vek).decryptSector tweak sector =
      crypto.xtsDecryptSector (vek.toList.take 16) (vek.toList.drop 16) tweak sector :=
  rfl

theorem xts_getTweakDefault (crypto : CryptoCrates) (vek : Vector UInt8 32) :
    (xts crypto vek).getTweakDefault = crypto.getTweakDefault := rfl

/-- One decrypted chunk: where it came from, the tweak it was decrypted with and
the bytes appended to the output. -/
structure Visit where
  segment : UInt64
  chunkInSeg : UInt64
  tweak : UInt64
  appended : Bytes
  deriving DecidableEq, Repr

section

variable (platform : Platform) (crypto : CryptoCrates)
  (archive : ZipArchive) (zipBase : Text) (metadata : EncryptedMeta)
  (cipher : Xts)

/-- `xts.decrypt_sector`, which panics on less than one cipher block. -/
def decryptSector (sector : Bytes) (tweak : UInt64) :
    Outcome Aff4Error Bytes :=
  if sector.length < 16 then
    .panic (.explicit "sector shorter than one block")
  else
    .ok (cipher.decryptSector (cipher.getTweakDefault tweak.toNat) sector)

/-- Decrypt the chunk of one index entry. -/
def decryptChunk
    (index bevy : Bytes) (segment chunkInSeg produced : UInt64) :
    Outcome Aff4Error Visit := do
  let (start, stop) ← chunkBoundsFromIndex platform index chunkInSeg
  let bevySize := bevy.length
  if bevySize < stop then
    .err (.badFormat
      (s!"encrypted chunk bounds ({start}..{stop}) exceed bevy size " ++
        s!"({bevySize})"))
  else
    let sector ← slice bevy start stop
    let chunkId ← Outcome.okOr (.badFormat "encrypted chunk index overflow")
      ((checkedMulU64 segment metadata.chunksPerSegment).bind
        (checkedAddU64 · chunkInSeg))
    let sector ← decryptSector cipher sector chunkId
    let remaining ← subU64 platform metadata.size produced
    let take :=
      asUsize platform (UInt64.ofNat (min sector.length remaining.toNat))
    let appended ← slice sector 0 take
    return { segment, chunkInSeg, tweak := chunkId, appended }

/-- The chunk loop over the entries of one segment's index, from entry
`chunkInSeg` on: the visits it makes and the count of bytes produced so far. -/
def segmentLoop (index bevy : Bytes) (segment : UInt64) :
    Nat → Nat → UInt64 → Outcome Aff4Error (List Visit × UInt64)
  | 0, _, produced => .ok ([], produced)
  | entries + 1, chunkInSeg, produced =>
      if metadata.size ≤ produced then .ok ([], produced)
      else do
        let visit ← decryptChunk platform metadata cipher index bevy segment
          (UInt64.ofNat chunkInSeg) produced
        let produced ←
          addU64 platform produced (UInt64.ofNat visit.appended.length)
        let (visits, produced) ←
          segmentLoop index bevy segment entries (chunkInSeg + 1) produced
        return (visit :: visits, produced)

/-- The segment loop `while produced < meta.size`.  A pass that does not end it
decrypts at least one chunk of at least one block, so as many passes as there
are bytes to produce are enough. -/
def streamLoop : Nat → UInt64 → UInt64 → Outcome Aff4Error (List Visit)
  | 0, _, _ => .ok []
  | passes + 1, segment, produced =>
      if metadata.size ≤ produced then .ok []
      else do
        let index ← .ofExcept (archive.readEntry (indexName zipBase segment))
        let bevy ← .ofExcept (archive.readEntry (segmentName zipBase segment))
        let chunksInSegment := index.length / 12
        if chunksInSegment = 0 then
          .err (.badFormat "encrypted segment has an empty chunk index")
        else
          let (visits, produced) ←
            segmentLoop platform metadata cipher index bevy segment
              chunksInSegment 0 produced
          let next ← Outcome.okOr
            (.badFormat "encrypted segment index overflow")
            (checkedAddU64 segment 1)
          let rest ← streamLoop passes next produced
          return visits ++ rest

end
end Decrypt

/-- The chunks `decrypt_reader` decrypts, in order. -/
def decryptVisits
    (platform : Platform) (crates : Crates) (crypto : CryptoCrates)
    (backing : Bytes) (password : Text) :
    Outcome Aff4Error (List Decrypt.Visit) := do
  let archive ← .ofExcept ((crates.zipArchiveNew backing).mapError .zip)
  let turtle ← .ofExcept
    (archive.readEntryToString "information.turtle".toList)
  let metadata ← .ofExcept (parseEncryptedMeta platform turtle)
  let vek ← .ofExcept (deriveVek crypto password metadata)
  let zipBase := detectZipBase archive metadata.streamArn
  withCapacity platform (asUsize platform metadata.size)
  Decrypt.streamLoop platform archive zipBase metadata
    (Decrypt.xts crypto vek) metadata.size.toNat 0 0

/-- Decrypt an encrypted AFF4 container, returning the plaintext of its stream:
the output is what the chunks append to it, in order. -/
def decryptReader
    (platform : Platform) (crates : Crates) (crypto : CryptoCrates)
    (backing : Bytes) (password : Text) : Outcome Aff4Error Bytes := do
  let visits ← decryptVisits platform crates crypto backing password
  return visits.flatMap Decrypt.Visit.appended

/-- The parts every encrypted container that can be decrypted has. -/
structure EncryptedContainer
    (platform : Platform) (crates : Crates) (backing : Bytes) where
  archive : ZipArchive
  turtle : Text
  metadata : EncryptedMeta
  archive_eq : crates.zipArchiveNew backing = .ok archive
  turtle_eq : archive.readEntryToString "information.turtle".toList = .ok turtle
  metadata_eq : parseEncryptedMeta platform turtle = .ok metadata

namespace EncryptedContainer

variable {platform : Platform} {crates : Crates} {backing : Bytes}
variable (container : EncryptedContainer platform crates backing)

/-- The base of the entries of the encrypted stream. -/
def zipBase : Text :=
  detectZipBase container.archive container.metadata.streamArn

/-- The segment loop, given the volume key. -/
def decryptWith (crypto : CryptoCrates) (vek : Vector UInt8 32) :
    Outcome Aff4Error (List Decrypt.Visit) :=
  Decrypt.streamLoop platform container.archive container.zipBase
    container.metadata (Decrypt.xts crypto vek)
    container.metadata.size.toNat 0 0

theorem decryptVisits_eq (crypto : CryptoCrates) (password : Text) :
    decryptVisits platform crates crypto backing password =
      (.ofExcept (deriveVek crypto password container.metadata) >>= fun vek =>
        withCapacity platform (asUsize platform container.metadata.size) >>=
          fun _ => container.decryptWith crypto vek) := by
  simp only [decryptVisits, container.archive_eq, Except.mapError,
    Outcome.ofExcept_ok, Outcome.ok_bind, container.turtle_eq,
    container.metadata_eq]
  rfl

end EncryptedContainer

namespace Decrypt

variable {platform : Platform} {metadata : EncryptedMeta} {cipher : Xts}

/-- The stored bytes an index entry points to. -/
def storedChunk (index bevy : Bytes) (chunkInSeg : Nat) : Bytes :=
  (bevy.drop (entryOffset (indexEntryAt index chunkInSeg)).toNat).take
    (entryLength (indexEntryAt index chunkInSeg)).toNat

/-- The global index of an entry of a segment. -/
def chunkId (metadata : EncryptedMeta) (segment chunkInSeg : Nat) : Nat :=
  segment * metadata.chunksPerSegment.toNat + chunkInSeg

/-- The chunk of an index entry lies inside its bevy, fills a cipher block and
has a number. -/
structure Decryptable
    (metadata : EncryptedMeta) (index bevy : Bytes)
    (segment chunkInSeg : Nat) : Prop where
  listed : chunkInSeg * 12 + 12 ≤ index.length
  inside : (entryOffset (indexEntryAt index chunkInSeg)).toNat +
    (entryLength (indexEntryAt index chunkInSeg)).toNat ≤ bevy.length
  block : 16 ≤ (entryLength (indexEntryAt index chunkInSeg)).toNat
  numbered : chunkId metadata segment chunkInSeg < 2 ^ 64

/-- What is decrypted at an entry when `produced` bytes came before it. -/
def visitAt
    (metadata : EncryptedMeta) (cipher : Xts) (index bevy : Bytes)
    (segment chunkInSeg produced : UInt64) : Visit :=
  let number := chunkId metadata segment.toNat chunkInSeg.toNat
  { segment, chunkInSeg
    tweak := UInt64.ofNat number
    appended :=
      (cipher.decryptSector (cipher.getTweakDefault number)
        (storedChunk index bevy chunkInSeg.toNat)).take
        (metadata.size.toNat - produced.toNat) }

theorem length_storedChunk
    {index bevy : Bytes} {chunkInSeg : Nat}
    (inside : (entryOffset (indexEntryAt index chunkInSeg)).toNat +
      (entryLength (indexEntryAt index chunkInSeg)).toNat ≤ bevy.length) :
    (storedChunk index bevy chunkInSeg).length =
      (entryLength (indexEntryAt index chunkInSeg)).toNat := by
  simp only [storedChunk, List.length_take, List.length_drop]
  omega

/-- The checked computation of a chunk's global index. -/
theorem checkedChunkId (metadata : EncryptedMeta) (segment chunkInSeg : UInt64) :
    (checkedMulU64 segment metadata.chunksPerSegment).bind
        (checkedAddU64 · chunkInSeg) =
      if chunkId metadata segment.toNat chunkInSeg.toNat < 2 ^ 64 then
        some (UInt64.ofNat (chunkId metadata segment.toNat chunkInSeg.toNat))
      else none := by
  unfold checkedMulU64 chunkId
  by_cases product : segment.toNat * metadata.chunksPerSegment.toNat < 2 ^ 64
  · have narrow : (segment * metadata.chunksPerSegment).toNat =
        segment.toNat * metadata.chunksPerSegment.toNat := by
      rw [UInt64.toNat_mul, Nat.mod_eq_of_lt product]
    rw [if_pos product, Option.bind_some, checkedAddU64, narrow]
    congr 2
    rw [UInt64.ofNat_add, UInt64.ofNat_mul, UInt64.ofNat_toNat,
      UInt64.ofNat_toNat, UInt64.ofNat_toNat]
  · rw [if_neg product, if_neg (by omega), Option.bind_none]

/-- What the source's cipher panics with on a sector that fills no block. -/
def shortSector : Panic := .explicit "sector shorter than one block"

/-- The chunk of an index entry lies inside its bevy and has a number, but does
not fill a cipher block. -/
structure ShortSector
    (metadata : EncryptedMeta) (index bevy : Bytes)
    (segment chunkInSeg : Nat) : Prop where
  listed : chunkInSeg * 12 + 12 ≤ index.length
  inside : (entryOffset (indexEntryAt index chunkInSeg)).toNat +
    (entryLength (indexEntryAt index chunkInSeg)).toNat ≤ bevy.length
  short : (entryLength (indexEntryAt index chunkInSeg)).toNat < 16
  numbered : chunkId metadata segment chunkInSeg < 2 ^ 64

theorem ShortSector.not_decryptable
    {index bevy : Bytes} {segment chunkInSeg : Nat}
    (short : ShortSector metadata index bevy segment chunkInSeg) :
    ¬Decryptable metadata index bevy segment chunkInSeg := by
  intro decryptable
  have block := decryptable.block
  have below := short.short
  omega

/-- All that can happen at a listed entry: its chunk is decrypted and adds the
beginning of its plaintext to the output, the cipher panics, or the entry is
refused. -/
theorem decryptChunk_cases
    (wide : platform.Is64Bit) (cipher : Xts)
    {index bevy : Bytes} (indexShort : index.length < 2 ^ 63)
    (bevyShort : bevy.length < 2 ^ 63) (segment : UInt64)
    {chunkInSeg produced : UInt64} (more : produced < metadata.size)
    (listed : chunkInSeg.toNat * 12 + 12 ≤ index.length) :
    let decrypted := decryptChunk platform metadata cipher index bevy segment
      chunkInSeg produced
    (Decryptable metadata index bevy segment.toNat chunkInSeg.toNat ∧
      decrypted =
        .ok (visitAt metadata cipher index bevy segment chunkInSeg produced)) ∨
    (ShortSector metadata index bevy segment.toNat chunkInSeg.toNat ∧
      decrypted = .panic shortSector) ∨
    (¬Decryptable metadata index bevy segment.toNat chunkInSeg.toNat ∧
      ¬ShortSector metadata index bevy segment.toNat chunkInSeg.toNat ∧
      ∃ error, decrypted = .err error) := by
  intro decrypted
  set offset := (entryOffset (indexEntryAt index chunkInSeg.toNat)).toNat
    with offset_eq
  set length := (entryLength (indexEntryAt index chunkInSeg.toNat)).toNat
    with length_eq
  have bounds := chunkBoundsFromIndex_of_le wide indexShort listed
  by_cases inside : offset + length ≤ bevy.length
  case neg =>
    refine .inr (.inr ⟨fun reads => inside reads.inside,
      fun short => inside short.inside, ?_⟩)
    simp only [decrypted, decryptChunk, bounds]
    split
    · rw [Outcome.ok_bind]
      dsimp only
      rw [if_pos (by omega)]
      exact ⟨_, rfl⟩
    · exact ⟨_, rfl⟩
  have sector : (slice bevy offset (offset + length) : Outcome Aff4Error Bytes) =
      .ok (storedChunk index bevy chunkInSeg.toNat) := by
    rw [slice_of_le (Nat.le_add_right _ _) inside, drop_take_add, storedChunk]
  simp only [decrypted, decryptChunk, bounds]
  rw [if_pos (by omega), Outcome.ok_bind]
  dsimp only
  rw [if_neg (by omega), sector, Outcome.ok_bind, checkedChunkId]
  by_cases numbered : chunkId metadata segment.toNat chunkInSeg.toNat < 2 ^ 64
  case neg =>
    rw [if_neg numbered]
    exact .inr (.inr ⟨fun reads => numbered reads.numbered,
      fun short => numbered short.numbered, _, rfl⟩)
  rw [if_pos numbered, Outcome.okOr_some, Outcome.ok_bind, decryptSector,
    length_storedChunk inside, ← length_eq]
  by_cases block : 16 ≤ length
  case neg =>
    rw [if_pos (by omega)]
    exact .inr (.inl ⟨⟨listed, inside, by omega, numbered⟩, rfl⟩)
  have less : produced.toNat ≤ metadata.size.toNat :=
    Nat.le_of_lt (UInt64.lt_iff_toNat_lt.mp more)
  have difference : (metadata.size - produced).toNat =
      metadata.size.toNat - produced.toNat :=
    UInt64.toNat_sub_of_le _ _ (UInt64.le_iff_toNat_le.mpr less)
  rw [if_neg (by omega), Outcome.ok_bind, subU64_of_le (UInt64.le_iff_toNat_le.mpr less),
    Outcome.ok_bind]
  have plainLength := (cipher.decryptSector_length
    (cipher.getTweakDefault (chunkId metadata segment.toNat chunkInSeg.toNat))
    (storedChunk index bevy chunkInSeg.toNat)).trans (length_storedChunk inside)
  have small := (entryLength (indexEntryAt index chunkInSeg.toNat)).toNat_lt
  rw [toNat_ofNat_of_lt numbered, plainLength, difference,
    asUsize_of_is64Bit wide, toNat_ofNat_of_lt (by omega),
    slice_zero_of_le (by omega), Outcome.ok_bind, ← plainLength, Nat.min_comm,
    ← List.take_eq_take_min]
  exact .inl ⟨⟨listed, inside, block, numbered⟩, rfl⟩

/-- The chunk of an entry is decrypted exactly when it is decryptable. -/
theorem decryptChunk_eq_ok
    (wide : platform.Is64Bit)
    {index bevy : Bytes} (indexShort : index.length < 2 ^ 63)
    (bevyShort : bevy.length < 2 ^ 63)
    {segment chunkInSeg produced : UInt64} (more : produced < metadata.size)
    {visit : Visit} :
    decryptChunk platform metadata cipher index bevy segment chunkInSeg
        produced = .ok visit ↔
      Decryptable metadata index bevy segment.toNat chunkInSeg.toNat ∧
        visit = visitAt metadata cipher index bevy segment chunkInSeg produced := by
  by_cases listed : chunkInSeg.toNat * 12 + 12 ≤ index.length
  case neg =>
    refine iff_of_false (fun decrypted => listed ?_)
      (fun reads => listed reads.1.listed)
    obtain ⟨bounds, decoded, -⟩ := Outcome.bind_eq_ok.mp decrypted
    exact le_of_chunkBoundsFromIndex_eq_ok wide decoded
  rcases decryptChunk_cases wide cipher indexShort bevyShort segment more
      listed with
    ⟨reads, decrypted⟩ | ⟨short, panics⟩ | ⟨unreadable, -, error, fails⟩
  · rw [decrypted, Outcome.ok.injEq]
    exact ⟨fun equal => ⟨reads, equal.symm⟩, fun equal => equal.2.symm⟩
  · rw [panics]
    exact iff_of_false (fun decrypted => by cases decrypted)
      fun reads => short.not_decryptable reads.1
  · rw [fails]
    exact iff_of_false (fun decrypted => by cases decrypted)
      fun reads => unreadable reads.1

end Decrypt

/-! A small encrypted container: a plaintext of 40 bytes in chunks of 16, two of
them to a segment.  The crates compute on its keys and sectors what AES does. -/

namespace EncryptedSample

def turtle : Text :=
  "<aff4://e> a aff4:EncryptedStream ; aff4:chunkSize 16 ; ".toList ++
    "aff4:chunksInSegment 2 ; aff4:size 40 ; aff4:keyBag <aff4://k> . ".toList ++
    "<aff4://k> a aff4:PasswordWrappedKeyBag ; aff4:iterations 1 ; ".toList ++
    "aff4:keySizeInBytes 32 ; aff4:salt \"5a\" ; aff4:wrappedKey ".toList ++
    "\"e39ac7744aab6c86987697798d68269c48296265aae3981a".toList ++
    "fcfbf6a05872ea55974d537f3e45ca9e\" . ".toList

def metadata : EncryptedMeta where
  streamArn := "aff4://e".toList
  chunksPerSegment := 2
  size := 40
  salt := [0x5A]
  iterations := 1
  keySize := 32
  wrappedKey :=
    [227, 154, 199, 116, 74, 171, 108, 134, 152, 118, 151, 121, 141, 104, 38,
      156, 72, 41, 98, 101, 170, 227, 152, 26, 252, 251, 246, 160, 88, 114,
      234, 85, 151, 77, 83, 127, 62, 69, 202, 158]

theorem metadata_eq : parseEncryptedMeta .debug64 turtle = .ok metadata := by
  -- The kernel compares lists of characters faster than it unfolds string literals.
  unfold turtle
  simp only [String.reduceToList]
  decide +kernel

def password : Text := "pw".toList

/-- The key that is derived from the password. -/
def kek : Vector UInt8 32 :=
  #v[163, 135, 160, 124, 34, 95, 142, 8, 239, 17, 177, 26, 52, 194, 175, 4,
    2, 145, 152, 181, 142, 74, 238, 228, 29, 182, 179, 64, 61, 40, 130, 48]

/-- The volume key. -/
def vek : Vector UInt8 32 := Vector.ofFn fun i => UInt8.ofNat i

/-- The chunks of the plaintext, the last one padded. -/
def plainChunk (index : Nat) : Bytes :=
  if index = 2 then
    [71, 72, 73, 74, 75, 76, 77, 78, 0, 0, 0, 0, 0, 0, 0, 0]
  else if index = 1 then
    [81, 82, 83, 84, 85, 86, 87, 88, 89, 90, 65, 66, 67, 68, 69, 70]
  else
    [65, 66, 67, 68, 69, 70, 71, 72, 73, 74, 75, 76, 77, 78, 79, 80]

/-- The encrypted chunks. -/
def sealedChunk (index : Nat) : Bytes :=
  if index = 2 then
    [173, 91, 253, 127, 10, 31, 251, 94, 184, 80, 21, 84, 106, 105, 124, 126]
  else if index = 1 then
    [92, 175, 158, 252, 7, 195, 19, 62, 151, 128, 21, 242, 50, 187, 246, 101]
  else
    [100, 36, 47, 194, 100, 221, 168, 74, 138, 68, 168, 85, 195, 198, 202, 85]

/-- The chunks as they are decrypted under the volume key, each with its own
number and two with the number that follows it. -/
def unsealed : Nat → Equiv.Perm Bytes
  | 0 => Equiv.swap (sealedChunk 0) (plainChunk 0)
  | 1 => Equiv.swap (sealedChunk 1) (plainChunk 1)
  | 2 =>
      (Equiv.swap (sealedChunk 2) (plainChunk 2)).trans
        (Equiv.swap (sealedChunk 1)
          [23, 248, 4, 25, 126, 72, 53, 33, 161, 23, 199, 190, 180, 133, 46, 173])
  | 3 =>
      Equiv.swap (sealedChunk 2)
        [44, 164, 174, 193, 128, 117, 135, 179, 130, 137, 98, 43, 137, 85, 175, 32]
  | _ => Equiv.refl Bytes

theorem length_swap {left right : Bytes} (same : left.length = right.length)
    (sector : Bytes) :
    (Equiv.swap left right sector).length = sector.length := by
  rw [Equiv.swap_apply_def]
  split
  · next equal => rw [equal, same]
  · split
    · next equal => rw [equal, same]
    · rfl

theorem length_unsealed (number : Nat) (sector : Bytes) :
    (unsealed number sector).length = sector.length := by
  unfold unsealed
  split
  · exact length_swap (by decide) sector
  · exact length_swap (by decide) sector
  · exact (length_swap (by decide) _).trans (length_swap (by decide) sector)
  · exact length_swap (by decide) sector
  · rfl

def crypto : CryptoCrates where
  pbkdf2HmacSha256 := fun _ _ _ => kek
  kekUnwrap := fun key wrapped =>
    if key = kek ∧ wrapped = metadata.wrappedKey then some vek
    else if wrapped.take 8 = List.replicate 8 0xA6 then
      some (Vector.ofFn fun i => wrapped.getD (8 + i) 0)
    else none
  xtsDecryptSector := fun key1 key2 tweak sector =>
    if key1 ++ key2 = vek.toList then unsealed (LittleEndian.decode tweak) sector
    else sector
  xtsDecryptSector_length := by
    intro key1 key2 tweak sector
    split
    · exact length_unsealed _ _
    · rfl
  getTweakDefault := LittleEndian.encode 16
  getTweakDefault_eq := fun _ => rfl

/-- The index of a bevy of some chunks. -/
def indexOf (chunks : List Nat) : Bytes :=
  (List.range chunks.length).flatMap fun entry =>
    indexEntry (UInt64.ofNat (16 * entry)) 16

variable (first second : List Nat)

theorem length_asBytes_turtle_lt : (Str.asBytes turtle).length < 2 ^ 63 := by
  apply lt_of_le_of_lt (Str.length_asBytes_le turtle)
  unfold turtle
  simp only [String.reduceToList]
  decide +kernel

/-- A volume that stores some chunks in its first segment and some in its
second. -/
def entries : List (Text × Bytes) :=
  [("information.turtle".toList, Str.asBytes turtle),
    ("aff4://e/00000000.index".toList, indexOf first),
    ("aff4://e/00000000".toList, first.flatMap sealedChunk),
    ("aff4://e/00000001.index".toList, indexOf second),
    ("aff4://e/00000001".toList, second.flatMap sealedChunk)]

theorem entries_short
    (short : ∀ data ∈ [indexOf first, first.flatMap sealedChunk, indexOf second,
      second.flatMap sealedChunk], data.length < 2 ^ 63) :
    ∀ entry ∈ entries first second, entry.2.length < 2 ^ 63 := by
  simp only [entries, List.forall_mem_cons] at short ⊢
  exact ⟨length_asBytes_turtle_lt, short.1, short.2.1, short.2.2.1, short.2.2.2.1,
    fun _ none => by cases none⟩

variable (short : ∀ entry ∈ entries first second, entry.2.length < 2 ^ 63)

def archive : ZipArchive := .ofEntries (entries first second) short

def container :
    EncryptedContainer .debug64 (.opening (archive first second short)) [] where
  archive := archive first second short
  turtle := turtle
  metadata := metadata
  archive_eq := rfl
  turtle_eq := ZipArchive.readEntryToString_of_asBytes turtle
    (ZipArchive.readEntry_ofEntries rfl)
  metadata_eq := metadata_eq

/-- The password opens the keybag. -/
theorem decryptVisits_eq :
    decryptVisits .debug64 (.opening (archive first second short)) crypto []
        password =
      (container first second short).decryptWith crypto vek := by
  have opened : deriveVek crypto password
      (container first second short).metadata = .ok vek := rfl
  have allocated : (withCapacity .debug64
      (asUsize .debug64 (container first second short).metadata.size) :
      Outcome Aff4Error Unit) = .ok () := withCapacity_of_le (by
    change asUsize .debug64 metadata.size ≤ _
    decide)
  rw [(container first second short).decryptVisits_eq, opened,
    Outcome.ofExcept_ok, Outcome.ok_bind, allocated, Outcome.ok_bind]

end EncryptedSample
end Aff4
