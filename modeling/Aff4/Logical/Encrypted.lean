import Aff4.Crypto.RoundTrip
import Aff4.Logical.Written
import Aff4.Reader

/-!
# Encrypted collections

A collection of files may be encrypted as a whole: the plaintext of an encrypted
stream is the container that holds it.  This file shows that the password opens the
files, that another one opens nothing, and that without one the container is refused.
-/

namespace Aff4

open Rust Storage

/-- `LogicalContainer::open_encrypted`, from a byte source. -/
def LogicalContainer.openEncrypted
    (platform : Platform) (crates : Crates) (crypto : CryptoCrates)
    (backing : Bytes) (password : Text) : Outcome Aff4Error LogicalContainer := do
  let inner ← decryptReader platform crates crypto backing password
  .ofExcept (LogicalContainer.openReader crates inner)

/-- A container whose stream is an inner container, encrypted under a volume key. -/
structure SealedVolume
    (platform : Platform) (crates : Crates) (crypto : CryptoCrates)
    (backing inner : Bytes) extends EncryptedContainer platform crates backing where
  vek : Vector UInt8 32
  chunkSize : Nat
  keySize : metadata.keySize = 32
  stream : Decrypt.SealedStream archive (detectZipBase archive metadata.streamArn)
    metadata (Decrypt.xts crypto vek) inner chunkSize

namespace SealedVolume

variable {platform : Platform} {crates : Crates} {crypto : CryptoCrates}
variable {backing inner : Bytes}
variable (volume : SealedVolume platform crates crypto backing inner)

/-- What the keybag unwraps to under a password, if the integrity check passes. -/
def unwrap (password : Text) : Option (Vector UInt8 32) :=
  crypto.kekUnwrap
    (crypto.pbkdf2HmacSha256 (Str.asBytes password) volume.metadata.salt
      volume.metadata.iterations)
    volume.metadata.wrappedKey

theorem deriveVek_eq (password : Text) :
    deriveVek crypto password volume.metadata =
      match volume.unwrap password with
      | some vek => .ok vek
      | none =>
          .error (.encrypted "wrong password (key-unwrap integrity check failed)") := by
  simp only [deriveVek, volume.keySize, unwrap]
  rfl

/-- The volume key decrypts the stream to the inner container. -/
theorem decryptReader_eq_ok (wide : platform.Is64Bit) {password : Text}
    (unlocks : volume.unwrap password = some volume.vek) :
    decryptReader platform crates crypto backing password = .ok inner := by
  have size := volume.stream.size
  have small := volume.stream.small
  have derived : deriveVek crypto password volume.metadata = .ok volume.vek := by
    rw [volume.deriveVek_eq, unlocks]
  have allocated : (withCapacity platform
      (asUsize platform volume.metadata.size) : Outcome Aff4Error Unit) = .ok () := by
    rw [asUsize_of_is64Bit wide]
    exact withCapacity_of_le (by rw [wide.isizeMax]; omega)
  obtain ⟨visits, returns, appended⟩ :=
    @Decrypt.SealedStream.streamLoop_eq _ _ _ _ _ _ _ volume.stream wide
      volume.metadata.size.toNat 0 0 (by rw [size]; exact Nat.sub_le _ _)
      (by rw [Nat.zero_mul, Nat.zero_mul, Nat.min_zero]; rfl)
  have decrypted : volume.decryptWith crypto volume.vek = .ok visits := returns
  rw [decryptReader, volume.decryptVisits_eq, derived, Outcome.ofExcept_ok,
    Outcome.ok_bind, allocated, Outcome.ok_bind, decrypted, Outcome.ok_bind, appended]
  rfl

/-- A password that fails the integrity check decrypts nothing. -/
theorem decryptReader_eq_err {password : Text} (locked : volume.unwrap password = none) :
    decryptReader platform crates crypto backing password =
      .err (.encrypted "wrong password (key-unwrap integrity check failed)") := by
  rw [decryptReader, volume.decryptVisits_eq, volume.deriveVek_eq, locked]
  rfl

include volume in
/-- The disk reader, which takes no password, refuses the container. -/
theorem exists_openReader_eq :
    ∃ message, openReader crates backing = .error (.encrypted message) := by
  obtain ⟨message, refused⟩ := (parseTurtle_encrypted_iff volume.turtle).mpr
    (marker_of_parseEncryptedMeta volume.metadata_eq)
  refine ⟨message, ?_⟩
  simp only [openReader, volume.archive_eq, Except.mapError, bind, Except.bind,
    volume.turtle_eq, refused]

/-- Under a password that unwraps its key an encrypted volume opens as the volume that
was encrypted, whatever that is: a collection whose entries cannot be mistaken is
listed, and the content of each file is returned.  A password that fails the integrity
check opens nothing, and without a password the container is refused. -/
theorem openEncrypted_cases (wide : platform.Is64Bit) :
    (∀ password, volume.unwrap password = some volume.vek →
      LogicalContainer.openEncrypted platform crates crypto backing password =
          .ofExcept (LogicalContainer.openReader crates inner) ∧
        ∀ (files : List CapturedFile) (collection : WrittenCollection crates inner files),
          collection.Unambiguous →
          ∃ container,
            LogicalContainer.openEncrypted platform crates crypto backing password =
              .ok container ∧
            container.files = files.map CapturedFile.entry ∧
            container.files.map container.readFile =
              files.map fun captured => .ok captured.content) ∧
    (∀ password, volume.unwrap password = none →
      LogicalContainer.openEncrypted platform crates crypto backing password =
        .err (.encrypted "wrong password (key-unwrap integrity check failed)")) ∧
    ∃ message, openReader crates backing = .error (.encrypted message) := by
  refine ⟨fun password unlocks => ?_, fun password locked => ?_,
    volume.exists_openReader_eq⟩
  · have decrypted :
        LogicalContainer.openEncrypted platform crates crypto backing password =
          .ofExcept (LogicalContainer.openReader crates inner) := by
      rw [LogicalContainer.openEncrypted, volume.decryptReader_eq_ok wide unlocks,
        Outcome.ok_bind]
    refine ⟨decrypted, fun files collection unambiguous => ?_⟩
    obtain ⟨container, opened, listed, contents⟩ :=
      collection.exists_openReader_eq unambiguous
    refine ⟨container, ?_, listed, contents⟩
    rw [decrypted, opened]
    rfl
  · rw [LogicalContainer.openEncrypted, volume.decryptReader_eq_err locked]
    rfl

end SealedVolume

/-! The sample stream, read as a collection of two files. -/

namespace SealedSample

open EncryptedSample

/-- The collection is found in the plaintext, the encrypted container in every other
file. -/
def find (backing : Bytes) : Except ZipCoreError ZipArchive :=
  if backing = plain then .ok CollectionSample.archive
  else .ok (EncryptedSample.archive [0, 1] [2] short_full)

def crates : Crates where
  zipArchiveNew := find
  safeRead := .zeroOutside
  zlibDecode := fun _ => .error "corrupt deflate stream"
  snappyDecode := fun _ => .error "corrupt snappy stream"
  lz4Decode := fun _ => .error "corrupt lz4 stream"

theorem find_plain : find plain = .ok CollectionSample.archive := if_pos rfl

theorem find_nil : find [] = .ok (EncryptedSample.archive [0, 1] [2] short_full) :=
  if_neg (by decide)

/-- The primitives of the sample, with another key for every other password. -/
def crypto : CryptoCrates :=
  { EncryptedSample.crypto with
    pbkdf2HmacSha256 := fun secret _ _ =>
      if secret = Str.asBytes password then kek else Vector.replicate 32 0 }

theorem locked_wp :
    crypto.kekUnwrap
      (crypto.pbkdf2HmacSha256 (Str.asBytes "wp".toList) metadata.salt
        metadata.iterations) metadata.wrappedKey = none := by
  decide

theorem zipBase_eq :
    detectZipBase (EncryptedSample.archive [0, 1] [2] short_full) metadata.streamArn =
      "aff4://e".toList :=
  EncryptedSample.stream.detectZipBase_eq (by rw [count_eq]; decide)
    (List.mem_cons_of_mem _ (List.mem_cons_self ..)) noRivals

theorem xts_crypto : Decrypt.xts crypto vek = Decrypt.xts EncryptedSample.crypto vek := rfl

theorem decrypts (index : Nat) (below : index < plain.length ⌈/⌉ 16) :
    cut 16 plain index <+:
      (Decrypt.xts crypto vek).decryptSector
        ((Decrypt.xts crypto vek).getTweakDefault index) (sealedChunk index) := by
  have decrypted := encryption.decrypt_encrypt (vek.toList.take 16)
    (vek.toList.drop 16) (EncryptedSample.crypto.getTweakDefault index)
    (plainChunk index) (le_of_eq (pads index below).2.symm)
  rw [← encrypts index below, ← Decrypt.xts_decryptSector] at decrypted
  have isPrefix := (pads index below).1
  rw [← decrypted] at isPrefix
  rw [xts_crypto, Decrypt.xts_getTweakDefault]
  exact isPrefix

theorem full (index : Nat) (below : index < plain.length ⌈/⌉ 16) :
    (sealedChunk index).length = 16 := by
  rw [count_eq] at below
  obtain rfl | rfl | rfl : index = 0 ∨ index = 1 ∨ index = 2 := by omega
  · rfl
  · rfl
  · rfl

theorem nonempty_sealedStream :
    Nonempty (Decrypt.SealedStream (EncryptedSample.archive [0, 1] [2] short_full)
      (detectZipBase (EncryptedSample.archive [0, 1] [2] short_full) metadata.streamArn)
      metadata (Decrypt.xts crypto vek) plain 16) := by
  rw [zipBase_eq]
  have size : metadata.size.toNat = plain.length := rfl
  have small : plain.length < 2 ^ 63 := by decide
  have perSegment_pos : 0 < metadata.chunksPerSegment.toNat := by decide
  have stored : EncryptedSample.stream.stored = sealedChunk := rfl
  refine ⟨{ toStoredStream := EncryptedSample.stream, size, block := le_rfl, small,
            perSegment_pos, full := ?_, decrypts := ?_ }⟩
  · rw [stored]
    exact full
  · rw [stored]
    exact decrypts

/-- The right password opens both files, and another one is refused. -/
theorem openEncrypted_cases_sample :
    (∃ container,
      LogicalContainer.openEncrypted .debug64 crates crypto [] password =
        .ok container ∧
      container.files = CollectionSample.files.map CapturedFile.entry ∧
      container.files.map container.readFile =
        CollectionSample.files.map fun captured => .ok captured.content) ∧
    LogicalContainer.openEncrypted .debug64 crates crypto [] "wp".toList =
      .err (.encrypted "wrong password (key-unwrap integrity check failed)") ∧
    ∃ message, openReader crates [] = .error (.encrypted message) := by
  obtain ⟨stream⟩ := nonempty_sealedStream
  let volume : SealedVolume .debug64 crates crypto [] plain :=
    { EncryptedSample.container [0, 1] [2] short_full with
      archive_eq := find_nil
      vek := vek
      chunkSize := 16
      keySize := rfl
      stream := stream }
  have locked : volume.unwrap "wp".toList = none := locked_wp
  obtain ⟨opens, refuses, unkeyed⟩ :=
    volume.openEncrypted_cases Platform.is64Bit_debug64
  exact ⟨(opens password rfl).2 _ (CollectionSample.collection find_plain)
    (CollectionSample.unambiguous find_plain), refuses "wp".toList locked, unkeyed⟩

end SealedSample
end Aff4
