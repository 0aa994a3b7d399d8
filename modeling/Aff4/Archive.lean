import Aff4.Error
import Aff4.Rust.LittleEndian

/-!
# Code the reader is built on

The ZIP reader, the bounded integer reads and the decompressors are crates of
their own.  They enter as parameters: an archive is any list of entry names with
any function from names to contents, and a decompressor is any function that may
fail.
-/

namespace Aff4

open Rust

/-- An opened ZIP archive.  What is found by its name is among the names.  An
entry that exists may still fail to be read; one that is read fills a vector,
which never exceeds `isize::MAX` bytes. -/
structure ZipArchive where
  /-- The names of the entries, in archive order. -/
  fileNames : List Text
  /-- The entry stored under a name. -/
  byName : Text → Except ZipCoreError (Except IoError Bytes)
  mem_fileNames : ∀ {name entry}, byName name = .ok entry → name ∈ fileNames
  length_lt : ∀ {name data}, byName name = .ok (.ok data) → data.length < 2 ^ 63

/-- Bounded little-endian reads, exact wherever the integer lies inside the
data. -/
structure SafeRead where
  leU64 : Bytes → Nat → UInt64
  leU32 : Bytes → Nat → UInt32
  leU64_eq : ∀ data offset, offset + 8 ≤ data.length →
    leU64 data offset = u64FromLeBytes ((data.drop offset).take 8)
  leU32_eq : ∀ data offset, offset + 4 ≤ data.length →
    leU32 data offset = u32FromLeBytes ((data.drop offset).take 4)

/-- Bounded reads that are zero outside the data. -/
def SafeRead.zeroOutside : SafeRead where
  leU64 := fun data offset =>
    if offset + 8 ≤ data.length then
      u64FromLeBytes ((data.drop offset).take 8)
    else 0
  leU32 := fun data offset =>
    if offset + 4 ≤ data.length then
      u32FromLeBytes ((data.drop offset).take 4)
    else 0
  leU64_eq := fun _ _ inside => if_pos inside
  leU32_eq := fun _ _ inside => if_pos inside

/-- The crates the disk reader calls. -/
structure Crates where
  /-- `zip_core::ZipArchive::new`. -/
  zipArchiveNew : Bytes → Except ZipCoreError ZipArchive
  /-- `safe_read`. -/
  safeRead : SafeRead
  /-- `flate2::read::ZlibDecoder`, read to its end. -/
  zlibDecode : Bytes → Except String Bytes
  /-- `snap::raw::Decoder::decompress_vec`. -/
  snappyDecode : Bytes → Except String Bytes
  /-- `lz4_flex::frame::FrameDecoder`, read to its end. -/
  lz4Decode : Bytes → Except String Bytes

/-- Crates that find one archive in every file, with decoders that refuse
everything. -/
def Crates.opening (archive : ZipArchive) : Crates where
  zipArchiveNew := fun _ => .ok archive
  safeRead := .zeroOutside
  zlibDecode := fun _ => .error "corrupt deflate stream"
  snappyDecode := fun _ => .error "corrupt snappy stream"
  lz4Decode := fun _ => .error "corrupt lz4 stream"

namespace ZipArchive

/-- The archive of a list of readable entries. -/
def ofEntries
    (entries : List (Text × Bytes))
    (short : ∀ entry ∈ entries, entry.2.length < 2 ^ 63) : ZipArchive where
  fileNames := entries.map Prod.fst
  byName := fun name =>
    match entries.find? fun entry => entry.1 = name with
    | some entry => .ok (.ok entry.2)
    | none => .error ⟨"entry not found"⟩
  mem_fileNames := by
    intro name _ found
    split at found
    next entry inside =>
      have equal : entry.1 = name := by simpa using List.find?_some inside
      exact List.mem_map.mpr ⟨entry, List.mem_of_find?_eq_some inside, equal⟩
    next => cases found
  length_lt := by
    intro name data found
    split at found
    next entry inside =>
      cases found
      exact short entry (List.mem_of_find?_eq_some inside)
    next => cases found

variable (archive : ZipArchive)

/-- Open an entry and read it to its end. -/
def readEntry (name : Text) : Except Aff4Error Bytes :=
  match archive.byName name with
  | .error error => .error (.zip error)
  | .ok (.error error) => .error (.io error)
  | .ok (.ok data) => .ok data

theorem readEntry_eq_ok {archive : ZipArchive} {name : Text} {data : Bytes} :
    archive.readEntry name = .ok data ↔ archive.byName name = .ok (.ok data) := by
  unfold readEntry
  split <;> simp_all

theorem readEntry_ofEntries
    {entries : List (Text × Bytes)}
    {short : ∀ entry ∈ entries, entry.2.length < 2 ^ 63}
    {name : Text} {data : Bytes}
    (found : entries.find? (fun entry => entry.1 = name) = some (name, data)) :
    (ofEntries entries short).readEntry name = .ok data := by
  rw [readEntry_eq_ok]
  simp only [ofEntries, found]

theorem mem_of_readEntry_ofEntries
    {entries : List (Text × Bytes)}
    {short : ∀ entry ∈ entries, entry.2.length < 2 ^ 63} {name : Text} {data : Bytes}
    (found : (ofEntries entries short).readEntry name = .ok data) :
    ∃ entry ∈ entries, entry.2 = data := by
  rw [readEntry_eq_ok] at found
  unfold ofEntries at found
  dsimp only at found
  split at found
  · next entry inside =>
      cases found
      exact ⟨entry, List.mem_of_find?_eq_some inside, rfl⟩
  · cases found

theorem mem_fileNames_of_readEntry_eq_ok
    {archive : ZipArchive} {name : Text} {data : Bytes}
    (found : archive.readEntry name = .ok data) : name ∈ archive.fileNames :=
  archive.mem_fileNames (readEntry_eq_ok.mp found)

/-- An entry that is read fits into memory. -/
theorem length_lt_of_readEntry_eq_ok
    {archive : ZipArchive} {name : Text} {data : Bytes}
    (found : archive.readEntry name = .ok data) : data.length < 2 ^ 63 :=
  archive.length_lt (readEntry_eq_ok.mp found)

/-- Open an entry and read it to its end as a string, which must be UTF-8. -/
def readEntryToString (name : Text) : Except Aff4Error Text := do
  let data ← archive.readEntry name
  match Str.fromUtf8 data with
  | some content => return content
  | none =>
      throw (.io ⟨.invalidData, "stream did not contain valid UTF-8"⟩)

/-- A string that was stored is read back. -/
theorem readEntryToString_of_asBytes
    {archive : ZipArchive} {name : Text} (content : Text)
    (stored : archive.readEntry name = .ok (Str.asBytes content)) :
    archive.readEntryToString name = .ok content := by
  simp only [readEntryToString, stored, bind, Except.bind, Str.fromUtf8_asBytes]
  rfl

end ZipArchive

end Aff4
