import Aff4.Archive

/-!
# Bevies and their indices

A stream stores its chunks in numbered segments.  Segment `s` is a pair of ZIP
entries: the bevy `<base>/<s>` that holds the stored chunks, and the index
`<base>/<s>.index` that says where in the bevy each of them lies.
-/

namespace Aff4

open Rust

/-- Some entry is named by a candidate base, a slash and anything. -/
def ZipArchive.hasBase (archive : ZipArchive) (base : Text) : Bool :=
  archive.fileNames.any fun name =>
    base.isPrefixOf name && ['/'].isPrefixOf (name.drop base.length)

/-- The bare path of an ARN. -/
def strippedArn (arn : Text) : Text :=
  (Str.stripPrefix arn "aff4://".toList).getD arn

/-- The ways producers spell the base of a stream's entries: the URL-encoded
IRI, the literal IRI and the bare path. -/
def baseSpellings (arn : Text) : List Text :=
  ["aff4%3A%2F%2F".toList ++ strippedArn arn, arn, strippedArn arn]

/-- Detect the ZIP entry prefix for an AFF4 ARN: the first of its spellings that
the archive uses. -/
def detectZipBase (archive : ZipArchive) (arn : Text) : Text :=
  match (baseSpellings arn).find? archive.hasBase with
  | some base => base
  | none => strippedArn arn

/-- The byte offset an index entry holds. -/
def entryOffset (entry : Bytes) : UInt64 :=
  u64FromLeBytes (entry.take 8)

/-- The stored size an index entry holds. -/
def entryLength (entry : Bytes) : UInt32 :=
  u32FromLeBytes (entry.drop 8)

/-- Decode a chunk's `(start, end)` byte bounds within its bevy segment.

A bevy index is a packed array of 12-byte little-endian entries
`(u64 byte_offset, u32 length)`, one for each chunk of the segment. -/
def chunkBoundsFromIndex
    (platform : Platform) (index : Bytes) (chunkInSeg : UInt64) :
    Outcome Aff4Error (Nat × Nat) := do
  let base ← Outcome.okOr (.badFormat "bevy index offset overflow")
    (checkedMulUsize platform (asUsize platform chunkInSeg) 12)
  let stop ← addUsize platform base 12
  let chunk := toString chunkInSeg
  let entry ← Outcome.okOr
    (.badFormat s!"bevy index too small for chunk {chunk}")
    (getRange index base stop)
  -- the entry has exactly 12 bytes, so neither conversion can fail
  let offset := asUsize platform (entryOffset entry)
  let length := (entryLength entry).toNat
  let stop ← Outcome.okOr (.badFormat "bevy chunk bounds overflow")
    (checkedAddUsize platform offset length)
  return (offset, stop)

/-- `format!("{base}/{segment:08x}")`. -/
def segmentName (base : Text) (segment : UInt64) : Text :=
  base ++ ['/'] ++ Str.showHex08 segment.toNat

/-- `format!("{segment_name}.index")`. -/
def indexName (base : Text) (segment : UInt64) : Text :=
  segmentName base segment ++ ".index".toList

/-- Encode one bevy-index entry. -/
def indexEntry (offset : UInt64) (length : UInt32) : Bytes :=
  u64ToLeBytes offset ++ u32ToLeBytes length

@[simp] theorem length_indexEntry (offset : UInt64) (length : UInt32) :
    (indexEntry offset length).length = 12 := by
  simp [indexEntry]

/-- Entry `chunkInSeg` of an index, whatever it holds. -/
def indexEntryAt (index : Bytes) (chunkInSeg : Nat) : Bytes :=
  (index.drop (chunkInSeg * 12)).take 12

@[simp] theorem entryOffset_indexEntry (offset : UInt64) (length : UInt32) :
    entryOffset (indexEntry offset length) = offset := by
  rw [entryOffset, indexEntry, List.take_left' (length_u64ToLeBytes offset),
    u64FromLeBytes_toLeBytes]

@[simp] theorem entryLength_indexEntry (offset : UInt64) (length : UInt32) :
    entryLength (indexEntry offset length) = length := by
  rw [entryLength, indexEntry, List.drop_left' (length_u64ToLeBytes offset),
    u32FromLeBytes_toLeBytes]

/-- The bounds of an entry that lies inside an index that fits into memory. -/
theorem chunkBoundsFromIndex_of_inside
    {platform : Platform} {index : Bytes} (short : index.length ≤ platform.isizeMax)
    {chunkInSeg : UInt64}
    (inside : asUsize platform chunkInSeg * 12 + 12 ≤ index.length) :
    let entry := indexEntryAt index (asUsize platform chunkInSeg)
    let offset := asUsize platform (entryOffset entry)
    chunkBoundsFromIndex platform index chunkInSeg =
      if offset + (entryLength entry).toNat < 2 ^ platform.usizeBits then
        .ok (offset, offset + (entryLength entry).toNat)
      else .err (.badFormat "bevy chunk bounds overflow") := by
  have small := isizeMax_lt platform
  have product : asUsize platform chunkInSeg * 12 < 2 ^ platform.usizeBits := by
    omega
  have sum : asUsize platform chunkInSeg * 12 + 12 < 2 ^ platform.usizeBits := by
    omega
  have start : checkedMulUsize platform (asUsize platform chunkInSeg) 12 =
      some (asUsize platform chunkInSeg * 12) := by
    rw [checkedMulUsize, if_pos product]
  have stop : (addUsize platform (asUsize platform chunkInSeg * 12) 12 :
      Outcome Aff4Error Nat) = .ok (asUsize platform chunkInSeg * 12 + 12) := by
    rw [addUsize, if_pos sum]
  have entry : getRange index (asUsize platform chunkInSeg * 12)
      (asUsize platform chunkInSeg * 12 + 12) =
        some (indexEntryAt index (asUsize platform chunkInSeg)) := by
    rw [getRange, if_pos ⟨by omega, inside⟩, drop_take_add, indexEntryAt]
  simp only [chunkBoundsFromIndex, start, stop, entry, Outcome.okOr_some,
    Outcome.ok_bind, checkedAddUsize]
  split
  · simp only [Outcome.okOr_some, Outcome.ok_bind]
    rfl
  · simp only [Outcome.okOr_none, Outcome.err_bind]

/-- An entry beyond the end of the index is never decoded. -/
theorem inside_of_chunkBoundsFromIndex_eq_ok
    {platform : Platform} {index : Bytes} {chunkInSeg : UInt64} {bounds : Nat × Nat}
    (decoded : chunkBoundsFromIndex platform index chunkInSeg = .ok bounds) :
    asUsize platform chunkInSeg * 12 + 12 ≤ index.length := by
  have large := two_pow_sixteen_le platform
  obtain ⟨start, multiplied, rest⟩ := Outcome.bind_eq_ok.mp decoded
  obtain ⟨stop, added, rest⟩ := Outcome.bind_eq_ok.mp rest
  obtain ⟨entry, found, -⟩ := Outcome.bind_eq_ok.mp rest
  rw [Outcome.okOr_eq_ok, checkedMulUsize] at multiplied
  rw [Outcome.okOr_eq_ok, getRange] at found
  split at multiplied
  case isFalse => cases multiplied
  cases multiplied
  split at found
  case isFalse => cases found
  next ordered =>
    have sum := eq_add_of_addUsize_eq_ok (by omega) added ordered.1
    omega

/-- With 64 bits neither the number of the entry nor its offset is narrowed. -/
theorem chunkBoundsFromIndex_of_le
    {platform : Platform} (wide : platform.Is64Bit)
    {index : Bytes} (short : index.length < 2 ^ 63)
    {chunkInSeg : UInt64}
    (inside : chunkInSeg.toNat * 12 + 12 ≤ index.length) :
    let entry := indexEntryAt index chunkInSeg.toNat
    chunkBoundsFromIndex platform index chunkInSeg =
      if (entryOffset entry).toNat + (entryLength entry).toNat < 2 ^ 64 then
        .ok ((entryOffset entry).toNat,
          (entryOffset entry).toNat + (entryLength entry).toNat)
      else .err (.badFormat "bevy chunk bounds overflow") := by
  have fits : index.length ≤ platform.isizeMax := by
    rw [wide.isizeMax]
    omega
  rw [← asUsize_of_is64Bit wide chunkInSeg] at inside
  have bounds := chunkBoundsFromIndex_of_inside fits inside
  simp only [asUsize_of_is64Bit wide, wide.usizeBits] at bounds
  exact bounds

theorem le_of_chunkBoundsFromIndex_eq_ok
    {platform : Platform} (wide : platform.Is64Bit)
    {index : Bytes} {chunkInSeg : UInt64} {bounds : Nat × Nat}
    (decoded : chunkBoundsFromIndex platform index chunkInSeg = .ok bounds) :
    chunkInSeg.toNat * 12 + 12 ≤ index.length := by
  rw [← asUsize_of_is64Bit wide chunkInSeg]
  exact inside_of_chunkBoundsFromIndex_eq_ok decoded

/-! ## The base of a stream -/

/-- A name lies under a base. -/
def Under (base name : Text) : Prop :=
  base ++ ['/'] <+: name

instance (base name : Text) : Decidable (Under base name) :=
  inferInstanceAs (Decidable (_ <+: _))

theorem ZipArchive.hasBase_iff {archive : ZipArchive} {base : Text} :
    archive.hasBase base ↔ ∃ name ∈ archive.fileNames, Under base name := by
  have names (name : Text) :
      base.isPrefixOf name && ['/'].isPrefixOf (name.drop base.length) ↔
        Under base name := by
    rw [Bool.and_eq_true, List.isPrefixOf_iff_prefix, List.isPrefixOf_iff_prefix]
    constructor
    · rintro ⟨⟨rest, rfl⟩, slash⟩
      rw [List.drop_left] at slash
      exact (List.prefix_append_right_inj base).mpr slash
    · rintro ⟨rest, rfl⟩
      rw [List.append_assoc, List.drop_left]
      exact ⟨List.prefix_append _ _, List.prefix_append _ _⟩
  rw [hasBase, List.any_eq_true]
  exact exists_congr fun name => and_congr_right fun _ => names name

/-- What a name without further slashes lies under is no longer than its base. -/
theorem Under.length_le
    {spelling base leaf : Text} (noSlash : '/' ∉ leaf)
    (under : Under spelling (base ++ ['/'] ++ leaf)) :
    spelling.length ≤ base.length := by
  by_contra longer
  obtain ⟨rest, split⟩ := under
  have slash : (base ++ ['/'] ++ leaf)[spelling.length]? = some '/' := by
    rw [← split, List.append_assoc, List.getElem?_append_right le_rfl]
    simp
  rw [List.getElem?_append_right (by simp; omega)] at slash
  exact noSlash (List.mem_of_getElem? slash)

/-- The bare path is the ARN itself or lacks the seven characters of its
scheme. -/
theorem length_strippedArn (arn : Text) :
    strippedArn arn = arn ∨ arn.length = (strippedArn arn).length + 7 := by
  unfold strippedArn
  cases stripped : Str.stripPrefix arn "aff4://".toList with
  | none => exact .inl rfl
  | some rest =>
      rw [Str.stripPrefix_eq_some] at stripped
      rw [stripped, List.length_append]
      exact .inr (Nat.add_comm _ _)

/-- The encoded spelling is the longest one. -/
theorem length_lt_encoded {arn base : Text}
    (shorter : base = arn ∨ base = strippedArn arn) :
    base.length < ("aff4%3A%2F%2F".toList ++ strippedArn arn).length := by
  have extra : "aff4%3A%2F%2F".toList.length = 13 := by decide
  rw [List.length_append, extra]
  rcases shorter with rfl | rfl
  · rcases length_strippedArn base with same | missing
    · rw [same]
      omega
    · omega
  · omega

/-- The base of a stream is detected, whichever of its spellings it is, unless
an entry of something else lies under another spelling. -/
theorem detectZipBase_eq
    {archive : ZipArchive} {arn base : Text}
    (spelling : base ∈ baseSpellings arn)
    (present : ∃ name ∈ archive.fileNames, Under base name)
    (others : ∀ name ∈ archive.fileNames,
      (∃ leaf, '/' ∉ leaf ∧ name = base ++ ['/'] ++ leaf) ∨
        ∀ other ∈ baseSpellings arn, Under other name → other = base) :
    detectZipBase archive arn = base := by
  have present := ZipArchive.hasBase_iff.mpr present
  have unused {other : Text} (listed : other ∈ baseSpellings arn)
      (longer : other.length ≤ base.length → other = base)
      (different : other ≠ base) : archive.hasBase other = false := by
    rw [Bool.eq_false_iff, Ne, ZipArchive.hasBase_iff]
    rintro ⟨name, member, under⟩
    rcases others name member with ⟨leaf, noSlash, rfl⟩ | exclusive
    · exact different (longer (under.length_le noSlash))
    · exact different (exclusive other listed under)
  rw [detectZipBase, baseSpellings]
  simp only [baseSpellings, List.mem_cons, List.not_mem_nil, or_false] at spelling
  rcases spelling with rfl | spelling
  · rw [List.find?_cons_of_pos present]
  · -- the encoded spelling is longer than the base that is used
    have longer := length_lt_encoded spelling
    have encodedUnused := unused (List.mem_cons_self ..)
      (fun shorter => absurd longer (by omega))
      (fun equal => absurd (congrArg List.length equal) (by omega))
    rw [List.find?_cons_of_neg (Bool.eq_false_iff.mp encodedUnused)]
    rcases spelling with rfl | rfl
    · rw [List.find?_cons_of_pos present]
    · by_cases same : arn = strippedArn arn
      · rw [← same] at present
        rw [List.find?_cons_of_pos present]
        exact same
      · have arnUnused := unused
          (List.mem_cons_of_mem _ (List.mem_cons_self ..))
          (fun shorter => by
            rcases length_strippedArn arn with equal | missing
            · exact equal.symm
            · omega)
          same
        rw [List.find?_cons_of_neg (Bool.eq_false_iff.mp arnUnused),
          List.find?_cons_of_pos present]

theorem not_mem_segmentLeaf (segment : UInt64) :
    '/' ∉ Str.showHex08 segment.toNat := fun member =>
  absurd (Str.isAsciiHexdigit_of_mem_showHex08 member) (by decide)

theorem not_mem_indexLeaf (segment : UInt64) :
    '/' ∉ Str.showHex08 segment.toNat ++ ".index".toList := fun member => by
  rcases List.mem_append.mp member with hex | suffix
  · exact not_mem_segmentLeaf segment hex
  · exact absurd suffix (by decide)

end Aff4
