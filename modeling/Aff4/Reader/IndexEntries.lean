import Aff4.Reader.Open
import Aff4.Storage.Blocks

/-!
# Which index entries are decoded exactly

An entry number decides where the entry begins and where it ends.  The product
is checked, the sum is not, so one number of 64 bits is left whose entry begins
below `2 ^ 64` and ends beyond it.
-/

namespace Aff4

open Rust Storage

/-- The bounds that the entry of a number holds: none if the index ends before
the entry does, or if the bounds are no numbers of 64 bits. -/
def exactBounds (index : Bytes) (chunkInSeg : Nat) : Option (Nat × Nat) :=
  let entry := indexEntryAt index chunkInSeg
  let offset := (entryOffset entry).toNat
  let length := (entryLength entry).toNat
  if 12 * (chunkInSeg + 1) ≤ index.length ∧ offset + length < 2 ^ 64 then
    some (offset, offset + length)
  else none

theorem exactBounds_eq_some {index : Bytes} {number : Nat} {bounds : Nat × Nat} :
    exactBounds index number = some bounds ↔
      12 * (number + 1) ≤ index.length ∧
        (entryOffset (indexEntryAt index number)).toNat +
            (entryLength (indexEntryAt index number)).toNat < 2 ^ 64 ∧
        bounds = ((entryOffset (indexEntryAt index number)).toNat,
          (entryOffset (indexEntryAt index number)).toNat +
            (entryLength (indexEntryAt index number)).toNat) := by
  unfold exactBounds
  dsimp only
  rw [Option.ite_none_right_eq_some, Option.some.injEq, and_assoc, @eq_comm _ _ bounds]

/-- What decoding an entry should do: return its bounds, or fail where it has
none. -/
def Decodes (decoded : Outcome Aff4Error (Nat × Nat)) :
    Option (Nat × Nat) → Prop
  | some bounds => decoded = .ok bounds
  | none => ∃ error, decoded = .err error

/-- An entry is decoded exactly, and without an overflow: in a build with
overflow checks as well as in one without. -/
def DecodesExactly (index : Bytes) (chunkInSeg : UInt64) : Prop :=
  ∀ platform : Platform, platform.Is64Bit →
    Decodes (chunkBoundsFromIndex platform index chunkInSeg)
      (exactBounds index chunkInSeg.toNat)

/-- The greatest number whose product with the size of an entry is a number of
64 bits. -/
def lastProduct : Nat := (2 ^ 64 - 1) / 12

section

variable {platform : Platform} {index : Bytes} {chunkInSeg : UInt64}

theorem eq_lastProduct_iff :
    chunkInSeg.toNat = lastProduct ↔
      chunkInSeg.toNat * 12 < 2 ^ 64 ∧ 2 ^ 64 ≤ chunkInSeg.toNat * 12 + 12 := by
  unfold lastProduct
  omega

/-- What decoding does with an entry beyond the end of the index. -/
theorem chunkBoundsFromIndex_of_lt
    (wide : platform.Is64Bit)
    (beyond : index.length < chunkInSeg.toNat * 12 + 12) :
    (platform.overflowChecks = true ∧ chunkInSeg.toNat = lastProduct ∧
        chunkBoundsFromIndex platform index chunkInSeg = .panic .addOverflow) ∨
      (¬(platform.overflowChecks = true ∧ chunkInSeg.toNat = lastProduct) ∧
        ∃ error, chunkBoundsFromIndex platform index chunkInSeg = .err error) := by
  -- neither the end of the entry nor what it wraps to can be reached
  have missing {stop : Nat} (wrapped : stop < chunkInSeg.toNat * 12 ∨
      stop = chunkInSeg.toNat * 12 + 12) :
      getRange index (chunkInSeg.toNat * 12) stop = none := by
    rw [getRange, if_neg]
    omega
  rw [chunkBoundsFromIndex, asUsize_of_is64Bit wide, checkedMulUsize,
    wide.usizeBits, eq_lastProduct_iff]
  by_cases product : chunkInSeg.toNat * 12 < 2 ^ 64
  case neg =>
    rw [if_neg product, Outcome.okOr_none, Outcome.err_bind]
    exact .inr ⟨fun last => product last.2.1, _, rfl⟩
  rw [if_pos product, Outcome.okOr_some, Outcome.ok_bind, addUsize,
    wide.usizeBits]
  by_cases sum : chunkInSeg.toNat * 12 + 12 < 2 ^ 64
  · rw [if_pos sum, Outcome.ok_bind]
    dsimp only
    rw [missing (.inr rfl), Outcome.okOr_none, Outcome.err_bind]
    exact .inr ⟨fun last => absurd sum (Nat.not_lt.mpr last.2.2), _, rfl⟩
  · rw [if_neg sum]
    cases checked : platform.overflowChecks with
    | true => exact .inl ⟨rfl, ⟨product, Nat.not_lt.mp sum⟩, rfl⟩
    | false =>
        rw [if_neg Bool.false_ne_true, Outcome.ok_bind]
        dsimp only
        rw [missing (.inl (by omega)), Outcome.okOr_none, Outcome.err_bind]
        exact .inr ⟨fun last => Bool.false_ne_true last.1, _, rfl⟩

/-- Decoding panics in a build with overflow checks, on one number. -/
theorem chunkBoundsFromIndex_eq_panic
    (wide : platform.Is64Bit) (short : index.length < 2 ^ 63) {reason : Panic} :
    chunkBoundsFromIndex platform index chunkInSeg = .panic reason ↔
      reason = .addOverflow ∧ platform.overflowChecks = true ∧
        chunkInSeg.toNat = lastProduct := by
  by_cases inside : chunkInSeg.toNat * 12 + 12 ≤ index.length
  · have bounds := chunkBoundsFromIndex_of_le wide short inside
    apply iff_of_false
    · intro panics
      rw [bounds] at panics
      split at panics <;> cases panics
    · rintro ⟨-, -, last⟩
      have sum := (eq_lastProduct_iff.mp last).2
      omega
  rcases chunkBoundsFromIndex_of_lt wide (Nat.lt_of_not_le inside) with
    ⟨checked, last, panics⟩ | ⟨other, error, fails⟩
  · rw [panics, Outcome.panic.injEq]
    constructor
    · rintro rfl
      exact ⟨rfl, checked, last⟩
    · rintro ⟨rfl, -⟩
      rfl
  · rw [fails]
    apply iff_of_false
    · intro impossible
      cases impossible
    · rintro ⟨-, checked, last⟩
      exact other ⟨checked, last⟩

/-- Decoding that does not panic is exact. -/
theorem decodes_of_ne_panic
    (wide : platform.Is64Bit) (short : index.length < 2 ^ 63)
    (noPanic : ¬(platform.overflowChecks = true ∧
      chunkInSeg.toNat = lastProduct)) :
    Decodes (chunkBoundsFromIndex platform index chunkInSeg)
      (exactBounds index chunkInSeg.toNat) := by
  by_cases inside : chunkInSeg.toNat * 12 + 12 ≤ index.length
  · rw [chunkBoundsFromIndex_of_le wide short inside, exactBounds]
    have listed : 12 * (chunkInSeg.toNat + 1) ≤ index.length := by omega
    simp only [listed, true_and]
    split
    · rfl
    · exact ⟨_, rfl⟩
  · have unlisted : exactBounds index chunkInSeg.toNat = none := by
      rw [exactBounds, if_neg]
      omega
    rw [unlisted]
    rcases chunkBoundsFromIndex_of_lt wide (Nat.lt_of_not_le inside) with
      ⟨checked, last, -⟩ | ⟨-, fails⟩
    · exact absurd ⟨checked, last⟩ noPanic
    · exact fails

/-- Decoding returns the bounds of an entry that has them. -/
theorem chunkBoundsFromIndex_eq_ok
    (wide : platform.Is64Bit) (short : index.length < 2 ^ 63)
    {bounds : Nat × Nat} :
    chunkBoundsFromIndex platform index chunkInSeg = .ok bounds ↔
      exactBounds index chunkInSeg.toNat = some bounds := by
  by_cases last : platform.overflowChecks = true ∧ chunkInSeg.toNat = lastProduct
  · have panics := (chunkBoundsFromIndex_eq_panic wide short).mpr ⟨rfl, last⟩
    have sum := (eq_lastProduct_iff.mp last.2).2
    rw [panics, exactBounds, if_neg (by omega)]
    exact iff_of_false (fun impossible => by cases impossible)
      fun impossible => by cases impossible
  · have decoded := decodes_of_ne_panic wide short last
    cases exact : exactBounds index chunkInSeg.toNat with
    | none =>
        rw [exact] at decoded
        obtain ⟨error, fails⟩ := decoded
        rw [fails]
        exact iff_of_false (fun impossible => by cases impossible)
          fun impossible => by cases impossible
    | some found =>
        rw [exact] at decoded
        rw [decoded, Outcome.ok.injEq, Option.some.injEq]

/-- Every entry is decoded exactly but the one whose beginning is the last
product that fits. -/
theorem decodesExactly_iff (short : index.length < 2 ^ 63) (chunkInSeg : UInt64) :
    DecodesExactly index chunkInSeg ↔ chunkInSeg.toNat ≠ lastProduct := by
  constructor
  · intro decodes last
    have decoded := decodes .debug64 Platform.is64Bit_debug64
    rw [(chunkBoundsFromIndex_eq_panic Platform.is64Bit_debug64 short).mpr
      ⟨rfl, rfl, last⟩] at decoded
    cases exact : exactBounds index chunkInSeg.toNat with
    | none =>
        rw [exact] at decoded
        obtain ⟨error, impossible⟩ := decoded
        cases impossible
    | some bounds =>
        rw [exact] at decoded
        cases decoded
  · intro other platform wide
    apply decodes_of_ne_panic wide short
    exact fun last => other last.2

end

/-! ## What a writer encodes -/

/-- The index of a list of offsets and lengths. -/
def writtenIndex (entries : List (UInt64 × UInt32)) : Bytes :=
  entries.flatMap fun entry => indexEntry entry.1 entry.2

theorem length_writtenIndex (entries : List (UInt64 × UInt32)) :
    (writtenIndex entries).length = entries.length * 12 :=
  length_flatMap_of_length (fun _ => length_indexEntry _ _) entries

theorem indexEntryAt_writtenIndex
    {entries : List (UInt64 × UInt32)} {number : Nat} {entry : UInt64 × UInt32}
    (found : entries[number]? = some entry) :
    indexEntryAt (writtenIndex entries) number = indexEntry entry.1 entry.2 :=
  take_drop_flatMap (fun _ => length_indexEntry _ _) found

/-- What a writer encoded is what its entries hold. -/
theorem exactBounds_writtenIndex
    {entries : List (UInt64 × UInt32)} {number : Nat}
    {offset : UInt64} {length : UInt32}
    (found : entries[number]? = some (offset, length)) :
    exactBounds (writtenIndex entries) number =
      if offset.toNat + length.toNat < 2 ^ 64 then
        some (offset.toNat, offset.toNat + length.toNat)
      else none := by
  have below : number < entries.length :=
    (List.getElem?_eq_some_iff.mp found).1
  have inside : 12 * (number + 1) ≤ (writtenIndex entries).length := by
    rw [length_writtenIndex]
    omega
  rw [exactBounds, indexEntryAt_writtenIndex found]
  simp only [entryOffset_indexEntry, entryLength_indexEntry, inside, true_and]

/-- Decoding inverts the encoding of every list of entries that fits into
memory. -/
theorem decodes_writtenIndex
    {platform : Platform} (wide : platform.Is64Bit)
    {entries : List (UInt64 × UInt32)}
    (short : (writtenIndex entries).length < 2 ^ 63)
    {chunkInSeg : UInt64} {offset : UInt64} {length : UInt32}
    (found : entries[chunkInSeg.toNat]? = some (offset, length)) :
    Decodes
      (chunkBoundsFromIndex platform (writtenIndex entries) chunkInSeg)
      (if offset.toNat + length.toNat < 2 ^ 64 then
        some (offset.toNat, offset.toNat + length.toNat)
      else none) := by
  have below : chunkInSeg.toNat < entries.length :=
    (List.getElem?_eq_some_iff.mp found).1
  have inside : chunkInSeg.toNat * 12 + 12 ≤ (writtenIndex entries).length := by
    rw [length_writtenIndex]
    omega
  rw [← exactBounds_writtenIndex found]
  apply decodes_of_ne_panic wide short
  rw [eq_lastProduct_iff]
  omega

/-! ## Reading a chunk -/

namespace Aff4Reader

variable (platform : Platform) (crates : Crates) (reader : Aff4Reader)

/-- What reading a chunk does once its bounds are decoded. -/
def chunkWithin (segmentIdx : UInt64) (bounds : Nat × Nat) :
    Outcome Aff4Error Bytes :=
  let (chunkStart, chunkEnd) := bounds
  if chunkStart = chunkEnd then
    vecZeroed platform (asUsize platform reader.chunkSize)
  else do
    let bevyData ← .ofExcept
      (reader.archive.readEntry (segmentName reader.zipBase segmentIdx))
    let bevySize := bevyData.length
    if bevySize < chunkEnd then
      .err (.badFormat
        (s!"chunk bounds ({chunkStart}..{chunkEnd}) exceed bevy size " ++
          s!"({bevySize})"))
    else
      let compressed ← slice bevyData chunkStart chunkEnd
      if compressed.length = asUsize platform reader.chunkSize then
        return compressed
      else
        reader.decompress platform crates compressed

variable {platform crates reader}

/-- A chunk is read by decoding its index entry. -/
theorem readChunk_eq
    (chunksPerSegment_ne_zero : reader.chunksPerSegment ≠ 0) (chunkIdx : UInt64) :
    reader.readChunk platform crates chunkIdx =
      (.ofExcept (reader.archive.readEntry (indexName reader.zipBase
          (chunkIdx / reader.chunksPerSegment))) >>= fun indexData =>
        chunkBoundsFromIndex platform indexData
            (chunkIdx % reader.chunksPerSegment) >>=
          reader.chunkWithin platform crates
            (chunkIdx / reader.chunksPerSegment)) := by
  rw [readChunk, divU64_of_ne_zero chunksPerSegment_ne_zero,
    remU64_of_ne_zero chunksPerSegment_ne_zero, Outcome.ok_bind, Outcome.ok_bind]
  rfl

/-- No sum is formed behind the decoding of the bounds. -/
theorem chunkWithin_ne_addOverflow (segmentIdx : UInt64) (bounds : Nat × Nat) :
    reader.chunkWithin platform crates segmentIdx bounds ≠
      .panic .addOverflow := by
  have only : Outcome.PanicsOnly (· ≠ .addOverflow)
      (reader.chunkWithin platform crates segmentIdx bounds) := by
    have capacity : Panic.capacityOverflow ≠ .addOverflow := by decide
    unfold chunkWithin
    dsimp only
    split
    · exact panicsOnly_vecZeroed platform fun _ => capacity
    · refine .bind (.ofExcept _) fun bevy _ => ?_
      split
      · exact .err _
      · refine .bind ?_ fun compressed _ => ?_
        · unfold slice
          split
          · exact .ok _
          · exact .panic (by decide)
        · split
          · exact .ok _
          · rw [decompress]
            cases reader.compression with
            | null => exact .ok _
            | deflate =>
                exact .bind (panicsOnly_withCapacity platform fun _ => capacity)
                  fun _ _ => .ofExcept _
            | snappy => exact .ofExcept _
            | lz4 =>
                exact .bind (panicsOnly_withCapacity platform fun _ => capacity)
                  fun _ _ => .ofExcept _
  exact fun panics => only _ panics rfl

/-- Reading a chunk overflows no sum, in any build. -/
def CallSafe (crates : Crates) (reader : Aff4Reader) (chunkIdx : UInt64) : Prop :=
  ∀ platform : Platform, platform.Is64Bit →
    reader.readChunk platform crates chunkIdx ≠ .panic .addOverflow

/-- Reading a chunk is safe unless its index can be read and its number in the
segment is the last product that fits. -/
theorem callSafe_iff
    (crates : Crates) (chunksPerSegment_ne_zero : reader.chunksPerSegment ≠ 0)
    (chunkIdx : UInt64) :
    reader.CallSafe crates chunkIdx ↔
      ((∃ indexData, reader.archive.readEntry (indexName reader.zipBase
          (chunkIdx / reader.chunksPerSegment)) = .ok indexData) →
        (chunkIdx % reader.chunksPerSegment).toNat ≠ lastProduct) := by
  constructor
  · rintro safe ⟨indexData, read⟩ last
    have short := ZipArchive.length_lt_of_readEntry_eq_ok read
    apply safe .debug64 Platform.is64Bit_debug64
    rw [readChunk_eq chunksPerSegment_ne_zero, read, Outcome.ofExcept_ok,
      Outcome.ok_bind,
      (chunkBoundsFromIndex_eq_panic Platform.is64Bit_debug64 short).mpr
        ⟨rfl, rfl, last⟩, Outcome.panic_bind]
  · intro other platform wide panics
    rw [readChunk_eq chunksPerSegment_ne_zero] at panics
    rcases Outcome.bind_eq_panic.mp panics with impossible | ⟨indexData, read, panics⟩
    · exact Outcome.ofExcept_ne_panic impossible
    rw [Outcome.ofExcept_eq_ok] at read
    rcases Outcome.bind_eq_panic.mp panics with panics | ⟨bounds, -, panics⟩
    · have short := ZipArchive.length_lt_of_readEntry_eq_ok read
      obtain ⟨-, -, last⟩ := (chunkBoundsFromIndex_eq_panic wide short).mp panics
      exact other ⟨indexData, read⟩ last
    · exact chunkWithin_ne_addOverflow _ _ panics

end Aff4Reader

/-- Which entries are decoded exactly, that what a writer encodes is among them,
and for which chunks a reader may ask. -/
theorem indexEntries_iff
    {index : Bytes} (short : index.length < 2 ^ 63) (chunkInSeg : UInt64)
    {crates : Crates} {reader : Aff4Reader} (opened : reader.Opened crates)
    (chunkIdx : UInt64) :
    (DecodesExactly index chunkInSeg ↔ chunkInSeg.toNat ≠ lastProduct) ∧
      (∀ entries offset length, index = writtenIndex entries →
        entries[chunkInSeg.toNat]? = some (offset, length) →
        ∀ platform : Platform, platform.Is64Bit →
          Decodes (chunkBoundsFromIndex platform index chunkInSeg)
            (if offset.toNat + length.toNat < 2 ^ 64 then
              some (offset.toNat, offset.toNat + length.toNat)
            else none)) ∧
      (reader.CallSafe crates chunkIdx ↔
        ((∃ indexData, reader.archive.readEntry (indexName reader.zipBase
            (chunkIdx / reader.chunksPerSegment)) = .ok indexData) →
          (chunkIdx % reader.chunksPerSegment).toNat ≠ lastProduct)) := by
  refine ⟨decodesExactly_iff short chunkInSeg, ?_,
    Aff4Reader.callSafe_iff crates opened.wellFormed.2 chunkIdx⟩
  rintro entries offset length rfl found platform wide
  exact decodes_writtenIndex wide short found

/-! A direct image with the files of one segment. -/

namespace OneSegment

variable (turtle : Text) (index bevy : Bytes)

def entries : List (Text × Bytes) :=
  [("information.turtle".toList, Str.asBytes turtle),
    ("i/00000000.index".toList, index),
    ("i/00000000".toList, bevy)]

variable {turtle index bevy} in
theorem entries_short {bound : Nat}
    (turtleShort : 4 * turtle.length < bound)
    (indexShort : index.length < bound) (bevyShort : bevy.length < bound) :
    ∀ entry ∈ entries turtle index bevy, entry.2.length < bound := by
  simp only [entries, List.forall_mem_cons, List.not_mem_nil, false_implies,
    implies_true, and_true]
  exact ⟨lt_of_le_of_lt (Str.length_asBytes_le turtle) turtleShort, indexShort,
    bevyShort⟩

variable (short : ∀ entry ∈ entries turtle index bevy, entry.2.length < 2 ^ 63)

def archive : ZipArchive := .ofEntries (entries turtle index bevy) short

def container {metadata : StreamMeta} (parsed : parseTurtle turtle = .ok metadata)
    (direct : metadata.mapMeta = none) :
    DirectContainer (.opening (archive turtle index bevy short)) [] where
  archive := archive turtle index bevy short
  turtle := turtle
  metadata := metadata
  archive_eq := rfl
  turtle_eq := ZipArchive.readEntryToString_of_asBytes turtle
    (ZipArchive.readEntry_ofEntries rfl)
  metadata_eq := parsed
  direct := direct

end OneSegment

/-! Chunks of one byte, all of them in one segment: the byte whose number is the
last product that fits cannot be read. -/

namespace LastProductSample

def turtle : Text :=
  "<i> a aff4:ImageStream ; aff4:chunkSize 1 ; ".toList ++
    "aff4:chunksInSegment 18446744073709551615 ; ".toList ++
    "aff4:size 2000000000000000000 . ".toList

def metadata : StreamMeta where
  streamArn := "i".toList
  virtualSize := 2000000000000000000
  imageStreamSize := 2000000000000000000
  chunkSize := 1
  chunksPerSegment := 18446744073709551615
  compression := .null
  imageHashes := []
  mapMeta := none

theorem parseTurtle_turtle : parseTurtle turtle = .ok metadata := by
  -- The kernel compares lists of characters faster than it unfolds string literals.
  unfold turtle
  simp only [String.reduceToList]
  decide +kernel

theorem entries_short : ∀ entry ∈ OneSegment.entries turtle (indexEntry 0 1) [0x41],
    entry.2.length < 2 ^ 63 :=
  OneSegment.entries_short (by decide +kernel) (by decide) (by decide)

def container : DirectContainer
    (.opening (OneSegment.archive turtle (indexEntry 0 1) [0x41] entries_short)) [] :=
  OneSegment.container _ _ _ _ parseTurtle_turtle rfl

/-- The number of the chunk, which is also its position. -/
def chunkIdx : UInt64 := 1537228672809129301

theorem not_decodesExactly_lastProduct :
    openReader (.opening container.archive) [] = .ok container.reader ∧
      (container.reader.seek .debug64 (.start chunkIdx)).1 = .ok chunkIdx ∧
      ((container.reader.seek .debug64 (.start chunkIdx)).2.read .debug64
        (.opening container.archive) [0]).result = .panic .addOverflow ∧
      ¬DecodesExactly (indexEntry 0 1) chunkIdx := by
  refine ⟨container.openReader_eq, by decide +kernel, by decide +kernel, ?_⟩
  intro exactly
  have decoded := exactly .debug64 Platform.is64Bit_debug64
  have panics : chunkBoundsFromIndex .debug64 (indexEntry 0 1) chunkIdx =
      .panic .addOverflow := by
    decide +kernel
  have unlisted : exactBounds (indexEntry 0 1) chunkIdx.toNat = none := by
    decide +kernel
  rw [panics, unlisted] at decoded
  obtain ⟨error, impossible⟩ := decoded
  cases impossible

theorem indexEntries_iff_lastProduct :
    (DecodesExactly (indexEntry 0 1) chunkIdx ↔ chunkIdx.toNat ≠ lastProduct) ∧
      (∀ entries offset length, indexEntry 0 1 = writtenIndex entries →
        entries[chunkIdx.toNat]? = some (offset, length) →
        ∀ platform : Platform, platform.Is64Bit →
          Decodes (chunkBoundsFromIndex platform (indexEntry 0 1) chunkIdx)
            (if offset.toNat + length.toNat < 2 ^ 64 then
              some (offset.toNat, offset.toNat + length.toNat)
            else none)) ∧
      (container.reader.CallSafe (.opening container.archive) chunkIdx ↔
        ((∃ indexData, container.reader.archive.readEntry
            (indexName container.reader.zipBase
              (chunkIdx / container.reader.chunksPerSegment)) = .ok indexData) →
          (chunkIdx % container.reader.chunksPerSegment).toNat ≠ lastProduct)) :=
  indexEntries_iff (by decide) chunkIdx
    (.of_openReader container.openReader_eq) chunkIdx

end LastProductSample
end Aff4
