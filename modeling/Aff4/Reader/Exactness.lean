import Aff4.Reader.Content
import Aff4.Reader.Open

/-!
# When the content pass is exact

The pass counts chunks from the declared size but advances by decoded lengths.
It is exact when every chunk supplies its part of the content; otherwise nothing
but a chunk that does not decode makes it fail.
-/

namespace Aff4

open Rust Storage

namespace Aff4Reader

/-- Chunk `index` supplies its part of the content: exactly a full chunk, or for
the last one at least the remainder. -/
def Supplies
    (platform : Platform) (crates : Crates) (reader : Aff4Reader) (index : Nat) :
    Prop :=
  ∃ chunk, reader.readChunk platform crates (UInt64.ofNat index) = .ok chunk ∧
    (index + 1 < reader.chunkCount → chunk.length = reader.chunkSize.toNat) ∧
    (index + 1 = reader.chunkCount →
      reader.imageStreamSize.toNat - index * reader.chunkSize.toNat ≤
        chunk.length)

/-- Reading the content is exact.  If it succeeds, the sink got as many bytes as
are declared, each of them from its own place in its own chunk; and it fails if
some chunk cannot supply its part. -/
structure ContentExact
    (platform : Platform) (crates : Crates) (reader : Aff4Reader) : Prop where
  length : (reader.readImageStreamContent platform crates).result = .ok () →
    (reader.readImageStreamContent platform crates).fed.flatten.length =
      reader.imageStreamSize.toNat
  byteAt : (reader.readImageStreamContent platform crates).result = .ok () →
    ∀ position, position < reader.imageStreamSize.toNat →
      ∃ chunk,
        reader.readChunk platform crates
          (UInt64.ofNat (position / reader.chunkSize.toNat)) = .ok chunk ∧
        position % reader.chunkSize.toNat < chunk.length ∧
        (reader.readImageStreamContent platform crates).fed.flatten[position]? =
          chunk[position % reader.chunkSize.toNat]?
  fails : ∀ index, index < reader.chunkCount →
    ¬reader.Supplies platform crates index →
    ∃ error,
      (reader.readImageStreamContent platform crates).result = .err error

variable {platform : Platform} {crates : Crates} {reader : Aff4Reader}

theorem lt_chunkCount_of_lt
    (chunkSize_ne_zero : reader.chunkSize ≠ 0) {position : Nat}
    (inside : position < reader.imageStreamSize.toNat) :
    position / reader.chunkSize.toNat < reader.chunkCount := by
  rw [lt_chunkCount_iff chunkSize_ne_zero]
  exact lt_of_le_of_lt (Nat.div_mul_le_self _ _) inside

section Supplied

variable (chunkSize_ne_zero : reader.chunkSize ≠ 0)
variable (supplied : ∀ index, index < reader.chunkCount →
  reader.Supplies platform crates index)

include supplied in
theorem length_decodedChunk_of_supplies {index : Nat}
    (inner : index + 1 < reader.chunkCount) :
    (reader.decodedChunk platform crates index).length =
      reader.chunkSize.toNat := by
  obtain ⟨chunk, read, full, -⟩ := supplied index (by omega)
  rw [decodedChunk_of_readChunk read, full inner]

include chunkSize_ne_zero supplied in
/-- When every chunk supplies its part, every byte of the content is in its
place. -/
theorem getElem?_streamContent_of_supplies {position : Nat}
    (inside : position < reader.imageStreamSize.toNat) :
    ∃ chunk,
      reader.readChunk platform crates
        (UInt64.ofNat (position / reader.chunkSize.toNat)) = .ok chunk ∧
      position % reader.chunkSize.toNat < chunk.length ∧
      (reader.streamContent platform crates)[position]? =
        chunk[position % reader.chunkSize.toNat]? := by
  have positive := chunkSize_pos chunkSize_ne_zero
  have below := lt_chunkCount_of_lt chunkSize_ne_zero inside
  have place := Nat.div_add_mod' position reader.chunkSize.toNat
  have offset := Nat.mod_lt position positive
  obtain ⟨chunk, read, full, enough⟩ := supplied _ below
  have decoded := decodedChunk_of_readChunk read
  have inChunk : position % reader.chunkSize.toNat < chunk.length := by
    by_cases inner : position / reader.chunkSize.toNat + 1 < reader.chunkCount
    · rw [full inner]
      exact offset
    · have covered := (lt_chunkCount_iff
        chunkSize_ne_zero
        (position / reader.chunkSize.toNat + 1)).not.mp inner
      have enough := enough (by omega)
      rw [Nat.succ_mul] at covered
      omega
  refine ⟨chunk, read, inChunk, ?_⟩
  rw [streamContent, List.getElem?_take_of_lt inside]
  conv_lhs => rw [← place]
  rw [getElem?_joined below
    (fun before earlier => length_decodedChunk_of_supplies supplied (by omega))
    (by rw [decoded]; exact inChunk), decoded]

include chunkSize_ne_zero supplied in
theorem length_streamContent_of_supplies :
    (reader.streamContent platform crates).length =
      reader.imageStreamSize.toNat := by
  apply Nat.le_antisymm
  · rw [streamContent, List.length_take]
    exact Nat.min_le_left _ _
  · by_contra short
    obtain ⟨chunk, _, inChunk, sameByte⟩ := getElem?_streamContent_of_supplies
      chunkSize_ne_zero supplied
      (show (reader.streamContent platform crates).length < _ by omega)
    rw [List.getElem?_eq_none le_rfl, List.getElem?_eq_getElem inChunk] at sameByte
    cases sameByte

end Supplied

/-- The pass ends with an error exactly when the first chunk that does not
decode fails with one. -/
theorem readImageStreamContent_eq_err
    (wide : platform.Is64Bit) (chunkSize_ne_zero : reader.chunkSize ≠ 0)
    {error : Aff4Error} :
    (reader.readImageStreamContent platform crates).result = .err error ↔
      ∃ index, index < reader.chunkCount ∧
        (∀ before, before < index → ∃ chunk,
          reader.readChunk platform crates (UInt64.ofNat before) = .ok chunk) ∧
        reader.readChunk platform crates (UInt64.ofNat index) = .err error := by
  have collected : Outcome.collect
      (fun index => reader.readChunk platform crates (UInt64.ofNat index))
      0 reader.chunkCount = .err error ↔ _ := Outcome.collect_eq_err
  simp only [Nat.zero_add] at collected
  rw [readImageStreamContent_result wide chunkSize_ne_zero, ← collected]
  cases Outcome.collect
    (fun index => reader.readChunk platform crates (UInt64.ofNat index))
    0 reader.chunkCount <;> simp

/-- The pass ends well exactly when every chunk decodes. -/
theorem readImageStreamContent_eq_ok
    (wide : platform.Is64Bit) (chunkSize_ne_zero : reader.chunkSize ≠ 0) :
    (reader.readImageStreamContent platform crates).result = .ok () ↔
      ∀ index, index < reader.chunkCount → ∃ chunk,
        reader.readChunk platform crates (UInt64.ofNat index) = .ok chunk := by
  have collected : (∃ chunks, Outcome.collect
      (fun index => reader.readChunk platform crates (UInt64.ofNat index))
      0 reader.chunkCount = .ok chunks) ↔ _ := Outcome.exists_collect_eq_ok
  simp only [Nat.zero_add] at collected
  rw [readImageStreamContent_result wide chunkSize_ne_zero, ← collected]
  cases Outcome.collect
    (fun index => reader.readChunk platform crates (UInt64.ofNat index))
    0 reader.chunkCount <;> simp

/-- Reading the content is exact if and only if every chunk supplies its part or
the first chunk that does not decode fails with an error. -/
theorem contentExact_iff
    (wide : platform.Is64Bit) {backing : Bytes}
    (opened : openReader crates backing = .ok reader) :
    reader.ContentExact platform crates ↔
      (∀ index, index < reader.chunkCount →
        reader.Supplies platform crates index) ∨
      (∃ index, index < reader.chunkCount ∧
        (∀ before, before < index → ∃ chunk,
          reader.readChunk platform crates (UInt64.ofNat before) = .ok chunk) ∧
        ∃ error,
          reader.readChunk platform crates (UInt64.ofNat index) = .err error) := by
  have nonzero := (openReader_wellFormed opened).1
  constructor
  · intro exact
    by_cases supplied : ∀ index, index < reader.chunkCount →
        reader.Supplies platform crates index
    · exact .inl supplied
    · push Not at supplied
      obtain ⟨index, below, missing⟩ := supplied
      obtain ⟨error, fails⟩ := exact.fails index below missing
      obtain ⟨first, inside, earlier, failure⟩ :=
        (readImageStreamContent_eq_err wide nonzero).mp fails
      exact .inr ⟨first, inside, earlier, error, failure⟩
  · rintro (supplied | ⟨index, below, earlier, error, failure⟩)
    · have returns := (readImageStreamContent_eq_ok wide nonzero).mpr
        fun index below =>
          let ⟨chunk, read, _⟩ := supplied index below
          ⟨chunk, read⟩
      have fed := readImageStreamContent_fed wide nonzero returns
      refine ⟨fun _ => ?_, fun _ position inside => ?_,
        fun index below missing => absurd (supplied index below) missing⟩
      · rw [fed]
        exact length_streamContent_of_supplies nonzero supplied
      · rw [fed]
        exact getElem?_streamContent_of_supplies nonzero supplied inside
    · have fails := (readImageStreamContent_eq_err wide nonzero).mpr
        ⟨index, below, earlier, failure⟩
      have notReturns :
          (reader.readImageStreamContent platform crates).result ≠ .ok () := by
        rw [fails]
        exact fun impossible => by cases impossible
      exact ⟨fun returns => absurd returns notReturns,
        fun returns => absurd returns notReturns, fun _ _ _ => ⟨error, fails⟩⟩

/-! A first chunk of one byte where two are declared: the pass succeeds with two
bytes instead of three. -/

def shortChunk : MapContainer
    (.opening (Small.archive [] (indexEntry 0 1 ++ indexEntry 1 1) [0x41, 0x42]
      (Small.entries_short (by decide) (by decide) (by decide)))) [] :=
  Small.container _ _ _ _

theorem not_contentExact_shortChunk :
    openReader (.opening shortChunk.archive) [] = .ok shortChunk.reader ∧
      ¬shortChunk.reader.ContentExact .debug64 (.opening shortChunk.archive) := by
  refine ⟨shortChunk.openReader_eq, fun exact => ?_⟩
  have length := exact.length (by decide)
  revert length
  decide

theorem contentExact_iff_shortChunk :
    shortChunk.reader.ContentExact .debug64 (.opening shortChunk.archive) ↔
      (∀ index, index < shortChunk.reader.chunkCount →
        shortChunk.reader.Supplies .debug64 (.opening shortChunk.archive) index) ∨
      (∃ index, index < shortChunk.reader.chunkCount ∧
        (∀ before, before < index → ∃ chunk,
          shortChunk.reader.readChunk .debug64 (.opening shortChunk.archive)
            (UInt64.ofNat before) = .ok chunk) ∧
        ∃ error,
          shortChunk.reader.readChunk .debug64 (.opening shortChunk.archive)
            (UInt64.ofNat index) = .err error) :=
  contentExact_iff Platform.is64Bit_debug64 shortChunk.openReader_eq

end Aff4Reader
end Aff4
