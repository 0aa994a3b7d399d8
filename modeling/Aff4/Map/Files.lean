import Aff4.Map.LinearScan
import Aff4.Map.Symbolic
import Aff4.Storage.Blocks

/-!
# The files of a map

A map is stored as a file of records and a file of target names.  Every map that
the reader can hold is the map of such files.
-/

namespace Aff4

open Rust Rust.Str Storage

/-! ## Records -/

/-- The 28 bytes of a record. -/
def MapEntry.toBytes (entry : MapEntry) : Bytes :=
  u64ToLeBytes entry.mapOffset ++ u64ToLeBytes entry.length ++
    u64ToLeBytes entry.targetOffset ++ u32ToLeBytes entry.targetId

/-- The `/map` file of a list of records. -/
def mapFile (records : List MapEntry) : Bytes := records.flatMap MapEntry.toBytes

theorem MapEntry.length_toBytes (entry : MapEntry) :
    entry.toBytes.length = 28 := by
  simp [toBytes]

/-- A record is decoded from its bytes. -/
theorem decodeRecord_toBytes (entry : MapEntry) :
    decodeRecord entry.toBytes = entry := by
  have offset := length_u64ToLeBytes entry.mapOffset
  have length := length_u64ToLeBytes entry.length
  have target := length_u64ToLeBytes entry.targetOffset
  have first : entry.toBytes.take 8 = u64ToLeBytes entry.mapOffset := by
    simp only [MapEntry.toBytes, List.append_assoc]
    exact List.take_left' offset
  have second : (entry.toBytes.drop 8).take 8 = u64ToLeBytes entry.length := by
    simp only [MapEntry.toBytes, List.append_assoc]
    rw [List.drop_left' offset, List.take_left' length]
  have third : (entry.toBytes.drop 16).take 8 = u64ToLeBytes entry.targetOffset := by
    simp only [MapEntry.toBytes, List.append_assoc]
    rw [← List.append_assoc, List.drop_left' (by rw [List.length_append, offset, length]),
      List.take_left' target]
  have fourth : entry.toBytes.drop 24 = u32ToLeBytes entry.targetId := by
    rw [MapEntry.toBytes, List.drop_left']
    rw [List.length_append, List.length_append, offset, length, target]
  rw [decodeRecord, first, second, third, fourth, u64FromLeBytes_toLeBytes,
    u64FromLeBytes_toLeBytes, u64FromLeBytes_toLeBytes, u32FromLeBytes_toLeBytes]

/-- The records of a file are read back, whatever part of one is behind them. -/
theorem mapRecords_mapFile
    (safeRead : SafeRead) (records : List MapEntry) {trailing : Bytes}
    (partialRecord : trailing.length < 28) :
    mapRecords safeRead (mapFile records ++ trailing) = records := by
  have width := length_flatMap_of_length MapEntry.length_toBytes records
  have count : (mapFile records ++ trailing).length / 28 = records.length := by
    rw [List.length_append, mapFile, width]
    omega
  rw [mapRecords_eq_fileRecords, fileRecords, count]
  apply List.ext_getElem?
  intro place
  rw [List.getElem?_map]
  by_cases below : place < records.length
  · have found := List.getElem?_eq_getElem below
    have inside : 28 * place + 28 ≤ (mapFile records).length := by
      rw [mapFile, width]
      omega
    have piece : ((mapFile records ++ trailing).drop (28 * place)).take 28 =
        records[place].toBytes := by
      rw [List.drop_append_of_le_length (by omega),
        List.take_append_of_le_length (by rw [List.length_drop]; omega), Nat.mul_comm]
      exact take_drop_flatMap MapEntry.length_toBytes found
    rw [List.getElem?_range below, found, Option.map_some, piece, decodeRecord_toBytes]
  · rw [List.getElem?_eq_none (by simpa using below),
      List.getElem?_eq_none (by omega), Option.map_none]

/-- Sorted records without empty ones are parsed as they are. -/
theorem parseMapEntries_mapFile
    (safeRead : SafeRead) (map : LoadedMap) {trailing : Bytes}
    (partialRecord : trailing.length < 28) :
    parseMapEntries safeRead (mapFile map.entries ++ trailing) = map.entries := by
  have kept : (map.entries.filter fun entry => decide (0 < entry.length)) =
      map.entries := by
    rw [List.filter_eq_self]
    exact fun entry member => decide_eq_true (map.nonempty entry member)
  rw [parseMapEntries, mapRecords_mapFile safeRead map.entries partialRecord, kept]
  exact sortByKey_of_pairwise _ map.sorted

/-! ## Targets -/

/-- The namespace of the vocabulary. -/
def vocabulary : Text := "http://aff4.org/Schema#".toList

theorem vocabulary_append_ne_nil (name : Text) : vocabulary ++ name ≠ [] :=
  List.append_ne_nil_of_left_ne_nil (by decide) name

/-- A name of a target in the vocabulary; a stream has its own. -/
def TargetKind.name (imageStreamArn : Text) : TargetKind → Text
  | .imageStream => imageStreamArn
  | .fill byte =>
      vocabulary ++ "SymbolicStream".toList ++
        [Nat.digitChar (byte.toNat / 16), Nat.digitChar (byte.toNat % 16)]
  | .tile .unknown => vocabulary ++ "UnknownData".toList
  | .tile .unreadable => vocabulary ++ "UnreadableData".toList
  | .unknown => vocabulary ++ "Unmapped".toList

/-- The lines that name a target; zeros are the only ones with a prefixed name. -/
inductive TargetKind.NamedBy (imageStreamArn : Text) : TargetKind → Text → Prop
  | name (kind : TargetKind) : NamedBy imageStreamArn kind (kind.name imageStreamArn)
  | zero : NamedBy imageStreamArn (.fill 0) (vocabulary ++ "Zero".toList)
  | prefixedZero (foreign : imageStreamArn ≠ "aff4:Zero".toList) :
      NamedBy imageStreamArn (.fill 0) "aff4:Zero".toList

/-- The `/idx` file of a list of lines. -/
def idxFile (names : List Text) : Text := names.flatMap (· ++ ['\n'])

/-- An IRI of a stream: a word outside the vocabulary. -/
structure IsStreamIri (iri : Text) : Prop where
  ne_nil : iri ≠ []
  solid : ∀ c ∈ iri, isWhitespace c = false
  foreign : ¬vocabulary <+: iri

instance (iri : Text) : Decidable (IsStreamIri iri) :=
  decidable_of_iff (iri ≠ [] ∧ (∀ c ∈ iri, isWhitespace c = false) ∧
    ¬vocabulary <+: iri)
    ⟨fun checked => ⟨checked.1, checked.2.1, checked.2.2⟩,
      fun isIri => ⟨isIri.ne_nil, isIri.solid, isIri.foreign⟩⟩

/-- Two hex digits of a byte. -/
theorem hexdigits_byte (byte : UInt8) :
    (isAsciiHexdigit (Nat.digitChar (byte.toNat / 16)) = true ∧
      isAsciiHexdigit (Nat.digitChar (byte.toNat % 16)) = true) ∧
    hexByte (Nat.digitChar (byte.toNat / 16)) (Nat.digitChar (byte.toNat % 16)) =
      byte := by
  have digit : ∀ n : Fin 16, isAsciiHexdigit (Nat.digitChar n) = true ∧
      toDigit16 (Nat.digitChar n) = some n.val := by
    decide
  have below := byte.toNat_lt
  obtain ⟨highDigit, high⟩ := digit ⟨byte.toNat / 16, by omega⟩
  obtain ⟨lowDigit, low⟩ := digit ⟨byte.toNat % 16, by omega⟩
  refine ⟨⟨highDigit, lowDigit⟩, ?_⟩
  dsimp only at high low
  rw [hexByte, high, low, Option.getD_some, Option.getD_some, Nat.div_add_mod',
    UInt8.ofNat_toNat]

section

variable {imageStreamArn : Text} (isIri : IsStreamIri imageStreamArn)

include isIri

/-- A target is recognised by its name. -/
theorem classifyTarget_name (kind : TargetKind) :
    classifyTarget (kind.name imageStreamArn) imageStreamArn = kind := by
  have named {rest : Text} :
      classifyTarget (vocabulary ++ rest) imageStreamArn =
        classifyTarget (vocabulary ++ rest) [] := by
    apply classifyTarget_of_ne (vocabulary_append_ne_nil rest)
    rintro rfl
    exact isIri.foreign (List.prefix_append ..)
  cases kind with
  | imageStream => exact classifyTarget_self imageStreamArn
  | fill byte =>
      obtain ⟨hexdigits, value⟩ := hexdigits_byte byte
      have absent : ¬"SymbolicStream".toList <:+:
          vocabulary ++ "SymbolicStream".toList.dropLast := by
        rw [← contains_iff]
        decide
      have first := firstByte_of_not_infix hexdigits absent
      rw [value] at first
      rw [TargetKind.name, List.append_assoc, named, ← List.append_assoc]
      exact (classifyTarget_constant hexdigits vocabulary).mpr first
  | tile tile =>
      cases tile with
      | unknown => exact named.trans (by decide)
      | unreadable => exact named.trans (by decide)
  | unknown => exact named.trans (by decide)

theorem solid_name (kind : TargetKind) :
    kind.name imageStreamArn ≠ [] ∧
      ∀ c ∈ kind.name imageStreamArn, isWhitespace c = false := by
  have known {name : Text} (listed : name ∈ ["SymbolicStream".toList,
      "UnknownData".toList, "UnreadableData".toList, "Unmapped".toList]) :
      vocabulary ++ name ≠ [] ∧ ∀ c ∈ vocabulary ++ name, isWhitespace c = false := by
    refine ⟨vocabulary_append_ne_nil name, ?_⟩
    simp only [List.mem_cons, List.not_mem_nil, or_false] at listed
    rcases listed with rfl | rfl | rfl | rfl
    all_goals exact forall_mem_of_all rfl
  cases kind with
  | imageStream => exact ⟨isIri.ne_nil, isIri.solid⟩
  | fill byte =>
      obtain ⟨nonempty, allSolid⟩ := @known "SymbolicStream".toList (by simp)
      obtain ⟨⟨high, low⟩, -⟩ := hexdigits_byte byte
      refine ⟨List.append_ne_nil_of_left_ne_nil nonempty _, ?_⟩
      rw [TargetKind.name, List.forall_mem_append, List.forall_mem_cons,
        List.forall_mem_singleton]
      exact ⟨allSolid,
        isWhitespace_of_isAsciiAlphanumeric
          (isAsciiAlphanumeric_of_isAsciiHexdigit high),
        isWhitespace_of_isAsciiAlphanumeric
          (isAsciiAlphanumeric_of_isAsciiHexdigit low)⟩
  | tile tile =>
      cases tile with
      | unknown => exact known (by simp)
      | unreadable => exact known (by simp)
  | unknown => exact known (by simp)

/-- A line that names a target is a word, and is classified as the target. -/
theorem classifyTarget_of_namedBy {kind : TargetKind} {line : Text}
    (named : kind.NamedBy imageStreamArn line) :
    (line ≠ [] ∧ ∀ c ∈ line, isWhitespace c = false) ∧
      classifyTarget line imageStreamArn = kind := by
  cases named with
  | name => exact ⟨solid_name isIri kind, classifyTarget_name isIri kind⟩
  | zero =>
      refine ⟨⟨vocabulary_append_ne_nil _, forall_mem_of_all rfl⟩, ?_⟩
      rw [classifyTarget_of_ne (vocabulary_append_ne_nil _)]
      · decide
      · rintro rfl
        exact isIri.foreign (List.prefix_append ..)
  | prefixedZero foreign =>
      have nonempty : "aff4:Zero".toList ≠ [] := by decide
      refine ⟨⟨nonempty, forall_mem_of_all rfl⟩, ?_⟩
      rw [classifyTarget_of_ne nonempty foreign.symm]
      decide

/-- The names of targets are read back as the targets. -/
theorem parseIdx_idxFile (kinds : List TargetKind) :
    parseIdx (idxFile (kinds.map (TargetKind.name imageStreamArn))) imageStreamArn =
      kinds := by
  have solid : ∀ name ∈ kinds.map (TargetKind.name imageStreamArn),
      name ≠ [] ∧ ∀ c ∈ name, isWhitespace c = false := by
    intro name member
    obtain ⟨kind, -, rfl⟩ := List.mem_map.mp member
    exact solid_name isIri kind
  rw [parseIdx, idxFile, lines_flatMap fun name member => ?_]
  · have kept : ((kinds.map (TargetKind.name imageStreamArn)).filter
        fun line => !(trim line).isEmpty) =
          kinds.map (TargetKind.name imageStreamArn) := by
      rw [List.filter_eq_self]
      intro name member
      obtain ⟨nonempty, allSolid⟩ := solid name member
      rw [trim_of_solid allSolid, Bool.not_eq_true', List.isEmpty_eq_false_iff]
      exact nonempty
    rw [kept, List.map_map]
    conv_rhs => rw [← List.map_id kinds]
    apply List.map_congr_left
    intro kind member
    have allSolid := (solid_name isIri kind).2
    rw [Function.comp_apply, trim_of_solid allSolid]
    exact classifyTarget_name isIri kind
  · obtain ⟨-, allSolid⟩ := solid name member
    constructor
    · intro lineBreak
      cases allSolid _ lineBreak
    · intro ending
      cases allSolid _ (List.mem_of_getLast? ending)

end

/-! ## Loading -/

/-- Every map that a reader can hold for an image is loaded from the files of its
records and of the names of its targets. -/
theorem loadMap_files
    {crates : Crates} {archive : ZipArchive} {mapMeta : MapMeta}
    (isIri : IsStreamIri mapMeta.imageStreamArn) (map : LoadedMap)
    (gapDefault : map.gapDefault =
      if mapMeta.gapIsSymbolicFf then .fill 0xFF else .fill 0x00)
    {trailing : Bytes} (partialRecord : trailing.length < 28)
    (storedMap : archive.readEntry
        (detectZipBase archive mapMeta.mapArn ++ "/map".toList) =
      .ok (mapFile map.entries ++ trailing))
    (storedIdx : archive.readEntry
        (detectZipBase archive mapMeta.mapArn ++ "/idx".toList) =
      .ok (asBytes (idxFile
        (map.targets.map (TargetKind.name mapMeta.imageStreamArn))))) :
    loadMap crates archive mapMeta = .ok map := by
  have idxData := ZipArchive.readEntryToString_of_asBytes _ storedIdx
  have entries := parseMapEntries_mapFile crates.safeRead map partialRecord
  have targets := parseIdx_idxFile isIri map.targets
  simp only [loadMap, storedMap, idxData, bind, Except.bind, LoadedMap.load, entries,
    targets, ← gapDefault]
  rfl

/-! A map of all kinds of targets, with two records at one offset and a byte behind the
last record. -/

namespace FilesSample

def map : LoadedMap where
  entries := [⟨0, 4, 1, 3⟩, ⟨4, 2, 0, 1⟩, ⟨4, 3, 9, 0⟩, ⟨8, 1, 0, 7⟩]
  targets := [.fill 0xA7, .tile .unreadable, .unknown, .imageStream]
  gapDefault := .fill 0x00
  sorted := by decide
  nonempty := by decide

def mapMeta : MapMeta where
  mapArn := "aff4://m".toList
  imageStreamArn := "aff4://i".toList
  gapIsSymbolicFf := false

def entries : List (Text × Bytes) :=
  [("aff4%3A%2F%2Fm/map".toList, mapFile map.entries ++ [0xFF]),
    ("aff4%3A%2F%2Fm/idx".toList, asBytes (idxFile
      (map.targets.map (TargetKind.name mapMeta.imageStreamArn))))]

def archive : ZipArchive := .ofEntries entries (by decide +kernel)

theorem loadMap_files_sample :
    loadMap (.opening archive) archive mapMeta = .ok map :=
  loadMap_files (by decide) map rfl (show [0xFF].length < 28 by decide)
    (ZipArchive.readEntry_ofEntries rfl) (ZipArchive.readEntry_ofEntries rfl)

end FilesSample

end Aff4
