import Aff4.Reader.Open
import Aff4.Turtle.Binding

/-!
# Symbolic streams

A symbolic stream can be named by its full IRI or by its prefixed name in the
`/idx` file, and as the gap default of a Map.  The two pieces of code that read
these names know different forms of them.
-/

namespace Aff4

open Rust Rust.Str

/-- The value of two hex digits. -/
def hexByte (hi lo : Char) : UInt8 :=
  UInt8.ofNat ((toDigit16 hi).getD 0 * 16 + (toDigit16 lo).getD 0)

/-- A symbolic stream of the vocabulary. -/
inductive SymbolicStream
  | zero
  | constant (hi lo : Char)
      (hexdigits : isAsciiHexdigit hi = true ∧ isAsciiHexdigit lo = true)
  | unknownData
  | unreadableData

namespace SymbolicStream

/-- The name of a stream behind the prefix `aff4:`. -/
def name : SymbolicStream → Text
  | .zero => "Zero".toList
  | .constant hi lo _ => "SymbolicStream".toList ++ [hi, lo]
  | .unknownData => "UnknownData".toList
  | .unreadableData => "UnreadableData".toList

/-- A full IRI of a stream in some namespace. -/
def fullIri (stream : SymbolicStream) (vocabulary : Text) : Text :=
  vocabulary ++ '#' :: stream.name

def prefixedName (stream : SymbolicStream) : Text :=
  "aff4:".toList ++ stream.name

/-- The byte that a stream repeats. -/
def byte : SymbolicStream → Option UInt8
  | .zero => some 0x00
  | .constant hi lo _ => some (hexByte hi lo)
  | .unknownData | .unreadableData => none

/-- The two names of a stream differ. -/
theorem fullIri_ne_prefixedName (stream : SymbolicStream) (vocabulary : Text) :
    stream.fullIri vocabulary ≠ stream.prefixedName := by
  intro equal
  have sign : '#' ∈ stream.prefixedName := by
    rw [← equal]
    exact List.mem_append_right _ (List.mem_cons_self ..)
  rcases List.mem_append.mp sign with inPrefix | inName
  · exact absurd inPrefix (by decide)
  cases stream with
  | zero => exact absurd inName (by decide)
  | unknownData => exact absurd inName (by decide)
  | unreadableData => exact absurd inName (by decide)
  | constant hi lo hexdigits =>
      rcases List.mem_append.mp inName with stem | digits
      · exact absurd stem (by decide)
      rcases List.mem_pair.mp digits with rfl | rfl
      · exact absurd hexdigits.1 (by decide)
      · exact absurd hexdigits.2 (by decide)

end SymbolicStream

/-! ## Targets -/

/-- A target other than the image stream is classified by its own text. -/
theorem classifyTarget_of_ne {target imageStreamArn : Text}
    (nonempty : target ≠ []) (different : target ≠ imageStreamArn) :
    classifyTarget target imageStreamArn = classifyTarget target [] := by
  unfold classifyTarget
  rw [if_neg different, if_neg nonempty]

theorem classifyTarget_self (imageStreamArn : Text) :
    classifyTarget imageStreamArn imageStreamArn = .imageStream := by
  unfold classifyTarget
  exact if_pos rfl

/-- Only the image stream's own ARN is classified as it. -/
theorem eq_of_classifyTarget_eq_imageStream {target imageStreamArn : Text}
    (isStream : classifyTarget target imageStreamArn = .imageStream) :
    target = imageStreamArn := by
  by_contra different
  rw [classifyTarget, if_neg different] at isStream
  repeat' split at isStream
  all_goals cases isStream

/-- A suffix of a joined text that is no longer than its end is a suffix of
that. -/
theorem isSuffixOf_append {ending : Text} (before text : Text)
    (short : ending.length ≤ text.length) :
    ending.isSuffixOf (before ++ text) = ending.isSuffixOf text := by
  rw [Bool.eq_iff_iff, List.isSuffixOf_iff_suffix, List.isSuffixOf_iff_suffix]
  constructor
  · intro suffix
    exact List.suffix_of_suffix_length_le suffix (List.suffix_append ..) short
  · exact fun suffix => suffix.trans (List.suffix_append ..)

/-- A text that ends in two hex digits ends in no other name of the vocabulary. -/
theorem classifyTarget_of_hexdigits {hi lo : Char}
    (hexdigits : isAsciiHexdigit hi = true ∧ isAsciiHexdigit lo = true)
    (before : Text) :
    classifyTarget (before ++ [hi, lo]) [] =
      match symbolicStreamByte (before ++ [hi, lo]) with
      | some byte => .fill byte
      | none => .unknown := by
  have notEnding (ending : Text) (c d : Char) (noHex :
      ¬(isAsciiHexdigit c = true ∧ isAsciiHexdigit d = true)) :
      (ending ++ [c, d]).isSuffixOf (before ++ [hi, lo]) = false := by
    rw [Bool.eq_false_iff, ne_eq, List.isSuffixOf_iff_suffix]
    intro suffix
    have tail : [c, d] <:+ before ++ [hi, lo] :=
      (List.suffix_append ending _).trans suffix
    have same := List.suffix_of_suffix_length_le tail
      (List.suffix_append before [hi, lo]) le_rfl
    have equal := same.eq_of_length rfl
    cases equal
    exact noHex hexdigits
  have zero : "#Zero".toList.isSuffixOf (before ++ [hi, lo]) = false :=
    notEnding "#Ze".toList 'r' 'o' (by decide)
  have unknown : "#UnknownData".toList.isSuffixOf (before ++ [hi, lo]) = false :=
    notEnding "#UnknownDa".toList 't' 'a' (by decide)
  have unreadable :
      "#UnreadableData".toList.isSuffixOf (before ++ [hi, lo]) = false :=
    notEnding "#UnreadableDa".toList 't' 'a' (by decide)
  have noZero : before ++ [hi, lo] ≠ "aff4:Zero".toList := by
    intro equal
    have ending := notEnding "aff4:Ze".toList 'r' 'o' (by decide)
    rw [equal] at ending
    exact absurd ending (by decide)
  unfold classifyTarget
  rw [if_neg (by simp), zero, unknown, unreadable, decide_eq_false noZero]
  rfl

/-! ## Constant streams -/

theorem exists_toDigit16 {c : Char} (digit : isAsciiHexdigit c = true) :
    ∃ value, toDigit16 c = some value := by
  simp only [isAsciiHexdigit, Bool.or_eq_true] at digit
  unfold toDigit16
  split
  · exact ⟨_, rfl⟩
  split
  · exact ⟨_, rfl⟩
  split
  · exact ⟨_, rfl⟩
  next noDecimal noLower noUpper =>
    rcases digit with (decimal | lower) | upper
    · exact absurd decimal noDecimal
    · exact absurd lower noLower
    · exact absurd upper noUpper

/-- What stands behind the first `SymbolicStream` of a text, up to the next one, is
a byte as two hex digits, possibly with a number sign. -/
def FirstByte (text : Text) (byte : UInt8) : Prop :=
  ∃ hi lo, (isAsciiHexdigit hi = true ∧ isAsciiHexdigit lo = true) ∧
    hexByte hi lo = byte ∧
    ((split text "SymbolicStream".toList)[1]? = some [hi, lo] ∨
      (split text "SymbolicStream".toList)[1]? = some ['#', hi, lo])

theorem symbolicStreamByte_eq_some_iff {text : Text} {byte : UInt8} :
    symbolicStreamByte text = some byte ↔ FirstByte text byte := by
  unfold symbolicStreamByte
  cases piece : (split text "SymbolicStream".toList)[1]? with
  | none =>
      refine iff_of_false (fun impossible => by cases impossible) ?_
      rintro ⟨hi, lo, -, -, found⟩
      rw [piece] at found
      rcases found with impossible | impossible <;> cases impossible
  | some after =>
      have value (hi lo : Char)
          (hexdigits : isAsciiHexdigit hi = true ∧ isAsciiHexdigit lo = true) :
          ((toDigit16 hi).bind fun h => (toDigit16 lo).bind fun l =>
            some (UInt8.ofNat (h * 16 + l))) = some (hexByte hi lo) := by
        obtain ⟨h, high⟩ := exists_toDigit16 hexdigits.1
        obtain ⟨l, low⟩ := exists_toDigit16 hexdigits.2
        rw [hexByte, high, low]
        rfl
      simp only [Option.bind_eq_bind, Option.bind_some, Option.pure_def]
      constructor
      · intro read
        split at read
        · next hi lo stripped =>
            split at read
            · next hexdigits =>
                rw [value hi lo hexdigits] at read
                refine ⟨hi, lo, hexdigits, Option.some.inj read, ?_⟩
                rw [piece]
                cases signed : Str.stripPrefix after ['#'] with
                | none =>
                    rw [signed] at stripped
                    exact .inl (congrArg some stripped)
                | some rest =>
                    rw [signed] at stripped
                    rw [Str.stripPrefix_eq_some.mp signed]
                    exact .inr (congrArg (fun rest => some ('#' :: rest)) stripped)
            · cases read
        · cases read
      · rintro ⟨hi, lo, hexdigits, rfl, found⟩
        have stripped : (Str.stripPrefix after ['#']).getD after = [hi, lo] := by
          rw [piece] at found
          rcases found with plain | signed
          · cases plain
            have noSign : Str.stripPrefix [hi, lo] ['#'] = none := by
              rw [Option.eq_none_iff_forall_ne_some]
              intro rest signed
              have equal := Str.stripPrefix_eq_some.mp signed
              cases equal
              exact absurd hexdigits.1 (by decide)
            rw [noSign]
            rfl
          · cases signed
            rfl
        rw [stripped]
        dsimp only
        rw [if_pos hexdigits]
        exact value hi lo hexdigits

/-- A text in which only the last name contains `SymbolicStream` names its
byte. -/
theorem firstByte_of_not_infix {before : Text} {hi lo : Char}
    (hexdigits : isAsciiHexdigit hi = true ∧ isAsciiHexdigit lo = true)
    (first : ¬"SymbolicStream".toList <:+:
      before ++ "SymbolicStream".toList.dropLast) :
    FirstByte (before ++ "SymbolicStream".toList ++ [hi, lo]) (hexByte hi lo) := by
  have absent : ¬"SymbolicStream".toList <:+: [hi, lo] := fun inside =>
    absurd inside.length_le (by simp)
  refine ⟨hi, lo, hexdigits, rfl, .inl ?_⟩
  rw [split_append before _ first, split_of_not_infix absent]
  rfl

theorem classifyTarget_constant {hi lo : Char}
    (hexdigits : isAsciiHexdigit hi = true ∧ isAsciiHexdigit lo = true)
    (before : Text) {byte : UInt8} :
    classifyTarget (before ++ "SymbolicStream".toList ++ [hi, lo]) [] = .fill byte ↔
      FirstByte (before ++ "SymbolicStream".toList ++ [hi, lo]) byte := by
  rw [classifyTarget_of_hexdigits hexdigits, ← symbolicStreamByte_eq_some_iff]
  cases symbolicStreamByte (before ++ "SymbolicStream".toList ++ [hi, lo]) with
  | none => exact iff_of_false (fun equal => by cases equal) fun equal => by cases equal
  | some found => rw [TargetKind.fill.injEq, Option.some.injEq]

/-! ## The two names -/

/-- A name with a given ending has no other ending of at most its length. -/
theorem isSuffixOf_eq_false_of_suffix
    {name ending other : Text} (ends : ending <:+ name)
    (short : other.length ≤ ending.length) (apart : ¬other <:+ ending) :
    other.isSuffixOf name = false := by
  rw [← Bool.not_eq_true, List.isSuffixOf_iff_suffix]
  intro also
  exact apart (List.suffix_of_suffix_length_le also ends short)

theorem classifyTarget_of_unknownData {name imageStreamArn : Text}
    (foreign : name ≠ imageStreamArn) (ends : "#UnknownData".toList <:+ name) :
    classifyTarget name imageStreamArn = .tile .unknown := by
  have zero : "#Zero".toList.isSuffixOf name = false :=
    isSuffixOf_eq_false_of_suffix ends (by decide) (by decide)
  have unknown : "#UnknownData".toList.isSuffixOf name = true :=
    List.isSuffixOf_iff_suffix.mpr ends
  have noZero : name ≠ "aff4:Zero".toList := by
    rintro rfl
    exact absurd ends (by decide)
  rw [classifyTarget, if_neg foreign, if_neg, if_pos unknown]
  rw [zero, Bool.false_or, decide_eq_false noZero]
  exact Bool.false_ne_true

theorem classifyTarget_of_unreadableData {name imageStreamArn : Text}
    (foreign : name ≠ imageStreamArn) (ends : "#UnreadableData".toList <:+ name) :
    classifyTarget name imageStreamArn = .tile .unreadable := by
  have zero : "#Zero".toList.isSuffixOf name = false :=
    isSuffixOf_eq_false_of_suffix ends (by decide) (by decide)
  have unknown : "#UnknownData".toList.isSuffixOf name = false :=
    isSuffixOf_eq_false_of_suffix ends (by decide) (by decide)
  have unreadable : "#UnreadableData".toList.isSuffixOf name = true :=
    List.isSuffixOf_iff_suffix.mpr ends
  have noZero : name ≠ "aff4:Zero".toList := by
    rintro rfl
    exact absurd ends (by decide)
  rw [classifyTarget, if_neg foreign, if_neg, if_neg, if_pos unreadable]
  · rw [unknown]
    exact Bool.false_ne_true
  · rw [zero, Bool.false_or, decide_eq_false noZero]
    exact Bool.false_ne_true

theorem classifyTarget_fullIri_zero (vocabulary : Text) :
    classifyTarget (SymbolicStream.zero.fullIri vocabulary) [] = .fill 0x00 := by
  have ends : "#Zero".toList.isSuffixOf (vocabulary ++ "#Zero".toList) = true := by
    rw [isSuffixOf_append vocabulary _ le_rfl]
    decide
  have shape : SymbolicStream.zero.fullIri vocabulary =
    vocabulary ++ "#Zero".toList := rfl
  rw [shape]
  unfold classifyTarget
  rw [if_neg (by simp), ends]
  rfl

/-- A constant stream by its full IRI is read as its byte, unless the vocabulary
itself has `SymbolicStream` in it. -/
theorem classifyTarget_fullIri_constant {hi lo : Char}
    (hexdigits : isAsciiHexdigit hi = true ∧ isAsciiHexdigit lo = true)
    (vocabulary : Text) :
    classifyTarget
        ((SymbolicStream.constant hi lo hexdigits).fullIri vocabulary) [] =
        .fill (hexByte hi lo) ↔
      ("SymbolicStream".toList <:+: vocabulary →
        FirstByte ((SymbolicStream.constant hi lo hexdigits).fullIri vocabulary)
          (hexByte hi lo)) := by
  have shape : (SymbolicStream.constant hi lo hexdigits).fullIri vocabulary =
      (vocabulary ++ ['#']) ++ "SymbolicStream".toList ++ [hi, lo] := by
    rw [List.append_assoc, List.append_assoc]
    rfl
  rw [shape, classifyTarget_constant hexdigits]
  constructor
  · exact fun first _ => first
  · intro within
    by_cases earlier : "SymbolicStream".toList <:+: vocabulary
    · exact within earlier
    · apply firstByte_of_not_infix hexdigits
      have nonempty : "SymbolicStream".toList ≠ [] := by decide
      have foreign : '#' ∉ "SymbolicStream".toList := by decide
      rw [List.append_assoc, List.singleton_append,
        infix_append_cons_iff nonempty foreign, not_or]
      exact ⟨earlier, fun inside => absurd inside.length_le (by decide)⟩

theorem classifyTarget_prefixedName_constant {hi lo : Char}
    (hexdigits : isAsciiHexdigit hi = true ∧ isAsciiHexdigit lo = true) :
    classifyTarget (SymbolicStream.constant hi lo hexdigits).prefixedName [] =
      .fill (hexByte hi lo) := by
  have shape : (SymbolicStream.constant hi lo hexdigits).prefixedName =
    "aff4:".toList ++ "SymbolicStream".toList ++ [hi, lo] := rfl
  rw [shape, classifyTarget_constant hexdigits]
  exact firstByte_of_not_infix hexdigits (by decide +kernel)

/-- A prefixed name is read as the byte of its stream; unknown and unreadable data
have none, and are unknown targets by that name. -/
theorem classifyTarget_prefixedName (stream : SymbolicStream) :
    classifyTarget stream.prefixedName [] =
      (stream.byte.map TargetKind.fill).getD .unknown := by
  cases stream with
  | zero => decide +kernel
  | constant hi lo hexdigits => exact classifyTarget_prefixedName_constant hexdigits
  | unknownData => decide +kernel
  | unreadableData => decide +kernel

/-- Both names of a stream are read as its byte: neither of them is the image stream,
and its full IRI has no other name in front that is taken for its own. -/
structure NamesAgree
    (imageStreamArn : Text) (stream : SymbolicStream) (vocabulary : Text) : Prop where
  fullIri : stream.fullIri vocabulary ≠ imageStreamArn
  prefixedName : stream.prefixedName ≠ imageStreamArn
  repeated : ∃ byte, stream.byte = some byte ∧
    (stream ≠ .zero → "SymbolicStream".toList <:+: vocabulary →
      FirstByte (stream.fullIri vocabulary) byte)

/-- A symbolic stream is the same target by its full IRI and by its prefixed name if
and only if both are read as its byte. -/
theorem classifyTarget_names_iff
    (imageStreamArn : Text) (stream : SymbolicStream) (vocabulary : Text) :
    classifyTarget (stream.fullIri vocabulary) imageStreamArn =
        classifyTarget stream.prefixedName imageStreamArn ↔
      NamesAgree imageStreamArn stream vocabulary := by
  have apart := stream.fullIri_ne_prefixedName vocabulary
  -- The image stream has one name.
  by_cases iriDiffers : stream.fullIri vocabulary = imageStreamArn
  · refine iff_of_false (fun same => ?_) fun agree => agree.fullIri iriDiffers
    rw [iriDiffers, classifyTarget_self] at same
    exact apart (iriDiffers.trans (eq_of_classifyTarget_eq_imageStream same.symm).symm)
  by_cases nameDiffers : stream.prefixedName = imageStreamArn
  · refine iff_of_false (fun same => ?_) fun agree => agree.prefixedName nameDiffers
    rw [nameDiffers, classifyTarget_self] at same
    exact iriDiffers (eq_of_classifyTarget_eq_imageStream same)
  have iri_ne_nil : stream.fullIri vocabulary ≠ [] :=
    List.append_ne_nil_of_right_ne_nil _ (List.cons_ne_nil _ _)
  have name_ne_nil : stream.prefixedName ≠ [] := List.cons_ne_nil _ _
  rw [classifyTarget_of_ne iri_ne_nil iriDiffers,
    classifyTarget_of_ne name_ne_nil nameDiffers, classifyTarget_prefixedName]
  have kinds {kind : Prop} (same : kind ↔ ∃ byte, stream.byte = some byte ∧
      (stream ≠ .zero → "SymbolicStream".toList <:+: vocabulary →
        FirstByte (stream.fullIri vocabulary) byte)) :
      kind ↔ NamesAgree imageStreamArn stream vocabulary :=
    same.trans ⟨fun repeated => ⟨iriDiffers, nameDiffers, repeated⟩,
      fun agree => agree.repeated⟩
  apply kinds
  cases stream with
  | zero =>
      rw [classifyTarget_fullIri_zero]
      exact iff_of_true rfl ⟨0x00, rfl, fun different => absurd rfl different⟩
  | constant hi lo hexdigits =>
      have read := classifyTarget_fullIri_constant hexdigits vocabulary
      have different : SymbolicStream.constant hi lo hexdigits ≠ .zero := nofun
      refine Iff.trans read ⟨fun first => ⟨_, rfl, fun _ => first⟩, ?_⟩
      rintro ⟨byte, same, first⟩
      cases same
      exact first different
  | unknownData =>
      rw [classifyTarget_of_unknownData iri_ne_nil (List.suffix_append ..)]
      exact iff_of_false nofun (by rintro ⟨byte, impossible, -⟩; cases impossible)
  | unreadableData =>
      rw [classifyTarget_of_unreadableData iri_ne_nil (List.suffix_append ..)]
      exact iff_of_false nofun (by rintro ⟨byte, impossible, -⟩; cases impossible)

/-! ## The gap default -/

/-- The byte that is read outside every record of a Map, by its node. -/
def gapByte (node : Text) : UInt8 :=
  if contains node "SymbolicStreamFF".toList then 0xFF else 0x00

/-- The gap default of a Map is read off its node. -/
theorem gapIsSymbolicFf_of_parseTurtle
    {turtle : Text} {metadata : StreamMeta} {mapMeta : MapMeta}
    (parsed : parseTurtle turtle = .ok metadata)
    (isMap : metadata.mapMeta = some mapMeta) {node : Text}
    (found : (turtleBlocks turtle).find? (contains · "aff4:Map".toList) = some node) :
    mapMeta.gapIsSymbolicFf = contains node "SymbolicStreamFF".toList := by
  simp only [parseTurtle, parseMapTurtle, found, bind, Except.bind, throw, throwThe,
    MonadExceptOf.throw] at parsed
  repeat' split at parsed
  all_goals try cases parsed
  obtain ⟨-, -, attached⟩ := of_parseImageStreamBlock parsed
  rw [isMap] at attached
  cases attached
  rfl

/-- The object of the gap default in a node. -/
def gapObject (node : Text) : Option Text :=
  (((splitWhitespace node).dropWhile (· ≠ "aff4:mapGapDefaultStream".toList)).drop 1).head?

theorem gapObject_of_splitWhitespace {node : Text} {before after : List Text}
    (tokens : splitWhitespace node =
      before ++ "aff4:mapGapDefaultStream".toList :: after)
    (first : "aff4:mapGapDefaultStream".toList ∉ before) :
    gapObject node = after.head? := by
  have skipped : ∀ token ∈ before,
      decide (token ≠ "aff4:mapGapDefaultStream".toList) = true := by
    intro token member
    exact decide_eq_true (ne_of_mem_of_not_mem member first)
  rw [gapObject, tokens, List.dropWhile_append_of_pos skipped,
    List.dropWhile_cons_of_neg (by decide)]
  rfl

theorem mem_of_gapObject {node object : Text} (isObject : gapObject node = some object) :
    object ∈ splitWhitespace node :=
  ((List.drop_sublist ..).trans (List.dropWhile_sublist _)).mem (List.mem_of_head? isObject)

/-- The Map of a container has a symbolic stream as its gap default. -/
structure GapStream
    {crates : Crates} {backing : Bytes} (container : MapContainer crates backing)
    (stream : SymbolicStream) where
  node : Text
  object : Text
  isMap : (turtleBlocks container.turtle).find? (contains · "aff4:Map".toList) =
    some node
  states : gapObject node = some object
  named : object = stream.prefixedName ∨
    ∃ vocabulary, object = '<' :: (stream.fullIri vocabulary ++ ['>'])

section Container

variable {crates : Crates} {backing : Bytes}
variable (container : MapContainer crates backing)

/-- The gap default of a container is the byte that its Map's node has. -/
theorem gapDefault_eq_gapByte {node : Text}
    (isMap : (turtleBlocks container.turtle).find? (contains · "aff4:Map".toList) =
      some node) :
    container.gapDefault = .fill (gapByte node) := by
  rw [MapContainer.gapDefault, gapIsSymbolicFf_of_parseTurtle container.metadata_eq
    container.mapMeta_eq isMap, gapByte]
  split <;> rfl

/-- A symbolic stream means the same as a target by its full IRI, as a target by its
prefixed name and as the gap default. -/
def SameMeaning (stream : SymbolicStream) (vocabulary : Text) : Prop :=
  classifyTarget (stream.fullIri vocabulary) container.mapMeta.imageStreamArn =
      container.gapDefault ∧
    classifyTarget stream.prefixedName container.mapMeta.imageStreamArn =
      container.gapDefault

end Container

/-- Both names of a stream are read as its byte, and so are the gaps. -/
structure OneMeaning
    (imageStreamArn node : Text) (stream : SymbolicStream) (vocabulary : Text) :
    Prop extends NamesAgree imageStreamArn stream vocabulary where
  gap : stream.byte = some (gapByte node)

/-- A symbolic stream that is a gap default has one meaning if and only if both its
names are read as its byte, and the gaps as the same byte. -/
theorem sameMeaning_iff
    {crates : Crates} {backing : Bytes} {container : MapContainer crates backing}
    {stream : SymbolicStream} (gap : GapStream container stream)
    (vocabulary : Text) :
    SameMeaning container stream vocabulary ↔
      OneMeaning container.mapMeta.imageStreamArn gap.node stream vocabulary := by
  have names :=
    classifyTarget_names_iff container.mapMeta.imageStreamArn stream vocabulary
  rw [SameMeaning, gapDefault_eq_gapByte container gap.isMap]
  have prefixed (agree : NamesAgree container.mapMeta.imageStreamArn stream vocabulary) :
      classifyTarget stream.prefixedName container.mapMeta.imageStreamArn =
          .fill (gapByte gap.node) ↔ stream.byte = some (gapByte gap.node) := by
    obtain ⟨byte, isByte, -⟩ := agree.repeated
    have name_ne_nil : stream.prefixedName ≠ [] := List.cons_ne_nil _ _
    rw [classifyTarget_of_ne name_ne_nil agree.prefixedName, classifyTarget_prefixedName,
      isByte]
    simp
  constructor
  · rintro ⟨iri, name⟩
    have agree := names.mp (iri.trans name.symm)
    exact ⟨agree, (prefixed agree).mp name⟩
  · intro one
    have name := (prefixed one.toNamesAgree).mpr one.gap
    exact ⟨(names.mpr one.toNamesAgree).trans name, name⟩

/-! ## The rest of the node -/

/-- A node of a Map with an object as its gap default, or with none. -/
def IsMapWithGap (node : Text) (object : Option Text) : Prop :=
  contains node "aff4:Map".toList = true ∧ gapObject node = object

/-- The gap default of a Map depends on no other part of its node. -/
def IndependentOfRest (object : Option Text) : Prop :=
  ∀ node other, IsMapWithGap node object → IsMapWithGap other object →
    gapByte node = gapByte other

/-- A node of a Map without a gap default. -/
def bareMap : Text := "<m> a aff4:Map".toList

/-- A node of a Map up to its gap default. -/
def mapBefore : Text := "<m> a aff4:Map aff4:mapGapDefaultStream".toList

/-- A stream that the gap default has nothing to do with. -/
def elsewhere : Text := "aff4:dependentStream <SymbolicStreamFF>".toList

/-- The gap default of a Map that has none depends on the rest of its node. -/
theorem not_independentOfRest_none : ¬IndependentOfRest none := by
  intro independent
  have same := independent bareMap (bareMap ++ ' ' :: elsewhere)
    ⟨by decide +kernel, by decide +kernel⟩ ⟨by decide +kernel, by decide +kernel⟩
  exact absurd same (by decide +kernel)

theorem isMapWithGap_append {object : Text} (isToken : IsToken object)
    {ending : Text} (ends : ending = [] ∨ ∃ rest, ending = ' ' :: rest) :
    IsMapWithGap (mapBefore ++ ' ' :: (object ++ ending)) (some object) := by
  have space : isWhitespace ' ' = true := rfl
  constructor
  · have inside : "aff4:Map".toList <:+: mapBefore := by
      unfold mapBefore
      decide +kernel
    rw [contains_iff]
    exact inside.trans (List.prefix_append ..).isInfix
  · have leading : splitWhitespace mapBefore =
        ["<m>".toList, "a".toList, "aff4:Map".toList] ++
          ["aff4:mapGapDefaultStream".toList] := by
      decide +kernel
    have behind : splitWhitespace (object ++ ending) =
        object :: splitWhitespace ending := by
      rcases ends with rfl | ⟨rest, rfl⟩
      · rw [List.append_nil, splitWhitespace_of_isToken isToken]
        rfl
      · rw [splitWhitespace_isToken_append isToken rest space,
          splitWhitespace_cons rest space]
    have tokens := splitWhitespace_append_cons mapBefore (object ++ ending) space
    rw [leading, behind, List.append_assoc, List.singleton_append] at tokens
    exact gapObject_of_splitWhitespace tokens (by decide +kernel)

/-- The gap default of a Map depends on nothing but its object exactly where that is
spelled with `SymbolicStreamFF`. -/
theorem independentOfRest_some_iff {object : Text} (isToken : IsToken object) :
    IndependentOfRest (some object) ↔
      contains object "SymbolicStreamFF".toList = true := by
  generalize pattern_eq : "SymbolicStreamFF".toList = pattern
  have pattern_ne_nil : pattern ≠ [] := by
    rw [← pattern_eq]
    decide
  have noSpace : ' ' ∉ pattern := by
    rw [← pattern_eq]
    decide
  have read (node : Text) :
      gapByte node = if contains node pattern then 0xFF else 0x00 := by
    rw [← pattern_eq]
    rfl
  constructor
  · intro independent
    by_contra different
    have same := independent _ _ (isMapWithGap_append isToken (.inl rfl))
      (isMapWithGap_append isToken (.inr ⟨elsewhere, rfl⟩))
    have absent : ¬pattern <:+: mapBefore := by
      rw [← pattern_eq]
      unfold mapBefore
      decide +kernel
    have bare : ¬contains (mapBefore ++ ' ' :: (object ++ [])) pattern = true := by
      rw [contains_iff] at different ⊢
      rw [List.append_nil, infix_append_cons_iff pattern_ne_nil noSpace, not_or]
      exact ⟨absent, different⟩
    have annotated : contains
        (mapBefore ++ ' ' :: (object ++ ' ' :: elsewhere)) pattern = true := by
      have inside : pattern <:+: elsewhere := by
        rw [← pattern_eq]
        unfold elsewhere
        decide +kernel
      rw [contains_iff, infix_append_cons_iff pattern_ne_nil noSpace,
        infix_append_cons_iff pattern_ne_nil noSpace]
      exact .inr (.inr inside)
    rw [read, read, if_pos annotated, if_neg bare] at same
    cases same
  · intro spelled node other isMap isOtherMap
    have gap {node : Text} (isMap : IsMapWithGap node (some object)) :
        gapByte node = 0xFF := by
      have inside := infix_of_mem_splitWhitespace (mem_of_gapObject isMap.2)
      rw [read, if_pos]
      rw [contains_iff] at spelled ⊢
      exact spelled.trans inside
    rw [gap isMap, gap isOtherMap]

/-- When a symbolic stream is one target by its two names, when it also means the same
as the gap default, and when the gap default depends on nothing but its object. -/
theorem symbolicStream_iff
    {crates : Crates} {backing : Bytes} (container : MapContainer crates backing) :
    (∀ stream vocabulary,
      (classifyTarget (stream.fullIri vocabulary) container.mapMeta.imageStreamArn =
          classifyTarget stream.prefixedName container.mapMeta.imageStreamArn ↔
        NamesAgree container.mapMeta.imageStreamArn stream vocabulary) ∧
      ∀ gap : GapStream container stream,
        (SameMeaning container stream vocabulary ↔
          OneMeaning container.mapMeta.imageStreamArn gap.node stream vocabulary)) ∧
    (∀ node,
      (turtleBlocks container.turtle).find? (contains · "aff4:Map".toList) = some node →
        container.gapDefault = .fill (gapByte node)) ∧
    ¬IndependentOfRest none ∧
    ∀ object, IsToken object →
      (IndependentOfRest (some object) ↔
        contains object "SymbolicStreamFF".toList = true) :=
  ⟨fun stream vocabulary =>
      ⟨classifyTarget_names_iff _ stream vocabulary, fun gap => sameMeaning_iff gap vocabulary⟩,
    fun _ isMap => gapDefault_eq_gapByte container isMap,
    not_independentOfRest_none, fun _ isToken => independentOfRest_some_iff isToken⟩

/-! A Map whose gap default is the unreadable stream: its gaps are read as zeros, and
the stream's prefixed name is read as an unknown target. -/

namespace UnreadableSample

def turtle : Text :=
  "<m> a aff4:Map ; aff4:size 6 ; aff4:dependentStream <i> ; ".toList ++
    "aff4:mapGapDefaultStream aff4:UnreadableData . ".toList ++
    "<i> a aff4:ImageStream ; aff4:chunkSize 2 ; ".toList ++
    "aff4:chunksInSegment 2 ; aff4:size 3 . ".toList

def entries : List (Text × Bytes) :=
  [("information.turtle".toList, Str.asBytes turtle), ("m/map".toList, []),
    ("m/idx".toList, [])]

def archive : ZipArchive := .ofEntries entries (by decide +kernel)

theorem parseTurtle_turtle : parseTurtle turtle = .ok Small.metadata := by
  -- The kernel compares lists of characters faster than it unfolds string literals.
  unfold turtle
  simp only [String.reduceToList]
  decide +kernel

theorem mapMeta_metadata : Small.metadata.mapMeta = some Small.mapMeta := rfl

def container : MapContainer (.opening archive) [] where
  archive := archive
  turtle := turtle
  metadata := Small.metadata
  archive_eq := rfl
  turtle_eq := ZipArchive.readEntryToString_of_asBytes turtle
    (ZipArchive.readEntry_ofEntries rfl)
  metadata_eq := parseTurtle_turtle
  mapMeta := Small.mapMeta
  mapData := []
  idxData := []
  mapMeta_eq := mapMeta_metadata
  mapData_eq := rfl
  idxData_eq := ZipArchive.readEntryToString_of_asBytes []
    (ZipArchive.readEntry_ofEntries rfl)

def node : Text :=
  "<m> a aff4:Map   aff4:size 6   aff4:dependentStream <i>   ".toList ++
    "aff4:mapGapDefaultStream aff4:UnreadableData".toList

def gap : GapStream container .unreadableData where
  node := node
  object := "aff4:UnreadableData".toList
  isMap := by decide +kernel
  states := by decide +kernel
  named := .inl rfl

/-- A stream of the vocabulary that has nothing to do with this Map. -/
def letters : SymbolicStream := .constant '4' '1' (by decide)

/-- Neither name of the letters is the image stream. -/
theorem namesAgree_letters :
    NamesAgree container.mapMeta.imageStreamArn letters "http://aff4.org/Schema".toList where
  fullIri := by decide
  prefixedName := by decide
  repeated := ⟨0x41, by decide, fun _ inside => absurd inside (by decide)⟩

theorem not_sameMeaning_unreadable :
    openReader (.opening archive) [] = .ok container.reader ∧
      ¬SameMeaning container .unreadableData
        "http://aff4.org/Schema".toList := by
  refine ⟨container.openReader_eq, fun same => ?_⟩
  have named : classifyTarget SymbolicStream.unreadableData.prefixedName
      container.mapMeta.imageStreamArn = .unknown := by
    decide +kernel
  have gapDefault : container.gapDefault = .fill 0x00 := rfl
  have equal := same.2
  rw [named, gapDefault] at equal
  cases equal

theorem symbolicStream_iff_unreadable :
    (classifyTarget (letters.fullIri "http://aff4.org/Schema".toList)
          container.mapMeta.imageStreamArn =
        classifyTarget letters.prefixedName container.mapMeta.imageStreamArn ∧
      classifyTarget
          (SymbolicStream.unreadableData.fullIri "http://aff4.org/Schema".toList)
          container.mapMeta.imageStreamArn ≠
        classifyTarget SymbolicStream.unreadableData.prefixedName
          container.mapMeta.imageStreamArn) ∧
      ¬SameMeaning container .unreadableData "http://aff4.org/Schema".toList ∧
      container.gapDefault = .fill (gapByte node) ∧
      ¬IndependentOfRest (some "aff4:UnreadableData".toList) := by
  obtain ⟨meaning, read, -, independent⟩ := symbolicStream_iff container
  have nothing : SymbolicStream.unreadableData.byte = none := rfl
  refine ⟨⟨(meaning letters _).1.mpr namesAgree_letters, fun same => ?_⟩, fun same => ?_,
    read node gap.isMap, fun free => ?_⟩
  · obtain ⟨byte, isByte, -⟩ := ((meaning .unreadableData _).1.mp same).repeated
    rw [nothing] at isByte
    cases isByte
  · have isByte := (((meaning .unreadableData _).2 gap).mp same).gap
    rw [nothing] at isByte
    cases isByte
  · have isToken : IsToken "aff4:UnreadableData".toList :=
      ⟨List.cons_ne_nil _ _, forall_mem_of_all rfl⟩
    exact absurd ((independent _ isToken).mp free) (by decide)

end UnreadableSample

end Aff4
