import Aff4.Turtle.Binding
import Aff4.Turtle.Rendering

/-!
# Layout independence

Two renderings of a document give the same metadata, or errors of the same variant.
This file shows that what is read off a node depends on its tokens only, and says
exactly for which documents the full stop that stays behind the last node matters.
-/

namespace Aff4

open Rust Rust.Str

/-! ## Outcomes -/

/-- The variant of an error. -/
inductive Aff4Error.Variant
  | io
  | zip
  | badFormat
  | encrypted
  deriving DecidableEq, Repr

def Aff4Error.variant : Aff4Error → Aff4Error.Variant
  | .io _ => .io
  | .zip _ => .zip
  | .badFormat _ => .badFormat
  | .encrypted _ => .encrypted

/-- A value, or the variant of an error. -/
def outcome (result : Except Aff4Error α) : Except Aff4Error.Variant α :=
  result.mapError Aff4Error.variant

@[simp] theorem outcome_ok (value : α) :
    outcome (.ok value) = .ok value := rfl

@[simp] theorem outcome_error (error : Aff4Error) :
    outcome (.error error : Except Aff4Error α) = .error error.variant := rfl

theorem outcome_eq_ok {result : Except Aff4Error α} {value : α} :
    outcome result = .ok value ↔ result = .ok value := by
  cases result <;> simp

/-- What is refused as malformed has a message. -/
theorem exists_badFormat_of_outcome {result : Except Aff4Error α}
    (refused : outcome result = .error .badFormat) :
    ∃ message, result = .error (.badFormat message) := by
  cases result with
  | ok value => cases refused
  | error error =>
      cases error with
      | badFormat message => exact ⟨message, rfl⟩
      | _ => cases refused

theorem outcome_bind_congr
    {left right : Except Aff4Error α} (same : outcome left = outcome right)
    {leftNext rightNext : α → Except Aff4Error β}
    (next : ∀ value, right = .ok value →
      outcome (leftNext value) = outcome (rightNext value)) :
    outcome (left >>= leftNext) = outcome (right >>= rightNext) := by
  cases left with
  | error error =>
      cases right with
      | error other => simpa [bind, Except.bind] using same
      | ok value => cases same
  | ok value =>
      have equal := outcome_eq_ok.mp same.symm
      rw [equal]
      exact next value equal

/-! ## Layouts of a node -/

/-- A block has the tokens of a node, and possibly a full stop behind them. -/
def IsLayoutOf (node : DocumentNode) (block : Text) : Prop :=
  splitWhitespace block = node.texts ∨ splitWhitespace block = node.texts ++ [['.']]

/-- A text that can lie in a token, and not in a full stop. -/
structure IsKeyword (pattern : Text) : Prop where
  isToken : IsToken pattern
  ne_stop : pattern ≠ ['.']

theorem isKeyword_of_all {pattern : Text}
    (checked : (pattern != [] && pattern != ['.'] &&
      pattern.all (!isWhitespace ·)) = true) : IsKeyword pattern := by
  simp only [Bool.and_eq_true, bne_iff_ne, List.all_eq_true,
    Bool.not_eq_true'] at checked
  exact ⟨⟨checked.1.1, checked.2⟩, checked.1.2⟩

section Layout

variable {node : DocumentNode} {block : Text} (layout : IsLayoutOf node block)

include layout

/-- A keyword lies in a block if and only if it lies in a token of the node. -/
theorem contains_of_layout {pattern : Text} (keyword : IsKeyword pattern) :
    contains block pattern = true ↔ ∃ token ∈ node.texts, pattern <:+: token := by
  rw [contains_iff, infix_iff_exists_token keyword.isToken.1 keyword.isToken.2]
  rcases layout with tokens | tokens
  · rw [tokens]
  · have noStop : ¬pattern <:+: ['.'] := by
      intro inside
      rcases List.sublist_singleton.mp inside.sublist with empty | stop
      · exact keyword.isToken.1 empty
      · exact keyword.ne_stop stop
    simp only [tokens, List.mem_append, List.mem_singleton, or_and_right, exists_or,
      exists_eq_left, noStop, or_false]

/-- The first IRI of a block is the first one in a token of the node. -/
theorem extractIri_of_layout :
    extractIri block = node.texts.findSome? extractIri := by
  have closed : ∀ token ∈ node.texts, IsClosed token := by
    intro token member
    obtain ⟨source, -, rfl⟩ := List.mem_map.mp member
    exact source.isClosed
  rcases layout with tokens | tokens
  · rw [← tokens] at closed ⊢
    exact (extractIri_eq_findSome? closed).2
  · have noIri : [['.']].findSome? extractIri = none := rfl
    have closedStop : ∀ token ∈ splitWhitespace block, IsClosed token := by
      rw [tokens, List.forall_mem_append]
      refine ⟨closed, ?_⟩
      rw [List.forall_mem_singleton]
      intro before after split
      have member : '<' ∈ ['.'] := by
        rw [split]
        exact List.mem_append_right before (List.mem_cons_self ..)
      exact absurd member (by decide)
    rw [(extractIri_eq_findSome? closedStop).2, tokens, List.findSome?_append, noIri,
      Option.or_none]

/-- The digests of a block are those of the node. -/
theorem parseImageHashes_of_layout :
    parseImageHashes block = scanImageHashes false node.texts := by
  have skip (tokens : List Text) (inList : Bool) :
      scanImageHashes inList (tokens ++ [['.']]) = scanImageHashes inList tokens := by
    induction tokens generalizing inList with
    | nil => cases inList <;> rfl
    | cons token tokens inductionHypothesis =>
        cases inList with
        | false => exact inductionHypothesis _
        | true =>
            rw [List.cons_append, scanImageHashes, scanImageHashes]
            split
            · exact inductionHypothesis true
            · split
              · exact congrArg _ (inductionHypothesis true)
              · exact inductionHypothesis _
  rcases layout with tokens | tokens
  · rw [parseImageHashes, tokens]
  · rw [parseImageHashes, tokens, skip]

/-- The compression of a block is that of the tokens of the node. -/
theorem detectCompression_of_layout {other : Text} (otherLayout : IsLayoutOf node other) :
    detectCompression block = detectCompression other := by
  have same {pattern : Text} (keyword : IsKeyword pattern) :
      contains block pattern = contains other pattern := by
    rw [Bool.eq_iff_iff, contains_of_layout layout keyword,
      contains_of_layout otherLayout keyword]
  unfold detectCompression
  rw [same (isKeyword_of_all rfl), same (isKeyword_of_all rfl),
    same (isKeyword_of_all rfl), same (isKeyword_of_all rfl),
    same (isKeyword_of_all rfl), same (isKeyword_of_all rfl)]

end Layout

/-- A token behind others makes pairs in which it is the second. -/
theorem windows2_append_singleton (tokens : List Text) (last : Text) :
    ∃ pairs, windows2 (tokens ++ [last]) = windows2 tokens ++ pairs ∧
      ∀ pair ∈ pairs, pair.2 = last := by
  induction tokens with
  | nil => exact ⟨[], rfl, List.forall_mem_nil _⟩
  | cons token tokens inductionHypothesis =>
      obtain ⟨pairs, split, ends⟩ := inductionHypothesis
      cases tokens with
      | nil => exact ⟨[(token, last)], rfl, by simp⟩
      | cons next tokens =>
          exact ⟨pairs, congrArg ((token, next) :: ·) split, ends⟩

/-- The IRI behind a predicate, in a pair of tokens. -/
def pairIri (predicate : Text) (pair : Text × Text) : Option Text :=
  if pair.1 = predicate ∧ pair.2.head? = some '<' ∧ pair.2.getLast? = some '>' then
    some ((pair.2.take (pair.2.length - 1)).drop 1)
  else
    none

theorem extractPredIri_eq (block predicate : Text) :
    extractPredIri block predicate =
      (windows2 (splitWhitespace block)).findSome? (pairIri predicate) := rfl

/-- The number behind a predicate, in a list of pairs of tokens. -/
def pairsU64 (pairs : List (Text × Text)) (predicate : Text) : Except Aff4Error UInt64 :=
  let name := String.ofList predicate
  match pairs.find? (·.1 = predicate) with
  | some pair => parsePredU64 predicate pair.2
  | none => .error (.badFormat s!"{name} not found in block")

theorem extractPredU64_eq (block predicate : Text) :
    extractPredU64 block predicate =
      pairsU64 (windows2 (splitWhitespace block)) predicate := by
  unfold extractPredU64 pairsU64
  cases (windows2 (splitWhitespace block)).find? (·.1 = predicate) <;> rfl

section Predicates

variable {node : DocumentNode} {block : Text} (layout : IsLayoutOf node block)

include layout

/-- The pairs of tokens of a block are those of the node, and possibly one with a
full stop. -/
theorem windows2_of_layout :
    ∃ pairs, windows2 (splitWhitespace block) = windows2 node.texts ++ pairs ∧
      ∀ pair ∈ pairs, pair.2 = ['.'] := by
  rcases layout with tokens | tokens
  · refine ⟨[], ?_, List.forall_mem_nil _⟩
    rw [tokens, List.append_nil]
  · rw [tokens]
    exact windows2_append_singleton node.texts ['.']

/-- An IRI behind a predicate is one behind the predicate in the node. -/
theorem extractPredIri_of_layout (predicate : Text) :
    extractPredIri block predicate =
      (windows2 node.texts).findSome? (pairIri predicate) := by
  obtain ⟨pairs, split, ends⟩ := windows2_of_layout layout
  have noIri : pairs.findSome? (pairIri predicate) = none := by
    apply List.findSome?_eq_none_iff.mpr
    intro pair member
    apply if_neg
    rw [ends pair member]
    rintro ⟨-, begins, -⟩
    cases begins
  rw [extractPredIri_eq, split, List.findSome?_append, noIri, Option.or_none]

/-- A number behind a predicate is one behind the predicate in the node, and what
is no number is an error of the same variant. -/
theorem outcome_extractPredU64_of_layout (predicate : Text) :
    outcome (extractPredU64 block predicate) =
      outcome (pairsU64 (windows2 node.texts) predicate) := by
  obtain ⟨pairs, split, ends⟩ := windows2_of_layout layout
  rw [extractPredU64_eq, split, pairsU64, pairsU64, List.find?_append]
  cases (windows2 node.texts).find? (·.1 = predicate) with
  | some pair => rfl
  | none =>
      rw [Option.none_or]
      cases found : pairs.find? (·.1 = predicate) with
      | none => rfl
      | some pair =>
          have stop := ends pair (List.mem_of_find?_eq_some found)
          simp only [stop]
          rfl

end Predicates

/-! ## ImageStream nodes -/

/-- All layouts of a node are read as the same stream, or refused alike. -/
theorem outcome_parseImageStreamBlock_of_layout
    {node : DocumentNode} {left right : Text}
    (leftLayout : IsLayoutOf node left) (rightLayout : IsLayoutOf node right)
    (mapOverride : Option (MapMeta × UInt64)) :
    outcome (parseImageStreamBlock left mapOverride) =
      outcome (parseImageStreamBlock right mapOverride) := by
  have number (predicate : Text) :
      outcome (extractPredU64 left predicate) =
        outcome (extractPredU64 right predicate) := by
    rw [outcome_extractPredU64_of_layout leftLayout,
      outcome_extractPredU64_of_layout rightLayout]
  unfold parseImageStreamBlock
  rw [extractIri_of_layout leftLayout, extractIri_of_layout rightLayout,
    detectCompression_of_layout leftLayout rightLayout,
    parseImageHashes_of_layout leftLayout, parseImageHashes_of_layout rightLayout]
  cases node.texts.findSome? extractIri with
  | none => rfl
  | some streamArn =>
      apply outcome_bind_congr (number _)
      rintro chunkSize -
      apply outcome_bind_congr (number _)
      rintro chunksPerSegment -
      by_cases noChunks : chunkSize = 0
      · rw [if_pos noChunks, if_pos noChunks]
        rfl
      · rw [if_neg noChunks, if_neg noChunks]
        by_cases noSegments : chunksPerSegment = 0
        · rw [if_pos noSegments, if_pos noSegments]
          rfl
        · rw [if_neg noSegments, if_neg noSegments]
          apply outcome_bind_congr (number _)
          rintro imageStreamSize -
          rfl

/-- A node has what a stream needs. -/
structure DescribesStream (node : Text) : Prop where
  iri : (extractIri node).isSome
  chunkSize : ∃ chunkSize,
    extractPredU64 node "aff4:chunkSize".toList = .ok chunkSize ∧ chunkSize ≠ 0
  chunksPerSegment : ∃ chunksPerSegment,
    extractPredU64 node "aff4:chunksInSegment".toList = .ok chunksPerSegment ∧
      chunksPerSegment ≠ 0
  size : ∃ size, extractPredU64 node "aff4:size".toList = .ok size

theorem variant_of_extractPredU64 {block predicate : Text} {error : Aff4Error}
    (refused : extractPredU64 block predicate = .error error) :
    error.variant = .badFormat := by
  obtain ⟨message, rfl⟩ := exists_badFormat_of_extractPredU64 refused
  rfl

theorem variant_of_parseImageStreamBlock
    {node : Text} {mapOverride : Option (MapMeta × UInt64)} {error : Aff4Error}
    (refused : parseImageStreamBlock node mapOverride = .error error) :
    error.variant = .badFormat := by
  simp only [parseImageStreamBlock, bind, Except.bind, pure, Except.pure, throw,
    throwThe, MonadExceptOf.throw] at refused
  repeat' split at refused
  all_goals cases refused
  all_goals first
    | rfl
    | exact variant_of_extractPredU64 (by assumption)

/-- Exactly what has all that a stream needs is accepted. -/
theorem exists_parseImageStreamBlock_iff
    (node : Text) (mapOverride : Option (MapMeta × UInt64)) :
    (∃ metadata, parseImageStreamBlock node mapOverride = .ok metadata) ↔
      DescribesStream node := by
  constructor
  · rintro ⟨metadata, parsed⟩
    obtain ⟨iri, states, -⟩ := of_parseImageStreamBlock parsed
    have wellFormed := parseImageStreamBlock_wellFormed parsed
    exact
      { iri := Option.isSome_iff_exists.mpr ⟨_, iri⟩
        chunkSize := ⟨_, states.chunkSize, wellFormed.chunkSize_ne_zero⟩
        chunksPerSegment :=
          ⟨_, states.chunksPerSegment, wellFormed.chunksPerSegment_ne_zero⟩
        size := ⟨_, states.imageStreamSize⟩ }
  · rintro ⟨iri, ⟨chunkSize, chunkSize_eq, chunkSize_ne⟩,
      ⟨perSegment, perSegment_eq, perSegment_ne⟩, size, size_eq⟩
    obtain ⟨streamArn, iri_eq⟩ := Option.isSome_iff_exists.mp iri
    simp only [parseImageStreamBlock, iri_eq, chunkSize_eq, perSegment_eq, size_eq,
      chunkSize_ne, perSegment_ne, bind, Except.bind, if_false]
    exact ⟨_, rfl⟩

/-- Anything else is malformed. -/
theorem outcome_parseImageStreamBlock_of_not {node : Text}
    (lacks : ¬DescribesStream node) (mapOverride : Option (MapMeta × UInt64)) :
    outcome (parseImageStreamBlock node mapOverride) = .error .badFormat := by
  cases parsed : parseImageStreamBlock node mapOverride with
  | ok metadata =>
      exact absurd ((exists_parseImageStreamBlock_iff _ _).mp ⟨_, parsed⟩) lacks
  | error error => rw [outcome_error, variant_of_parseImageStreamBlock parsed]

/-! ## Lookups -/

/-- The nodes of a document, each with single spaces. -/
def lines (nodes : List DocumentNode) : List Text := nodes.map DocumentNode.line

theorem splitWhitespace_line (node : DocumentNode) :
    splitWhitespace node.line = node.texts := by
  apply splitWhitespace_intercalate
  intro token member
  obtain ⟨source, -, rfl⟩ := List.mem_map.mp member
  exact source.isWord.isToken

theorem isLayoutOf_line (node : DocumentNode) : IsLayoutOf node node.line :=
  .inl (splitWhitespace_line node)

theorem describesStream_layout_iff {node : DocumentNode} {block : Text}
    (layout : IsLayoutOf node block) :
    DescribesStream block ↔ DescribesStream node.line := by
  rw [← exists_parseImageStreamBlock_iff block none,
    ← exists_parseImageStreamBlock_iff node.line none]
  simp only [← outcome_eq_ok,
    outcome_parseImageStreamBlock_of_layout layout (isLayoutOf_line node)]

/-- All layouts of a node have the same keywords. -/
theorem contains_layout_eq {node : DocumentNode} {block pattern : Text}
    (layout : IsLayoutOf node block) (keyword : IsKeyword pattern) :
    contains block pattern = contains node.line pattern := by
  rw [Bool.eq_iff_iff, contains_of_layout layout keyword,
    contains_of_layout (isLayoutOf_line node) keyword]

/-- A blank block has no keywords. -/
theorem contains_blank {block pattern : Text} (blank : splitWhitespace block = [])
    (keyword : IsKeyword pattern) : contains block pattern = false := by
  rw [Bool.eq_false_iff, ne_eq, contains_iff,
    infix_iff_exists_token keyword.isToken.1 keyword.isToken.2, blank]
  rintro ⟨token, member, -⟩
  cases member

/-- Among the nodes and among the blocks of a document, a node and a layout of it are
the first with a property, or none is. -/
def FoundAlike
    (nodes : List DocumentNode) (blocks : List Text) (property : Text → Bool) : Prop :=
  ((lines nodes).find? property = none ∧ blocks.find? property = none) ∨
    ∃ node block, (lines nodes).find? property = some (DocumentNode.line node) ∧
      blocks.find? property = some block ∧ IsLayoutOf node block

/-- Only the last block has a property, and its node does not. -/
def OnlyLastHas
    (nodes : List DocumentNode) (blocks : List Text) (property : Text → Bool) : Prop :=
  (lines nodes).find? property = none ∧
    ∃ node block, (lines nodes).getLast? = some (DocumentNode.line node) ∧
      blocks.find? property = some block ∧ IsLayoutOf node block ∧
        property block = true ∧ property node.line = false

section Lookup

variable {ending : Ending} {nodes : List DocumentNode} {blocks : List Text}

/-- When a full stop behind the tokens of a node can only add a property, it matters
for the first block that has it only if that is the last one. -/
theorem LaidOut.foundAlike_or_onlyLastHas
    (laidOut : LaidOut ending nodes blocks) {property : Text → Bool}
    (blank : ∀ block, splitWhitespace block = [] → property block = false)
    (exact : ∀ node block, splitWhitespace block = DocumentNode.texts node →
      property block = property node.line)
    (grows : ∀ node block, IsLayoutOf node block →
      property node.line = true → property block = true) :
    FoundAlike nodes blocks property ∨
      ending = .endOfText ∧ OnlyLastHas nodes blocks property := by
  -- Every block but the last has exactly the tokens of its node.
  induction laidOut with
  | blank tokens =>
      refine .inl (.inl ⟨rfl, ?_⟩)
      rw [List.find?_cons, blank _ tokens]
      rfl
  | @unfinished node block tokens =>
      have layout : IsLayoutOf node block := .inr tokens
      rw [FoundAlike, OnlyLastHas, lines, List.map_singleton]
      cases here : property node.line with
      | true =>
          have too := grows node block layout here
          refine .inl (.inr ⟨node, block, ?_, ?_, layout⟩)
          · rw [List.find?_cons, here]
          · rw [List.find?_cons, too]
      | false =>
          have absent : [node.line].find? property = none := by
            rw [List.find?_cons, here]
            rfl
          cases too : property block with
          | true =>
              refine .inr ⟨rfl, absent, node, block, rfl, ?_, layout, too, here⟩
              rw [List.find?_cons, too]
          | false =>
              refine .inl (.inl ⟨absent, ?_⟩)
              rw [List.find?_cons, too]
              rfl
  | @node ending node block nodes blocks tokens others inductionHypothesis =>
      have layout : IsLayoutOf node block := .inl tokens
      rw [FoundAlike, OnlyLastHas, lines, List.map_cons, List.find?_cons,
        List.find?_cons, exact node block tokens]
      cases property node.line with
      | true => exact .inl (.inr ⟨node, block, rfl, rfl, layout⟩)
      | false =>
          rcases inductionHypothesis with alike | ⟨ends, absent, last, lastBlock, isLast, rest⟩
          · exact .inl alike
          · refine .inr ⟨ends, absent, last, lastBlock, ?_, rest⟩
            rw [lines] at isLast
            rw [List.getLast?_cons, isLast]
            rfl

/-- What is looked for by keywords of a node is found in a layout of it. -/
theorem LaidOut.foundAlike
    (laidOut : LaidOut ending nodes blocks) {property : Text → Bool}
    (blank : ∀ block, splitWhitespace block = [] → property block = false)
    (same : ∀ node block, IsLayoutOf node block → property block = property node.line) :
    FoundAlike nodes blocks property := by
  have exact : ∀ node block, splitWhitespace block = DocumentNode.texts node →
      property block = property node.line :=
    fun node block tokens => same node block (.inl tokens)
  have grows : ∀ node block, IsLayoutOf node block →
      property node.line = true → property block = true :=
    fun node block layout here => (same node block layout).trans here
  rcases laidOut.foundAlike_or_onlyLastHas blank exact grows with alike | ⟨-, -, only⟩
  · exact alike
  · obtain ⟨node, block, -, -, layout, has, lacks⟩ := only
    rw [same node block layout, lacks] at has
    cases has

theorem LaidOut.foundAlike_keyword
    (laidOut : LaidOut ending nodes blocks) {keyword : Text}
    (isKeyword : IsKeyword keyword) :
    FoundAlike nodes blocks (contains · keyword) :=
  laidOut.foundAlike (fun _ blank => contains_blank blank isKeyword)
    (fun _ _ layout => contains_layout_eq layout isKeyword)

end Lookup

/-! ## The stream of a Map -/

/-- A node can be taken for the stream with this ARN. -/
def isStreamOf (arn node : Text) : Bool :=
  contains node "ImageStream".toList && contains node arn

/-- The Map depends on `<.>`, which no ImageStream contains, and the last node is an
ImageStream. -/
structure StopIsStream (lines : List Text) (mapLine : Text) : Prop where
  iri : (extractIri mapLine).isSome
  size : ∃ size, extractPredU64 mapLine "aff4:size".toList = .ok size
  dependentStream :
    extractPredIri mapLine "aff4:dependentStream".toList = some ['.']
  noStream : lines.find? (isStreamOf ['.']) = none
  last : ∃ line, lines.getLast? = some line ∧
    contains line "ImageStream".toList = true ∧ DescribesStream line

theorem isKeyword_imageStream : IsKeyword "ImageStream".toList :=
  isKeyword_of_all rfl

theorem isStreamOf_blank {arn block : Text} (blank : splitWhitespace block = []) :
    isStreamOf arn block = false := by
  rw [isStreamOf, contains_blank blank isKeyword_imageStream]
  rfl

theorem mem_of_mem_windows2 {tokens : List Text} {pair : Text × Text}
    (member : pair ∈ windows2 tokens) : pair.2 ∈ tokens :=
  List.mem_of_mem_tail (List.of_mem_zip member).2

/-- An IRI behind a predicate has no whitespace. -/
theorem solid_of_extractPredIri
    {node : DocumentNode} {predicate arn : Text}
    (read : (windows2 node.texts).findSome? (pairIri predicate) = some arn) :
    ∀ c ∈ arn, isWhitespace c = false := by
  obtain ⟨pair, member, iri⟩ := List.exists_of_findSome?_eq_some read
  obtain ⟨token, -, text⟩ := List.mem_map.mp (mem_of_mem_windows2 member)
  unfold pairIri at iri
  split at iri
  · cases iri
    intro c inside
    have inToken := List.mem_of_mem_take (List.mem_of_mem_drop inside)
    rw [← text] at inToken
    exact (token.isWord.chars c inToken).1
  · cases iri

section Streams

variable {ending : Ending} {nodes : List DocumentNode} {blocks : List Text}

/-- A stream other than `<.>` is found in a layout of its node. -/
theorem LaidOut.foundAlike_stream
    (laidOut : LaidOut ending nodes blocks) {arn : Text}
    (solid : ∀ c ∈ arn, isWhitespace c = false) (noStop : arn ≠ ['.']) :
    FoundAlike nodes blocks (isStreamOf arn) := by
  apply laidOut.foundAlike
  · intro block blank
    exact isStreamOf_blank blank
  · intro node block layout
    rw [isStreamOf, isStreamOf, contains_layout_eq layout isKeyword_imageStream]
    by_cases empty : arn = []
    · have always (text : Text) : contains text arn = true := by
        rw [contains_iff, empty]
        exact List.nil_infix
      rw [always, always]
    · rw [contains_layout_eq layout ⟨⟨empty, solid⟩, noStop⟩]

/-- The stream `<.>` is found so too, unless the full stop behind the last node is
taken for it. -/
theorem LaidOut.foundAlike_stop_or
    (laidOut : LaidOut ending nodes blocks) :
    FoundAlike nodes blocks (isStreamOf ['.']) ∨
      ending = .endOfText ∧ OnlyLastHas nodes blocks (isStreamOf ['.']) := by
  have pattern (text : Text) : contains text ['.'] = true ↔
      ∃ token ∈ splitWhitespace text, ['.'] <:+: token := by
    rw [contains_iff]
    exact infix_iff_exists_token (List.cons_ne_nil _ _) (forall_mem_of_all rfl) text
  apply laidOut.foundAlike_or_onlyLastHas
  · intro block blank
    exact isStreamOf_blank blank
  · intro node block tokens
    rw [isStreamOf, isStreamOf, contains_layout_eq (.inl tokens) isKeyword_imageStream]
    congr 1
    rw [Bool.eq_iff_iff, pattern, pattern, tokens, splitWhitespace_line]
  · intro node block layout here
    rw [isStreamOf, Bool.and_eq_true] at here ⊢
    rw [contains_layout_eq layout isKeyword_imageStream]
    refine ⟨here.1, ?_⟩
    obtain ⟨token, member, inside⟩ := (pattern _).mp here.2
    rw [splitWhitespace_line] at member
    rw [pattern]
    refine ⟨token, ?_, inside⟩
    rcases layout with tokens | tokens
    · rwa [tokens]
    · rw [tokens]
      exact List.mem_append_left _ member

/-- A stream is found in a layout of its node, unless it is `<.>` and the full stop
behind the last node is taken for it. -/
theorem LaidOut.foundAlike_stream_or
    (laidOut : LaidOut ending nodes blocks) {arn : Text}
    (solid : ∀ c ∈ arn, isWhitespace c = false) :
    FoundAlike nodes blocks (isStreamOf arn) ∨
      ending = .endOfText ∧ arn = ['.'] ∧ OnlyLastHas nodes blocks (isStreamOf arn) := by
  by_cases isStop : arn = ['.']
  · subst isStop
    rcases laidOut.foundAlike_stop_or with alike | ⟨ends, only⟩
    · exact .inl alike
    · exact .inr ⟨ends, rfl, only⟩
  · exact .inl (laidOut.foundAlike_stream solid isStop)

/-- A Map is read alike from all layouts, unless the full stop behind the last node
is taken for its stream. -/
theorem outcome_parseMapTurtle_of_laidOut
    (laidOut : LaidOut ending nodes blocks) {mapNode : DocumentNode} {mapBlock : Text}
    (layout : IsLayoutOf mapNode mapBlock)
    (usual : ending = .endOfText → ¬StopIsStream (lines nodes) mapNode.line) :
    outcome (parseMapTurtle blocks mapBlock) =
      outcome (parseMapTurtle (lines nodes) mapNode.line) := by
  have lineLayout := isLayoutOf_line mapNode
  have number (predicate : Text) :
      outcome (extractPredU64 mapBlock predicate) =
        outcome (extractPredU64 mapNode.line predicate) := by
    rw [outcome_extractPredU64_of_layout layout,
      outcome_extractPredU64_of_layout lineLayout]
  unfold parseMapTurtle
  rw [extractPredIri_of_layout layout, extractPredIri_of_layout lineLayout,
    extractIri_of_layout layout, extractIri_of_layout lineLayout,
    contains_layout_eq layout (isKeyword_of_all rfl)]
  cases iri : mapNode.texts.findSome? extractIri with
  | none => rfl
  | some mapArn =>
      apply outcome_bind_congr (number _)
      intro virtualSize size
      cases dependent : (windows2 mapNode.texts).findSome?
          (pairIri "aff4:dependentStream".toList) with
      | none => rfl
      | some depArn =>
          have solid := solid_of_extractPredIri dependent
          rcases laidOut.foundAlike_stream_or solid with
            (⟨absent, absentBlock⟩ | ⟨node, block, found, foundBlock, same⟩) |
            ⟨ends, rfl, absent, node, block, isLast, foundBlock, same, has, -⟩
          · unfold isStreamOf at absent absentBlock
            simp only [absent, absentBlock]
          · unfold isStreamOf at found foundBlock
            simp only [found, foundBlock]
            exact outcome_parseImageStreamBlock_of_layout same (isLayoutOf_line node) _
          · -- Only the block is found, so it must be refused as well.
            have lacks : ¬DescribesStream node.line := by
              intro describes
              rw [isStreamOf, Bool.and_eq_true,
                contains_layout_eq same isKeyword_imageStream] at has
              apply usual ends
              exact
                { iri := by rw [extractIri_of_layout lineLayout, iri]; rfl
                  size := ⟨virtualSize, size⟩
                  dependentStream := (extractPredIri_of_layout lineLayout _).trans dependent
                  noStream := absent
                  last := ⟨node.line, isLast, has.1, describes⟩ }
            unfold isStreamOf at absent foundBlock
            rw [← describesStream_layout_iff same] at lacks
            simp only [absent, foundBlock]
            exact outcome_parseImageStreamBlock_of_not lacks _

/-- Without the full stop no node is taken for the stream. -/
theorem outcome_parseMapTurtle_of_stopIsStream
    {lines : List Text} {mapLine : Text} (stop : StopIsStream lines mapLine) :
    outcome (parseMapTurtle lines mapLine) = .error .badFormat := by
  obtain ⟨mapArn, iri⟩ := Option.isSome_iff_exists.mp stop.iri
  obtain ⟨virtualSize, size⟩ := stop.size
  have absent := stop.noStream
  unfold isStreamOf at absent
  unfold parseMapTurtle
  simp only [iri, size, stop.dependentStream, bind, Except.bind, absent]
  rfl

/-- The last block has the full stop that nothing follows. -/
theorem LaidOut.exists_last (laidOut : LaidOut .endOfText nodes blocks) :
    ∃ (node : DocumentNode) (block : Text), (lines nodes).getLast? = some node.line ∧
      block ∈ blocks ∧ splitWhitespace block = node.texts ++ [['.']] := by
  generalize isEnd : Ending.endOfText = ending at laidOut
  induction laidOut with
  | blank tokens => cases isEnd
  | @unfinished node block tokens =>
      exact ⟨node, block, rfl, List.mem_singleton_self block, tokens⟩
  | @node ending node block nodes blocks tokens others inductionHypothesis =>
      obtain ⟨last, lastBlock, isLast, member, lastTokens⟩ := inductionHypothesis isEnd
      refine ⟨last, lastBlock, ?_, List.mem_cons_of_mem block member, lastTokens⟩
      rw [lines] at isLast ⊢
      rw [List.map_cons, List.getLast?_cons, isLast]
      rfl

/-- With the full stop the last block is taken for the stream, and can be read. -/
theorem exists_parseMapTurtle_of_stopIsStream
    (laidOut : LaidOut .endOfText nodes blocks) {mapNode : DocumentNode} {mapBlock : Text}
    (layout : IsLayoutOf mapNode mapBlock)
    (stop : StopIsStream (lines nodes) mapNode.line) :
    ∃ metadata, parseMapTurtle blocks mapBlock = .ok metadata := by
  have lineLayout := isLayoutOf_line mapNode
  obtain ⟨mapArn, iri⟩ := Option.isSome_iff_exists.mp stop.iri
  obtain ⟨virtualSize, size⟩ := stop.size
  obtain ⟨line, isLast, isStream, describes⟩ := stop.last
  have found : ∃ block, blocks.find? (isStreamOf ['.']) = some block ∧
      ∃ node, IsLayoutOf node block ∧ DescribesStream (DocumentNode.line node) := by
    rcases laidOut.foundAlike_stop_or with (⟨-, absent⟩ | ⟨node, block, found, -⟩) |
      ⟨-, -, node, block, last, found, same, -⟩
    · obtain ⟨node, block, last, member, tokens⟩ := laidOut.exists_last
      rw [isLast, Option.some.injEq] at last
      exfalso
      apply List.find?_eq_none.mp absent block member
      have dot : contains block ['.'] = true := by
        rw [contains_iff]
        apply infix_of_mem_splitWhitespace
        rw [tokens]
        exact List.mem_append_right _ (List.mem_singleton_self _)
      rw [isStreamOf, contains_layout_eq (.inr tokens) isKeyword_imageStream, ← last,
        isStream, dot]
      rfl
    · rw [stop.noStream] at found
      cases found
    · rw [isLast, Option.some.injEq] at last
      rw [last] at describes
      exact ⟨block, found, node, same, describes⟩
  obtain ⟨block, found, node, same, describes⟩ := found
  rw [extractIri_of_layout lineLayout, ← extractIri_of_layout layout] at iri
  have number : extractPredU64 mapBlock "aff4:size".toList = .ok virtualSize := by
    apply outcome_eq_ok.mp
    rw [outcome_extractPredU64_of_layout layout,
      ← outcome_extractPredU64_of_layout lineLayout, size]
    rfl
  have dependent := stop.dependentStream
  rw [extractPredIri_of_layout lineLayout, ← extractPredIri_of_layout layout] at dependent
  unfold isStreamOf at found
  simp only [parseMapTurtle, iri, number, dependent, bind, Except.bind, found]
  rw [exists_parseImageStreamBlock_iff]
  exact (describesStream_layout_iff same).mpr describes

end Streams

/-! ## Documents -/

/-- Parse a document that is cut into nodes. -/
def parseBlocks (blocks : List Text) : Except Aff4Error StreamMeta := do
  if let some block :=
      blocks.find? (contains · "aff4:EncryptedStream".toList) then
    let arn := String.ofList ((extractIri block).getD "<unknown stream>".toList)
    throw (.encrypted
      (s!"stream {arn} is an aff4:EncryptedStream (AES-XTS); " ++
        "provide-key decryption is not yet implemented"))
  if let some mapBlock := blocks.find? (contains · "aff4:Map".toList) then
    return ← parseMapTurtle blocks mapBlock
  let some imageBlock := blocks.find? (contains · "ImageStream".toList)
    | throw (.badFormat "no aff4:ImageStream found in metadata")
  parseImageStreamBlock imageBlock none

theorem parseTurtle_eq (turtle : Text) :
    parseTurtle turtle = parseBlocks (turtleBlocks turtle) := rfl

/-- The full stop behind the last node is taken for the stream of the document's
Map. -/
structure TakesStopForStream (lines : List Text) : Prop where
  plain : lines.find? (contains · "aff4:EncryptedStream".toList) = none
  map : ∃ mapLine, lines.find? (contains · "aff4:Map".toList) = some mapLine ∧
    StopIsStream lines mapLine

theorem isKeyword_encryptedStream : IsKeyword "aff4:EncryptedStream".toList :=
  isKeyword_of_all rfl

theorem isKeyword_map : IsKeyword "aff4:Map".toList := isKeyword_of_all rfl

section Documents

variable {ending : Ending} {nodes : List DocumentNode} {blocks : List Text}

/-- A document is read alike from all layouts, unless the full stop behind its last
node is taken for the stream of its Map. -/
theorem outcome_parseBlocks_of_laidOut
    (laidOut : LaidOut ending nodes blocks)
    (usual : ending = .endOfText → ¬TakesStopForStream (lines nodes)) :
    outcome (parseBlocks blocks) = outcome (parseBlocks (lines nodes)) := by
  unfold parseBlocks
  rcases laidOut.foundAlike_keyword isKeyword_encryptedStream with
    ⟨plain, plainBlocks⟩ | ⟨node, block, found, foundBlock, -⟩
  · rcases laidOut.foundAlike_keyword isKeyword_map with
      ⟨noMap, noMapBlock⟩ | ⟨mapNode, mapBlock, map, foundMapBlock, layout⟩
    · rcases laidOut.foundAlike_keyword isKeyword_imageStream with
        ⟨noImage, noImageBlock⟩ | ⟨node, block, image, imageBlock, layout⟩
      · simp only [plain, plainBlocks, noMap, noMapBlock, noImage, noImageBlock]
      · simp only [plain, plainBlocks, noMap, noMapBlock, image, imageBlock]
        exact outcome_parseImageStreamBlock_of_layout layout (isLayoutOf_line node) none
    · simp only [plain, plainBlocks, map, foundMapBlock]
      apply outcome_parseMapTurtle_of_laidOut laidOut layout
      intro ends isStream
      exact usual ends ⟨plain, mapNode.line, map, isStream⟩
  · simp only [found, foundBlock]
    rfl

/-- Without the full stop such a document is refused. -/
theorem outcome_parseBlocks_of_takesStopForStream
    {lines : List Text} (takes : TakesStopForStream lines) :
    outcome (parseBlocks lines) = .error .badFormat := by
  obtain ⟨mapLine, map, stop⟩ := takes.map
  unfold parseBlocks
  simp only [takes.plain, map]
  exact outcome_parseMapTurtle_of_stopIsStream stop

/-- With the full stop it is accepted. -/
theorem exists_parseBlocks_of_takesStopForStream
    (laidOut : LaidOut .endOfText nodes blocks)
    (takes : TakesStopForStream (lines nodes)) :
    ∃ metadata, parseBlocks blocks = .ok metadata := by
  obtain ⟨mapLine, map, stop⟩ := takes.map
  unfold parseBlocks
  rcases laidOut.foundAlike_keyword isKeyword_encryptedStream with
    ⟨-, plain⟩ | ⟨node, block, found, -⟩
  · rcases laidOut.foundAlike_keyword isKeyword_map with
      ⟨noMap, -⟩ | ⟨node, mapBlock, found, foundBlock, layout⟩
    · rw [map] at noMap
      cases noMap
    · rw [map, Option.some.injEq] at found
      rw [found] at stop
      simp only [plain, foundBlock]
      exact exists_parseMapTurtle_of_stopIsStream laidOut layout stop
  · rw [takes.plain] at found
    cases found

end Documents

/-- All renderings of a document give the same metadata, or errors of the same
variant. -/
def LayoutIndependent (nodes : List DocumentNode) : Prop :=
  ∀ {leftEnding rightEnding : Ending} {left right : Text},
    RendersDocument leftEnding nodes left → RendersDocument rightEnding nodes right →
      outcome (parseTurtle left) = outcome (parseTurtle right)

/-- The metadata of a document depends on its layout if and only if the full stop
behind its last node can be taken for the stream of its Map. -/
theorem layoutIndependent_iff (nodes : List DocumentNode) :
    LayoutIndependent nodes ↔ ¬TakesStopForStream (lines nodes) := by
  constructor
  · intro independent takes
    have nonempty : nodes ≠ [] := by
      rintro rfl
      obtain ⟨mapLine, map, -⟩ := takes.map
      cases map
    obtain ⟨left, rendersLeft⟩ := exists_rendersDocument_separator nodes
    obtain ⟨right, rendersRight⟩ := exists_rendersDocument_endOfText nonempty
    have refused : outcome (parseTurtle left) = .error .badFormat := by
      have alike := outcome_parseBlocks_of_laidOut rendersLeft.laidOut
        (fun ends => by cases ends)
      rw [parseTurtle_eq, alike]
      exact outcome_parseBlocks_of_takesStopForStream takes
    obtain ⟨metadata, accepted⟩ :=
      exists_parseBlocks_of_takesStopForStream rendersRight.laidOut takes
    have same := independent rendersLeft rendersRight
    rw [refused, parseTurtle_eq right, accepted] at same
    cases same
  · intro usual leftEnding rightEnding left right rendersLeft rendersRight
    rw [parseTurtle_eq, parseTurtle_eq,
      outcome_parseBlocks_of_laidOut rendersLeft.laidOut (fun _ => usual),
      outcome_parseBlocks_of_laidOut rendersRight.laidOut (fun _ => usual)]

/-! A Map that depends on `<.>`, and a stream: the document is refused if a line break
follows its last full stop, and accepted if nothing does. -/

namespace StopSample

def mapNode : DocumentNode where
  tokens :=
    [.ofText "<m>".toList rfl, .ofText "a".toList rfl, .ofText "aff4:Map".toList rfl,
      .ofText "aff4:size".toList rfl, .ofText "6".toList rfl,
      .ofText "aff4:dependentStream".toList rfl, .ofText "<.>".toList rfl]
  ne_nil := List.cons_ne_nil _ _

def streamNode : DocumentNode where
  tokens :=
    [.ofText "<i>".toList rfl, .ofText "a".toList rfl,
      .ofText "aff4:ImageStream".toList rfl, .ofText "aff4:chunkSize".toList rfl,
      .ofText "2".toList rfl, .ofText "aff4:chunksInSegment".toList rfl,
      .ofText "2".toList rfl, .ofText "aff4:size".toList rfl, .ofText "3".toList rfl]
  ne_nil := List.cons_ne_nil _ _

/-- The document, in front of what follows its last full stop. -/
def turtle (ending : Text) : Text :=
  mapNode.line ++ ([' '] ++ '.' :: (['\n'] ++
    (streamNode.line ++ ([' '] ++ '.' :: ending))))

theorem not_layoutIndependent_stop :
    ¬LayoutIndependent [mapNode, streamNode] := by
  have lineBreak : IsSeparator ['\n'] := ⟨List.cons_ne_nil _ _, by simp [becomesSpace]⟩
  have left : RendersDocument .separator [mapNode, streamNode] (turtle (['\n'] ++ [])) :=
    .cons (rendersTokens_line mapNode) isSeparator_space lineBreak
      (.cons (rendersTokens_line streamNode) isSeparator_space lineBreak .nil)
  have right : RendersDocument .endOfText [mapNode, streamNode] (turtle []) :=
    .cons (rendersTokens_line mapNode) isSeparator_space lineBreak
      (.last (rendersTokens_line streamNode) isSeparator_space)
  have differ : outcome (parseTurtle (turtle (['\n'] ++ []))) ≠
      outcome (parseTurtle (turtle [])) := by
    decide +kernel
  exact fun independent => differ (independent left right)

end StopSample

end Aff4
