import Aff4.Turtle

/-!
# Renderings of a document

A document is a list of nodes, and a node a list of tokens.  It can be laid out
with any separators between its tokens.  Each node is one block of the parser, and
the tokens of the block are those of the node.
-/

namespace Aff4

open Rust Rust.Str

/-! ## What a block says by its tokens -/

/-- A pattern without whitespace lies in a token. -/
theorem infix_iff_exists_token
    {pattern : Text} (nonempty : pattern ≠ [])
    (solid : ∀ c ∈ pattern, isWhitespace c = false) (text : Text) :
    pattern <:+: text ↔ ∃ token ∈ splitWhitespace text, pattern <:+: token := by
  induction text using induction_on_whitespace with
  | solid text noSpace =>
      by_cases empty : text = []
      · rw [empty, splitWhitespace_nil, List.infix_nil]
        exact iff_of_false nonempty (by simp)
      · rw [splitWhitespace_of_isToken ⟨empty, noSpace⟩]
        simp
  | space before c after isSpace left right =>
      have foreign : c ∉ pattern := by
        intro member
        rw [solid c member] at isSpace
        cases isSpace
      rw [infix_append_cons_iff nonempty foreign, left, right,
        splitWhitespace_append_cons before after isSpace]
      simp only [List.mem_append, or_and_right, exists_or]

/-- Every opening bracket of a text is closed in it. -/
def IsClosed (text : Text) : Prop :=
  ∀ before after, text = before ++ '<' :: after → '>' ∈ after

theorem isClosed_nil : IsClosed [] := by
  intro before after split
  cases before <;> cases split

theorem isClosed_cons_iff {c : Char} {text : Text} :
    IsClosed (c :: text) ↔ (c = '<' → '>' ∈ text) ∧ IsClosed text := by
  constructor
  · intro closed
    refine ⟨fun opening => closed [] text (congrArg (· :: text) opening), ?_⟩
    intro before after split
    exact closed (c :: before) after (congrArg (c :: ·) split)
  · rintro ⟨here, later⟩ before after split
    cases before with
    | nil =>
        obtain ⟨opening, rfl⟩ := List.cons.inj split
        exact here opening
    | cons b before => exact later before after (List.cons.inj split).2

instance decidableIsClosed : (text : Text) → Decidable (IsClosed text)
  | [] => .isTrue isClosed_nil
  | _ :: text =>
      have := decidableIsClosed text
      decidable_of_iff _ isClosed_cons_iff.symm

/-- A text without an opening bracket in front is skipped. -/
theorem extractIri_append_of_not_mem {before : Text} (absent : '<' ∉ before)
    (after : Text) : extractIri (before ++ after) = extractIri after := by
  cases opened : find after ['<'] with
  | none =>
      have noneAfter : '<' ∉ after := by
        rw [find_eq_none_iff, List.singleton_infix_iff] at opened
        exact opened
      have noneAtAll : '<' ∉ before ++ after := by
        rw [List.mem_append, not_or]
        exact ⟨absent, noneAfter⟩
      simp only [extractIri, opened, find_char_eq_none noneAtAll]
      rfl
  | some position =>
      obtain ⟨split, le⟩ := eq_append_of_find_eq_some opened
      have first := not_mem_take_of_find_char opened
      have before_not_mem : '<' ∉ before ++ after.take position := by
        rw [List.mem_append, not_or]
        exact ⟨absent, first⟩
      have shape : before ++ after =
          (before ++ after.take position) ++ '<' :: after.drop (position + 1) := by
        have rest := congrArg (before ++ ·) split
        simpa using rest
      have length : (before ++ after.take position).length =
          before.length + position := by
        rw [List.length_append, List.length_take, Nat.min_eq_left le]
      have found : find (before ++ after) ['<'] = some (before.length + position) := by
        rw [shape, find_char_append _ before_not_mem, length]
      have behind : (before ++ after).drop (before.length + position + 1) =
          after.drop (position + 1) := by
        rw [Nat.add_assoc, List.drop_length_add_append]
      simp only [extractIri, found, opened, Option.bind_eq_bind, Option.bind_some,
        behind]

/-- Behind a closed text and a character other than an opening bracket, the first
IRI is that of the text, or else that of what follows. -/
theorem extractIri_append_cons {before : Text} (closed : IsClosed before)
    {c : Char} (noBracket : c ≠ '<') (after : Text) :
    extractIri (before ++ c :: after) =
      (extractIri before).or (extractIri after) := by
  by_cases opened : '<' ∈ before
  · obtain ⟨front, behind, rfl, absent⟩ := List.eq_append_cons_of_mem opened
    obtain ⟨iri, rest, rfl, last⟩ :=
      List.eq_append_cons_of_mem (closed front behind rfl)
    have longer := extractIri_append absent last (rest ++ c :: after)
    rw [extractIri_append absent last rest, Option.some_or, ← longer]
    simp only [List.append_assoc, List.cons_append]
  · have absent : '<' ∉ before ++ [c] := by
      rw [List.mem_append, List.mem_singleton, not_or]
      exact ⟨opened, Ne.symm noBracket⟩
    have none := extractIri_append_of_not_mem opened []
    rw [List.append_nil] at none
    rw [← List.singleton_append, ← List.append_assoc,
      extractIri_append_of_not_mem absent, none]
    rfl

theorem IsClosed.append_cons {before after : Text} {c : Char}
    (closed : IsClosed before) (noBracket : c ≠ '<') (closedAfter : IsClosed after) :
    IsClosed (before ++ c :: after) := by
  intro front behind split
  rcases List.append_eq_append_iff.mp split with
    ⟨middle, rfl, rest⟩ | ⟨middle, rfl, rest⟩
  · cases middle with
    | nil => exact absurd (List.cons.inj rest).1 noBracket
    | cons b middle => exact closedAfter middle behind (List.cons.inj rest).2
  · cases middle with
    | nil => exact absurd (List.cons.inj rest).1.symm noBracket
    | cons b middle =>
        obtain ⟨rfl, rfl⟩ := List.cons.inj rest
        exact List.mem_append_left _ (closed front middle rfl)

/-- The first IRI of a text is that of the first token that has one, when the
tokens are closed. -/
theorem extractIri_eq_findSome?
    {text : Text} (closed : ∀ token ∈ splitWhitespace text, IsClosed token) :
    IsClosed text ∧ extractIri text = (splitWhitespace text).findSome? extractIri := by
  induction text using induction_on_whitespace with
  | solid text noSpace =>
      by_cases empty : text = []
      · subst empty
        exact ⟨isClosed_nil, rfl⟩
      · rw [splitWhitespace_of_isToken ⟨empty, noSpace⟩] at closed ⊢
        refine ⟨closed text (List.mem_singleton_self text), ?_⟩
        cases read : extractIri text <;> simp [read]
  | space before c after isSpace left right =>
      have noBracket : c ≠ '<' := by
        rintro rfl
        cases isSpace
      rw [splitWhitespace_append_cons before after isSpace] at closed ⊢
      rw [List.forall_mem_append] at closed
      obtain ⟨leftClosed, leftIri⟩ := left closed.1
      obtain ⟨rightClosed, rightIri⟩ := right closed.2
      refine ⟨leftClosed.append_cons noBracket rightClosed, ?_⟩
      rw [extractIri_append_cons leftClosed noBracket, List.findSome?_append, leftIri,
        rightIri]

/-! ## Documents -/

/-- A token of a document. -/
structure DocumentToken where
  text : Text
  isWord : IsWord text
  ne_stop : text ≠ ['.']
  isClosed : IsClosed text

/-- A text that passes the checks is a token. -/
def DocumentToken.ofText (text : Text)
    (checked : (text != [] && text.all (fun c => decide (IsWordChar c)) &&
      text != ['.'] && decide (IsClosed text)) = true) : DocumentToken where
  text
  isWord := by
    simp only [Bool.and_eq_true, bne_iff_ne] at checked
    exact ⟨checked.1.1.1, forall_mem_of_all checked.1.1.2⟩
  ne_stop := by
    simp only [Bool.and_eq_true, bne_iff_ne] at checked
    exact checked.1.2
  isClosed := by
    simp only [Bool.and_eq_true] at checked
    exact of_decide_eq_true checked.2

/-- A node of a document. -/
structure DocumentNode where
  tokens : List DocumentToken
  ne_nil : tokens ≠ []

/-- The texts of a node's tokens. -/
def DocumentNode.texts (node : DocumentNode) : List Text := node.tokens.map (·.text)

/-- A string that separates tokens. -/
def IsSeparator (text : Text) : Prop :=
  text ≠ [] ∧ ∀ c ∈ text, c = ' ' ∨ c ∈ becomesSpace

/-- The texts of a list of tokens with separators between them. -/
inductive RendersTokens : List DocumentToken → Text → Prop
  | single (token : DocumentToken) : RendersTokens [token] token.text
  | cons (token : DocumentToken) {separator text : Text} {tokens : List DocumentToken}
      (isSeparator : IsSeparator separator) (rest : RendersTokens tokens text) :
      RendersTokens (token :: tokens) (token.text ++ (separator ++ text))

/-- What the full stop behind the last node of a document is followed by. -/
inductive Ending
  | separator
  | endOfText

/-- The texts of a document.  A node ends with a separator, a full stop and a
separator, which the last node need not have. -/
inductive RendersDocument : Ending → List DocumentNode → Text → Prop
  | nil : RendersDocument .separator [] []
  | last {node : DocumentNode} {text before : Text}
      (renders : RendersTokens node.tokens text) (isSeparator : IsSeparator before) :
      RendersDocument .endOfText [node] (text ++ (before ++ ['.']))
  | cons {ending : Ending} {node : DocumentNode} {text before after rest : Text}
      {nodes : List DocumentNode}
      (renders : RendersTokens node.tokens text) (isSeparator : IsSeparator before)
      (isSeparatorBehind : IsSeparator after)
      (others : RendersDocument ending nodes rest) :
      RendersDocument ending (node :: nodes)
        (text ++ (before ++ '.' :: (after ++ rest)))

/-! A document has renderings. -/

/-- The text of a node with single spaces. -/
def DocumentNode.line (node : DocumentNode) : Text := [' '].intercalate node.texts

theorem isSeparator_space : IsSeparator [' '] :=
  ⟨List.cons_ne_nil _ _, by simp⟩

theorem rendersTokens_line (node : DocumentNode) :
    RendersTokens node.tokens node.line := by
  obtain ⟨tokens, nonempty⟩ := node
  unfold DocumentNode.line DocumentNode.texts
  dsimp only
  induction tokens with
  | nil => exact absurd rfl nonempty
  | cons token tokens inductionHypothesis =>
      cases tokens with
      | nil =>
          rw [List.map_singleton, List.intercalate_singleton]
          exact .single token
      | cons next tokens =>
          have rest := inductionHypothesis (List.cons_ne_nil next tokens)
          have joined := RendersTokens.cons token isSeparator_space rest
          rwa [List.map_cons, List.map_cons, List.intercalate_cons_cons,
            List.append_assoc]

theorem RendersDocument.exists_append
    {ending : Ending} {nodes : List DocumentNode} {text : Text}
    (renders : RendersDocument ending nodes text) (front : List DocumentNode) :
    ∃ whole, RendersDocument ending (front ++ nodes) whole := by
  induction front with
  | nil => exact ⟨text, renders⟩
  | cons node front inductionHypothesis =>
      obtain ⟨rest, others⟩ := inductionHypothesis
      exact ⟨_, .cons (rendersTokens_line node) isSeparator_space isSeparator_space
        others⟩

theorem exists_rendersDocument_separator (nodes : List DocumentNode) :
    ∃ text, RendersDocument .separator nodes text := by
  have renders := RendersDocument.nil.exists_append nodes
  rwa [List.append_nil] at renders

theorem exists_rendersDocument_endOfText {nodes : List DocumentNode} (nonempty : nodes ≠ []) :
    ∃ text, RendersDocument .endOfText nodes text := by
  have last := RendersDocument.last (rendersTokens_line (nodes.getLast nonempty))
    isSeparator_space
  have renders := last.exists_append nodes.dropLast
  rwa [List.dropLast_append_getLast] at renders

/-! ## Blocks -/

/-- A normalized separator is spaces. -/
theorem IsSeparator.normalizeTurtle_eq {separator : Text}
    (isSeparator : IsSeparator separator) :
    ∃ count, normalizeTurtle separator = List.replicate (count + 1) ' ' := by
  obtain ⟨nonempty, spaces⟩ := isSeparator
  obtain ⟨c, rest, rfl⟩ := List.exists_cons_of_ne_nil nonempty
  refine ⟨rest.length, ?_⟩
  apply List.map_eq_replicate_iff.mpr
  intro d member
  rcases spaces d member with rfl | changed
  · rfl
  · apply if_pos
    simpa [becomesSpace] using changed

theorem isWhitespace_of_mem_replicate {count : Nat} :
    ∀ c ∈ List.replicate count ' ', isWhitespace c = true := by
  intro c member
  rw [List.eq_of_mem_replicate member]
  rfl

/-- The tokens of a node are the words of its texts. -/
theorem RendersTokens.words_eq {tokens : List DocumentToken} {text : Text}
    (renders : RendersTokens tokens text) : words text = tokens.map (·.text) := by
  induction renders with
  | single token => exact words_of_isWord token.isWord
  | cons token isSeparator rest inductionHypothesis =>
      obtain ⟨count, spaces⟩ := isSeparator.normalizeTurtle_eq
      have first := splitWhitespace_isToken_spaces token.isWord.isToken
        (List.cons_ne_nil ' ' (List.replicate count ' '))
        (@isWhitespace_of_mem_replicate (count + 1))
      rw [words, normalizeTurtle_append, token.isWord.normalizeTurtle_eq,
        normalizeTurtle_append, spaces, List.replicate_succ, first, ← words,
        inductionHypothesis]
      rfl

/-- Spaces on both sides of a text change none of its tokens. -/
theorem splitWhitespace_between_spaces (before after : Nat) (text : Text) :
    splitWhitespace (List.replicate before ' ' ++ (text ++ List.replicate after ' ')) =
      splitWhitespace text := by
  rw [splitWhitespace_spaces_append isWhitespace_of_mem_replicate]
  cases after with
  | zero => rw [List.replicate_zero, List.append_nil]
  | succ after =>
      have none := splitWhitespace_spaces_append
        (@isWhitespace_of_mem_replicate after) []
      rw [List.append_nil] at none
      rw [List.replicate_succ, splitWhitespace_append_cons _ _ rfl, none,
        splitWhitespace_nil, List.append_nil]

/-- Up to a full stop at its end, a text that has no other as a token is one
block. -/
theorem not_infix_of_not_mem {text : Text} (noStop : ['.'] ∉ splitWhitespace text) :
    ¬" . ".toList <:+: text ++ " .".toList := by
  intro inside
  have joined : text ++ " .".toList = text ++ [' '] ++ ['.'] := by
    rw [List.append_assoc]
    rfl
  rw [joined, List.infix_concat_iff] at inside
  rcases inside with ⟨before, ends⟩ | earlier
  · have last := congrArg List.getLast? ends
    simp at last
  · apply noStop
    have stop : IsToken ['.'] := ⟨List.cons_ne_nil _ _, forall_mem_of_all rfl⟩
    have member := mem_splitWhitespace_of_infix stop earlier
    rw [splitWhitespace_append_cons text [] rfl, splitWhitespace_nil,
      List.append_nil] at member
    exact member

/-- In front of the full stop that ends a node, whatever spaces are in front of the
node, lies a block with the node's tokens. -/
theorem exists_block
    {node : DocumentNode} {text before : Text} (renders : RendersTokens node.tokens text)
    (isSeparator : IsSeparator before) (spaces : Nat) :
    ∃ block, splitWhitespace block = node.texts ∧
      ¬" . ".toList <:+: block ++ " .".toList ∧
      ∀ after, List.replicate spaces ' ' ++ normalizeTurtle (text ++ (before ++ after)) =
        block ++ ' ' :: normalizeTurtle after := by
  obtain ⟨count, normalized⟩ := isSeparator.normalizeTurtle_eq
  have tokens := splitWhitespace_between_spaces spaces count (normalizeTurtle text)
  rw [← words, renders.words_eq, ← DocumentNode.texts] at tokens
  refine ⟨_, tokens, ?_, ?_⟩
  · apply not_infix_of_not_mem
    rw [tokens]
    intro member
    obtain ⟨token, -, stop⟩ := List.mem_map.mp member
    exact token.ne_stop stop
  · intro after
    rw [normalizeTurtle_append, normalizeTurtle_append, normalized,
      List.replicate_succ']
    simp only [List.append_assoc, List.singleton_append]

/-- The blocks of a document, by their tokens: those of the nodes, and a blank block
behind the last separator.  At the end of a text the last full stop separates
nothing, and is one more token of the last node. -/
inductive LaidOut : Ending → List DocumentNode → List Text → Prop
  | blank {block : Text} (tokens : splitWhitespace block = []) :
      LaidOut .separator [] [block]
  | unfinished {node : DocumentNode} {block : Text}
      (tokens : splitWhitespace block = node.texts ++ [['.']]) :
      LaidOut .endOfText [node] [block]
  | node {ending : Ending} {node : DocumentNode} {block : Text}
      {nodes : List DocumentNode} {blocks : List Text}
      (tokens : splitWhitespace block = node.texts)
      (others : LaidOut ending nodes blocks) :
      LaidOut ending (node :: nodes) (block :: blocks)

/-- Every node is one block, whatever spaces are in front of the document. -/
theorem RendersDocument.laidOut_spaces
    {ending : Ending} {nodes : List DocumentNode} {text : Text}
    (renders : RendersDocument ending nodes text) (spaces : Nat) :
    LaidOut ending nodes
      (split (List.replicate spaces ' ' ++ normalizeTurtle text) " . ".toList) := by
  induction renders generalizing spaces with
  | nil =>
      have noStop : ¬" . ".toList <:+: List.replicate spaces ' ' := by
        intro inside
        have stop : '.' ∈ List.replicate spaces ' ' := inside.subset (by decide)
        cases List.eq_of_mem_replicate stop
      have tokens := splitWhitespace_between_spaces spaces 0 []
      have whole : List.replicate spaces ' ' ++ normalizeTurtle [] =
          List.replicate spaces ' ' := List.append_nil _
      rw [whole, split_of_not_infix noStop]
      apply LaidOut.blank
      rwa [List.replicate_zero, List.append_nil, List.append_nil] at tokens
  | last renders isSeparator =>
      obtain ⟨block, tokens, alone, whole⟩ := exists_block renders isSeparator spaces
      have stop : IsToken ['.'] := ⟨List.cons_ne_nil _ _, forall_mem_of_all rfl⟩
      have ends : block ++ ' ' :: normalizeTurtle ['.'] = block ++ " .".toList := rfl
      rw [whole, ends, split_of_not_infix alone]
      apply LaidOut.unfinished
      rw [← ends, splitWhitespace_append_cons block _ rfl, tokens]
      exact congrArg (_ ++ ·) (splitWhitespace_of_isToken stop)
  | @cons ending node text before after rest nodes renders isSeparator isSeparatorBehind
      others inductionHypothesis =>
      obtain ⟨block, tokens, alone, whole⟩ := exists_block renders isSeparator spaces
      obtain ⟨count, normalized⟩ := isSeparatorBehind.normalizeTurtle_eq
      have stop : block ++ ' ' :: normalizeTurtle ('.' :: (after ++ rest)) =
          block ++ " . ".toList ++
            (List.replicate count ' ' ++ normalizeTurtle rest) := by
        have behind : normalizeTurtle (after ++ rest) =
            ' ' :: (List.replicate count ' ' ++ normalizeTurtle rest) := by
          rw [normalizeTurtle_append, normalized]
          rfl
        rw [List.append_assoc]
        exact congrArg (block ++ ' ' :: '.' :: ·) behind
      rw [whole, stop, split_append block _ alone]
      exact .node tokens (inductionHypothesis count)

theorem RendersDocument.laidOut
    {ending : Ending} {nodes : List DocumentNode} {text : Text}
    (renders : RendersDocument ending nodes text) :
    LaidOut ending nodes (turtleBlocks text) :=
  renders.laidOut_spaces 0

end Aff4
