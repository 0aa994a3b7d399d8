import Mathlib.Data.List.DropRight
import Mathlib.Data.List.Infix
import Aff4.Rust.Slice

/-!
# Strings

A text is the list of its characters.  The functions below follow the
documentation of the methods of `str` and `char` that carry their names;
positions count characters, which splits a text exactly where the byte
positions of the originals do.
-/

namespace Rust

/-- A string. -/
abbrev Text := List Char

namespace Str

/-! ## Characters -/

/-- `c.is_whitespace()`: the Unicode property `White_Space`. -/
def isWhitespace (c : Char) : Bool :=
  let code := c.toNat
  (9 ≤ code && code ≤ 13) || code == 0x20 || code == 0x85 || code == 0xA0 ||
    code == 0x1680 || (0x2000 ≤ code && code ≤ 0x200A) || code == 0x2028 ||
    code == 0x2029 || code == 0x202F || code == 0x205F || code == 0x3000

/-- `c.is_ascii_digit()`. -/
def isAsciiDigit (c : Char) : Bool := '0' ≤ c && c ≤ '9'

/-- `c.is_ascii_hexdigit()`. -/
def isAsciiHexdigit (c : Char) : Bool :=
  isAsciiDigit c || ('a' ≤ c && c ≤ 'f') || ('A' ≤ c && c ≤ 'F')

/-- `c.is_ascii_alphanumeric()`. -/
def isAsciiAlphanumeric (c : Char) : Bool :=
  isAsciiDigit c || ('a' ≤ c && c ≤ 'z') || ('A' ≤ c && c ≤ 'Z')

/-- `c.to_digit(16)`. -/
def toDigit16 (c : Char) : Option Nat :=
  if isAsciiDigit c then some (c.toNat - '0'.toNat)
  else if 'a' ≤ c && c ≤ 'f' then some (c.toNat - 'a'.toNat + 10)
  else if 'A' ≤ c && c ≤ 'F' then some (c.toNat - 'A'.toNat + 10)
  else none

/-- `text.to_ascii_lowercase()`. -/
def toAsciiLowercase (text : Text) : Text := text.map Char.toLower

theorem toLower_toLower (c : Char) : c.toLower.toLower = c.toLower := by
  have first : 'A'.val.toNat = 65 := rfl
  have last : 'Z'.val.toNat = 90 := rfl
  have shift : ('a'.val - 'A'.val).toNat = 32 := by decide
  by_cases upper : c.val ≥ 'A'.val ∧ c.val ≤ 'Z'.val
  · have moved : c.toLower.val = c.val + ('a'.val - 'A'.val) :=
      congrArg Char.val (dif_pos upper)
    have lower : ¬(c.toLower.val ≥ 'A'.val ∧ c.toLower.val ≤ 'Z'.val) := by
      rw [moved]
      simp only [ge_iff_le, UInt32.le_iff_toNat_le, first, last,
        UInt32.toNat_add, shift] at upper ⊢
      omega
    exact dif_neg lower
  · have same : c.toLower = c := dif_neg upper
    rw [same, same]

@[simp] theorem toAsciiLowercase_toAsciiLowercase (text : Text) :
    toAsciiLowercase (toAsciiLowercase text) = toAsciiLowercase text := by
  rw [toAsciiLowercase, toAsciiLowercase, List.map_map]
  exact List.map_congr_left fun c _ => toLower_toLower c

/-- `text.to_ascii_uppercase()`. -/
def toAsciiUppercase (text : Text) : Text := text.map Char.toUpper

/-- `text.len()`: the number of bytes of the UTF-8 encoding. -/
def len (text : Text) : Nat := (text.map Char.utf8Size).sum

/-- `text.as_bytes()`. -/
def asBytes (text : Text) : Bytes := text.flatMap String.utf8EncodeChar

/-- The text that a UTF-8 byte string encodes, or `none` if it is not valid. -/
def fromUtf8 (bytes : Bytes) : Option Text :=
  (ByteArray.mk bytes.toArray).utf8Decode?.map Array.toList

/-- Decoding inverts encoding. -/
@[simp] theorem fromUtf8_asBytes (text : Text) :
    fromUtf8 (asBytes text) = some text := by
  have encoded : ByteArray.mk (asBytes text).toArray = text.utf8Encode := by
    unfold asBytes List.utf8Encode
    apply ByteArray.ext
    rw [List.data_toByteArray]
  rw [fromUtf8, encoded, List.utf8Decode?_utf8Encode]
  simp

/-- A character is encoded in at most four bytes. -/
theorem length_asBytes_le (text : Text) :
    (asBytes text).length ≤ 4 * text.length := by
  induction text with
  | nil => exact le_rfl
  | cons c rest inductionHypothesis =>
      have size := c.utf8Size_le_four
      rw [asBytes, List.flatMap_cons, List.length_append,
        String.length_utf8EncodeChar, ← asBytes, List.length_cons]
      omega

/-! ## Searching -/

/-- `text.strip_prefix(pattern)`. -/
def stripPrefix (text pattern : Text) : Option Text :=
  if pattern.isPrefixOf text then some (text.drop pattern.length) else none

theorem stripPrefix_eq_some {text pattern rest : Text} :
    stripPrefix text pattern = some rest ↔ text = pattern ++ rest := by
  unfold stripPrefix
  constructor
  · intro found
    split at found
    next begins =>
      obtain ⟨rest, rfl⟩ := List.isPrefixOf_iff_prefix.mp begins
      rw [List.drop_left] at found
      cases found
      rfl
    next => cases found
  · rintro rfl
    rw [if_pos (List.isPrefixOf_iff_prefix.mpr (List.prefix_append _ _)),
      List.drop_left]

/-- `text.find(pattern)`: the position of the first match. -/
def find : Text → Text → Option Nat
  | [], pattern => if pattern = [] then some 0 else none
  | c :: rest, pattern =>
      if pattern.isPrefixOf (c :: rest) then some 0
      else (find rest pattern).map (· + 1)

/-- `text.contains(pattern)`. -/
def contains (text pattern : Text) : Bool := (find text pattern).isSome

/-- `text.split_once(pattern)`. -/
def splitOnce (text pattern : Text) : Option (Text × Text) :=
  (find text pattern).map fun position =>
    (text.take position, text.drop (position + pattern.length))

/-- The pieces of a text between matches of a separator, the first `skip`
characters being the rest of a match that has been consumed. -/
def splitFrom (separator : Text) : Nat → Text → List Text
  | _, [] => [[]]
  | skip + 1, _ :: rest => splitFrom separator skip rest
  | 0, c :: rest =>
      if separator.isPrefixOf (c :: rest) then
        [] :: splitFrom separator (separator.length - 1) rest
      else
        (splitFrom separator 0 rest).modifyHead (c :: ·)

/-- `text.split(separator)` for a nonempty separator. -/
def split (text separator : Text) : List Text := splitFrom separator 0 text

/-- `text.split_whitespace()`. -/
def splitWhitespace (text : Text) : List Text :=
  (text.splitOnP isWhitespace).filter fun piece => !piece.isEmpty

/-- `text.trim()`. -/
def trim (text : Text) : Text :=
  (text.dropWhile isWhitespace).rdropWhile isWhitespace

/-- One line without the `\r` of its line ending. -/
private def stripCarriageReturn (line : Text) : Text :=
  if line.getLast? = some '\r' then line.dropLast else line

/-- `text.lines()`.  The last line needs no line ending, and keeps a trailing
`\r` when it has none. -/
def lines (text : Text) : List Text :=
  let pieces := text.splitOnP (· == '\n')
  match pieces.getLast? with
  | some [] => pieces.dropLast.map stripCarriageReturn
  | some last => pieces.dropLast.map stripCarriageReturn ++ [last]
  | none => []

/-- A text without whitespace is not trimmed. -/
theorem trim_of_solid {text : Text} (solid : ∀ c ∈ text, isWhitespace c = false) :
    trim text = text := by
  have front : text.dropWhile isWhitespace = text := by
    rw [List.dropWhile_eq_self_iff]
    intro nonempty
    simp [solid _ (List.getElem_mem nonempty)]
  rw [trim, front, List.rdropWhile_eq_self_iff]
  intro nonempty
  simp [solid _ (List.getLast_mem nonempty)]

/-- Lines that are written one behind another are read back. -/
theorem lines_flatMap {texts : List Text}
    (whole : ∀ text ∈ texts, '\n' ∉ text ∧ text.getLast? ≠ some '\r') :
    lines (texts.flatMap (· ++ ['\n'])) = texts := by
  have pieces : (texts.flatMap (· ++ ['\n'])).splitOnP (· == '\n') =
      texts ++ [[]] := by
    induction texts with
    | nil => rfl
    | cons text texts inductionHypothesis =>
        obtain ⟨first, others⟩ := List.forall_mem_cons.mp whole
        have single : text.splitOnP (· == '\n') = [text] := by
          apply List.splitOnP_eq_singleton
          intro c member
          rw [beq_eq_false_iff_ne]
          rintro rfl
          exact first.1 member
        rw [List.flatMap_cons, List.append_assoc, List.singleton_append,
          List.splitOnP_append_cons _ _ (by simp), single, inductionHypothesis others]
        rfl
  have kept : ∀ text ∈ texts, stripCarriageReturn text = text :=
    fun text member => if_neg (whole text member).2
  unfold lines
  rw [pieces]
  dsimp only
  rw [List.getLast?_concat, List.dropLast_concat, List.map_congr_left kept]
  exact List.map_id' texts

/-! ## Numbers -/

/-- The value of a string of ASCII digits. -/
def digitsValue (digits : Text) : Nat :=
  digits.foldl (fun value c => value * 10 + (c.toNat - '0'.toNat)) 0

/-- `digits.parse::<u64>()` for a nonempty string of ASCII digits. -/
def parseU64 (digits : Text) : Option UInt64 :=
  if digitsValue digits < 2 ^ 64 then some (UInt64.ofNat (digitsValue digits))
  else none

/-- The decimal digits of a number, as `format!("{n}")` writes them. -/
def showNat (n : Nat) : Text := Nat.toDigits 10 n

/-- `format!("{n:08x}")`. -/
def showHex08 (n : Nat) : Text :=
  let digits := Nat.toDigits 16 n
  List.replicate (8 - digits.length) '0' ++ digits

theorem isAsciiHexdigit_of_mem_toDigits {c : Char} {n : Nat}
    (member : c ∈ Nat.toDigits 16 n) : isAsciiHexdigit c := by
  have digit : ∀ d : Fin 16, isAsciiHexdigit (Nat.digitChar d) := by decide
  induction n using Nat.strongRecOn with
  | ind n inductionHypothesis =>
      by_cases small : n < 16
      · rw [Nat.toDigits_of_lt_base small, List.mem_singleton] at member
        rw [member]
        exact digit ⟨n, small⟩
      · rw [Nat.toDigits_of_base_le (by omega) (by omega), List.mem_append,
          List.mem_singleton] at member
        rcases member with higher | rfl
        · exact inductionHypothesis (n / 16) (by omega) higher
        · exact digit ⟨n % 16, by omega⟩

theorem isAsciiHexdigit_of_mem_showHex08 {c : Char} {n : Nat}
    (member : c ∈ showHex08 n) : isAsciiHexdigit c := by
  rcases List.mem_append.mp member with padding | digit
  · obtain ⟨_, rfl⟩ := List.mem_replicate.mp padding
    decide
  · exact isAsciiHexdigit_of_mem_toDigits digit

theorem showNat_ne_nil (n : Nat) : showNat n ≠ [] := Nat.toDigits_ne_nil

theorem isAsciiDigit_of_mem_showNat {c : Char} {n : Nat} (member : c ∈ showNat n) :
    isAsciiDigit c = true := by
  have isDigit : c.isDigit = true :=
    Nat.isDigit_of_mem_toDigits (by decide) (by decide) member
  simpa [isAsciiDigit, Char.isDigit, Char.le_def] using isDigit

/-- A number is read back from its decimal digits. -/
theorem digitsValue_showNat (n : Nat) : digitsValue (showNat n) = n := by
  have value := @Nat.ofDigitChars_ten_toDigits n
  rw [Nat.ofDigitChars_eq_foldl] at value
  simpa only [digitsValue, showNat, Nat.mul_comm] using value

theorem parseU64_showNat (n : UInt64) : parseU64 (showNat n.toNat) = some n := by
  rw [parseU64, digitsValue_showNat, if_pos n.toNat_lt, UInt64.ofNat_toNat]

/-- What all characters of a given text satisfy can be checked. -/
theorem forall_mem_of_all {property : Char → Prop} [DecidablePred property] {text : Text}
    (checked : text.all (fun c => decide (property c)) = true) :
    ∀ c ∈ text, property c := fun c member =>
  of_decide_eq_true (List.all_eq_true.mp checked c member)

/-- Only the characters of the text are checked, not every character there is. -/
instance decidableForallMem
    (property : Char → Prop) [DecidablePred property] (text : Text) :
    Decidable (∀ c ∈ text, property c) :=
  List.decidableBAll property text

instance decidableExistsMem
    (property : Char → Prop) [DecidablePred property] (text : Text) :
    Decidable (∃ c ∈ text, property c) :=
  List.decidableBEx property text

/-! ## Laws of the search functions -/

section Find

variable {text pattern : Text}

/-- A match begins at the first position whose earlier text, even with the
match begun, holds no other. -/
theorem find_append
    (before after : Text)
    (first : ¬pattern <:+: before ++ pattern.dropLast) :
    find (before ++ pattern ++ after) pattern = some before.length := by
  induction before with
  | nil =>
      cases pattern with
      | nil => cases after <;> simp [find]
      | cons c pattern => simp [find]
  | cons c before inductionHypothesis =>
      have notHere : ¬pattern <+: c :: (before ++ pattern ++ after) := by
        intro here
        apply first
        have overlap : pattern <+: c :: before ++ pattern.dropLast := by
          refine List.prefix_of_prefix_length_le here ?_ ?_
          · refine ⟨pattern.drop (pattern.length - 1) ++ after, ?_⟩
            have rejoined := List.take_append_drop (pattern.length - 1) pattern
            rw [← List.dropLast_eq_take] at rejoined
            simp only [List.cons_append, List.append_assoc]
            rw [← List.append_assoc pattern.dropLast, rejoined]
          · simp
            omega
        exact overlap.isInfix
      have later : ¬pattern <:+: before ++ pattern.dropLast := fun infixed =>
        first (infixed.trans (List.suffix_cons c _).isInfix)
      simp only [List.cons_append, find]
      rw [if_neg (by simpa [List.isPrefixOf_iff_prefix] using notHere),
        inductionHypothesis later]
      rfl

theorem find_eq_none_iff : find text pattern = none ↔ ¬pattern <:+: text := by
  induction text with
  | nil => by_cases empty : pattern = [] <;> simp [find, empty]
  | cons c text inductionHypothesis =>
      rw [List.infix_cons_iff, ← List.isPrefixOf_iff_prefix]
      by_cases here : pattern.isPrefixOf (c :: text) <;>
        simp [find, here, inductionHypothesis]

theorem contains_iff : contains text pattern = true ↔ pattern <:+: text := by
  rw [contains, Option.isSome_iff_ne_none, ne_eq, find_eq_none_iff, not_not]

/-- Where a match begins, the text splits around it. -/
theorem eq_append_of_find_eq_some {position : Nat}
    (found : find text pattern = some position) :
    text = text.take position ++ pattern ++
        text.drop (position + pattern.length) ∧
      position ≤ text.length := by
  induction text generalizing position with
  | nil =>
      by_cases empty : pattern = [] <;> simp_all [find]
  | cons c text inductionHypothesis =>
      by_cases here : pattern.isPrefixOf (c :: text)
      · simp only [find, here, if_true, Option.some.injEq] at found
        subst found
        obtain ⟨rest, decomposed⟩ := List.isPrefixOf_iff_prefix.mp here
        rw [← decomposed]
        simp
      · simp only [find, here, Bool.false_eq_true, if_false,
          Option.map_eq_some_iff] at found
        obtain ⟨previous, foundLater, rfl⟩ := found
        obtain ⟨decomposed, le⟩ := inductionHypothesis foundLater
        refine ⟨?_, by simpa using le⟩
        rw [show previous + 1 + pattern.length =
          (previous + pattern.length) + 1 by omega]
        simpa using decomposed

/-- A one-character pattern is found at its first occurrence. -/
theorem find_char_append {c : Char} {before : Text} (after : Text)
    (absent : c ∉ before) :
    find (before ++ c :: after) [c] = some before.length := by
  have first : ¬[c] <:+: before ++ [c].dropLast := by
    simpa [List.singleton_infix_iff] using absent
  simpa using find_append before after first

/-- A one-character pattern is not found where the character is absent. -/
theorem find_char_eq_none {c : Char} (absent : c ∉ text) :
    find text [c] = none := by
  rw [find_eq_none_iff]
  simpa [List.singleton_infix_iff] using absent

end Find

/-! ## Laws of the splitting functions -/

section Split

variable {separator : Text}

private theorem splitFrom_length_append (skipped after : Text) :
    splitFrom separator skipped.length (skipped ++ after) =
      split after separator := by
  induction skipped with
  | nil => rfl
  | cons c skipped inductionHypothesis => exact inductionHypothesis

/-- The first piece of a split ends where the first match begins. -/
theorem split_append
    (before after : Text)
    (first : ¬separator <:+: before ++ separator.dropLast) :
    split (before ++ separator ++ after) separator =
      before :: split after separator := by
  induction before with
  | nil =>
      cases separator with
      | nil => simp at first
      | cons c separator =>
          simp [split, splitFrom, splitFrom_length_append]
  | cons c before inductionHypothesis =>
      have notHere : ¬separator <+: c :: (before ++ separator ++ after) := by
        intro here
        have found := find_append (c :: before) after first
        simp only [List.cons_append, find, List.isPrefixOf_iff_prefix] at found
        rw [if_pos here] at found
        cases found
      have later : ¬separator <:+: before ++ separator.dropLast :=
        fun infixed => first (infixed.trans (List.suffix_cons c _).isInfix)
      have rest := inductionHypothesis later
      rw [split] at rest ⊢
      simp only [List.cons_append, splitFrom]
      rw [if_neg (by simpa [List.isPrefixOf_iff_prefix] using notHere), rest]
      rfl

/-- A text without the separator is one piece. -/
theorem split_of_not_infix {text : Text}
    (absent : ¬separator <:+: text) :
    split text separator = [text] := by
  induction text with
  | nil => rfl
  | cons c text inductionHypothesis =>
      rw [List.infix_cons_iff, not_or] at absent
      have rest := inductionHypothesis absent.2
      rw [split] at rest ⊢
      rw [splitFrom,
        if_neg (by simpa [List.isPrefixOf_iff_prefix] using absent.1), rest]
      rfl

private theorem splitFrom_ne_nil (skip : Nat) (text : Text) :
    splitFrom separator skip text ≠ [] := by
  induction text generalizing skip with
  | nil => simp [splitFrom]
  | cons c text inductionHypothesis =>
      cases skip with
      | succ skip => exact inductionHypothesis skip
      | zero =>
          rw [splitFrom]
          split
          · simp
          · have nonempty := inductionHypothesis 0
            cases pieces : splitFrom separator 0 text with
            | nil => exact absurd pieces nonempty
            | cons piece pieces => simp

private theorem intercalate_splitFrom
    (nonempty : separator ≠ []) (skip : Nat) (text : Text) :
    separator.intercalate (splitFrom separator skip text) = text.drop skip := by
  induction text generalizing skip with
  | nil => simp [splitFrom]
  | cons c text inductionHypothesis =>
      cases skip with
      | succ skip => exact inductionHypothesis skip
      | zero =>
          rw [splitFrom]
          by_cases here : separator.isPrefixOf (c :: text)
          · rw [if_pos here,
              List.intercalate_cons_of_ne_nil (splitFrom_ne_nil _ _),
              inductionHypothesis]
            obtain ⟨d, tail, rfl⟩ := List.exists_cons_of_ne_nil nonempty
            obtain ⟨rest, joined⟩ := List.isPrefixOf_iff_prefix.mp here
            cases joined
            simp
          · rw [if_neg here]
            have rest := inductionHypothesis 0
            cases pieces : splitFrom separator 0 text with
            | nil => exact absurd pieces (splitFrom_ne_nil 0 text)
            | cons piece others =>
                rw [pieces] at rest
                rw [List.modifyHead_cons, List.intercalate_cons_cons_left, rest]
                rfl

/-- The pieces of a text, joined by the separator, are the text. -/
theorem intercalate_split (nonempty : separator ≠ []) (text : Text) :
    separator.intercalate (split text separator) = text :=
  intercalate_splitFrom nonempty 0 text

end Split

/-! ## Where a pattern can lie -/

section Infix

variable {pattern separator : Text}

theorem not_prefix_cons {c : Char} {text : Text}
    (nonempty : pattern ≠ []) (foreign : c ∉ pattern) :
    ¬pattern <+: c :: text := by
  rintro ⟨rest, joined⟩
  obtain ⟨d, tail, rfl⟩ := List.exists_cons_of_ne_nil nonempty
  cases joined
  exact foreign (List.mem_cons_self ..)

/-- A pattern lies behind characters it does not have. -/
theorem infix_append_of_foreign
    (nonempty : pattern ≠ []) {before : Text}
    (foreign : ∀ c ∈ before, c ∉ pattern) (after : Text) :
    pattern <:+: before ++ after ↔ pattern <:+: after := by
  induction before with
  | nil => rfl
  | cons c before inductionHypothesis =>
      obtain ⟨here, later⟩ := List.forall_mem_cons.mp foreign
      rw [List.cons_append, List.infix_cons_iff,
        or_iff_right (not_prefix_cons nonempty here), inductionHypothesis later]

/-- A pattern that begins in front of a separator it shares no character with
also ends there. -/
theorem prefix_append_separator_iff
    (separated : separator ≠ []) (foreign : ∀ c ∈ separator, c ∉ pattern)
    (before after : Text) :
    pattern <+: before ++ (separator ++ after) ↔ pattern <+: before := by
  induction before generalizing pattern with
  | nil =>
      cases pattern with
      | nil => simp
      | cons c pattern =>
          obtain ⟨d, tail, rfl⟩ := List.exists_cons_of_ne_nil separated
          rw [List.nil_append, List.cons_append, List.prefix_nil]
          exact iff_of_false
            (not_prefix_cons (List.cons_ne_nil c pattern)
              (foreign d (List.mem_cons_self ..)))
            (List.cons_ne_nil c pattern)
  | cons b before inductionHypothesis =>
      cases pattern with
      | nil => simp
      | cons c pattern =>
          rw [List.cons_append, List.cons_prefix_cons, List.cons_prefix_cons,
            inductionHypothesis fun d member inPattern =>
              foreign d member (List.mem_cons_of_mem _ inPattern)]

/-- A pattern lies on one side of a separator it shares no character with. -/
theorem infix_append_separator_iff
    (nonempty : pattern ≠ []) (separated : separator ≠ [])
    (foreign : ∀ c ∈ separator, c ∉ pattern) (before after : Text) :
    pattern <:+: before ++ (separator ++ after) ↔
      pattern <:+: before ∨ pattern <:+: after := by
  induction before with
  | nil =>
      rw [List.nil_append, infix_append_of_foreign nonempty foreign,
        List.infix_nil, or_iff_right nonempty]
  | cons c before inductionHypothesis =>
      have here : pattern <+: c :: (before ++ (separator ++ after)) ↔
          pattern <+: c :: before :=
        prefix_append_separator_iff separated foreign (c :: before) after
      rw [List.cons_append, List.infix_cons_iff, List.infix_cons_iff, here,
        inductionHypothesis, or_assoc]

/-- A pattern lies on one side of a character it does not have. -/
theorem infix_append_cons_iff
    (nonempty : pattern ≠ []) {c : Char} (foreign : c ∉ pattern) (before after : Text) :
    pattern <:+: before ++ c :: after ↔
      pattern <:+: before ∨ pattern <:+: after :=
  infix_append_separator_iff nonempty (List.cons_ne_nil c [])
    (by simpa using foreign) before after

/-- A pattern lies in one of the pieces between separators it shares no character
with. -/
theorem infix_intercalate_iff
    (nonempty : pattern ≠ []) (separated : separator ≠ [])
    (foreign : ∀ c ∈ separator, c ∉ pattern) (pieces : List Text) :
    pattern <:+: separator.intercalate pieces ↔
      ∃ piece ∈ pieces, pattern <:+: piece := by
  induction pieces with
  | nil => simp [nonempty]
  | cons piece pieces inductionHypothesis =>
      cases pieces with
      | nil => simp
      | cons next pieces =>
          rw [List.intercalate_cons_cons, List.append_assoc,
            infix_append_separator_iff nonempty separated foreign,
            inductionHypothesis]
          exact (List.exists_mem_cons_iff (pattern <:+: ·) piece _).symm

/-- Splitting neither hides nor creates a pattern that shares no character with
the separator. -/
theorem exists_mem_split_infix_iff
    (nonempty : pattern ≠ []) (separated : separator ≠ [])
    (foreign : ∀ c ∈ separator, c ∉ pattern) (text : Text) :
    (∃ piece ∈ split text separator, pattern <:+: piece) ↔
      pattern <:+: text := by
  rw [← infix_intercalate_iff nonempty separated foreign,
    intercalate_split separated]

/-- Changing characters neither hides nor creates a pattern of characters that
are kept and that nothing else is changed to. -/
theorem infix_map_iff
    {change : Char → Char} (kept : ∀ c ∈ pattern, change c = c)
    (created : ∀ c, change c ∈ pattern → change c = c) (text : Text) :
    pattern <:+: text.map change ↔ pattern <:+: text := by
  constructor
  · intro found
    obtain ⟨source, inText, rfl⟩ := List.infix_map_iff.mp found
    have same : source.map change = source := by
      rw [List.map_congr_left fun c member =>
        created c (List.mem_map_of_mem member), List.map_id']
    rwa [same]
  · intro found
    have same : pattern.map change = pattern := by
      rw [List.map_congr_left kept, List.map_id']
    rw [← same]
    exact found.map change

end Infix

/-! ## The first match -/

section First

variable {text pattern : Text}

/-- A text with a match has a first one: its earlier text, even with the match
begun, holds no other. -/
theorem exists_first_of_infix
    (nonempty : pattern ≠ []) (inside : pattern <:+: text) :
    ∃ before after, text = before ++ pattern ++ after ∧
      ¬pattern <:+: before ++ pattern.dropLast := by
  induction text with
  | nil => exact absurd (List.infix_nil.mp inside) nonempty
  | cons c text inductionHypothesis =>
      by_cases here : pattern <+: c :: text
      · obtain ⟨after, joined⟩ := here
        refine ⟨[], after, joined.symm, fun within => ?_⟩
        have shorter := within.length_le
        have positive := List.length_pos_of_ne_nil nonempty
        rw [List.nil_append, List.length_dropLast] at shorter
        omega
      · have later := (List.infix_cons_iff.mp inside).resolve_left here
        obtain ⟨before, after, rfl, first⟩ := inductionHypothesis later
        refine ⟨c :: before, after, rfl, fun within => ?_⟩
        rw [List.cons_append, List.infix_cons_iff] at within
        apply within.elim _ first
        intro begins
        apply here
        apply begins.trans
        rw [List.cons_prefix_cons, List.append_assoc, List.prefix_append_right_inj]
        exact ⟨rfl, (List.dropLast_prefix pattern).trans (List.prefix_append ..)⟩

/-- The first occurrence of a character is the first. -/
theorem not_mem_take_of_find_char {c : Char} {position : Nat}
    (found : find text [c] = some position) : c ∉ text.take position := by
  have inside : [c] <:+: text := by
    rw [← contains_iff, contains, found]
    rfl
  obtain ⟨before, after, rfl, first⟩ :=
    exists_first_of_infix (List.cons_ne_nil c []) inside
  rw [find_append before after first, Option.some.injEq] at found
  rw [← found, List.append_assoc, List.take_left]
  simpa [List.singleton_infix_iff] using first

/-- Behind a text without a match and a character the pattern does not have, the
first match is the first of what follows. -/
theorem find_append_cons_of_not_infix
    {c : Char} (nonempty : pattern ≠ []) (foreign : c ∉ pattern)
    (absent : ¬pattern <:+: text) (after : Text) :
    find (text ++ c :: after) pattern =
      (find after pattern).map (· + (text.length + 1)) := by
  have separated : ∀ d ∈ [c], d ∉ pattern := by simpa using foreign
  induction text with
  | nil =>
      have notHere : ¬pattern <+: c :: after := not_prefix_cons nonempty foreign
      rw [List.nil_append, find,
        if_neg (by simpa [List.isPrefixOf_iff_prefix] using notHere)]
      rfl
  | cons b text inductionHypothesis =>
      rw [List.infix_cons_iff, not_or] at absent
      have notHere : ¬pattern <+: b :: text ++ c :: after := by
        have same := prefix_append_separator_iff (List.cons_ne_nil c [])
          separated (b :: text) after
        exact fun begins => absent.1 (same.mp begins)
      rw [List.cons_append, find,
        if_neg (by simpa [List.isPrefixOf_iff_prefix] using notHere),
        inductionHypothesis absent.2, Option.map_map]
      rfl

/-- A separator behind a character it does not have ends a piece. -/
theorem split_append_of_foreign
    (nonempty : pattern ≠ []) {c : Char} (foreign : c ∉ pattern)
    (before after : Text) :
    split (before ++ [c] ++ pattern ++ after) pattern =
      split (before ++ [c]) pattern ++ split after pattern := by
  induction size : before.length using Nat.strongRecOn generalizing before with
  | ind bound inductionHypothesis =>
      by_cases inside : pattern <:+: before
      · obtain ⟨first, rest, rfl, isFirst⟩ := exists_first_of_infix nonempty inside
        have shorter : rest.length < bound := by
          have positive := List.length_pos_of_ne_nil nonempty
          rw [← size, List.length_append, List.length_append]
          omega
        have others := inductionHypothesis rest.length shorter rest rfl
        simp only [List.append_assoc] at others ⊢
        rw [← List.append_assoc first, ← List.append_assoc first,
          split_append first _ isFirst, split_append first _ isFirst, others]
        rfl
      · have isFirst : ¬pattern <:+: before ++ [c] ++ pattern.dropLast := by
          rw [List.append_assoc, List.singleton_append,
            infix_append_cons_iff nonempty foreign]
          rintro (earlier | later)
          · exact inside earlier
          · have shorter := later.length_le
            have positive := List.length_pos_of_ne_nil nonempty
            rw [List.length_dropLast] at shorter
            omega
        have absent : ¬pattern <:+: before ++ [c] := fun within =>
          isFirst (within.trans (List.prefix_append ..).isInfix)
        rw [split_append _ after isFirst, split_of_not_infix absent]
        rfl

/-- A pattern does not begin in characters other than its first. -/
theorem infix_append_of_not_mem
    {c : Char} {before : Text} (absent : c ∉ before) (after : Text) :
    (c :: pattern) <:+: before ++ after ↔ (c :: pattern) <:+: after := by
  induction before with
  | nil => rfl
  | cons b before inductionHypothesis =>
      rw [List.mem_cons, not_or] at absent
      rw [List.cons_append, List.infix_cons_iff, List.cons_prefix_cons,
        or_iff_right (fun begins => absent.1 begins.1), inductionHypothesis absent.2]

/-- Behind its first character, a pattern goes on in what follows that character. -/
theorem infix_of_cons_infix_cons {c : Char}
    (inside : (c :: pattern) <:+: c :: text) : pattern <:+: text := by
  rcases List.infix_cons_iff.mp inside with begins | later
  · exact (List.cons_prefix_cons.mp begins).2.isInfix
  · exact (List.suffix_cons c pattern).isInfix.trans later

end First

/-! ## Tokens -/

section SplitWhitespace

/-- A text between whitespace characters. -/
def IsToken (text : Text) : Prop :=
  text ≠ [] ∧ ∀ c ∈ text, isWhitespace c = false

@[simp] theorem splitWhitespace_nil : splitWhitespace [] = [] := rfl

/-- A whitespace character separates the tokens on its two sides. -/
theorem splitWhitespace_append_cons
    (before after : Text) {c : Char} (space : isWhitespace c = true) :
    splitWhitespace (before ++ c :: after) =
      splitWhitespace before ++ splitWhitespace after := by
  unfold splitWhitespace
  rw [List.splitOnP_append_cons _ _ space, List.filter_append]

theorem splitWhitespace_cons
    (after : Text) {c : Char} (space : isWhitespace c = true) :
    splitWhitespace (c :: after) = splitWhitespace after := by
  simpa using splitWhitespace_append_cons [] after space

/-- A token is its own only token. -/
theorem splitWhitespace_of_isToken {token : Text} (isToken : IsToken token) :
    splitWhitespace token = [token] := by
  unfold splitWhitespace
  rw [List.splitOnP_eq_singleton isToken.2]
  simp [isToken.1]

/-- A token followed by whitespace is the first token of the text. -/
theorem splitWhitespace_isToken_append
    {token : Text} (isToken : IsToken token)
    (after : Text) {c : Char} (space : isWhitespace c = true) :
    splitWhitespace (token ++ c :: after) =
      token :: splitWhitespace after := by
  rw [splitWhitespace_append_cons token after space,
    splitWhitespace_of_isToken isToken]
  rfl

/-- Whitespace in front of a text is skipped. -/
theorem splitWhitespace_spaces_append
    {spaces : Text} (allSpaces : ∀ c ∈ spaces, isWhitespace c = true) (text : Text) :
    splitWhitespace (spaces ++ text) = splitWhitespace text := by
  induction spaces with
  | nil => rfl
  | cons c spaces inductionHypothesis =>
      rw [List.forall_mem_cons] at allSpaces
      rw [List.cons_append, splitWhitespace_cons _ allSpaces.1]
      exact inductionHypothesis allSpaces.2

/-- A token followed by any whitespace is the first token of the text. -/
theorem splitWhitespace_isToken_spaces
    {token : Text} (isToken : IsToken token)
    {spaces : Text} (nonempty : spaces ≠ [])
    (allSpaces : ∀ c ∈ spaces, isWhitespace c = true) (text : Text) :
    splitWhitespace (token ++ (spaces ++ text)) = token :: splitWhitespace text := by
  cases spaces with
  | nil => exact absurd rfl nonempty
  | cons c spaces =>
      rw [List.forall_mem_cons] at allSpaces
      rw [List.cons_append, splitWhitespace_isToken_append isToken _ allSpaces.1,
        splitWhitespace_spaces_append allSpaces.2]

/-- Tokens with single spaces between them are the tokens of the text. -/
theorem splitWhitespace_intercalate
    {tokens : List Text} (areTokens : ∀ token ∈ tokens, IsToken token) :
    splitWhitespace ([' '].intercalate tokens) = tokens := by
  induction tokens with
  | nil => rfl
  | cons token tokens inductionHypothesis =>
      rw [List.forall_mem_cons] at areTokens
      cases tokens with
      | nil =>
          rw [List.intercalate_singleton, splitWhitespace_of_isToken areTokens.1]
      | cons next tokens =>
          rw [List.intercalate_cons_cons, List.append_assoc, List.singleton_append,
            splitWhitespace_isToken_append areTokens.1 _ rfl,
            inductionHypothesis areTokens.2]

/-- Induction on the whitespace characters of a text. -/
@[elab_as_elim] theorem induction_on_whitespace
    {motive : Text → Prop}
    (solid : ∀ text, (∀ c ∈ text, isWhitespace c = false) → motive text)
    (space : ∀ before c after, isWhitespace c = true → motive before → motive after →
      motive (before ++ c :: after))
    (text : Text) : motive text := by
  induction size : text.length using Nat.strongRecOn generalizing text with
  | ind bound inductionHypothesis =>
      by_cases spaces : ∃ c ∈ text, isWhitespace c = true
      · obtain ⟨c, inside, isSpace⟩ := spaces
        obtain ⟨before, after, rfl⟩ := List.append_of_mem inside
        rw [List.length_append, List.length_cons] at size
        apply space before c after isSpace
        · exact inductionHypothesis before.length (by omega) before rfl
        · exact inductionHypothesis after.length (by omega) after rfl
      · exact solid text (by simpa using spaces)

/-- A token is a piece of the text. -/
theorem infix_of_mem_splitWhitespace {text token : Text}
    (member : token ∈ splitWhitespace text) : token <:+: text := by
  induction text using induction_on_whitespace with
  | solid text solid =>
      unfold splitWhitespace at member
      rw [List.splitOnP_eq_singleton solid] at member
      obtain rfl := List.mem_singleton.mp (List.mem_of_mem_filter member)
      exact List.infix_refl token
  | space before c after isSpace left right =>
      rw [splitWhitespace_append_cons before after isSpace, List.mem_append] at member
      rcases member with earlier | later
      · exact (left earlier).trans (List.prefix_append ..).isInfix
      · exact (right later).trans ((List.suffix_cons c after).trans
          (List.suffix_append before _)).isInfix

theorem isToken_of_mem_splitWhitespace {text token : Text}
    (member : token ∈ splitWhitespace text) : IsToken token := by
  induction text using induction_on_whitespace with
  | solid text solid =>
      unfold splitWhitespace at member
      rw [List.splitOnP_eq_singleton solid, List.mem_filter, List.mem_singleton] at member
      obtain ⟨rfl, nonempty⟩ := member
      exact ⟨by simpa using nonempty, solid⟩
  | space before c after isSpace left right =>
      rw [splitWhitespace_append_cons before after isSpace, List.mem_append] at member
      rcases member with earlier | later
      · exact left earlier
      · exact right later

/-- The last token of a text ends as the text does. -/
theorem splitWhitespace_append_isToken
    (before : Text) {ending : Text} (isToken : IsToken ending) :
    ∃ tokens beginning,
      splitWhitespace (before ++ ending) = tokens ++ [beginning ++ ending] := by
  induction before using induction_on_whitespace with
  | solid before solid =>
      refine ⟨[], before, splitWhitespace_of_isToken ⟨?_, ?_⟩⟩
      · exact List.append_ne_nil_of_right_ne_nil before isToken.1
      · intro c member
        exact (List.mem_append.mp member).elim (solid c) (isToken.2 c)
  | space first c rest isSpace left right =>
      obtain ⟨tokens, beginning, split⟩ := right
      refine ⟨splitWhitespace first ++ tokens, beginning, ?_⟩
      rw [List.append_assoc, List.cons_append,
        splitWhitespace_append_cons first _ isSpace, split, List.append_assoc]

/-- A pattern of one token between two spaces is a token of the text. -/
theorem mem_splitWhitespace_of_infix {text token : Text} (isToken : IsToken token)
    (inside : ' ' :: token ++ [' '] <:+: text) : token ∈ splitWhitespace text := by
  obtain ⟨before, after, rfl⟩ := inside
  have space : isWhitespace ' ' = true := by decide
  simp only [List.append_assoc, List.cons_append, List.nil_append]
  rw [splitWhitespace_append_cons before _ space,
    splitWhitespace_isToken_append isToken after space]
  exact List.mem_append_right _ (List.mem_cons_self ..)

end SplitWhitespace

end Str
end Rust
