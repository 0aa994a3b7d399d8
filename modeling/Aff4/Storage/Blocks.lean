import Mathlib.Data.List.Basic
import Mathlib.Data.List.Flatten
import Mathlib.Tactic.Ring

/-!
# Content stored in blocks

A long content is stored as a sequence of blocks.  When all blocks but the last
have one size, the block and the place in it of every position are found by
division.
-/

namespace Storage

variable {block other : Nat → List α} {count size : Nat}

/-- The first `count` blocks, one after another. -/
def joined (block : Nat → List α) (count : Nat) : List α :=
  (List.range count).flatMap block

@[simp] theorem joined_zero : joined block 0 = [] := rfl

theorem joined_succ : joined block (count + 1) = joined block count ++ block count := by
  simp [joined, List.range_succ]

/-- The block sequence up to an index is the beginning of the whole. -/
theorem joined_prefix (block : Nat → List α) {index : Nat} (le : index ≤ count) :
    joined block index <+: joined block count := by
  induction count with
  | zero =>
      obtain rfl : index = 0 := by omega
      exact List.prefix_rfl
  | succ count inductionHypothesis =>
      rcases Nat.lt_or_eq_of_le le with below | rfl
      · rw [joined_succ]
        exact (inductionHypothesis (by omega)).trans (List.prefix_append _ _)
      · exact List.prefix_rfl

/-- A block begins where the blocks before it end. -/
theorem block_prefix_drop_joined
    (block : Nat → List α) {index : Nat} (below : index < count) :
    block index <+: (joined block count).drop (joined block index).length := by
  obtain ⟨rest, split⟩ := joined_prefix block (Nat.succ_le_of_lt below)
  rw [← split, joined_succ, List.append_assoc, List.drop_left]
  exact List.prefix_append _ _

/-- Blocks of one size fill a multiple of it. -/
theorem length_joined
    (uniform : ∀ index, index < count → (block index).length = size) :
    (joined block count).length = count * size := by
  induction count with
  | zero => simp
  | succ count inductionHypothesis =>
      rw [joined_succ, List.length_append, uniform count (by omega),
        inductionHypothesis fun index below => uniform index (by omega)]
      ring

/-- Block `index` begins at a multiple of the size of the blocks before it. -/
theorem block_prefix_drop
    (block : Nat → List α) {index : Nat} (below : index < count)
    (uniform : ∀ before, before < index → (block before).length = size) :
    block index <+: (joined block count).drop (index * size) := by
  rw [← length_joined uniform]
  exact block_prefix_drop_joined block below

/-- The byte at a position is found by division. -/
theorem getElem?_joined
    {index offset : Nat} (below : index < count)
    (uniform : ∀ before, before < index → (block before).length = size)
    (inside : offset < (block index).length) :
    (joined block count)[index * size + offset]? = (block index)[offset]? := by
  obtain ⟨rest, split⟩ := block_prefix_drop block below uniform
  rw [← List.getElem?_drop, ← split, List.getElem?_append_left inside]

/-- What one more block adds to a content of bounded size. -/
theorem take_joined_succ (limit : Nat) :
    (joined block (count + 1)).take limit =
      (joined block count).take limit ++
        (block count).take (limit - (joined block count).length) := by
  rw [joined_succ, List.take_append]

/-! ## Cutting -/

/-- Block `index` of a content cut into blocks of one size; the last block has
what is left. -/
def cut (size : Nat) (content : List α) (index : Nat) : List α :=
  (content.drop (index * size)).take size

theorem length_cut (size : Nat) (content : List α) (index : Nat) :
    (cut size content index).length = min size (content.length - index * size) := by
  simp [cut]

/-- A stored block that begins with the content, cut at the end of the content,
is the content's block: what the last block is padded with does not matter. -/
theorem take_of_cut_prefix
    {content chunk : List α} {index : Nat}
    (begins : cut size content index <+: chunk) (short : chunk.length ≤ size) :
    chunk.take (content.length - index * size) = cut size content index := by
  have cutLength := length_cut size content index
  have cutLe := begins.length_le
  rw [List.prefix_iff_eq_take] at begins
  rw [begins]
  rcases Nat.le_total (content.length - index * size) size with last | inner
  · rw [cutLength, Nat.min_eq_right last]
  · rw [List.take_of_length_le (by omega), List.take_of_length_le (by omega)]

/-! ## Pieces of one size -/

theorem length_flatMap_of_length {piece : α → List β} {width : Nat}
    (wide : ∀ value, (piece value).length = width) (values : List α) :
    (values.flatMap piece).length = values.length * width := by
  induction values with
  | nil => simp
  | cons value values inductionHypothesis =>
      rw [List.flatMap_cons, List.length_append, wide, inductionHypothesis,
        List.length_cons, Nat.succ_mul, Nat.add_comm]

/-- The piece of a value is found at the value's place. -/
theorem take_drop_flatMap {piece : α → List β} {width : Nat}
    (wide : ∀ value, (piece value).length = width)
    {values : List α} {place : Nat} {value : α}
    (found : values[place]? = some value) :
    ((values.flatMap piece).drop (place * width)).take width = piece value := by
  induction values generalizing place with
  | nil => cases found
  | cons first values inductionHypothesis =>
      rw [List.flatMap_cons]
      cases place with
      | zero =>
          cases found
          rw [Nat.zero_mul, List.drop_zero, List.take_left' (wide value)]
      | succ place =>
          rw [Nat.succ_mul, Nat.add_comm, ← List.drop_drop,
            List.drop_left' (wide first)]
          exact inductionHypothesis found

end Storage
