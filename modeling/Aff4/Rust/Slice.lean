import Mathlib.Data.List.Induction
import Mathlib.Data.List.Pairwise
import Mathlib.Data.List.Sort
import Mathlib.Data.List.TakeWhile
import Aff4.Rust.Integer

/-!
# Slices and vectors

Indexing a slice out of bounds panics, and so does a request for more than
`isize::MAX` bytes.  The searching and sorting methods follow their
documentation: `sort_by_key` is stable, `partition_point` is the length of the
part where the predicate holds, and `max_by_key` keeps the last of several
maximal elements.
-/

namespace Rust

/-- A byte string. -/
abbrev Bytes := List UInt8

/-- `&values[start..stop]`. -/
def slice (values : List α) (start stop : Nat) : Outcome ε (List α) :=
  if start ≤ stop ∧ stop ≤ values.length then
    .ok ((values.take stop).drop start)
  else
    .panic .indexOutOfBounds

/-- `values.get(start..stop)`. -/
def getRange (values : List α) (start stop : Nat) : Option (List α) :=
  if start ≤ stop ∧ stop ≤ values.length then
    some ((values.take stop).drop start)
  else
    none

theorem slice_of_le {values : List α} {start stop : Nat}
    (ordered : start ≤ stop) (inside : stop ≤ values.length) :
    (slice values start stop : Outcome ε (List α)) =
      .ok ((values.take stop).drop start) :=
  if_pos ⟨ordered, inside⟩

theorem slice_zero_of_le {values : List α} {stop : Nat}
    (inside : stop ≤ values.length) :
    (slice values 0 stop : Outcome ε (List α)) = .ok (values.take stop) :=
  slice_of_le (Nat.zero_le _) inside

theorem length_of_slice {values part : List α} {start stop : Nat}
    (cut : (slice values start stop : Outcome ε (List α)) = .ok part) :
    part.length = stop - start := by
  unfold slice at cut
  split at cut
  next inside =>
    cases cut
    rw [List.length_drop, List.length_take, Nat.min_eq_left inside.2]
  next => cases cut

/-- The part of a list from `start` of length `count`. -/
theorem drop_take_add (values : List α) (start count : Nat) :
    (values.take (start + count)).drop start =
      (values.drop start).take count := by
  rw [List.drop_take, Nat.add_sub_cancel_left]

/-- `vec![0; size]`. -/
def vecZeroed (platform : Platform) (size : Nat) : Outcome ε Bytes :=
  if size ≤ platform.isizeMax then .ok (List.replicate size 0)
  else .panic .capacityOverflow

/-- `Vec::with_capacity(size)` for a vector of bytes. -/
def withCapacity (platform : Platform) (size : Nat) : Outcome ε Unit :=
  if size ≤ platform.isizeMax then .ok () else .panic .capacityOverflow

theorem vecZeroed_of_le {platform : Platform} {size : Nat}
    (fits : size ≤ platform.isizeMax) :
    (vecZeroed platform size : Outcome ε Bytes) =
      .ok (List.replicate size 0) :=
  if_pos fits

theorem withCapacity_of_le {platform : Platform} {size : Nat}
    (fits : size ≤ platform.isizeMax) :
    (withCapacity platform size : Outcome ε Unit) = .ok () :=
  if_pos fits

theorem panicsOnly_vecZeroed {reasons : Panic → Prop} (platform : Platform) {size : Nat}
    (allowed : platform.isizeMax < size → reasons .capacityOverflow) :
    Outcome.PanicsOnly reasons (vecZeroed platform size : Outcome ε Bytes) := by
  unfold vecZeroed
  split
  · exact .ok _
  next exceeds => exact .panic (allowed (Nat.lt_of_not_le exceeds))

theorem panicsOnly_withCapacity {reasons : Panic → Prop} (platform : Platform) {size : Nat}
    (allowed : platform.isizeMax < size → reasons .capacityOverflow) :
    Outcome.PanicsOnly reasons (withCapacity platform size : Outcome ε Unit) := by
  unfold withCapacity
  split
  · exact .ok _
  next exceeds => exact .panic (allowed (Nat.lt_of_not_le exceeds))

/-- `values.partition_point(holds)`. -/
def partitionPoint (holds : α → Bool) (values : List α) : Nat :=
  (values.takeWhile holds).length

/-- `values.sort_by_key(key)`. -/
def sortByKey [LinearOrder κ] (key : α → κ) (values : List α) : List α :=
  values.insertionSort fun left right => key left ≤ key right

/-- `values.max_by_key(key)`. -/
def maxByKey (key : α → Nat) : List α → Option α
  | [] => none
  | first :: rest =>
      some (rest.foldl
        (fun best value => if key value < key best then best else value) first)

section MaxByKey

variable {key : α → Nat} {values : List α} {best : α}

theorem maxByKey_concat (last : α) :
    maxByKey key (values ++ [last]) =
      match maxByKey key values with
      | some best => some (if key last < key best then best else last)
      | none => some last := by
  cases values with
  | nil => rfl
  | cons first rest => simp [maxByKey, List.foldl_append]

/-- The last of the maximal elements: nothing before it is greater, and
everything behind it is less. -/
theorem maxByKey_eq_some_iff :
    maxByKey key values = some best ↔
      ∃ before after, values = before ++ best :: after ∧
        (∀ value ∈ before, key value ≤ key best) ∧
        ∀ value ∈ after, key value < key best := by
  induction values using List.reverseRecOn generalizing best with
  | nil => simp [maxByKey]
  | append_singleton values last inductionHypothesis =>
      rw [maxByKey_concat]
      constructor
      · intro found
        cases greatest : maxByKey key values with
        | none =>
            rw [greatest] at found
            cases found
            refine ⟨values, [], rfl, ?_, by simp⟩
            cases values with
            | nil => simp
            | cons first rest => cases greatest
        | some other =>
            obtain ⟨before, after, rfl, upTo, behind⟩ :=
              inductionHypothesis.mp greatest
            rw [greatest] at found
            dsimp only at found
            split at found
            next less =>
              cases found
              refine ⟨before, after ++ [last], by simp, upTo, ?_⟩
              intro value member
              rcases List.mem_append.mp member with inside | isLast
              · exact behind value inside
              · rw [List.mem_singleton.mp isLast]
                exact less
            next notLess =>
              cases found
              refine ⟨before ++ other :: after, [], rfl, ?_, by simp⟩
              intro value member
              rcases List.mem_append.mp member with inside | inside
              · exact (upTo value inside).trans (not_lt.mp notLess)
              · rcases List.mem_cons.mp inside with rfl | later
                · exact not_lt.mp notLess
                · exact ((behind value later).le).trans (not_lt.mp notLess)
      · rintro ⟨before, after, split, upTo, behind⟩
        rcases List.eq_nil_or_concat after with rfl | ⟨after, final, rfl⟩
        · obtain ⟨rfl, same⟩ := List.append_inj' split rfl
          cases same
          cases greatest : maxByKey key values with
          | none => rfl
          | some other =>
              obtain ⟨front, back, rfl, -, -⟩ := inductionHypothesis.mp greatest
              have le := upTo other (by simp)
              rw [← not_lt] at le
              simp only [le, if_false]
        · rw [List.concat_eq_append, ← List.cons_append, ← List.append_assoc] at split
          obtain ⟨rfl, same⟩ := List.append_inj' split rfl
          cases same
          have greatest := inductionHypothesis.mpr ⟨before, after, rfl, upTo,
            fun value member => behind value (by simp [member])⟩
          have less := behind last (by simp)
          simp only [greatest, less, if_true]

/-- The last of the maximal elements that are kept, among all elements. -/
theorem maxByKey_filter_eq_some_iff {keep : α → Bool} (kept : keep best) :
    maxByKey key (values.filter keep) = some best ↔
      ∃ before after, values = before ++ best :: after ∧
        (∀ value ∈ before, keep value → key value ≤ key best) ∧
        ∀ value ∈ after, keep value → key value < key best := by
  rw [maxByKey_eq_some_iff]
  constructor
  · rintro ⟨before, after, split, upTo, behind⟩
    obtain ⟨front, rest, rfl, rfl, tail⟩ := List.filter_eq_append_iff.mp split
    obtain ⟨skipped, back, rfl, unfit, -, rfl⟩ := List.filter_eq_cons_iff.mp tail
    refine ⟨front ++ skipped, back, by simp, ?_, ?_⟩
    · intro value member fits
      rcases List.mem_append.mp member with inside | inside
      · exact upTo value (List.mem_filter.mpr ⟨inside, fits⟩)
      · exact absurd fits (unfit value inside)
    · exact fun value member fits =>
        behind value (List.mem_filter.mpr ⟨member, fits⟩)
  · rintro ⟨before, after, rfl, upTo, behind⟩
    refine ⟨before.filter keep, after.filter keep, by simp [kept], ?_, ?_⟩
    · intro value member
      obtain ⟨inside, fits⟩ := List.mem_filter.mp member
      exact upTo value inside fits
    · intro value member
      obtain ⟨inside, fits⟩ := List.mem_filter.mp member
      exact behind value inside fits

end MaxByKey

section Sorting

variable [LinearOrder κ] (key : α → κ)

theorem mem_sortByKey {values : List α} {value : α} :
    value ∈ sortByKey key values ↔ value ∈ values :=
  (List.perm_insertionSort _ values).mem_iff

/-- A sorted list is ordered by its keys. -/
theorem pairwise_sortByKey (values : List α) :
    (sortByKey key values).Pairwise fun left right => key left ≤ key right := by
  have total : Std.Total fun left right : α => key left ≤ key right :=
    ⟨fun left right => le_total (key left) (key right)⟩
  have transitive : IsTrans α fun left right : α => key left ≤ key right :=
    ⟨fun _ _ _ => le_trans⟩
  exact List.pairwise_insertionSort _ values

/-- A list ordered by its keys stays as it is. -/
theorem sortByKey_of_pairwise {values : List α}
    (ordered : values.Pairwise fun left right => key left ≤ key right) :
    sortByKey key values = values :=
  ordered.insertionSort_eq

/-- In a list ordered by its keys, a bound on the keys holds of a prefix. -/
theorem dropWhile_eq_filter_of_pairwise
    {values : List α}
    (ordered : values.Pairwise fun left right => key left ≤ key right)
    (bound : κ) :
    values.dropWhile (fun value => key value ≤ bound) =
      values.filter fun value => bound < key value := by
  induction values with
  | nil => rfl
  | cons first rest inductionHypothesis =>
      obtain ⟨firstLe, restOrdered⟩ := List.pairwise_cons.mp ordered
      by_cases below : key first ≤ bound
      · rw [List.dropWhile_cons_of_pos (by simpa using below),
          List.filter_cons_of_neg (by simpa using below),
          inductionHypothesis restOrdered]
      · have allAbove : ∀ value ∈ first :: rest, bound < key value := by
          intro value member
          rcases List.mem_cons.mp member with rfl | later
          · exact not_le.mp below
          · exact lt_of_lt_of_le (not_le.mp below) (firstLe value later)
        rw [List.dropWhile_cons_of_neg (by simpa using below),
          List.filter_eq_self.mpr (by simpa using allAbove)]

theorem takeWhile_eq_filter_of_pairwise
    {values : List α}
    (ordered : values.Pairwise fun left right => key left ≤ key right)
    (bound : κ) :
    values.takeWhile (fun value => key value ≤ bound) =
      values.filter fun value => key value ≤ bound := by
  induction values with
  | nil => rfl
  | cons first rest inductionHypothesis =>
      obtain ⟨firstLe, restOrdered⟩ := List.pairwise_cons.mp ordered
      by_cases below : key first ≤ bound
      · rw [List.takeWhile_cons_of_pos (by simpa using below),
          List.filter_cons_of_pos (by simpa using below),
          inductionHypothesis restOrdered]
      · have noneBelow : ∀ value ∈ first :: rest, ¬key value ≤ bound := by
          intro value member
          rcases List.mem_cons.mp member with rfl | later
          · exact below
          · exact not_le.mpr
              (lt_of_lt_of_le (not_le.mp below) (firstLe value later))
        rw [List.takeWhile_cons_of_neg (by simpa using below),
          List.filter_eq_nil_iff.mpr (by simpa using noneBelow)]

end Sorting

/-! ## Sorting is stable

Equal keys keep their order, so the last of the maximal elements is the same in
a list and in the sorted list. -/

section Stable

variable {key : α → Nat}

/-- Behind a list, the search for a maximum goes on with the best of it. -/
theorem maxByKey_append {before : List α} {best : α}
    (found : maxByKey key before = some best) (after : List α) :
    maxByKey key (before ++ after) = maxByKey key (best :: after) := by
  cases before with
  | nil => cases found
  | cons first rest =>
      cases found
      rw [maxByKey, List.cons_append, maxByKey, List.foldl_append]

/-- An element may be moved in front of lesser ones. -/
theorem maxByKey_move {lesser : List α} {value : α}
    (less : ∀ other ∈ lesser, key other < key value) (after : List α) :
    maxByKey key (lesser ++ value :: after) =
      maxByKey key (value :: (lesser ++ after)) := by
  have last : maxByKey key (lesser ++ [value]) = some value :=
    maxByKey_eq_some_iff.mpr
      ⟨lesser, [], rfl, fun other member => (less other member).le, by simp⟩
  have first : maxByKey key (value :: lesser) = some value :=
    maxByKey_eq_some_iff.mpr ⟨[], lesser, rfl, by simp, less⟩
  have moved := maxByKey_append last after
  have stayed := maxByKey_append first after
  rw [List.append_assoc, List.singleton_append] at moved
  rw [List.cons_append] at stayed
  rw [moved, stayed]

/-- The last of the maximal elements of a nonempty list, from its head on. -/
theorem maxByKey_cons (value : α) (values : List α) :
    maxByKey key (value :: values) =
      match maxByKey key values with
      | some best => some (if key best < key value then value else best)
      | none => some value := by
  induction values using List.reverseRecOn with
  | nil => rfl
  | append_singleton front last inductionHypothesis =>
      rw [← List.cons_append, maxByKey_concat, maxByKey_concat,
        inductionHypothesis]
      cases maxByKey key front with
      | none => rfl
      | some best =>
          dsimp only
          congr 1
          split_ifs <;> first | rfl | omega

/-- The last of the maximal elements that are kept is the same in a list and in
the sorted list. -/
theorem maxByKey_filter_sortByKey (keep : α → Bool) (values : List α) :
    maxByKey key ((sortByKey key values).filter keep) =
      maxByKey key (values.filter keep) := by
  induction values with
  | nil => rfl
  | cons value values inductionHypothesis =>
      have inserted : sortByKey key (value :: values) =
          (sortByKey key values).takeWhile (fun other => ¬key value ≤ key other) ++
            value :: (sortByKey key values).dropWhile
              fun other => ¬key value ≤ key other :=
        List.insertionSort_cons_eq_take_drop _ _ _
      have parted := List.takeWhile_append_dropWhile
        (p := fun other => decide (¬key value ≤ key other))
        (l := sortByKey key values)
      rw [inserted, List.filter_append]
      by_cases kept : keep value
      · rw [List.filter_cons_of_pos kept, List.filter_cons_of_pos kept,
          maxByKey_move, ← List.filter_append, parted]
        · rw [maxByKey_cons, maxByKey_cons, inductionHypothesis]
        · intro other member
          have front := List.mem_takeWhile_imp (List.mem_filter.mp member).1
          simpa using front
      · rw [List.filter_cons_of_neg kept, List.filter_cons_of_neg kept,
          ← List.filter_append, parted, inductionHypothesis]

/-- In a list ordered by its keys the last element is the last maximal one. -/
theorem maxByKey_of_pairwise {values : List α}
    (ordered : values.Pairwise fun left right => key left ≤ key right) :
    maxByKey key values = values.getLast? := by
  rcases List.eq_nil_or_concat values with rfl | ⟨front, last, rfl⟩
  · rfl
  · rw [List.concat_eq_append] at ordered ⊢
    rw [List.getLast?_append_of_ne_nil _ (List.cons_ne_nil _ _)]
    refine maxByKey_eq_some_iff.mpr ⟨front, [], rfl, fun other member => ?_, by simp⟩
    exact (List.pairwise_append.mp ordered).2.2 other member last
      (List.mem_singleton_self last)

end Stable

section PartitionPoint

variable (holds : α → Bool) (values : List α)

private theorem getElem?_split (index : Nat) :
    values[index]? =
      (values.takeWhile holds ++ values.dropWhile holds)[index]? := by
  rw [List.takeWhile_append_dropWhile]

/-- The element just before the partition point is the last one of the part
where the predicate holds. -/
theorem getElem?_partitionPoint_pred
    (nonempty : 0 < partitionPoint holds values) :
    values[partitionPoint holds values - 1]? =
      (values.takeWhile holds).getLast? := by
  unfold partitionPoint at nonempty ⊢
  rw [getElem?_split holds, List.getElem?_append_left (by omega),
    List.getLast?_eq_getElem?]

/-- The element at the partition point is the first one that fails. -/
theorem getElem?_partitionPoint :
    values[partitionPoint holds values]? =
      (values.dropWhile holds).head? := by
  unfold partitionPoint
  rw [getElem?_split holds, List.getElem?_append_right le_rfl, Nat.sub_self,
    List.head?_eq_getElem?]

end PartitionPoint

/-! ## Binary search for a bound

In a list ordered by its keys, the partition point of a bound separates the
elements up to the bound from the later ones. -/

section BinarySearch

variable [LinearOrder κ] (key : α → κ) {values : List α} {bound : κ}

/-- Nothing lies up to the bound when the partition point is zero. -/
theorem lt_key_of_partitionPoint_eq_zero
    (ordered : values.Pairwise fun left right => key left ≤ key right)
    (zero : partitionPoint (fun value => key value ≤ bound) values = 0)
    {value : α} (member : value ∈ values) : bound < key value := by
  rw [partitionPoint, takeWhile_eq_filter_of_pairwise key ordered,
    List.length_eq_zero_iff, List.filter_eq_nil_iff] at zero
  simpa using zero value member

/-- The element before the partition point is a greatest one up to the bound. -/
theorem exists_greatest_of_partitionPoint_pos
    (ordered : values.Pairwise fun left right => key left ≤ key right)
    (positive : 0 < partitionPoint (fun value => key value ≤ bound) values) :
    ∃ last ∈ values,
      values[partitionPoint (fun value => key value ≤ bound) values - 1]? =
        some last ∧
      key last ≤ bound ∧
      ∀ value ∈ values, key value ≤ bound → key value ≤ key last := by
  have nonempty := positive
  rw [partitionPoint, takeWhile_eq_filter_of_pairwise key ordered] at nonempty
  have notNil := List.ne_nil_of_length_pos nonempty
  have reflexive : Std.Refl fun left right : α => key left ≤ key right :=
    ⟨fun _ => le_rfl⟩
  have greatest := (ordered.sublist
    (List.filter_sublist (p := fun value => decide (key value ≤ bound))))
  have member := List.getLast_mem notNil
  obtain ⟨inValues, below⟩ := List.mem_filter.mp member
  refine ⟨_, inValues, ?_, by simpa using below, fun value inside within => ?_⟩
  · rw [getElem?_partitionPoint_pred _ _ positive,
      takeWhile_eq_filter_of_pairwise key ordered,
      List.getLast?_eq_getLast_of_ne_nil notNil]
  · exact greatest.rel_getLast (List.mem_filter.mpr ⟨inside, by simpa using within⟩)

/-- The element at the partition point is a least one above the bound. -/
theorem least_of_getElem?_partitionPoint
    (ordered : values.Pairwise fun left right => key left ≤ key right)
    {next : α}
    (found : values[partitionPoint (fun value => key value ≤ bound) values]? =
      some next) :
    bound < key next ∧
      ∀ value ∈ values, bound < key value → key next ≤ key value := by
  have reflexive : Std.Refl fun left right : α => key left ≤ key right :=
    ⟨fun _ => le_rfl⟩
  rw [getElem?_partitionPoint, dropWhile_eq_filter_of_pairwise key ordered] at found
  have above := List.mem_filter.mp (List.mem_of_mem_head? found)
  have least := (ordered.sublist
    (List.filter_sublist (p := fun value => decide (bound < key value))))
  refine ⟨by simpa using above.2, fun value inside beyond => ?_⟩
  have relHead := least.rel_head
    (List.mem_filter.mpr ⟨inside, by simpa using beyond⟩)
  have notNil : values.filter (fun value => decide (bound < key value)) ≠ [] := by
    intro empty
    rw [empty] at found
    cases found
  rw [List.head?_eq_some_head notNil] at found
  cases found
  exact relHead

/-- Nothing lies above the bound when the partition point is the length. -/
theorem key_le_of_getElem?_partitionPoint_eq_none
    (ordered : values.Pairwise fun left right => key left ≤ key right)
    (missing : values[partitionPoint (fun value => key value ≤ bound) values]? =
      none)
    {value : α} (member : value ∈ values) : key value ≤ bound := by
  rw [getElem?_partitionPoint, dropWhile_eq_filter_of_pairwise key ordered,
    List.head?_eq_none_iff, List.filter_eq_nil_iff] at missing
  simpa using missing value member

/-- The element before the partition point is the last one of those with the
greatest key up to the bound. -/
theorem getElem?_partitionPoint_pred_eq_maxByKey
    {key : α → Nat} {bound : Nat}
    (ordered : values.Pairwise fun left right => key left ≤ key right)
    (positive : 0 < partitionPoint (fun value => key value ≤ bound) values) :
    values[partitionPoint (fun value => key value ≤ bound) values - 1]? =
      maxByKey key (values.filter fun value => key value ≤ bound) := by
  rw [getElem?_partitionPoint_pred _ _ positive,
    takeWhile_eq_filter_of_pairwise key ordered,
    maxByKey_of_pairwise (ordered.sublist List.filter_sublist)]

theorem maxByKey_eq_none_of_partitionPoint_eq_zero
    {key : α → Nat} {bound : Nat}
    (ordered : values.Pairwise fun left right => key left ≤ key right)
    (zero : partitionPoint (fun value => key value ≤ bound) values = 0) :
    maxByKey key (values.filter fun value => key value ≤ bound) = none := by
  rw [partitionPoint, takeWhile_eq_filter_of_pairwise key ordered,
    List.length_eq_zero_iff] at zero
  rw [zero]
  rfl

end BinarySearch

end Rust
