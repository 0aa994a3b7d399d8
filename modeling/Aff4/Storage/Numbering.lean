import Mathlib.Data.List.TakeWhile

/-!
# Numbering what a filter keeps

Elements may be numbered before others are dropped from a list, or afterwards.
The two numberings agree up to the first element that is dropped, and behind it
only where there is nothing to be told apart.
-/

namespace Storage

variable (keep : α → Bool) (value : α → β) (fallback : β)

/-- What stands at a position of a list, unless it is to be dropped. -/
def valueAt (elements : List α) (position : Nat) : β :=
  ((elements[position]?.filter keep).map value).getD fallback

/-- What stands at a position once the others are dropped. -/
def keptAt (elements : List α) (position : Nat) : β :=
  ((elements.filter keep)[position]?.map value).getD fallback

variable {keep value fallback}

/-- An element that is kept moves to the number of those kept before it. -/
theorem getElem?_filter_countP {elements : List α} {position : Nat} {element : α}
    (found : elements[position]? = some element) (kept : keep element = true) :
    (elements.filter keep)[(elements.take position).countP keep]? =
      some element := by
  induction elements generalizing position with
  | nil => cases found
  | cons first elements inductionHypothesis =>
      cases position with
      | zero =>
          cases found
          rw [List.filter_cons_of_pos kept]
          rfl
      | succ position =>
          have behind := inductionHypothesis found
          rw [List.take_succ_cons]
          by_cases firstKept : keep first = true
          · rw [List.filter_cons_of_pos firstKept,
              List.countP_cons_of_pos firstKept, List.getElem?_cons_succ]
            exact behind
          · rw [List.filter_cons_of_neg firstKept,
              List.countP_cons_of_neg firstKept]
            exact behind

theorem keptAt_cons_of_neg
    {first : α} (dropped : ¬keep first = true) (elements : List α) (position : Nat) :
    keptAt keep value fallback (first :: elements) position =
      keptAt keep value fallback elements position := by
  rw [keptAt, keptAt, List.filter_cons_of_neg dropped]

theorem valueAt_cons_succ (first : α) (elements : List α) (position : Nat) :
    valueAt keep value fallback (first :: elements) (position + 1) =
      valueAt keep value fallback elements position := rfl

theorem valueAt_of_neg {elements : List α} {position : Nat} {element : α}
    (found : elements[position]? = some element) (dropped : ¬keep element = true) :
    valueAt keep value fallback elements position = fallback := by
  rw [valueAt, found, Option.filter_some_neg (Bool.eq_false_iff.mpr dropped)]
  rfl

/-- What stands at a position was kept at the same position or an earlier one. -/
theorem valueAt_cases (elements : List α) (position : Nat) :
    valueAt keep value fallback elements position = fallback ∨
      ∃ earlier, earlier ≤ position ∧
        valueAt keep value fallback elements position =
          keptAt keep value fallback elements earlier := by
  cases found : elements[position]? with
  | none =>
      apply Or.inl
      rw [valueAt, found]
      rfl
  | some element =>
      by_cases kept : keep element = true
      · refine .inr ⟨(elements.take position).countP keep, ?_, ?_⟩
        · exact List.countP_le_length.trans (List.length_take_le _ _)
        · rw [valueAt, found, Option.filter_some_pos kept, keptAt,
            getElem?_filter_countP found kept]
      · exact .inl (valueAt_of_neg found kept)

/-- The fallback stands at every position if and only if it is the value of all that
is kept. -/
theorem keptAt_eq_fallback_iff (elements : List α) (bound : Nat) :
    (∀ position, position < bound →
      keptAt keep value fallback elements position = fallback) ↔
      ∀ element ∈ (elements.filter keep).take bound, value element = fallback := by
  constructor
  · intro all element member
    obtain ⟨position, found⟩ := List.mem_iff_getElem?.mp member
    rw [List.getElem?_take] at found
    split at found
    next below =>
      have equal := all position below
      rw [keptAt, found] at equal
      exact equal
    next => cases found
  · intro all position below
    rw [keptAt]
    cases found : (elements.filter keep)[position]? with
    | none => rfl
    | some element =>
        apply all
        rw [List.mem_iff_getElem?]
        refine ⟨position, ?_⟩
        rw [List.getElem?_take_of_lt below, found]

/-- Behind an element that is dropped the numbers agree only where every element
that is kept has the fallback for its value. -/
theorem keptAt_eq_valueAt_cons_iff
    {first : α} (dropped : ¬keep first = true) (elements : List α) (bound : Nat) :
    (∀ position, position < bound →
      keptAt keep value fallback (first :: elements) position =
        valueAt keep value fallback (first :: elements) position) ↔
      ∀ element ∈ (elements.filter keep).take bound,
        value element = fallback := by
  have none : valueAt keep value fallback (first :: elements) 0 = fallback :=
    valueAt_of_neg List.getElem?_cons_zero dropped
  rw [← keptAt_eq_fallback_iff]
  constructor
  · intro agree position
    induction position using Nat.strongRecOn with
    | ind position inductionHypothesis =>
        intro below
        rw [← keptAt_cons_of_neg dropped, agree position below]
        cases position with
        | zero => exact none
        | succ position =>
            rw [valueAt_cons_succ]
            rcases valueAt_cases elements position with unknown | ⟨earlier, le, kept⟩
            · exact unknown
            · exact kept.trans (inductionHypothesis earlier (by omega) (by omega))
  · intro all position below
    rw [keptAt_cons_of_neg dropped, all position below]
    cases position with
    | zero => exact none.symm
    | succ position =>
        rw [valueAt_cons_succ]
        rcases valueAt_cases elements position with unknown | ⟨earlier, le, kept⟩
        · exact unknown.symm
        · exact (kept.trans (all earlier (by omega))).symm

/-- Up to a bound, the numbers agree exactly when what is kept behind the first
element that is dropped has the fallback for its value. -/
theorem keptAt_eq_valueAt_iff (elements : List α) (bound : Nat) :
    (∀ position, position < bound →
      keptAt keep value fallback elements position =
        valueAt keep value fallback elements position) ↔
      ∀ element ∈ ((elements.dropWhile keep).filter keep).take
          (bound - (elements.takeWhile keep).length),
        value element = fallback := by
  induction elements generalizing bound with
  | nil =>
      apply iff_of_true
      · intro position _
        rfl
      · intro element member
        rw [List.dropWhile_nil, List.filter_nil, List.take_nil] at member
        cases member
  | cons first elements inductionHypothesis =>
      by_cases kept : keep first = true
      · rw [List.dropWhile_cons_of_pos kept, List.takeWhile_cons_of_pos kept,
          List.length_cons]
        have same : keptAt keep value fallback (first :: elements) 0 =
            valueAt keep value fallback (first :: elements) 0 := by
          rw [keptAt, valueAt, List.filter_cons_of_pos kept,
            List.getElem?_cons_zero, List.getElem?_cons_zero,
            Option.filter_some_pos kept]
        have behind (position : Nat) :
            keptAt keep value fallback (first :: elements) (position + 1) =
              keptAt keep value fallback elements position := by
          rw [keptAt, keptAt, List.filter_cons_of_pos kept,
            List.getElem?_cons_succ]
        cases bound with
        | zero =>
            apply iff_of_true
            · intro position below
              cases below
            · intro element member
              rw [Nat.zero_sub, List.take_zero] at member
              cases member
        | succ bound =>
            rw [Nat.add_sub_add_right, ← inductionHypothesis bound]
            constructor
            · intro agree position below
              rw [← behind]
              exact agree (position + 1) (Nat.succ_lt_succ below)
            · intro agree position below
              cases position with
              | zero => exact same
              | succ position =>
                  rw [behind]
                  exact agree position (Nat.lt_of_succ_lt_succ below)
      · rw [List.dropWhile_cons_of_neg kept, List.takeWhile_cons_of_neg kept,
          List.filter_cons_of_neg kept, List.length_nil, Nat.sub_zero]
        exact keptAt_eq_valueAt_cons_iff kept elements bound

end Storage
