import Mathlib.Data.List.Forall2

/-!
# Fallible programs that may panic

A Rust function that returns `Result<T, E>` ends in one of three ways: with a
value, with an error, or by panicking.  The third way is kept apart from the
second, since a caller can handle an error but not a panic.
-/

namespace Rust

/-- A sequence of `Result`s returns exactly when both of its parts do. -/
theorem except_bind_eq_ok
    {program : Except ε α} {next : α → Except ε β} {result : β} :
    (program >>= next) = .ok result ↔
      ∃ value, program = .ok value ∧ next value = .ok result := by
  cases program <;> simp [bind, Except.bind]

theorem mapError_eq_ok
    {change : ε → δ} {program : Except ε α} {value : α} :
    program.mapError change = .ok value ↔ program = .ok value := by
  cases program <;> simp [Except.mapError]

/-- A fallible map over a list returns exactly when every call does. -/
theorem except_mapM_eq_ok {body : α → Except ε β} {inputs : List α} {results : List β} :
    inputs.mapM body = .ok results ↔
      List.Forall₂ (fun input result => body input = .ok result) inputs results := by
  induction inputs generalizing results with
  | nil => cases results <;> simp [pure, Except.pure]
  | cons input inputs inductionHypothesis =>
      rw [List.mapM_cons, except_bind_eq_ok]
      constructor
      · rintro ⟨result, first, mapped⟩
        obtain ⟨rest, others, equal⟩ := except_bind_eq_ok.mp mapped
        cases equal
        exact .cons first (inductionHypothesis.mp others)
      · intro related
        cases related with
        | cons first rest =>
            refine ⟨_, first, except_bind_eq_ok.mpr ⟨_, ?_, rfl⟩⟩
            exact inductionHypothesis.mpr rest

theorem length_le_length_flatMap {pieces : γ → List α}
    (nonempty : ∀ input, pieces input ≠ []) (inputs : List γ) :
    inputs.length ≤ (inputs.flatMap pieces).length := by
  induction inputs with
  | nil => exact Nat.le_refl _
  | cons input inputs inductionHypothesis =>
      have positive := List.length_pos_of_ne_nil (nonempty input)
      rw [List.flatMap_cons, List.length_append, List.length_cons]
      omega

/-- A loop that may fail fails if and only if one of its passes would. -/
theorem except_mapM_eq_error_iff {body : α → Except ε β} {inputs : List α} :
    (∃ error, inputs.mapM body = .error error) ↔
      ∃ input ∈ inputs, ∃ error, body input = .error error := by
  induction inputs with
  | nil =>
      refine iff_of_false ?_ (by simp)
      rintro ⟨error, impossible⟩
      cases impossible
  | cons input inputs inductionHypothesis =>
      rw [List.mapM_cons, List.exists_mem_cons_iff, ← inductionHypothesis]
      cases body input with
      | error failure => exact iff_of_true ⟨failure, rfl⟩ (.inl ⟨failure, rfl⟩)
      | ok result =>
          rw [or_iff_right fun ⟨_, impossible⟩ => by cases impossible]
          cases inputs.mapM body with
          | error failure => exact iff_of_true ⟨failure, rfl⟩ ⟨failure, rfl⟩
          | ok results =>
              refine iff_of_false ?_ ?_
              · rintro ⟨_, impossible⟩
                cases impossible
              · rintro ⟨_, impossible⟩
                cases impossible

/-- Where every input has a piece, a fallible map over the pieces returns one
result for each input exactly when each input has one piece, with that result. -/
theorem except_mapM_flatMap_eq_ok
    {body : α → Except ε β} {pieces : γ → List α} {result : γ → β}
    (nonempty : ∀ input, pieces input ≠ []) (inputs : List γ) :
    (inputs.flatMap pieces).mapM body = .ok (inputs.map result) ↔
      ∀ input ∈ inputs,
        ∃ piece, pieces input = [piece] ∧ body piece = .ok (result input) := by
  rw [except_mapM_eq_ok]
  constructor
  · intro related
    induction inputs with
    | nil => simp
    | cons input inputs inductionHypothesis =>
        have enough := length_le_length_flatMap nonempty inputs
        have all := related.length_eq
        rw [List.flatMap_cons, List.length_append, List.map_cons, List.length_cons,
          List.length_map] at all
        obtain ⟨piece, rest, split⟩ := List.exists_cons_of_ne_nil (nonempty input)
        have alone : rest = [] := by
          rw [split, List.length_cons] at all
          exact List.eq_nil_of_length_eq_zero (by omega)
        rw [List.flatMap_cons, split, alone] at related
        cases related with
        | cons first others =>
            rw [List.forall_mem_cons]
            refine ⟨⟨piece, ?_, first⟩, inductionHypothesis others⟩
            rw [split, alone]
  · intro each
    induction inputs with
    | nil => exact .nil
    | cons input inputs inductionHypothesis =>
        rw [List.forall_mem_cons] at each
        obtain ⟨⟨piece, alone, returns⟩, others⟩ := each
        rw [List.flatMap_cons, alone, List.map_cons]
        exact .cons returns (inductionHypothesis others)

/-- The reason a program panicked. -/
inductive Panic
  | addOverflow
  | subOverflow
  | divideByZero
  | indexOutOfBounds
  | capacityOverflow
  | explicit (message : String)
  deriving DecidableEq, Repr

/-- How a program that returns `Result<α, ε>` ends. -/
inductive Outcome (ε α : Type)
  | ok (value : α)
  | err (error : ε)
  | panic (reason : Panic)
  deriving DecidableEq, Repr

namespace Outcome

/-- Sequencing: errors and panics stop the program where they happen. -/
def bind : Outcome ε α → (α → Outcome ε β) → Outcome ε β
  | .ok value, next => next value
  | .err error, _ => .err error
  | .panic reason, _ => .panic reason

instance : Monad (Outcome ε) where
  pure := .ok
  bind := bind

@[simp] theorem pure_eq (value : α) :
    (pure value : Outcome ε α) = .ok value := rfl

@[simp] theorem ok_bind (value : α) (next : α → Outcome ε β) :
    (Outcome.ok value >>= next) = next value := rfl

@[simp] theorem err_bind (error : ε) (next : α → Outcome ε β) :
    (Outcome.err error >>= next) = .err error := rfl

@[simp] theorem panic_bind (reason : Panic) (next : α → Outcome ε β) :
    (Outcome.panic reason >>= next) = .panic reason := rfl

/-- A sequence returns exactly when both of its parts do. -/
theorem bind_eq_ok
    {program : Outcome ε α} {next : α → Outcome ε β} {result : β} :
    (program >>= next) = .ok result ↔
      ∃ value, program = .ok value ∧ next value = .ok result := by
  cases program <;> simp

/-- A sequence fails when one of its parts does. -/
theorem bind_eq_err
    {program : Outcome ε α} {next : α → Outcome ε β} {error : ε} :
    (program >>= next) = .err error ↔
      program = .err error ∨
        ∃ value, program = .ok value ∧ next value = .err error := by
  cases program <;> simp

/-- A sequence panics when one of its parts does. -/
theorem bind_eq_panic
    {program : Outcome ε α} {next : α → Outcome ε β} {reason : Panic} :
    (program >>= next) = .panic reason ↔
      program = .panic reason ∨
        ∃ value, program = .ok value ∧ next value = .panic reason := by
  cases program <;> simp

/-- What follows a program only matters on what the program returns. -/
theorem bind_congr {program : Outcome ε α} {next other : α → Outcome ε β}
    (same : ∀ value, program = .ok value → next value = other value) :
    (program >>= next) = (program >>= other) := by
  cases program with
  | ok value => exact same value rfl
  | err error => rfl
  | panic reason => rfl

/-- Change the error of a program, as `Result::map_err` does. -/
def mapErr (change : ε → δ) : Outcome ε α → Outcome δ α
  | .ok value => .ok value
  | .err error => .err (change error)
  | .panic reason => .panic reason

@[simp] theorem mapErr_ok (change : ε → δ) (value : α) :
    (Outcome.ok value).mapErr change = .ok value := rfl

@[simp] theorem mapErr_err (change : ε → δ) (error : ε) :
    (Outcome.err error : Outcome ε α).mapErr change = .err (change error) := rfl

@[simp] theorem mapErr_panic (change : ε → δ) (reason : Panic) :
    (Outcome.panic reason : Outcome ε α).mapErr change = .panic reason := rfl

/-- A `Result` that is already known, with no panic left in it. -/
def ofExcept : Except ε α → Outcome ε α
  | .ok value => .ok value
  | .error error => .err error

@[simp] theorem ofExcept_ok (value : α) :
    (ofExcept (.ok value) : Outcome ε α) = .ok value := rfl

@[simp] theorem ofExcept_error (error : ε) :
    (ofExcept (.error error) : Outcome ε α) = .err error := rfl

@[simp] theorem ofExcept_eq_ok {result : Except ε α} {value : α} :
    ofExcept result = .ok value ↔ result = .ok value := by
  cases result <;> simp

@[simp] theorem ofExcept_ne_panic {result : Except ε α} {reason : Panic} :
    ofExcept result ≠ .panic reason := by
  cases result <;> simp

/-- `Option::ok_or`. -/
def okOr (error : ε) : Option α → Outcome ε α
  | some value => .ok value
  | none => .err error

@[simp] theorem okOr_some (error : ε) (value : α) :
    okOr error (some value) = .ok value := rfl

@[simp] theorem okOr_none (error : ε) :
    (okOr error none : Outcome ε α) = .err error := rfl

@[simp] theorem okOr_eq_ok {error : ε} {option : Option α} {value : α} :
    okOr error option = .ok value ↔ option = some value := by
  cases option <;> simp

@[simp] theorem okOr_ne_panic {error : ε} {option : Option α} {reason : Panic} :
    okOr error option ≠ .panic reason := by
  cases option <;> simp

/-- The results of a body run at `count` consecutive indices from `start`. -/
def collect (body : Nat → Outcome ε α) : Nat → Nat → Outcome ε (List α)
  | _, 0 => .ok []
  | start, count + 1 => do
      let first ← body start
      let rest ← collect body (start + 1) count
      return first :: rest

/-- A loop whose every pass returns collects the values of the passes. -/
theorem collect_eq_ok
    (body : Nat → Outcome ε α) (value : Nat → α)
    (start count : Nat)
    (returns : ∀ index, index < count →
      body (start + index) = .ok (value (start + index))) :
    collect body start count =
      .ok ((List.range' start count).map value) := by
  induction count generalizing start with
  | zero => rfl
  | succ count inductionHypothesis =>
      have first := returns 0 (by omega)
      have rest := inductionHypothesis (start + 1) fun index inside => by
        have := returns (index + 1) (by omega)
        rwa [show start + (index + 1) = start + 1 + index by omega] at this
      simp only [Nat.add_zero] at first
      simp [collect, first, rest, List.range'_succ]

/-- Pass `index` of a loop is the first one that does not return. -/
structure StopsAt (body : Nat → Outcome ε α) (start index : Nat) : Prop where
  earlier : ∀ before, before < index → ∃ value, body (start + before) = .ok value
  stops : ∀ value, body (start + index) ≠ .ok value

theorem StopsAt.unique {body : Nat → Outcome ε α} {start index other : Nat}
    (first : StopsAt body start index) (second : StopsAt body start other) :
    index = other := by
  rcases Nat.lt_trichotomy index other with less | equal | greater
  · obtain ⟨value, returns⟩ := second.earlier index less
    exact absurd returns (first.stops value)
  · exact equal
  · obtain ⟨value, returns⟩ := first.earlier other greater
    exact absurd returns (second.stops value)

/-- A loop returns, or it ends as its first pass that does not return. -/
theorem collect_cases (body : Nat → Outcome ε α) (start count : Nat) :
    (∃ values, collect body start count = .ok values ∧
        ∀ index, index < count → ∃ value, body (start + index) = .ok value) ∨
      ∃ index, index < count ∧ StopsAt body start index ∧
        collect body start count = (body (start + index) >>= fun _ => .ok []) := by
  induction count generalizing start with
  | zero => exact .inl ⟨[], rfl, fun _ below => absurd below (Nat.not_lt_zero _)⟩
  | succ count inductionHypothesis =>
      have shift (index : Nat) : start + (index + 1) = start + 1 + index := by
        omega
      have atOnce (stops : ∀ value, body start ≠ .ok value) :
          StopsAt body start 0 :=
        ⟨fun _ below => absurd below (Nat.not_lt_zero _), stops⟩
      cases first : body start with
      | ok value =>
          rcases inductionHypothesis (start + 1) with
            ⟨values, collected, all⟩ | ⟨index, below, stopped, collected⟩
          · refine .inl ⟨value :: values, ?_, fun index below => ?_⟩
            · rw [collect, first, ok_bind, collected]
              rfl
            · cases index with
              | zero => exact ⟨value, first⟩
              | succ index =>
                  rw [shift]
                  exact all index (Nat.lt_of_succ_lt_succ below)
          · refine .inr ⟨index + 1, Nat.succ_lt_succ below, ⟨?_, ?_⟩, ?_⟩
            · intro before within
              cases before with
              | zero => exact ⟨value, first⟩
              | succ before =>
                  rw [shift]
                  exact stopped.earlier before (Nat.lt_of_succ_lt_succ within)
            · rw [shift]
              exact stopped.stops
            · rw [collect, first, ok_bind, collected, shift index]
              cases returns : body (start + 1 + index) with
              | ok value => exact absurd returns (stopped.stops value)
              | err error => rfl
              | panic reason => rfl
      | err error =>
          refine .inr ⟨0, Nat.succ_pos _, atOnce ?_, ?_⟩
          · rw [first]
            exact fun _ impossible => by cases impossible
          · simp only [collect, Nat.add_zero, first, err_bind]
      | panic reason =>
          refine .inr ⟨0, Nat.succ_pos _, atOnce ?_, ?_⟩
          · rw [first]
            exact fun _ impossible => by cases impossible
          · simp only [collect, Nat.add_zero, first, panic_bind]

/-- A loop fails with the error of its first pass that does not return. -/
theorem collect_eq_err
    {body : Nat → Outcome ε α} {start count : Nat} {error : ε} :
    collect body start count = .err error ↔
      ∃ index, index < count ∧
        (∀ before, before < index →
          ∃ value, body (start + before) = .ok value) ∧
        body (start + index) = .err error := by
  rcases collect_cases body start count with
    ⟨values, collected, all⟩ | ⟨index, below, stopped, collected⟩
  · rw [collected]
    apply iff_of_false (fun impossible => by cases impossible)
    rintro ⟨index, below, -, fails⟩
    obtain ⟨value, returns⟩ := all index below
    rw [returns] at fails
    cases fails
  · rw [collected, bind_eq_err]
    constructor
    · rintro (fails | ⟨_, _, impossible⟩)
      · exact ⟨index, below, stopped.earlier, fails⟩
      · cases impossible
    · rintro ⟨other, -, earlier, fails⟩
      have stoppedToo : StopsAt body start other :=
        ⟨earlier, fun value returns => by rw [returns] at fails; cases fails⟩
      rw [stopped.unique stoppedToo]
      exact .inl fails

/-- A loop panics as its first pass that does not return. -/
theorem collect_eq_panic
    {body : Nat → Outcome ε α} {start count : Nat} {reason : Panic} :
    collect body start count = .panic reason ↔
      ∃ index, index < count ∧
        (∀ before, before < index →
          ∃ value, body (start + before) = .ok value) ∧
        body (start + index) = .panic reason := by
  rcases collect_cases body start count with
    ⟨values, collected, all⟩ | ⟨index, below, stopped, collected⟩
  · rw [collected]
    apply iff_of_false (fun impossible => by cases impossible)
    rintro ⟨index, below, -, panics⟩
    obtain ⟨value, returns⟩ := all index below
    rw [returns] at panics
    cases panics
  · rw [collected, bind_eq_panic]
    constructor
    · rintro (panics | ⟨_, _, impossible⟩)
      · exact ⟨index, below, stopped.earlier, panics⟩
      · cases impossible
    · rintro ⟨other, -, earlier, panics⟩
      have stoppedToo : StopsAt body start other :=
        ⟨earlier, fun value returns => by rw [returns] at panics; cases panics⟩
      rw [stopped.unique stoppedToo]
      exact .inl panics

/-- A loop returns exactly when each of its passes does. -/
theorem exists_collect_eq_ok
    {body : Nat → Outcome ε α} {start count : Nat} :
    (∃ values, collect body start count = .ok values) ↔
      ∀ index, index < count → ∃ value, body (start + index) = .ok value := by
  rcases collect_cases body start count with
    ⟨values, collected, all⟩ | ⟨index, below, stopped, collected⟩
  · exact iff_of_true ⟨values, collected⟩ all
  · apply iff_of_false
    · rintro ⟨values, returns⟩
      rw [collected, bind_eq_ok] at returns
      obtain ⟨value, returns, -⟩ := returns
      exact stopped.stops value returns
    · intro all
      obtain ⟨value, returns⟩ := all index below
      exact stopped.stops value returns

/-- A collected list has one value for each pass of the loop. -/
theorem length_of_collect_eq_ok
    {body : Nat → Outcome ε α} {start count : Nat} {values : List α}
    (returns : collect body start count = .ok values) :
    values.length = count := by
  induction count generalizing start values with
  | zero => cases returns; rfl
  | succ count inductionHypothesis =>
      obtain ⟨first, _, later⟩ := bind_eq_ok.mp returns
      obtain ⟨rest, collected, equal⟩ := bind_eq_ok.mp later
      cases equal
      simp [inductionHypothesis collected]

/-- Each collected value is the one its pass returned. -/
theorem getElem?_of_collect_eq_ok
    {body : Nat → Outcome ε α} {start count : Nat} {values : List α}
    (returns : collect body start count = .ok values)
    {index : Nat} (below : index < count) :
    ∃ value, body (start + index) = .ok value ∧ values[index]? = some value := by
  induction count generalizing start values index with
  | zero => omega
  | succ count inductionHypothesis =>
      obtain ⟨first, firstReturns, later⟩ := bind_eq_ok.mp returns
      obtain ⟨rest, collected, equal⟩ := bind_eq_ok.mp later
      cases equal
      cases index with
      | zero => exact ⟨first, firstReturns, rfl⟩
      | succ index =>
          rw [show start + (index + 1) = start + 1 + index by omega]
          exact inductionHypothesis collected (by omega)

/-! ## Which panics are possible -/

/-- A program panics for no other reasons than the given ones. -/
def PanicsOnly (reasons : Panic → Prop) (program : Outcome ε α) : Prop :=
  ∀ reason, program = .panic reason → reasons reason

namespace PanicsOnly

variable {reasons : Panic → Prop}

theorem ok (value : α) : PanicsOnly reasons (Outcome.ok value : Outcome ε α) :=
  fun _ impossible => by cases impossible

theorem err (error : ε) : PanicsOnly reasons (Outcome.err error : Outcome ε α) :=
  fun _ impossible => by cases impossible

theorem panic {reason : Panic} (allowed : reasons reason) :
    PanicsOnly reasons (Outcome.panic reason : Outcome ε α) := by
  rintro _ ⟨⟩
  exact allowed

theorem ofExcept (result : Except ε α) :
    PanicsOnly reasons (Outcome.ofExcept result) :=
  fun _ impossible => absurd impossible ofExcept_ne_panic

theorem okOr (error : ε) (option : Option α) :
    PanicsOnly reasons (Outcome.okOr error option) :=
  fun _ impossible => absurd impossible okOr_ne_panic

/-- A sequence panics as its parts do; the second one only runs on what the first
one returns. -/
theorem bind {program : Outcome ε α} {next : α → Outcome ε β}
    (first : PanicsOnly reasons program)
    (second : ∀ value, program = .ok value → PanicsOnly reasons (next value)) :
    PanicsOnly reasons (program >>= next) := by
  intro reason panics
  rcases bind_eq_panic.mp panics with now | ⟨value, returns, later⟩
  · exact first reason now
  · exact second value returns reason later

theorem mapErr {program : Outcome ε α} (change : ε → δ)
    (only : PanicsOnly reasons program) :
    PanicsOnly reasons (program.mapErr change) := by
  cases program with
  | ok value => exact ok value
  | err error => exact err (change error)
  | panic reason => exact panic (only reason rfl)

/-- A loop panics as its passes do. -/
theorem collect {body : Nat → Outcome ε α}
    (passes : ∀ index, PanicsOnly reasons (body index)) (start count : Nat) :
    PanicsOnly reasons (Outcome.collect body start count) := by
  induction count generalizing start with
  | zero => exact ok []
  | succ count inductionHypothesis =>
      refine bind (passes start) fun first _ => ?_
      exact bind (inductionHypothesis (start + 1)) fun rest _ => ok _

end PanicsOnly

end Outcome
end Rust
