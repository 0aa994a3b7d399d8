import Mathlib.Logic.Basic

/-!
# Runs of a machine

A deterministic machine takes inputs, answers each of them and moves on.  What
one step keeps and guarantees, every step of every run keeps and guarantees.
-/

namespace Storage

/-- One step of a run: the state before it, its input, the answer and the state
after it. -/
structure Event (σ ι ο : Type) where
  before : σ
  input : ι
  output : ο
  after : σ

/-- The events of a run. -/
def run (step : σ → ι → ο × σ) : σ → List ι → List (Event σ ι ο)
  | _, [] => []
  | state, input :: rest =>
      let (output, after) := step state input
      { before := state, input, output, after } :: run step after rest

@[simp] theorem run_nil (step : σ → ι → ο × σ) (state : σ) :
    run step state [] = [] := rfl

@[simp] theorem run_cons
    (step : σ → ι → ο × σ) (state : σ) (input : ι) (rest : List ι) :
    run step state (input :: rest) =
      { before := state
        input
        output := (step state input).1
        after := (step state input).2 } ::
        run step (step state input).2 rest := rfl

section Invariant

variable (step : σ → ι → ο × σ) (invariant : σ → Prop)

/-- If every step on an input that is admitted keeps an invariant and guarantees
something of its event, then so do the steps of a run on such inputs. -/
theorem forall_mem_run_of_admitted
    (admitted : ι → Prop)
    (guarantee : Event σ ι ο → Prop)
    (kept : ∀ state input, admitted input → invariant state →
      invariant (step state input).2)
    (guaranteed : ∀ state input, admitted input → invariant state →
      guarantee
        { before := state
          input
          output := (step state input).1
          after := (step state input).2 })
    {inputs : List ι} (allAdmitted : ∀ input ∈ inputs, admitted input)
    {start : σ}
    (initially : invariant start) :
    ∀ event ∈ run step start inputs, guarantee event := by
  induction inputs generalizing start with
  | nil => simp
  | cons input rest inductionHypothesis =>
      obtain ⟨first, others⟩ := List.forall_mem_cons.mp allAdmitted
      intro event member
      rw [run_cons, List.mem_cons] at member
      rcases member with rfl | later
      · exact guaranteed start input first initially
      · exact inductionHypothesis others (kept start input first initially) event
          later

/-- If every step keeps an invariant and guarantees something of its event, then
so do the steps of a run. -/
theorem forall_mem_run
    (guarantee : Event σ ι ο → Prop)
    (kept : ∀ state input, invariant state → invariant (step state input).2)
    (guaranteed : ∀ state input, invariant state →
      guarantee
        { before := state
          input
          output := (step state input).1
          after := (step state input).2 })
    (inputs : List ι)
    {start : σ}
    (initially : invariant start) :
    ∀ event ∈ run step start inputs, guarantee event :=
  forall_mem_run_of_admitted step invariant (fun _ => True) guarantee
    (fun state input _ => kept state input)
    (fun state input _ => guaranteed state input) (fun _ _ => trivial) initially

end Invariant

/-! ## What answers depend on -/

section Alike

variable (step : σ → ι → ο × σ) (invariant : σ → Prop) (answer : ι → ο)

/-- If an input is answered alike in all states that satisfy an invariant, then
a run answers each of its inputs as if it came first. -/
theorem map_output_run
    (kept : ∀ state input, invariant state → invariant (step state input).2)
    (alike : ∀ state input, invariant state → (step state input).1 = answer input)
    (inputs : List ι)
    {start : σ}
    (initially : invariant start) :
    (run step start inputs).map (fun event => (event.input, event.output)) =
      inputs.map fun input => (input, answer input) := by
  induction inputs generalizing start with
  | nil => rfl
  | cons input rest inductionHypothesis =>
      rw [run_cons, List.map_cons, List.map_cons,
        inductionHypothesis (kept start input initially)]
      simp only [alike start input initially]

/-- Then some of the inputs are answered as if the others were not there. -/
theorem map_output_filter_run
    (kept : ∀ state input, invariant state → invariant (step state input).2)
    (alike : ∀ state input, invariant state → (step state input).1 = answer input)
    (some : ι → Bool)
    (inputs : List ι)
    {start : σ}
    (initially : invariant start) :
    ((run step start inputs).filter fun event => some event.input).map
        Event.output =
      (run step start (inputs.filter some)).map Event.output := by
  have answered (inputs : List ι) :=
    map_output_run step invariant answer kept alike inputs initially
  have outputs (events : List (Event σ ι ο)) :
      events.map Event.output =
        (events.map fun event => (event.input, event.output)).map Prod.snd := by
    rw [List.map_map]
    rfl
  have selected : ((run step start inputs).filter fun event => some event.input).map
      (fun event => (event.input, event.output)) =
        ((run step start inputs).map fun event =>
          (event.input, event.output)).filter fun pair => some pair.1 := by
    rw [List.filter_map]
    rfl
  rw [outputs, outputs, selected, answered, answered, List.filter_map]
  rfl

end Alike

/-- Inputs that leave every state as it is can be dropped from a run: the others
are answered in the same states. -/
theorem filter_run
    (step : σ → ι → ο × σ) (drop : ι → Bool)
    (still : ∀ state input, drop input = true → (step state input).2 = state)
    (start : σ) (inputs : List ι) :
    (run step start inputs).filter (fun event => !drop event.input) =
      run step start (inputs.filter fun input => !drop input) := by
  induction inputs generalizing start with
  | nil => rfl
  | cons input rest inductionHypothesis =>
      rw [run_cons, List.filter_cons, List.filter_cons]
      cases dropped : drop input with
      | true =>
          simp only [Bool.not_true, Bool.false_eq_true, if_false]
          rw [still start input dropped]
          exact inductionHypothesis start
      | false =>
          simp only [Bool.not_false, if_true]
          rw [run_cons, inductionHypothesis]

/-! ## Two machines -/

section Simulation

variable (step : σ → ι → ο × σ) (other : τ → ι → ο × τ)
variable (related : σ → τ → Prop) (parts : Event σ ι ο → Prop)

/-- If two machines answer alike in related states and stay related, unless the
first one comes to an event at which it parts from the second, then runs in which
it never does are answered alike. -/
theorem map_output_run_of_related
    (alike : ∀ state twin input, related state twin →
      ¬parts
        { before := state
          input
          output := (step state input).1
          after := (step state input).2 } →
      (other twin input).1 = (step state input).1 ∧
        related (step state input).2 (other twin input).2)
    (inputs : List ι) {start : σ} {twin : τ} (initially : related start twin)
    (together : ∀ event ∈ run step start inputs, ¬parts event) :
    (run other twin inputs).map Event.output =
      (run step start inputs).map Event.output := by
  induction inputs generalizing start twin with
  | nil => rfl
  | cons input rest inductionHypothesis =>
      rw [run_cons, List.forall_mem_cons] at together
      obtain ⟨same, stay⟩ := alike start twin input initially together.1
      rw [run_cons, run_cons, List.map_cons, List.map_cons,
        inductionHypothesis stay together.2]
      simp only [same]

end Simulation

end Storage
