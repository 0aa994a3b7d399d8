import Aff4.Rust.Slice

/-!
# Programs that end alike

Two runs of one program, on inputs that are told apart only by what it returns:
both return, with related values, or both fail with one error, or both panic for
one reason.
-/

namespace Rust
namespace Outcome

/-- Both programs return related values, or both end in one other way. -/
inductive Alike (Related : α → β → Prop) : Outcome ε α → Outcome ε β → Prop
  | ok {value : α} {image : β} (related : Related value image) :
      Alike Related (.ok value) (.ok image)
  | err (error : ε) : Alike Related (.err error) (.err error)
  | panic (reason : Panic) : Alike Related (.panic reason) (.panic reason)

namespace Alike

/-- A sequence ends alike if its first part does and its second part does on
whatever the first part returns. -/
theorem bind
    {Related : α → β → Prop} {Result : γ → δ → Prop}
    {program : Outcome ε α} {other : Outcome ε β}
    {next : α → Outcome ε γ} {nextOther : β → Outcome ε δ}
    (first : Alike Related program other)
    (second : ∀ value image, Related value image →
      Alike Result (next value) (nextOther image)) :
    Alike Result (program >>= next) (other >>= nextOther) := by
  cases first with
  | ok related => exact second _ _ related
  | err error => exact .err error
  | panic reason => exact .panic reason

/-- A sequence whose first part is the same program ends alike if its second part
does. -/
theorem bind_same
    {Result : γ → δ → Prop} {next : α → Outcome ε γ} {nextOther : α → Outcome ε δ}
    (program : Outcome ε α)
    (second : ∀ value, program = .ok value →
      Alike Result (next value) (nextOther value)) :
    Alike Result (program >>= next) (program >>= nextOther) := by
  cases program with
  | ok value => exact second value rfl
  | err error => exact .err error
  | panic reason => exact .panic reason

/-- What is computed from the results is related if the results are. -/
theorem map
    {Related : α → β → Prop} {Result : γ → δ → Prop}
    {program : Outcome ε α} {other : Outcome ε β} {change : α → γ} {changeOther : β → δ}
    (alike : Alike Related program other)
    (carried : ∀ value image, program = .ok value → Related value image →
      Result (change value) (changeOther image)) :
    Alike Result (program >>= fun value => .ok (change value))
      (other >>= fun image => .ok (changeOther image)) := by
  cases alike with
  | ok related => exact .ok (carried _ _ rfl related)
  | err error => exact .err error
  | panic reason => exact .panic reason

end Alike
end Outcome

/-- A copy of some data that may have been altered in place: it has the length of
the data, and under a condition it is the data. -/
structure AlteredCopy (kept : Prop) (data image : List α) : Prop where
  length : image.length = data.length
  eq_of_kept : kept → image = data

namespace AlteredCopy

variable {kept : Prop} {data image : List α}

/-- The same part of two lists of one length is a copy if it is kept there. -/
theorem slice_of_kept {start stop : Nat} (sameLength : image.length = data.length)
    (same : kept → (image.take stop).drop start = (data.take stop).drop start) :
    Outcome.Alike (AlteredCopy kept) (Rust.slice data start stop : Outcome ε (List α))
      (Rust.slice image start stop) := by
  unfold Rust.slice
  rw [sameLength]
  split
  · refine .ok ⟨?_, same⟩
    rw [List.length_drop, List.length_drop, List.length_take, List.length_take,
      sameLength]
  · exact .panic _

theorem slice (copy : AlteredCopy kept data image) (start stop : Nat) :
    Outcome.Alike (AlteredCopy kept) (Rust.slice data start stop : Outcome ε (List α))
      (Rust.slice image start stop) :=
  slice_of_kept copy.length fun untouched => by rw [copy.eq_of_kept untouched]

end AlteredCopy
end Rust
