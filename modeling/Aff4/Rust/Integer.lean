import Mathlib.Algebra.Group.Int.Defs
import Mathlib.Algebra.GroupWithZero.Nat
import Mathlib.Data.Nat.Basic
import Aff4.Rust.Outcome

/-!
# Machine integers of a target platform

Unsigned 64-bit values are `UInt64`; values of type `usize` are natural
numbers, whose width depends on the platform.  An overflowing `+` or `-`
panics in a build with overflow checks and wraps in one without.
-/

namespace Rust

/-- Width of a pointer, hence of `usize`. -/
inductive PointerWidth
  | bits32
  | bits64
  deriving DecidableEq, Repr

/-- What a program is compiled for. -/
structure Platform where
  /-- Width of `usize`. -/
  pointerWidth : PointerWidth
  /-- Whether arithmetic overflow panics (the default of debug builds). -/
  overflowChecks : Bool

namespace Platform

/-- Number of bits of a `usize`. -/
def usizeBits (platform : Platform) : Nat :=
  match platform.pointerWidth with
  | .bits32 => 32
  | .bits64 => 64

/-- `isize::MAX`, the largest size in bytes of one allocation. -/
def isizeMax (platform : Platform) : Nat :=
  2 ^ (platform.usizeBits - 1) - 1

/-- A debug build for 64-bit pointers. -/
def debug64 : Platform where
  pointerWidth := .bits64
  overflowChecks := true

/-- Pointers of the platform are 64 bits wide. -/
def Is64Bit (platform : Platform) : Prop :=
  platform.pointerWidth = .bits64

theorem is64Bit_debug64 : debug64.Is64Bit := rfl

theorem Is64Bit.usizeBits {platform : Platform} (wide : platform.Is64Bit) :
    platform.usizeBits = 64 := by
  unfold Platform.usizeBits
  rw [wide]

theorem Is64Bit.isizeMax {platform : Platform} (wide : platform.Is64Bit) :
    platform.isizeMax = 2 ^ 63 - 1 := by
  rw [Platform.isizeMax, wide.usizeBits]

end Platform

/-- `n as usize` for an unsigned 64-bit `n`. -/
def asUsize (platform : Platform) (n : UInt64) : Nat :=
  n.toNat % 2 ^ platform.usizeBits

/-- No bits are lost in `n as usize` when pointers have 64 bits. -/
theorem asUsize_of_is64Bit {platform : Platform}
    (wide : platform.Is64Bit) (n : UInt64) :
    asUsize platform n = n.toNat := by
  rw [asUsize, wide.usizeBits, Nat.mod_eq_of_lt n.toNat_lt]

section Narrowing

variable (platform : Platform)

theorem asUsize_le (n : UInt64) : asUsize platform n ≤ n.toNat := Nat.mod_le _ _

/-- A number of the width of `usize` keeps its value, and no other does. -/
theorem asUsize_eq_iff {n : UInt64} :
    asUsize platform n = n.toNat ↔ n.toNat < 2 ^ platform.usizeBits :=
  Nat.mod_eq_iff_lt (Nat.ne_of_gt (Nat.two_pow_pos _))

theorem isizeMax_lt : platform.isizeMax < 2 ^ platform.usizeBits := by
  unfold Platform.isizeMax Platform.usizeBits
  cases platform.pointerWidth <;> decide

theorem two_pow_sixteen_le : 2 ^ 16 ≤ 2 ^ platform.usizeBits := by
  unfold Platform.usizeBits
  cases platform.pointerWidth <;> decide

theorem two_pow_usizeBits_le : 2 ^ platform.usizeBits ≤ 2 ^ 64 := by
  unfold Platform.usizeBits
  cases platform.pointerWidth <;> decide

end Narrowing

/-- `a + b` on unsigned 64-bit integers. -/
def addU64 (platform : Platform) (a b : UInt64) : Outcome ε UInt64 :=
  if platform.overflowChecks ∧ 2 ^ 64 ≤ a.toNat + b.toNat then
    .panic .addOverflow
  else
    .ok (a + b)

/-- `a - b` on unsigned 64-bit integers. -/
def subU64 (platform : Platform) (a b : UInt64) : Outcome ε UInt64 :=
  if platform.overflowChecks ∧ a < b then
    .panic .subOverflow
  else
    .ok (a - b)

/-- `a + b` on signed 64-bit integers. -/
def addI64 (platform : Platform) (a b : Int64) : Outcome ε Int64 :=
  if platform.overflowChecks ∧ (a + b).toInt ≠ a.toInt + b.toInt then
    .panic .addOverflow
  else
    .ok (a + b)

/-- `a / b` on unsigned 64-bit integers. -/
def divU64 (a b : UInt64) : Outcome ε UInt64 :=
  if b = 0 then .panic .divideByZero else .ok (a / b)

/-- `a % b` on unsigned 64-bit integers. -/
def remU64 (a b : UInt64) : Outcome ε UInt64 :=
  if b = 0 then .panic .divideByZero else .ok (a % b)

/-- An addition that does not reach `2 ^ 64` is exact in every build. -/
theorem addU64_of_lt {platform : Platform} {a b : UInt64}
    (fits : a.toNat + b.toNat < 2 ^ 64) :
    (addU64 platform a b : Outcome ε UInt64) = .ok (a + b) := by
  rw [addU64, if_neg]
  omega

/-- A subtraction that stays above zero is exact in every build. -/
theorem subU64_of_le {platform : Platform} {a b : UInt64} (le : b ≤ a) :
    (subU64 platform a b : Outcome ε UInt64) = .ok (a - b) := by
  rw [subU64, if_neg]
  exact fun below => absurd below.2 (UInt64.not_lt.mpr le)

theorem addU64_ne_err {platform : Platform} {a b : UInt64} (error : ε) :
    addU64 platform a b ≠ .err error := by
  unfold addU64
  split <;> exact fun impossible => by cases impossible

theorem subU64_ne_err {platform : Platform} {a b : UInt64} (error : ε) :
    subU64 platform a b ≠ .err error := by
  unfold subU64
  split <;> exact fun impossible => by cases impossible

theorem divU64_of_ne_zero {a b : UInt64} (nonzero : b ≠ 0) :
    (divU64 a b : Outcome ε UInt64) = .ok (a / b) :=
  if_neg nonzero

theorem remU64_of_ne_zero {a b : UInt64} (nonzero : b ≠ 0) :
    (remU64 a b : Outcome ε UInt64) = .ok (a % b) :=
  if_neg nonzero

/-- A returned sum is the wrapping sum, which in a build with overflow checks
is the exact one. -/
theorem addU64_eq_ok {platform : Platform} {a b sum : UInt64} :
    (addU64 platform a b : Outcome ε UInt64) = .ok sum ↔
      sum = a + b ∧
        (platform.overflowChecks = true → a.toNat + b.toNat < 2 ^ 64) := by
  unfold addU64
  split
  next overflows =>
    constructor
    · intro impossible
      cases impossible
    · rintro ⟨_, fits⟩
      exact absurd (fits overflows.1) (by omega)
  next inRange =>
    simp only [Outcome.ok.injEq]
    constructor
    · rintro rfl
      refine ⟨rfl, fun checked => ?_⟩
      by_contra reaches
      exact inRange ⟨checked, by omega⟩
    · rintro ⟨rfl, _⟩
      rfl

theorem toNat_add_of_lt {a b : UInt64} (fits : a.toNat + b.toNat < 2 ^ 64) :
    (a + b).toNat = a.toNat + b.toNat := by
  rw [UInt64.toNat_add, Nat.mod_eq_of_lt fits]

theorem toNat_ofNat_of_lt {n : Nat} (fits : n < 2 ^ 64) :
    (UInt64.ofNat n).toNat = n := by
  rw [UInt64.toNat_ofNat', Nat.mod_eq_of_lt fits]

/-- `a.checked_add(b)` on `usize`. -/
def checkedAddUsize (platform : Platform) (a b : Nat) : Option Nat :=
  if a + b < 2 ^ platform.usizeBits then some (a + b) else none

/-- `a.checked_mul(b)` on `usize`. -/
def checkedMulUsize (platform : Platform) (a b : Nat) : Option Nat :=
  if a * b < 2 ^ platform.usizeBits then some (a * b) else none

/-- `a + b` on `usize`. -/
def addUsize (platform : Platform) (a b : Nat) : Outcome ε Nat :=
  if a + b < 2 ^ platform.usizeBits then .ok (a + b)
  else if platform.overflowChecks then .panic .addOverflow
  else .ok ((a + b) % 2 ^ platform.usizeBits)

/-- A wrapped sum is smaller than both of its terms. -/
theorem eq_add_of_addUsize_eq_ok {platform : Platform} {a b sum : Nat}
    (small : b < 2 ^ platform.usizeBits)
    (added : (addUsize platform a b : Outcome ε Nat) = .ok sum) (le : a ≤ sum) :
    sum = a + b := by
  unfold addUsize at added
  split at added
  · cases added
    rfl
  · next wraps =>
      split at added
      · cases added
      · cases added
        rw [Nat.mod_eq_sub_mod (Nat.not_lt.mp wraps)] at le
        have wrapped := Nat.mod_le (a + b - 2 ^ platform.usizeBits)
          (2 ^ platform.usizeBits)
        omega

/-- `a.checked_add(b)` on `u64`. -/
def checkedAddU64 (a b : UInt64) : Option UInt64 :=
  if a.toNat + b.toNat < 2 ^ 64 then some (a + b) else none

/-- `a.checked_mul(b)` on `u64`. -/
def checkedMulU64 (a b : UInt64) : Option UInt64 :=
  if a.toNat * b.toNat < 2 ^ 64 then some (a * b) else none

/-- `a.div_ceil(b)` on `u64`. -/
def divCeilU64 (a b : UInt64) : Outcome ε Nat :=
  if b = 0 then .panic .divideByZero
  else .ok ((a.toNat + b.toNat - 1) / b.toNat)

/-! ## Signed integers -/

/-- The two's complement reading of an unsigned integer. -/
theorem toInt_toInt64 (n : UInt64) :
    n.toInt64.toInt =
      if n.toNat < 2 ^ 63 then (n.toNat : Int) else n.toNat - 2 ^ 64 := by
  have bound := n.toNat_lt
  rw [← Int64.toInt_toBitVec, UInt64.toBitVec_toInt64, BitVec.toInt_eq_toNat_cond,
    UInt64.toNat_toBitVec]
  split <;> split <;> omega

theorem toInt_toInt64_of_lt {n : UInt64} (small : n.toNat < 2 ^ 63) :
    n.toInt64.toInt = n.toNat := by
  rw [toInt_toInt64, if_pos small]

/-- An integer that is not negative is the same in unsigned form. -/
theorem toNat_toUInt64_of_nonneg {n : Int64} (nonneg : 0 ≤ n.toInt) :
    (n.toUInt64.toNat : Int) = n.toInt := by
  have le : 0 ≤ n := by rwa [Int64.le_iff_toInt_le, Int64.toInt_zero]
  rw [Int64.toNat_toUInt64_of_le le, Int64.toNatClampNeg, Int.toNat_of_nonneg nonneg]

/-- The sum of a position and a distance is exact modulo `2 ^ 64` in every build. -/
theorem toInt_emod_of_addI64_eq_ok
    {platform : Platform} {base : UInt64} {distance sum : Int64}
    (added : (addI64 platform base.toInt64 distance : Outcome ε Int64) = .ok sum) :
    sum.toInt % 2 ^ 64 = (base.toNat + distance.toInt) % 2 ^ 64 := by
  have cast := toInt_toInt64 base
  unfold addI64 at added
  split at added
  · cases added
  · cases added
    have wrapped : (base.toInt64 + distance).toInt % 2 ^ 64 =
        (base.toInt64.toInt + distance.toInt) % 2 ^ 64 := by
      rw [Int64.toInt_add]
      exact Int.bmod_emod
    rw [wrapped, cast]
    split <;> omega

/-- A sum of a position and a distance that stays in range is exact in every
build. -/
theorem addI64_of_exact
    {platform : Platform} {a b : Int64} {n : Nat}
    (cast : a.toInt = n) (fits : n + b.toInt < 2 ^ 63) :
    ∃ sum, (addI64 platform a b : Outcome ε Int64) = .ok sum ∧
      sum.toInt = n + b.toInt := by
  have low := b.le_toInt
  have exact : (a + b).toInt = n + b.toInt := by
    rw [Int64.toInt_add, cast]
    exact Int.bmod_eq_of_le (by omega) (by omega)
  refine ⟨a + b, ?_, exact⟩
  rw [addI64, if_neg]
  rintro ⟨-, differs⟩
  exact differs (by rw [exact, cast])

/-! ## How arithmetic can panic -/

section PanicsOnly

variable {reasons : Panic → Prop} (platform : Platform)

theorem panicsOnly_addU64
    (allowed : platform.overflowChecks = true → reasons .addOverflow) (a b : UInt64) :
    Outcome.PanicsOnly reasons (addU64 platform a b : Outcome ε UInt64) := by
  unfold addU64
  split
  next overflows => exact .panic (allowed overflows.1)
  · exact .ok _

theorem panicsOnly_addI64
    (allowed : platform.overflowChecks = true → reasons .addOverflow) (a b : Int64) :
    Outcome.PanicsOnly reasons (addI64 platform a b : Outcome ε Int64) := by
  unfold addI64
  split
  next overflows => exact .panic (allowed overflows.1)
  · exact .ok _

theorem panicsOnly_addUsize
    (allowed : platform.overflowChecks = true → reasons .addOverflow) (a b : Nat) :
    Outcome.PanicsOnly reasons (addUsize platform a b : Outcome ε Nat) := by
  unfold addUsize
  split
  · exact .ok _
  · split
    next checked => exact .panic (allowed checked)
    · exact .ok _

end PanicsOnly

end Rust
