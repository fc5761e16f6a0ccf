import Mathlib.Algebra.Ring.Int.Defs
import Mathlib.Algebra.Ring.Nat

/-!
# Casts between machine integers

The two's complement reading of 64 bits. A `usize` is a natural number and an `i64` an
integer; the casts are total and take any number to the one its low 64 bits stand for. What
a program relies on is that they change nothing in range and that one undoes the other.
-/

namespace Rustfs.Library

/-- `as i64` of a `usize` or a `u64`. -/
def asI64 (value : Nat) : Int := (value : Int).bmod (2 ^ 64)

/-- `as usize` of an `i64`. -/
def asUsize (value : Int) : Nat := (value % 2 ^ 64).toNat

/-- The value of a sum of `i64` that wraps around. -/
def wrapI64 (value : Int) : Int := value.bmod (2 ^ 64)

theorem wrap_of_small {value : Int} (low : -2 ^ 63 ≤ value) (high : value < 2 ^ 63) :
    wrapI64 value = value := by
  apply Int.bmod_eq_of_le
  all_goals omega

variable {value : Nat}

theorem as_i64_of_lt (small : value < 2 ^ 63) : asI64 value = value := by
  apply wrap_of_small
  all_goals omega

theorem as_usize_of_lt (small : value < 2 ^ 64) : asUsize (value : Int) = value := by
  unfold asUsize
  omega

theorem as_usize_as_i64 (small : value < 2 ^ 64) : asUsize (asI64 value) = value := by
  have reduced : asI64 value % 2 ^ 64 = (value : Int) % 2 ^ 64 := Int.bmod_emod
  have back : asUsize (value : Int) = value := as_usize_of_lt small
  unfold asUsize at back ⊢
  rw [reduced, back]

end Rustfs.Library
