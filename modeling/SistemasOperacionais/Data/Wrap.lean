/-
**The values of `int` expressions.**

A sum or difference of `int` is what is left of it modulo `2 ^ 32`, between `-2 ^ 31` and `2 ^ 31 - 1`;
so is a wider value that is converted to `int`. Where an `int` has 16 bits it is modulo `2 ^ 16`.

* `int`, `int16` — the value of an expression.
* `int_eq` — **a value in the range is exact**; `int_inj` — values close together are told apart.
* `int16_sub` — the operands of a difference may be taken modulo `2 ^ 16` first.
-/

import Mathlib.Algebra.Order.Ring.Int

namespace Wrap

/-- The value of an `int` expression. -/
def int (value : ℤ) : ℤ := value.bmod 4294967296

/-- **A value in the range is exact.** -/
theorem int_eq {value : ℤ} (low : -2 ^ 31 ≤ value) (high : value ≤ 2 ^ 31 - 1) :
    int value = value :=
  Int.bmod_eq_of_le (by omega) (by omega)

/-- **A value above the range**, up to twice as large, comes out negative. -/
theorem int_above (value : ℤ) (low : 2 ^ 31 ≤ value) (high : value < 2 ^ 32) :
    int value = value - 2 ^ 32 := by
  have same : int value = int (value - 2 ^ 32) :=
    (Int.bmod_eq_bmod_iff_bmod_sub_eq_zero.mpr (by
      rw [Int.sub_sub_self]
      decide))
  rw [same, int_eq (by omega) (by omega)]

/-- The operands of a sum may be wrapped first. -/
theorem int_add (first second : ℤ) : int (int first + second) = int (first + second) :=
  Int.bmod_add_bmod

/-- **Two values less than `2 ^ 32` apart have two images.** -/
theorem int_inj {first second : ℤ} (same : int first = int second) (above : first - second < 2 ^ 32)
    (below : second - first < 2 ^ 32) : first = second := by
  have zero := Int.bmod_eq_bmod_iff_bmod_sub_eq_zero.mp same
  obtain ⟨k, times⟩ := Int.dvd_iff_bmod_eq_zero.mpr zero
  omega

/-- The value of an `int` expression, 16 bits wide. -/
def int16 (value : ℤ) : ℤ := value.bmod 65536

theorem int16_sub (first second : ℤ) : int16 (int16 first - second) = int16 (first - second) :=
  Int.bmod_sub_bmod

theorem int16_eq_zero_iff {value : ℤ} : int16 value = 0 ↔ (65536 : ℤ) ∣ value :=
  Int.dvd_iff_bmod_eq_zero.symm

end Wrap
