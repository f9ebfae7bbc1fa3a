import Mathlib.Algebra.Group.Nat.Defs

/-!
# Unsigned arithmetic of a fixed width

Numbers below `2 ^ w` with the sum and the difference that an unsigned type
of `w` bits computes, and the closed forms they have for operands of the range.
-/

namespace Yatwb.Foundation.Word

/-- The sum, modulo `2 ^ w`. -/
def add (w a b : Nat) : Nat := (a + b) % 2 ^ w

/-- The difference, modulo `2 ^ w`. -/
def sub (w a b : Nat) : Nat := (a + 2 ^ w - b) % 2 ^ w

variable {w a b : Nat}

theorem add_of_lt (h : a + b < 2 ^ w) : add w a b = a + b := Nat.mod_eq_of_lt h

/-- Two numbers of the range wrap at most once. -/
theorem add_of_le (ha : a < 2 ^ w) (hb : b < 2 ^ w) (h : 2 ^ w ≤ a + b) :
    add w a b = a + b - 2 ^ w := by
  rw [add, Nat.mod_eq_sub_mod h, Nat.mod_eq_of_lt (by omega)]

theorem sub_of_le (h : b ≤ a) (ha : a < 2 ^ w) : sub w a b = a - b := by
  have hwrap : a + 2 ^ w - b = a - b + 2 ^ w := by omega
  rw [sub, hwrap, Nat.add_mod_right, Nat.mod_eq_of_lt (by omega)]

end Yatwb.Foundation.Word
