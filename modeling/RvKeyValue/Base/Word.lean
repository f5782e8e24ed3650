import Mathlib.Algebra.Order.Ring.Nat

/-!
# Unsigned 64-bit arithmetic on natural numbers

A machine word is a natural number below `2 ^ 64`. Addition and subtraction wrap; the
lemmas give the exact result where nothing wraps.
-/

namespace Word

/-- The number of 64-bit words. -/
def limit : Nat := 2 ^ 64

/-- Wrapping addition. -/
def add (left right : Nat) : Nat := (left + right) % limit

/-- Wrapping subtraction. -/
def sub (left right : Nat) : Nat := (left + limit - right) % limit

/-- Addition is exact below the limit. -/
theorem add_eq {left right : Nat} (fits : left + right < limit) : add left right = left + right :=
  Nat.mod_eq_of_lt fits

/-- Subtraction is exact when it does not go below zero. -/
theorem sub_eq {left right : Nat} (fits : left < limit) (le : right ≤ left) :
    sub left right = left - right := by
  unfold sub
  have shift : left + limit - right = left - right + limit := by omega
  rw [shift, Nat.add_mod_right]
  exact Nat.mod_eq_of_lt (by omega)

end Word
