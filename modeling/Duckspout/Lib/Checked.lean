import Mathlib.Algebra.Order.Ring.Nat
import Mathlib.Data.Nat.Init

/-! Fixed-width unsigned arithmetic that gives no value where the machine's would trap: on a result that
    does not fit the width, on a difference below zero, on a division by zero. -/

namespace Checked

variable {bits a b : ℕ}

/-- The value, if it fits the width. -/
def fit (bits n : ℕ) : Option ℕ := if n < 2 ^ bits then some n else none

def add (bits a b : ℕ) : Option ℕ := fit bits (a + b)

def mul (bits a b : ℕ) : Option ℕ := fit bits (a * b)

def sub (a b : ℕ) : Option ℕ := if b ≤ a then some (a - b) else none

def div (a b : ℕ) : Option ℕ := if b = 0 then none else some (a / b)

theorem add_eq (h : a + b < 2 ^ bits) : add bits a b = some (a + b) := if_pos h

theorem mul_eq (h : a * b < 2 ^ bits) : mul bits a b = some (a * b) := if_pos h

theorem sub_eq (h : b ≤ a) : sub a b = some (a - b) := if_pos h

theorem div_eq (h : b ≠ 0) : div a b = some (a / b) := if_neg h

end Checked
