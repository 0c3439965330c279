import Mathlib.Data.Int.Basic

/-!
# Constants of the sources
-/

/-- `INT_MAX`. -/
def intMax : ℕ := 2147483647

/-- `RET_PASS`. -/
def retPass : ℤ := 0

/-- `RET_ERROR`. -/
def retError : ℤ := -1

/-- `RET_FAIL`. -/
def retFail : ℤ := -2
