import Mathlib.Algebra.Order.Ring.Int
import Mathlib.Order.Interval.Set.UnorderedInterval

/-!
# Signed integers of C

Signed arithmetic on words of any width, where an operation whose result does not fit
is undefined: the operations are partial, and one equation for each says when they are
defined and what they give, over the integers.

## Main definitions

* `CInt.checked` — an integer as a word, if it fits
* `CInt.add`, `CInt.sub`, `CInt.mul`, `CInt.div`, `CInt.rem` — the operations
* `CInt.CountDown` — the passes of a loop `while (x--)`

## Main results

* `CInt.countDown_iff` — such a loop ends exactly if it starts at 0 or above
-/

namespace CInt

variable {w v k : ℕ} {x y r : BitVec w} {z : ℤ}

/-- The integer as a word of width `w`, if it is one. -/
def checked (w : ℕ) (z : ℤ) : Option (BitVec w) :=
  if (BitVec.ofInt w z).toInt = z then some (BitVec.ofInt w z) else none

theorem checked_eq_some_iff : checked w z = some r ↔ r.toInt = z := by
  unfold checked
  constructor
  · intro fits
    obtain ⟨same, value⟩ := Option.ite_none_right_eq_some.mp fits
    cases value
    exact same
  · rintro rfl
    rw [BitVec.ofInt_toInt, if_pos rfl]

/-- The integers that are words. -/
theorem exists_toInt_eq_iff (positive : 0 < w) :
    (∃ r : BitVec w, r.toInt = z) ↔ -2 ^ (w - 1) ≤ z ∧ z < 2 ^ (w - 1) := by
  constructor
  · rintro ⟨r, rfl⟩
    exact ⟨r.le_toInt, BitVec.toInt_lt⟩
  · rintro ⟨low, high⟩
    exact ⟨_, BitVec.toInt_ofInt_eq_self positive low high⟩

theorem exists_checked_iff (positive : 0 < w) :
    (∃ r, checked w z = some r) ↔ -2 ^ (w - 1) ≤ z ∧ z < 2 ^ (w - 1) := by
  simp only [checked_eq_some_iff]
  exact exists_toInt_eq_iff positive

/-! ## The operations -/

/-- `x + y` -/
def add (x y : BitVec w) : Option (BitVec w) := checked w (x.toInt + y.toInt)

/-- `x - y` -/
def sub (x y : BitVec w) : Option (BitVec w) := checked w (x.toInt - y.toInt)

/-- `x * y` -/
def mul (x y : BitVec w) : Option (BitVec w) := checked w (x.toInt * y.toInt)

/-- `x / y`, which truncates towards 0. -/
def div (x y : BitVec w) : Option (BitVec w) :=
  if y.toInt = 0 then none else checked w (x.toInt.tdiv y.toInt)

/-- `x % y`, which has a value where `x / y` has one. -/
def rem (x y : BitVec w) : Option (BitVec w) :=
  (div x y).bind fun _ => checked w (x.toInt.tmod y.toInt)

theorem add_eq_some_iff : add x y = some r ↔ r.toInt = x.toInt + y.toInt := checked_eq_some_iff

theorem sub_eq_some_iff : sub x y = some r ↔ r.toInt = x.toInt - y.toInt := checked_eq_some_iff

theorem mul_eq_some_iff : mul x y = some r ↔ r.toInt = x.toInt * y.toInt := checked_eq_some_iff

theorem div_eq_some_iff :
    div x y = some r ↔ y.toInt ≠ 0 ∧ r.toInt = x.toInt.tdiv y.toInt := by
  rw [div, Option.ite_none_left_eq_some, checked_eq_some_iff]

theorem rem_eq_some_iff : rem x y = some r ↔
    (∃ q, div x y = some q) ∧ r.toInt = x.toInt.tmod y.toInt := by
  rw [rem, Option.bind_eq_some_iff]
  simp only [checked_eq_some_iff]
  constructor
  · rintro ⟨q, quotient, value⟩
    exact ⟨⟨q, quotient⟩, value⟩
  · rintro ⟨⟨q, quotient⟩, value⟩
    exact ⟨q, quotient, value⟩

/-! ## Quotients -/

/-- A quotient times its divisor does not leave the way from 0 to the dividend. -/
theorem mul_tdiv_mem_uIcc (a b : ℤ) : b * a.tdiv b ∈ Set.uIcc 0 a := by
  have nonneg : ∀ a : ℤ, 0 ≤ a → 0 ≤ b * a.tdiv b := by
    intro a ha
    rcases le_total 0 b with hb | hb
    · exact mul_nonneg hb (Int.tdiv_nonneg ha hb)
    · exact mul_nonneg_of_nonpos_of_nonpos hb (Int.tdiv_nonpos_of_nonneg_of_nonpos ha hb)
  rcases le_total 0 a with ha | ha
  · exact Set.mem_uIcc_of_le (nonneg a ha) (Int.mul_tdiv_self_le ha)
  · -- the quotient of the negated dividend, negated
    have flipped : (-a).tdiv b = -a.tdiv b := Int.neg_tdiv a b
    have low := nonneg (-a) (by omega)
    have high := Int.mul_tdiv_self_le (k := b) (show 0 ≤ -a by omega)
    rw [flipped, mul_neg] at low high
    exact Set.mem_uIcc_of_ge (by omega) (by omega)

/-- The quotient is 0 exactly if the dividend is the smaller of the two. -/
theorem tdiv_eq_zero_iff {a b : ℤ} (nonzero : b ≠ 0) : a.tdiv b = 0 ↔ a.natAbs < b.natAbs := by
  rw [← Int.natAbs_eq_zero, Int.natAbs_tdiv]
  exact Nat.div_eq_zero_iff_lt (Int.natAbs_pos.mpr nonzero)

/-- By a positive divisor the quotient is negative only if a negative dividend reaches it. -/
theorem tdiv_nonneg_iff {a b : ℤ} (positive : 0 < b) : 0 ≤ a.tdiv b ↔ -b < a := by
  rcases le_total 0 a with ha | ha
  · exact iff_of_true (Int.tdiv_nonneg ha positive.le) (by omega)
  · have flipped : (-a).tdiv b = -a.tdiv b := Int.neg_tdiv a b
    have nonpos := Int.tdiv_nonneg (show 0 ≤ -a by omega) positive.le
    have zero : 0 ≤ a.tdiv b ↔ a.tdiv b = 0 := by omega
    rw [zero, tdiv_eq_zero_iff positive.ne']
    omega

/-- A remainder is negative only if a negative dividend leaves one. -/
theorem tmod_nonneg_iff {a b : ℤ} : 0 ≤ a.tmod b ↔ 0 ≤ a ∨ b ∣ a := by
  constructor
  · intro nonneg
    rcases le_total 0 a with ha | ha
    · exact .inl ha
    · have flipped := Int.tmod_nonneg b (show 0 ≤ -a by omega)
      rw [Int.neg_tmod] at flipped
      exact .inr (Int.dvd_of_tmod_eq_zero (by omega))
  · rintro (ha | divides)
    · exact Int.tmod_nonneg b ha
    · rw [Int.tmod_eq_zero_of_dvd divides]

/-! ## Counting down -/

/-- `while (x--)` makes `k` passes and ends, with no value on its way that does not fit. -/
inductive CountDown : BitVec w → ℕ → Prop
  | done {x r : BitVec w} (next : sub x 1 = some r) (zero : x.toInt = 0) : CountDown x 0
  | pass {x r : BitVec w} {k : ℕ} (next : sub x 1 = some r) (nonzero : x.toInt ≠ 0)
      (rest : CountDown r k) : CountDown x (k + 1)

/-- The decrement of a count fits, at 0 too. -/
theorem exists_pred (wide : 1 < w) (nonneg : 0 ≤ x.toInt) : ∃ r, sub x 1 = some r := by
  have one : (1 : BitVec w).toInt = 1 := BitVec.toInt_one wide
  have least : (0 : ℤ) < 2 ^ (w - 1) := Int.pow_pos (by decide)
  have most : x.toInt < 2 ^ (w - 1) := BitVec.toInt_lt
  refine (exists_checked_iff (by omega)).mpr ?_
  rw [one]
  constructor
  · omega
  · omega

/-- It makes as many passes as it counts, and from below 0 it does not end. -/
theorem countDown_iff (wide : 1 < w) : CountDown x k ↔ x.toInt = k := by
  have one : (1 : BitVec w).toInt = 1 := BitVec.toInt_one wide
  constructor
  · intro count
    induction count with
    | done next zero => exact zero
    -- the decrement fits, so that one pass takes one off
    | pass next nonzero rest ih =>
      rw [sub_eq_some_iff, one, ih] at next
      omega
  · intro value
    induction k generalizing x with
    | zero =>
      obtain ⟨r, next⟩ := exists_pred wide (x := x) (by omega)
      exact .done next value
    -- above 0 the loop goes on
    | succ k ih =>
      obtain ⟨r, next⟩ := exists_pred wide (x := x) (by omega)
      have before := next
      rw [sub_eq_some_iff, one] at before
      exact .pass next (by omega) (ih (by omega))

end CInt
