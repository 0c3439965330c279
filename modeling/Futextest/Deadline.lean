import Futextest.CInt

/-!
# The deadline of `unit_test`

`futex_requeue_pi` adds the timeout to a reading of the clock, in the two fields of a
`struct timespec`: the seconds by a sum of type `long`, the nanoseconds by one of type
`int64_t`. Both divide with truncation.

## Main definitions

* `deadline` — what `unit_test` makes of the clock reading
* `Timespec.Valid` — what the kernel accepts

## Main results

* `deadline_eq_some_iff` — when the deadline has a value, and which
* `deadline_total` — it is the sum of reading and timeout
-/

/-- `struct timespec`. -/
structure Timespec where
  sec : ℤ
  nsec : ℤ
  deriving DecidableEq

/-- A `struct timespec` whose `time_t` has `t` bits and whose `long` has `l`. -/
structure TimespecWords (t l : ℕ) where
  tvSec : BitVec t
  tvNsec : BitVec l
  deriving DecidableEq

namespace TimespecWords

variable {t l : ℕ}

/-- The values of the two fields. -/
def toTimespec (ts : TimespecWords t l) : Timespec := ⟨ts.tvSec.toInt, ts.tvNsec.toInt⟩

/-- The nanoseconds are less than a second, as in every reading of a clock. -/
def Normal (ts : TimespecWords t l) : Prop :=
  0 ≤ ts.tvNsec.toInt ∧ ts.tvNsec.toInt < 1000000000

/-- The seconds are far from the limits of their type. -/
def FarFromLimits (ts : TimespecWords t l) : Prop :=
  -2 ^ (t - 1) + 4 ≤ ts.tvSec.toInt ∧ ts.tvSec.toInt + 4 < 2 ^ (t - 1)

end TimespecWords

namespace Timespec

/-- All of it in nanoseconds. -/
def total (ts : Timespec) : ℤ := ts.sec * 1000000000 + ts.nsec

/-- What the kernel accepts as a timeout; it answers everything else with `EINVAL`. -/
def Valid (ts : Timespec) : Prop := 0 ≤ ts.sec ∧ 0 ≤ ts.nsec ∧ ts.nsec < 1000000000

instance (ts : Timespec) : Decidable ts.Valid := inferInstanceAs (Decidable (_ ∧ _))

end Timespec

/-! ## The deadline of `unit_test` -/

section Deadline

variable {t l : ℕ}

/-- The lines of `unit_test` that make the clock reading `ts` the deadline. They have no
value where a signed operation overflows. -/
def deadline (ts : TimespecWords t l) (timeoutNs : BitVec l) : Option (TimespecWords t l) := do
  -- `time_t secs = (ts.tv_nsec + timeout_ns) / 1000000000;`
  let sum ← CInt.add ts.tvNsec timeoutNs
  let secs ← CInt.div sum (.ofInt l 1000000000)
  -- `ts.tv_nsec = ((int64_t)ts.tv_nsec + timeout_ns) % 1000000000;`
  let sum64 ← CInt.add (ts.tvNsec.signExtend 64) (timeoutNs.signExtend 64)
  let nsec ← CInt.rem sum64 (.ofInt 64 1000000000)
  -- `ts.tv_sec += secs;`
  let sec ← CInt.add ts.tvSec (secs.signExtend t)
  return ⟨sec, nsec.signExtend l⟩

variable {ts ts' : TimespecWords t l} {timeoutNs : BitVec l}

theorem toInt_ofInt_billion (long : 32 ≤ l) : (BitVec.ofInt l 1000000000).toInt = 1000000000 := by
  have room : (2 : ℤ) ^ 31 ≤ 2 ^ (l - 1) := by
    exact_mod_cast Nat.pow_le_pow_right (by decide) (by omega)
  exact BitVec.toInt_ofInt_eq_self (by omega) (by omega) (by omega)

/-- Values of a few seconds survive every conversion. -/
theorem toInt_signExtend_of_small {v w : ℕ} {x : BitVec v} (wide : 32 ≤ w)
    (small : -2 ^ 31 ≤ x.toInt ∧ x.toInt < 2 ^ 31) : (x.signExtend w).toInt = x.toInt := by
  have room : (2 : ℤ) ^ 31 ≤ 2 ^ (w - 1) := by
    exact_mod_cast Nat.pow_le_pow_right (by decide) (by omega)
  exact BitVec.toInt_ofInt_eq_self (by omega) (by omega) (by omega)

/-- Quotient and remainder of a sum of reading and timeout are small. -/
theorem seconds_small (sum : ℤ) (small : -2 ^ 31 ≤ sum ∧ sum < 2 ^ 31 + 1000000000) :
    (-3 ≤ sum.tdiv 1000000000 ∧ sum.tdiv 1000000000 ≤ 4) ∧
      -1000000000 < sum.tmod 1000000000 ∧ sum.tmod 1000000000 < 1000000000 := by
  have split := Int.mul_tdiv_add_tmod sum 1000000000
  have below := Int.tmod_lt_of_pos sum (show (0 : ℤ) < 1000000000 by decide)
  have above := Int.lt_tmod_of_pos sum (show (0 : ℤ) < 1000000000 by decide)
  omega

/-- The deadline has a value if the sum fits in a `long` and the new seconds in a `time_t`,
and then it is quotient and remainder of the sum. -/
theorem deadline_eq_some_iff (long : 32 ≤ l) (word : l ≤ 64) (time : 32 ≤ t) (normal : ts.Normal)
    (small : -2 ^ 31 ≤ timeoutNs.toInt ∧ timeoutNs.toInt < 2 ^ 31) :
    deadline ts timeoutNs = some ts' ↔
      ts.tvNsec.toInt + timeoutNs.toInt < 2 ^ (l - 1) ∧
      ts'.tvSec.toInt =
        ts.tvSec.toInt + (ts.tvNsec.toInt + timeoutNs.toInt).tdiv 1000000000 ∧
      ts'.tvNsec.toInt = (ts.tvNsec.toInt + timeoutNs.toInt).tmod 1000000000 := by
  obtain ⟨least, most⟩ := normal
  obtain ⟨⟨low, high⟩, below, above⟩ := seconds_small
    (ts.tvNsec.toInt + timeoutNs.toInt) ⟨by omega, by omega⟩
  -- a `long` has at least the range of an `int`
  have room : (2 : ℤ) ^ 31 ≤ 2 ^ (l - 1) := by
    exact_mod_cast Nat.pow_le_pow_right (by decide) (by omega)
  have one := toInt_ofInt_billion long
  have one64 := toInt_ofInt_billion (l := 64) (by decide)
  simp only [deadline, Option.bind_eq_bind, Option.bind_eq_some_iff, Option.pure_def,
    Option.some.injEq, CInt.add_eq_some_iff, CInt.div_eq_some_iff, CInt.rem_eq_some_iff, one, one64,
    BitVec.toInt_signExtend_of_le word]
  constructor
  · -- every operation on the way has its value
    rintro ⟨sum, added, secs, ⟨-, quotient⟩, sum64, added64, nsec, ⟨-, remainder⟩, sec, carried,
      rfl⟩
    rw [added] at quotient
    rw [added64] at remainder
    refine ⟨?_, ?_, ?_⟩
    · rw [← added]
      exact sum.toInt_lt
    · rw [carried, toInt_signExtend_of_small time (by omega), quotient]
    · rw [toInt_signExtend_of_small long (by omega), remainder]
  · -- all the others fit, being made of a few seconds
    rintro ⟨fits, seconds, nanoseconds⟩
    obtain ⟨sum, added⟩ := (CInt.exists_toInt_eq_iff (w := l)
      (z := ts.tvNsec.toInt + timeoutNs.toInt) (by omega)).mpr ⟨by omega, fits⟩
    obtain ⟨secs, quotient⟩ := (CInt.exists_toInt_eq_iff (w := l)
      (z := (ts.tvNsec.toInt + timeoutNs.toInt).tdiv 1000000000) (by omega)).mpr
      ⟨by omega, by omega⟩
    obtain ⟨sum64, added64⟩ := (CInt.exists_toInt_eq_iff (w := 64)
      (z := ts.tvNsec.toInt + timeoutNs.toInt) (by decide)).mpr ⟨by omega, by omega⟩
    obtain ⟨secs64, quotient64⟩ := (CInt.exists_toInt_eq_iff (w := 64)
      (z := (ts.tvNsec.toInt + timeoutNs.toInt).tdiv 1000000000) (by decide)).mpr
      ⟨by omega, by omega⟩
    obtain ⟨nsec, remainder⟩ := (CInt.exists_toInt_eq_iff (w := 64)
      (z := (ts.tvNsec.toInt + timeoutNs.toInt).tmod 1000000000) (by decide)).mpr
      ⟨by omega, by omega⟩
    refine ⟨sum, added, secs, ⟨by decide, ?_⟩, sum64, added64, nsec,
      ⟨⟨secs64, by decide, ?_⟩, ?_⟩, ts'.tvSec, ?_, ?_⟩
    · rw [added, quotient]
    · rw [added64, quotient64]
    · rw [added64, remainder]
    · rw [seconds, toInt_signExtend_of_small time (by omega), quotient]
    · have same : nsec.signExtend l = ts'.tvNsec := by
        apply BitVec.eq_of_toInt_eq
        rw [toInt_signExtend_of_small long (by omega), remainder, nanoseconds]
      rw [same]

/-- The seconds of the deadline fit in a `time_t`. -/
theorem exists_deadline_iff (long : 32 ≤ l) (word : l ≤ 64) (time : 32 ≤ t) (normal : ts.Normal)
    (small : -2 ^ 31 ≤ timeoutNs.toInt ∧ timeoutNs.toInt < 2 ^ 31) :
    (∃ ts', deadline ts timeoutNs = some ts') ↔
      ts.tvNsec.toInt + timeoutNs.toInt < 2 ^ (l - 1) ∧
      -2 ^ (t - 1) ≤
        ts.tvSec.toInt + (ts.tvNsec.toInt + timeoutNs.toInt).tdiv 1000000000 ∧
      ts.tvSec.toInt + (ts.tvNsec.toInt + timeoutNs.toInt).tdiv 1000000000 < 2 ^ (t - 1) := by
  simp only [deadline_eq_some_iff long word time normal small]
  constructor
  · rintro ⟨ts', fits, seconds, -⟩
    exact ⟨fits, (CInt.exists_toInt_eq_iff (by omega)).mp ⟨_, seconds⟩⟩
  · rintro ⟨fits, room⟩
    obtain ⟨least, most⟩ := normal
    obtain ⟨-, below, above⟩ := seconds_small
      (ts.tvNsec.toInt + timeoutNs.toInt) ⟨by omega, by omega⟩
    have wide : (2 : ℤ) ^ 31 ≤ 2 ^ (l - 1) := by
      exact_mod_cast Nat.pow_le_pow_right (by decide) (by omega)
    obtain ⟨sec, seconds⟩ := (CInt.exists_toInt_eq_iff (by omega)).mpr room
    obtain ⟨nsec, nanoseconds⟩ := (CInt.exists_toInt_eq_iff (w := l)
      (z := (ts.tvNsec.toInt + timeoutNs.toInt).tmod 1000000000) (by omega)).mpr
      ⟨by omega, by omega⟩
    exact ⟨⟨sec, nsec⟩, fits, seconds, nanoseconds⟩

/-- A deadline is the sum of reading and timeout whenever it has a value. -/
theorem deadline_total (long : 32 ≤ l) (word : l ≤ 64) (time : 32 ≤ t) (normal : ts.Normal)
    (small : -2 ^ 31 ≤ timeoutNs.toInt ∧ timeoutNs.toInt < 2 ^ 31)
    (value : deadline ts timeoutNs = some ts') :
    ts'.toTimespec.total = ts.toTimespec.total + timeoutNs.toInt := by
  obtain ⟨-, seconds, nanoseconds⟩ :=
    (deadline_eq_some_iff long word time normal small).mp value
  have split := Int.mul_tdiv_add_tmod (ts.tvNsec.toInt + timeoutNs.toInt) 1000000000
  simp only [Timespec.total, TimespecWords.toTimespec, seconds, nanoseconds]
  omega

end Deadline
