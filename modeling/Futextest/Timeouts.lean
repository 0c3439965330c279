import Futextest.RequeuePi
import Futextest.WaitTests

/-!
# The timeouts of `-t N`

`futex_requeue_pi` hands its waiters the deadline that it makes of the timeout and a reading
of the clock, and `futex_wait_timeout` the timeout as it is. Not every one of them is what
the option asks for, or what the kernel accepts.

## Main definitions

* `Exact` — the deadline is the sum of reading and timeout
* `RequeueAccepted`, `WaitAccepted` — what reaches the kernel is valid

## Main results

* `deadline_exact_iff` — the deadline is exact if the sum fits in a `long`
* `timeouts_wellFormed_iff` — for which timeouts the kernel gets a valid `timespec`
* `timeout_eq_invalid_iff` — for which of them the waits of `futex_requeue_pi` are refused
-/

/-! ## The deadline of `unit_test` -/

section Deadline

variable {t l : ℕ}

/-- The timeout that `-t` stores: `timeout_ns = atoi(optarg);`. -/
def timeoutNsOf (l : ℕ) (optarg : BitVec 32) : BitVec l := optarg.signExtend l

variable {ts ts' : TimespecWords t l}

/-- The deadline has a value, and it is the sum of the reading and `timeout`. -/
def Exact (ts : TimespecWords t l) (optarg : BitVec 32) : Prop :=
  ∃ ts', deadline ts (timeoutNsOf l optarg) = some ts' ∧
    ts'.toTimespec.total = ts.toTimespec.total + optarg.toInt

theorem toInt_timeoutNsOf (long : 32 ≤ l) (optarg : BitVec 32) :
    (timeoutNsOf l optarg).toInt = optarg.toInt := BitVec.toInt_signExtend_of_le long

/-- The deadline is exact whenever it has a value. -/
theorem exact_iff (long : 32 ≤ l) (word : l ≤ 64) (time : 32 ≤ t) (normal : ts.Normal)
    (optarg : BitVec 32) :
    Exact ts optarg ↔ ∃ ts', deadline ts (timeoutNsOf l optarg) = some ts' := by
  have small : -2 ^ 31 ≤ (timeoutNsOf l optarg).toInt ∧ (timeoutNsOf l optarg).toInt < 2 ^ 31 := by
    rw [toInt_timeoutNsOf long]
    exact ⟨optarg.le_toInt, optarg.toInt_lt⟩
  constructor
  · rintro ⟨ts', value, -⟩
    exact ⟨ts', value⟩
  · rintro ⟨ts', value⟩
    have total := deadline_total long word time normal small value
    rw [toInt_timeoutNsOf long] at total
    exact ⟨ts', value, total⟩

/-- **The deadline.** For a `long` of 32 or of 64 bits, every clock reading whose seconds
are far from their limits, and every timeout: the deadline is exact if and only if a `long`
has 64 bits or the nanoseconds of the reading and the timeout add up to less than `2 ^ 31`. -/
theorem deadline_exact_iff (long : l = 32 ∨ l = 64) (time : 32 ≤ t) (ts : TimespecWords t l)
    (normal : ts.Normal) (far : ts.FarFromLimits) (optarg : BitVec 32) :
    Exact ts optarg ↔ l = 64 ∨ ts.tvNsec.toInt + optarg.toInt < 2 ^ 31 := by
  have narrow : 32 ≤ l := by omega
  have low := optarg.le_toInt
  have high := optarg.toInt_lt
  have same := toInt_timeoutNsOf narrow optarg
  rw [exact_iff narrow (by omega) time normal,
    exists_deadline_iff narrow (by omega) time normal ⟨by omega, by omega⟩, same]
  obtain ⟨least, most⟩ := normal
  obtain ⟨room, room'⟩ := far
  obtain ⟨⟨before, after⟩, -⟩ := seconds_small (ts.tvNsec.toInt + optarg.toInt)
    ⟨by omega, by omega⟩
  -- the carry of a few seconds fits, so all depends on the sum
  have carried : -2 ^ (t - 1) ≤
        ts.tvSec.toInt + (ts.tvNsec.toInt + optarg.toInt).tdiv 1000000000 ∧
      ts.tvSec.toInt + (ts.tvNsec.toInt + optarg.toInt).tdiv 1000000000 < 2 ^ (t - 1) := by
    constructor
    · omega
    · omega
  rw [and_iff_left carried]
  rcases long with rfl | rfl
  · simp
  · refine iff_of_true ?_ (.inl rfl)
    have wide : (2 : ℤ) ^ (64 - 1) = 9223372036854775808 := rfl
    omega

/-- The longest timeout of `run.sh` late in a second, with a `long` of 64 bits. -/
theorem deadline_exact_iff_long :
    Exact (⟨1000, 999999999⟩ : TimespecWords 64 64) 2000000000 :=
  (deadline_exact_iff (.inr rfl) (by decide) ⟨1000, 999999999⟩ ⟨by decide, by decide⟩
    ⟨by decide, by decide⟩ 2000000000).mpr (.inl rfl)

/-- With a `long` of 32 bits the sum overflows. -/
theorem deadline_overflows :
    ¬ Exact (⟨1000, 999999999⟩ : TimespecWords 32 32) 2000000000 := by
  rintro ⟨ts', value, -⟩
  have none : deadline (⟨1000, 999999999⟩ : TimespecWords 32 32) (timeoutNsOf 32 2000000000) =
      none := by decide
  rw [none] at value
  cases value

end Deadline

/-! ## What reaches the kernel -/

/-- The deadline of `futex_requeue_pi` is valid, and stands for `optarg` nanoseconds from
the reading on. -/
def RequeueAccepted (ts : TimespecWords 64 64) (optarg : BitVec 32) : Prop :=
  ∃ ts', deadline ts (timeoutNsOf 64 optarg) = some ts' ∧ ts'.toTimespec.Valid ∧
    ts'.toTimespec.total = ts.toTimespec.total + optarg.toInt

/-- The timeout of `futex_wait_timeout` is valid, and stands for `optarg` nanoseconds. -/
def WaitAccepted (optarg : BitVec 32) : Prop :=
  (WaitTimeout.timeout (timeoutNsOf 64 optarg).toInt).Valid ∧
    (WaitTimeout.timeout (timeoutNsOf 64 optarg).toInt).total = optarg.toInt

theorem requeueAccepted_iff {ts : TimespecWords 64 64} (normal : ts.Normal) (optarg : BitVec 32) :
    RequeueAccepted ts optarg ↔
      (0 ≤ ts.tvNsec.toInt + optarg.toInt ∨
        (1000000000 : ℤ) ∣ ts.tvNsec.toInt + optarg.toInt) ∧
      0 ≤ ts.toTimespec.total + optarg.toInt ∧
      ts.toTimespec.total + optarg.toInt < 2 ^ 63 * 1000000000 := by
  have low := optarg.le_toInt
  have high := optarg.toInt_lt
  have same := toInt_timeoutNsOf (l := 64) (by decide) optarg
  have split := Int.mul_tdiv_add_tmod (ts.tvNsec.toInt + optarg.toInt) 1000000000
  -- the nanoseconds of the deadline are that remainder
  rw [← CInt.tmod_nonneg_iff]
  constructor
  · rintro ⟨ts', value, ⟨seconds, least, most⟩, total⟩
    obtain ⟨-, -, nanoseconds⟩ := (deadline_eq_some_iff (by decide) (by decide) (by decide) normal
      ⟨by omega, by omega⟩).mp value
    rw [same] at nanoseconds
    rw [← total]
    have bound := ts'.tvSec.toInt_lt
    simp only [Timespec.total, TimespecWords.toTimespec] at seconds least most ⊢
    refine ⟨by omega, by omega, by omega⟩
  · rintro ⟨remainder, least, most⟩
    have floor := normal.1
    have ceiling := normal.2
    obtain ⟨carry, below⟩ := seconds_small (ts.tvNsec.toInt + optarg.toInt)
      ⟨by omega, by omega⟩
    simp only [Timespec.total, TimespecWords.toTimespec] at least most
    obtain ⟨ts', value⟩ : ∃ ts', deadline ts (timeoutNsOf 64 optarg) = some ts' := by
      rw [exists_deadline_iff (by decide) (by decide) (by decide) normal ⟨by omega, by omega⟩,
        same]
      exact ⟨by omega, by omega, by omega⟩
    have total := deadline_total (by decide) (by decide) (by decide) normal
      ⟨by omega, by omega⟩ value
    obtain ⟨-, seconds, nanoseconds⟩ := (deadline_eq_some_iff (by decide) (by decide) (by decide)
      normal ⟨by omega, by omega⟩).mp value
    rw [same] at total seconds nanoseconds
    refine ⟨ts', value, ⟨?_, ?_, ?_⟩, total⟩
    · simp only [TimespecWords.toTimespec]
      omega
    · simp only [TimespecWords.toTimespec]
      omega
    · simp only [TimespecWords.toTimespec]
      omega

theorem waitAccepted_iff (optarg : BitVec 32) :
    WaitAccepted optarg ↔ 0 ≤ optarg.toInt ∧ optarg.toInt < 1000000000 := by
  have same := toInt_timeoutNsOf (l := 64) (by decide) optarg
  simp [WaitAccepted, same, WaitTimeout.timeout, Timespec.Valid, Timespec.total]

/-- **The timeouts.** For every value of `-t` and every clock reading: `futex_requeue_pi`
hands the kernel a valid deadline if and only if the sum of the nanoseconds is not below 0,
or is full seconds, and the deadline is not before the clock's zero nor past the range of
its seconds; and `futex_wait_timeout` a valid timeout if and only if that is less than a
second and not below 0. -/
theorem timeouts_wellFormed_iff (ts : TimespecWords 64 64) (normal : ts.Normal)
    (optarg : BitVec 32) :
    (RequeueAccepted ts optarg ↔
      (0 ≤ ts.tvNsec.toInt + optarg.toInt ∨
        (1000000000 : ℤ) ∣ ts.tvNsec.toInt + optarg.toInt) ∧
      0 ≤ ts.toTimespec.total + optarg.toInt ∧
      ts.toTimespec.total + optarg.toInt < 2 ^ 63 * 1000000000) ∧
    (WaitAccepted optarg ↔ 0 ≤ optarg.toInt ∧ optarg.toInt < 1000000000) :=
  ⟨requeueAccepted_iff normal optarg, waitAccepted_iff optarg⟩

theorem timeouts_wellFormed_iff_short :
    RequeueAccepted ⟨1000, 999999999⟩ 5000 ∧ WaitAccepted 5000 := by
  obtain ⟨requeue, wait⟩ := timeouts_wellFormed_iff ⟨1000, 999999999⟩ ⟨by decide, by decide⟩ 5000
  refine ⟨requeue.mpr ⟨.inl (by decide), by decide, by decide⟩, wait.mpr ?_⟩
  exact ⟨by decide, by decide⟩

/-- The waits of `unit_test` have a timeout that is accepted if there is one and it is. -/
theorem timeout_eq_valid_iff (u : RequeuePi.UnitTest) (normal : u.clock.Normal)
    (optarg : BitVec 32) (option : u.timeoutNs = optarg.toInt) :
    u.timeout = .valid ↔ optarg.toInt ≠ 0 ∧ RequeueAccepted u.clock optarg := by
  have same : BitVec.ofInt 64 u.timeoutNs = timeoutNsOf 64 optarg := by
    rw [option]
    rfl
  have timed : u.timed = true ↔ optarg.toInt ≠ 0 := by simp [RequeuePi.UnitTest.timed, option]
  have small := toInt_timeoutNsOf (l := 64) (by decide) optarg
  have low := optarg.le_toInt
  have high := optarg.toInt_lt
  rw [← timed, RequeuePi.UnitTest.timeout, same]
  cases u.timed with
  | false => simp
  | true =>
    cases value : deadline u.clock (timeoutNsOf 64 optarg) with
    | none => simp [RequeueAccepted, value]
    | some ts =>
      -- the sum is right whenever there is one
      have total := deadline_total (by decide) (by decide) (by decide) normal
        ⟨by omega, by omega⟩ value
      rw [small] at total
      by_cases valid : ts.toTimespec.Valid
      · simp [RequeueAccepted, value, valid, total]
      · simp [RequeueAccepted, value, valid]

/-- The waits of `unit_test` are refused if the sum of the nanoseconds is below 0 and not full
seconds, or the deadline before the clock's zero. -/
theorem timeout_eq_invalid_iff (u : RequeuePi.UnitTest) (normal : u.clock.Normal)
    (far : u.clock.FarFromLimits) (optarg : BitVec 32) (option : u.timeoutNs = optarg.toInt) :
    u.timeout = .invalid ↔ optarg.toInt ≠ 0 ∧
      (u.clock.tvNsec.toInt + optarg.toInt < 0 ∧
        ¬ (1000000000 : ℤ) ∣ u.clock.tvNsec.toInt + optarg.toInt ∨
      u.clock.toTimespec.total + optarg.toInt < 0) := by
  have never := u.timeout_eq_never_iff
  have valid := timeout_eq_valid_iff u normal optarg option
  have timed : u.timed = false ↔ optarg.toInt = 0 := by simp [RequeuePi.UnitTest.timed, option]
  have high := optarg.toInt_lt
  -- the seconds of the clock leave room for the sum
  have room : u.clock.toTimespec.total + optarg.toInt < 2 ^ 63 * 1000000000 := by
    have seconds := far.2
    have nanoseconds := normal.2
    simp only [Timespec.total, TimespecWords.toTimespec]
    omega
  have neither : u.timeout = .invalid ↔ u.timeout ≠ .never ∧ u.timeout ≠ .valid := by
    cases u.timeout <;> simp
  rw [requeueAccepted_iff normal, and_iff_left room] at valid
  rw [neither, ne_eq, ne_eq, never, timed, valid, ← not_le, ← not_le]
  tauto

/-- `-t 2000000000` is not valid in `futex_wait_timeout`, and `-t -1` not in
`futex_requeue_pi` just after a full second. -/
theorem timeouts_malformed :
    ¬ WaitAccepted 2000000000 ∧ ¬ RequeueAccepted ⟨1000, 0⟩ (-1) := by
  constructor
  · rintro ⟨⟨-, -, below⟩, -⟩
    exact absurd below (by decide)
  · rintro ⟨ts', value, ⟨-, least, -⟩, -⟩
    have result : deadline (⟨1000, 0⟩ : TimespecWords 64 64) (timeoutNsOf 64 (-1)) =
        some ⟨1000, -1⟩ := by decide
    rw [result] at value
    cases value
    exact absurd least (by decide)
