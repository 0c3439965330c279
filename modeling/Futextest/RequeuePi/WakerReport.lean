import Mathlib.Algebra.BigOperators.Group.List.Basic
import Mathlib.Algebra.Order.BigOperators.Group.List
import Mathlib.Algebra.Order.Ring.Int
import Futextest.RequeuePi.Verdict
import Futextest.Syscalls.Alone

/-!
# What the wakers report

Both wakers add up the results of their requeues. They stop at an error, after a bounded
number of calls, or when enough waiters have been woken or requeued, and leave in
`waker_arg.ret` an error or the sum. `broadcast_wakerfn` tests the result of its last call
before it stores the sum, and loses the sum if that result is 0. `signal_wakerfn` stores
it then, too.

## Main definitions

* `UnitTest.wakerAlone` — the waker, when the others do anything
* `requeues`, `wokenReadings` — what its calls return, and what it reads in `waiters_woken`
* `report` — an error, or the sum of the results
* `LosesSum` — the last result is 0, and an earlier one is not

## Main results

* `waker_reports_iff` — the wakers stop and report what they did, except for `LosesSum`
* `test_reports_iff` — the same for every run of the test
* `broadcast_loses_sum` — a requeue of three waiters that is not reported
-/

namespace RequeuePi

open Syscalls UnitTest

/-! ## Sums of results -/

/-- The sum of the results. -/
def total (results : List SysResult) : ℤ := (results.map SysResult.ret).sum

/-- The last result, or 0 if there is none. -/
def lastRet (results : List SysResult) : ℤ := (results.getLast?.map SysResult.ret).getD 0

/-- A call has failed, or the calls have reached their cap. -/
def Failed (cap : ℕ) (results : List SysResult) : Prop :=
  (∃ r ∈ results, r.ret < 0) ∨ results.length = cap

instance (cap : ℕ) (results : List SysResult) : Decidable (Failed cap results) :=
  inferInstanceAs (Decidable (_ ∨ _))

/-- What a waker should leave in its result. -/
def report (cap : ℕ) (results : List SysResult) : ℤ :=
  if Failed cap results then retError else total results

/-- The last result of a waker that has not failed is 0, and an earlier one is not. -/
def LosesSum (cap : ℕ) (results : List SysResult) : Prop :=
  ¬ Failed cap results ∧ lastRet results = 0 ∧ ∃ r ∈ results, 0 < r.ret

/-- `futex_cmp_requeue_pi` fails with an error number, or it has woken or requeued some of
the waiters. -/
def ValidRequeue (r : SysResult) : Prop :=
  r.ret < 0 ∧ r.errno ≠ 0 ∨ 0 ≤ r.ret ∧ r.ret ≤ threadMax

variable {cap i : ℕ} {R R' : List SysResult} {r : SysResult} {taskCount ret : ℤ}

@[simp] theorem total_append : total (R ++ [r]) = total R + r.ret := by
  simp [total]

@[simp] theorem lastRet_append : lastRet (R ++ [r]) = r.ret := by
  simp [lastRet]

theorem total_le (le : ∀ r ∈ R, r.ret ≤ threadMax) : total R ≤ R.length * threadMax := by
  have sum := List.sum_le_card_nsmul (R.map SysResult.ret) threadMax (by simpa using le)
  simpa [total] using sum

theorem total_eq_zero_iff (fine : ∀ r ∈ R, 0 ≤ r.ret) : total R = 0 ↔ ¬ ∃ r ∈ R, 0 < r.ret := by
  constructor
  · rintro zero ⟨r, member, positive⟩
    have none := List.all_zero_of_le_zero_le_of_sum_eq_zero (by simpa using fine) zero
      (List.mem_map_of_mem member)
    omega
  · intro none
    refine List.sum_eq_zero ?_
    intro x member
    obtain ⟨r, listed, rfl⟩ := List.mem_map.mp member
    exact le_antisymm (not_lt.mp fun positive => none ⟨r, listed, positive⟩) (fine r listed)

theorem lastRet_nonneg (fine : ∀ r ∈ R, 0 ≤ r.ret) : 0 ≤ lastRet R := by
  unfold lastRet
  cases last : R.getLast? with
  | none => exact le_rfl
  | some r => exact fine r (List.mem_of_getLast? last)

/-- The loop of a waker goes on: none of its calls has failed, and they have not reached
their cap. -/
structure Going (cap : ℕ) (R : List SysResult) (taskCount : ℤ) (i : ℕ) : Prop where
  length : R.length = i
  below : i < cap
  fine : ∀ r ∈ R, 0 ≤ r.ret
  count : taskCount = total R

/-- The loop has been left, with `ret` in `args->ret`. -/
structure Left (cap : ℕ) (R : List SysResult) (taskCount ret : ℤ) : Prop where
  length : R.length ≤ cap
  ret : ret = if Failed cap R then retError else lastRet R
  count : ¬ Failed cap R → taskCount = total R

namespace Going

theorem start (positive : 0 < cap) : Going cap [] 0 0 where
  length := rfl
  below := positive
  fine := nofun
  count := rfl

/-- One more call, which does not fail. -/
theorem next (going : Going cap R taskCount i) (some : 0 ≤ r.ret) (below : i + 1 < cap) :
    Going cap (R ++ [r]) (taskCount + r.ret) (i + 1) where
  length := by rw [List.length_append, going.length, List.length_singleton]
  below := below
  fine r' member := by
    rcases List.mem_append.mp member with before | now
    · exact going.fine r' before
    · rw [List.mem_singleton.mp now]
      exact some
  count := by rw [total_append, going.count]

theorem not_failed (going : Going cap R taskCount i) : ¬ Failed cap R := by
  rintro (⟨r, member, negative⟩ | all)
  · exact absurd (going.fine r member) (not_le.mpr negative)
  · exact absurd (going.length.symm.trans all) going.below.ne

theorem length_le (going : Going cap R taskCount i) : R.length ≤ cap :=
  going.length.le.trans going.below.le

theorem length_append_le (going : Going cap R taskCount i) (r : SysResult) :
    (R ++ [r]).length ≤ cap := by
  rw [List.length_append, going.length]
  exact going.below

/-- One more call, which fails. -/
theorem failed_of_neg (negative : r.ret < 0) : Failed cap (R ++ [r]) :=
  .inl ⟨r, List.mem_append_right _ (List.mem_singleton_self r), negative⟩

/-- One more call, with which the cap is reached. -/
theorem failed_of_cap (going : Going cap R taskCount i) (last : ¬ i + 1 < cap) :
    Failed cap (R ++ [r]) := by
  have below := going.below
  refine .inr ?_
  rw [List.length_append, going.length, List.length_singleton]
  omega

/-- The loop is left without an error. -/
theorem left (going : Going cap R taskCount i) : Left cap R taskCount (lastRet R) where
  length := going.length_le
  ret := (if_neg going.not_failed).symm
  count _ := going.count

end Going

/-- The loop is left with an error. -/
theorem Left.of_failed (length : R.length ≤ cap) (failed : Failed cap R) :
    Left cap R taskCount retError where
  length := length
  ret := (if_pos failed).symm
  count fine := absurd failed fine

theorem fine_of_not_failed (fine : ¬ Failed cap R) : ∀ r ∈ R, 0 ≤ r.ret :=
  fun r member => not_lt.mp fun negative => fine (.inl ⟨r, member, negative⟩)

/-- After an error `args->ret` is negative, and else it is not. -/
theorem Left.failed_iff (left : Left cap R taskCount ret) : Failed cap R ↔ ret < 0 := by
  rw [left.ret]
  split_ifs with failed
  · exact iff_of_true failed (by decide)
  · exact iff_of_false failed (not_lt.mpr (lastRet_nonneg (fine_of_not_failed failed)))

/-! ## What the wakers keep -/

/-- `futex_cmp_requeue_pi`. -/
def isRequeue : FutexCall → Bool
  | .cmpRequeuePi .. => true
  | _ => false

/-- What `broadcast_wakerfn` has in `args->ret` at its end. -/
def broadcastReport (R : List SysResult) : ℤ :=
  if Failed maxWakeIters R then retError else if 0 < lastRet R then total R else lastRet R

/-- What `broadcast_wakerfn` has of the results so far. -/
def BroadcastTally (R : List SysResult) (ret : ℤ) : BroadcastPc → Prop
  | .poll | .lock => R = []
  | .load taskCount i | .requeue taskCount i _ => Going maxWakeIters R taskCount i
  | .store taskCount i r => ∃ R', R = R' ++ [r] ∧ Going maxWakeIters R' taskCount i
  | .test taskCount i r => Going maxWakeIters R taskCount i ∧ r = lastRet R ∧ ret = r
  | .setError _ => R.length ≤ maxWakeIters ∧ Failed maxWakeIters R
  | .wake taskCount r | .unlock taskCount r => Left maxWakeIters R taskCount r ∧ ret = r
  | .total taskCount => R.length ≤ maxWakeIters ∧ taskCount = broadcastReport R
  | .exit r => R.length ≤ maxWakeIters ∧ r = broadcastReport R ∧ ret = r

/-- What `signal_wakerfn` keeps of a result. An error becomes a negated error number. -/
def Shows (r : SysResult) (ret : ℤ) : Prop := r.ret < 0 ∧ ret < 0 ∨ 0 ≤ r.ret ∧ ret = r.ret

/-- The cap of `signal_wakerfn`. -/
def signalCap : ℕ := maxWakeIters + threadMax + 1

/-- What `signal_wakerfn` has of the results so far. -/
def SignalTally (R : List SysResult) (ret : ℤ) : SignalPc → Prop
  | .poll => R = [] ∧ ret = 0
  | .guard taskCount i r | .guardWoken taskCount i r =>
      Going signalCap R taskCount i ∧ r = lastRet R ∧ ret = r
  | .lock taskCount i | .load taskCount i | .requeue taskCount i _ => Going signalCap R taskCount i
  | .store taskCount i r => ∃ R', R = R' ++ [r] ∧ Going signalCap R' taskCount i
  | .negate taskCount i errno =>
      ∃ R' r, R = R' ++ [r] ∧ Going signalCap R' taskCount i ∧ r.ret < 0 ∧ errno = r.errno
  | .unlock taskCount i r' =>
      ∃ R' r, R = R' ++ [r] ∧ Going signalCap R' taskCount i ∧ Shows r r' ∧ ret = r'
  | .setError _ => R.length ≤ signalCap ∧ Failed signalCap R
  | .wake taskCount r => Left signalCap R taskCount r ∧ ret = r
  | .total taskCount => R.length ≤ signalCap ∧ taskCount = report signalCap R
  | .exit r => R.length ≤ signalCap ∧ r = report signalCap R ∧ ret = r

/-- What a waker has of its results. -/
def Tally (u : UnitTest) (R : List SysResult) (ret : ℤ) : Loc → Prop
  | .broadcast pc => u.broadcast = true ∧ BroadcastTally R ret pc
  | .signal pc => u.broadcast = false ∧ SignalTally R ret pc
  | _ => False

section Step

variable {u : UnitTest} {mem mem' : Cell → ℤ} {loc : Party → Loc}
  {access : Syscalls.Access Cell FutexCall Party} {l l' : Loc}
  {M : Syscalls.Program Cell FutexCall Party Loc}

/-- What `broadcast_wakerfn` leaves at its end. -/
theorem broadcastResult_tally (left : Left maxWakeIters R taskCount ret) :
    BroadcastTally R ret (broadcastResult taskCount ret) := by
  have failed := left.failed_iff
  have stored := left.ret
  unfold broadcastResult
  split_ifs with positive
  · have fine : ¬ Failed maxWakeIters R := fun f => absurd (failed.mp f) (by omega)
    rw [if_neg fine] at stored
    refine ⟨left.length, ?_⟩
    rw [broadcastReport, if_neg fine, if_pos (stored ▸ positive), left.count fine]
  · refine ⟨left.length, ?_, rfl⟩
    rw [broadcastReport]
    split_ifs at stored ⊢ with error some
    · exact stored
    · exact absurd (stored ▸ some) positive
    · exact stored

theorem BroadcastTally.next {pc : BroadcastPc} (broadcast : u.broadcast = true)
    (tally : BroadcastTally R (mem .wakerRet) pc)
    (next : (u.broadcastWakerfn pc).toSyscalls.Next M mem loc access mem' l') :
    Tally u (R ++ (Event.returned .waker isRequeue
      (⟨.waker, .broadcast pc, access⟩ : AnyEvent)).toList) (mem' .wakerRet) l' := by
  cases pc with
  | poll =>
    cases next
    dsimp only
    split_ifs
    · simpa [Tally, BroadcastTally, Event.returned, broadcast] using tally
    · simpa [Tally, BroadcastTally, Event.returned, broadcast] using tally
    · obtain rfl : R = [] := tally
      simpa [Tally, BroadcastTally, Event.returned, broadcast] using Going.start (by decide)
  | lock =>
    obtain rfl : R = [] := tally
    cases next
    simpa [Tally, BroadcastTally, Event.returned, isRequeue, broadcast] using
      Going.start (by decide)
  | load taskCount i =>
    cases next
    simpa [Tally, BroadcastTally, Event.returned, broadcast] using tally
  | requeue taskCount i old =>
    cases next
    simpa [Tally, BroadcastTally, Event.returned, isRequeue, broadcast] using tally
  | store taskCount i r =>
    obtain ⟨R', rfl, going⟩ := tally
    cases next
    -- an error, a pass that goes on to the test, and the last pass
    unfold requeuedAll
    split_ifs with negative more
    · simpa [Tally, BroadcastTally, Event.returned, broadcast] using
        And.intro (going.length_append_le r) (Going.failed_of_neg negative)
    · simpa [Tally, BroadcastTally, Event.returned, broadcast] using
        going.next (not_lt.mp negative) more
    · simpa [Tally, BroadcastTally, Event.returned, broadcast] using
        And.intro (going.length_append_le r) (going.failed_of_cap more)
  | test taskCount i r =>
    obtain ⟨going, last, stored⟩ := tally
    cases next
    dsimp only
    split_ifs
    · simpa [Tally, BroadcastTally, Event.returned, broadcast] using going
    · simpa [Tally, BroadcastTally, Event.returned, broadcast, stored, last] using going.left
  | setError taskCount =>
    obtain ⟨length, failed⟩ := tally
    cases next
    simpa [Tally, BroadcastTally, Event.returned, broadcast] using Left.of_failed length failed
  | wake taskCount r =>
    obtain ⟨left, stored⟩ := tally
    cases next
    dsimp only
    split_ifs
    · simpa [Tally, BroadcastTally, Event.returned, isRequeue, broadcast] using ⟨left, stored⟩
    · simpa [Tally, Event.returned, isRequeue, broadcast, stored] using broadcastResult_tally left
  | unlock taskCount r =>
    obtain ⟨left, stored⟩ := tally
    cases next
    simpa [Tally, Event.returned, isRequeue, broadcast, stored] using broadcastResult_tally left
  | total taskCount =>
    cases next
    simpa [Tally, BroadcastTally, Event.returned, broadcast] using tally
  | exit r => cases next

/-- Where `signal_wakerfn` goes by the result of its requeue. -/
theorem requeuedOne_tally (going : Going signalCap R taskCount i) (shows : Shows r ret) :
    SignalTally (R ++ [r]) ret (requeuedOne taskCount i ret) := by
  unfold requeuedOne
  split_ifs with negative capped
  · refine ⟨going.length_append_le r, ?_⟩
    rcases shows with ⟨failed, -⟩ | ⟨some, same⟩
    · exact Going.failed_of_neg failed
    · omega
  · exact ⟨going.length_append_le r, going.failed_of_cap (by unfold signalCap; omega)⟩
  · rcases shows with ⟨-, failed⟩ | ⟨some, rfl⟩
    · exact absurd failed negative
    · exact ⟨going.next some (by unfold signalCap; omega), lastRet_append.symm, rfl⟩

/-- The same after the release of `f2`. -/
theorem release_tally (going : Going signalCap R taskCount i) (shows : Shows r ret) :
    SignalTally (R ++ [r]) ret (u.release taskCount i ret) := by
  unfold release
  split_ifs
  · exact ⟨R, r, rfl, going, shows, rfl⟩
  · exact requeuedOne_tally going shows

/-- What `signal_wakerfn` leaves at its end: it stores the sum unless there is an error. -/
theorem signalResult_tally (left : Left signalCap R taskCount ret) :
    SignalTally R ret (if 0 ≤ ret then .total taskCount else .exit ret) := by
  have failed := left.failed_iff
  have stored := left.ret
  split_ifs with some
  · have fine : ¬ Failed signalCap R := fun f => absurd (failed.mp f) (not_lt.mpr some)
    exact ⟨left.length, by rw [report, if_neg fine, left.count fine]⟩
  · have error : Failed signalCap R := failed.mpr (not_le.mp some)
    rw [if_pos error] at stored
    exact ⟨left.length, by rw [report, if_pos error, stored], rfl⟩

theorem SignalTally.next {pc : SignalPc} (signal : u.broadcast = false)
    (valid : ∀ r ∈ R, ValidRequeue r) (tally : SignalTally R (mem .wakerRet) pc)
    (next : (u.signalWakerfn pc).toSyscalls.Next M mem loc access mem' l') :
    Tally u (R ++ (Event.returned .waker isRequeue
      (⟨.waker, .signal pc, access⟩ : AnyEvent)).toList) (mem' .wakerRet) l' := by
  cases pc with
  | poll =>
    obtain ⟨rfl, zero⟩ := tally
    have start : Going signalCap [] 0 0 := Going.start (by decide)
    cases next
    dsimp only
    split_ifs
    · simpa [Tally, SignalTally, Event.returned, signal] using zero
    · simpa [Tally, SignalTally, Event.returned, signal, zero] using ⟨start, rfl⟩
  | guard taskCount i r =>
    obtain ⟨going, last, stored⟩ := tally
    cases next
    split_ifs
    · simpa [Tally, SignalTally, Event.returned, signal] using ⟨going, last, stored⟩
    · simpa [Tally, SignalTally, Event.returned, signal, stored, last] using going.left
  | guardWoken taskCount i r =>
    obtain ⟨going, last, stored⟩ := tally
    cases next
    dsimp only
    split_ifs
    · simpa [Tally, SignalTally, Event.returned, signal] using going
    · simpa [Tally, SignalTally, Event.returned, signal] using going
    · simpa [Tally, SignalTally, Event.returned, signal, stored, last] using going.left
  | lock taskCount i | load taskCount i | requeue taskCount i old =>
    cases next
    simpa [Tally, SignalTally, Event.returned, isRequeue, signal] using tally
  | store taskCount i r =>
    obtain ⟨R', rfl, going⟩ := tally
    cases next
    split_ifs with negative
    · simpa [Tally, SignalTally, Event.returned, signal] using
        ⟨going, negative⟩
    · simpa [Tally, Event.returned, signal] using
        release_tally going (.inr ⟨not_lt.mp negative, rfl⟩)
  | negate taskCount i errno =>
    obtain ⟨R', r, rfl, going, negative, rfl⟩ := tally
    cases next
    have numbered : r.errno ≠ 0 := by
      rcases valid r (List.mem_append_right _ (List.mem_singleton_self r)) with ⟨-, some⟩ | fine
      · exact some
      · omega
    simpa [Tally, Event.returned, signal] using release_tally going (.inl ⟨negative, by omega⟩)
  | unlock taskCount i r' =>
    obtain ⟨R', r, rfl, going, shows, stored⟩ := tally
    cases next
    simpa [Tally, Event.returned, isRequeue, signal, stored] using requeuedOne_tally going shows
  | setError taskCount =>
    obtain ⟨length, failed⟩ := tally
    cases next
    simpa [Tally, SignalTally, Event.returned, signal] using Left.of_failed length failed
  | wake taskCount r =>
    obtain ⟨left, stored⟩ := tally
    cases next
    simpa [Tally, Event.returned, isRequeue, signal, stored] using signalResult_tally left
  | total taskCount =>
    cases next
    simpa [Tally, SignalTally, Event.returned, signal] using tally
  | exit r => cases next

theorem Tally.next (valid : ∀ r ∈ R, ValidRequeue r) (tally : Tally u R (mem .wakerRet) l)
    (next : (u.test.program .waker l).Next M mem loc access mem' l') :
    Tally u (R ++ (Event.returned .waker isRequeue (⟨.waker, l, access⟩ : AnyEvent)).toList)
      (mem' .wakerRet) l' := by
  cases l with
  | broadcast pc => exact BroadcastTally.next tally.1 tally.2 next
  | signal pc => exact SignalTally.next tally.1 valid tally.2 next
  | _ => exact tally.elim

end Step

/-! ## Bounds -/

/-- At most this many requeues. -/
def UnitTest.maxCalls (u : UnitTest) : ℕ := if u.broadcast then maxWakeIters else signalCap

variable {u : UnitTest} {l l' : Loc}

theorem BroadcastTally.length_le {pc : BroadcastPc} (tally : BroadcastTally R ret pc) :
    R.length ≤ maxWakeIters := by
  cases pc with
  | poll | lock =>
    obtain rfl : R = [] := tally
    exact Nat.zero_le _
  | load taskCount i | requeue taskCount i old => exact Going.length_le tally
  | store taskCount i r =>
    obtain ⟨R', rfl, going⟩ := tally
    exact going.length_append_le r
  | test taskCount i r => exact tally.1.length_le
  | wake taskCount r | unlock taskCount r => exact tally.1.length
  | setError taskCount | total taskCount | exit r => exact tally.1

theorem SignalTally.length_le {pc : SignalPc} (tally : SignalTally R ret pc) :
    R.length ≤ signalCap := by
  cases pc with
  | poll =>
    obtain ⟨rfl, -⟩ := tally
    exact Nat.zero_le _
  | lock taskCount i | load taskCount i | requeue taskCount i old => exact Going.length_le tally
  | store taskCount i r =>
    obtain ⟨R', rfl, going⟩ := tally
    exact going.length_append_le r
  | negate taskCount i errno =>
    obtain ⟨R', r, rfl, going, -⟩ := tally
    exact going.length_append_le r
  | unlock taskCount i r' =>
    obtain ⟨R', r, rfl, going, -⟩ := tally
    exact going.length_append_le r
  | guard taskCount i r | guardWoken taskCount i r => exact tally.1.length_le
  | wake taskCount r => exact tally.1.length
  | setError taskCount | total taskCount | exit r => exact tally.1

theorem Tally.length_le (tally : Tally u R ret l) : R.length ≤ u.maxCalls := by
  unfold UnitTest.maxCalls
  cases l with
  | broadcast pc =>
    obtain ⟨broadcast, tally⟩ := tally
    rw [if_pos broadcast]
    exact tally.length_le
  | signal pc =>
    obtain ⟨signal, tally⟩ := tally
    rw [if_neg (by simp [signal])]
    exact tally.length_le
  | _ => exact tally.elim

/-- One more result does not make the sum overflow. -/
theorem Going.sum_le (going : Going cap R taskCount i) (small : cap ≤ signalCap)
    (valid : ∀ r' ∈ R ++ [r], ValidRequeue r') : taskCount + r.ret ≤ intMax := by
  have le : ∀ r' ∈ R ++ [r], r'.ret ≤ threadMax := by
    intro r' member
    rcases valid r' member with ⟨negative, -⟩ | ⟨-, le⟩
    · exact negative.le.trans (by decide)
    · exact le
  have sum := total_le le
  have length := going.length_append_le r
  rw [total_append, ← going.count] at sum
  have bound : ((R ++ [r]).length : ℤ) * threadMax ≤ signalCap * threadMax := by
    have fits : (R ++ [r]).length ≤ signalCap := length.trans small
    exact_mod_cast Nat.mul_le_mul_right threadMax fits
  have fits : (signalCap : ℤ) * threadMax ≤ intMax := by decide
  omega

/-- The sums do not overflow. -/
theorem Tally.overflows {access : Syscalls.Access Cell FutexCall Party}
    (valid : ∀ r ∈ R, ValidRequeue r) (tally : Tally u R ret l) :
    UnitTest.overflows (⟨.waker, l, access⟩ : AnyEvent) = false := by
  have fits : ∀ {cap i : ℕ} {taskCount : ℤ} {r : SysResult},
      cap ≤ signalCap → (∃ R', R = R' ++ [r] ∧ Going cap R' taskCount i) →
      ¬ intMax < taskCount + r.ret := by
    rintro cap i taskCount r small ⟨R', rfl, going⟩
    exact not_lt.mpr (going.sum_le small valid)
  cases l with
  | broadcast pc =>
    cases pc with
    | store taskCount i r =>
      exact decide_eq_false fun both => fits (by decide) tally.2 both.2.2
    | _ => rfl
  | signal pc =>
    cases pc with
    | store taskCount i r => exact decide_eq_false fun both => fits le_rfl tally.2 both.2
    | _ => rfl
  | _ => exact tally.elim

/-! ## Both wakers stop -/

/-- How many operations `broadcast_wakerfn` executes at most. -/
def BroadcastPc.rank : BroadcastPc → ℕ
  | .poll => 5 * maxWakeIters + 9
  | .lock => 5 * maxWakeIters + 8
  | .test _ i _ => 5 * (maxWakeIters - i) + 8
  | .load _ i => 5 * (maxWakeIters - i) + 7
  | .requeue _ i _ => 5 * (maxWakeIters - i) + 6
  | .store _ i _ => 5 * (maxWakeIters - i) + 5
  | .setError _ => 4
  | .wake _ _ => 3
  | .unlock _ _ => 2
  | .total _ => 1
  | .exit _ => 0

/-- How many operations `signal_wakerfn` executes at most. -/
def SignalPc.rank : SignalPc → ℕ
  | .poll => 9 * signalCap + 12
  | .guard _ i _ => 9 * (signalCap - i) + 11
  | .guardWoken _ i _ => 9 * (signalCap - i) + 10
  | .lock _ i => 9 * (signalCap - i) + 9
  | .load _ i => 9 * (signalCap - i) + 8
  | .requeue _ i _ => 9 * (signalCap - i) + 7
  | .store _ i _ => 9 * (signalCap - i) + 6
  | .negate _ i _ => 9 * (signalCap - i) + 5
  | .unlock _ i _ => 9 * (signalCap - i) + 4
  | .setError _ => 3
  | .wake _ _ => 2
  | .total _ => 1
  | .exit _ => 0

/-- How many operations a waker executes at most. -/
def Loc.rank : Loc → ℕ
  | .broadcast pc => pc.rank
  | .signal pc => pc.rank
  | _ => 0

/-- A reading that shows that not all waiters have come to their wait. -/
def tooEarly (e : AnyEvent) : Bool :=
  match e.access with
  | .load .waitersBlocked blocked => blocked < threadMax
  | _ => false

section Rank

variable {mem mem' : Cell → ℤ} {loc : Party → Loc}
  {access : Syscalls.Access Cell FutexCall Party} {M : Syscalls.Program Cell FutexCall Party Loc}

theorem rank_broadcastResult : (broadcastResult taskCount ret).rank < 2 := by
  unfold broadcastResult
  split_ifs <;> simp [BroadcastPc.rank]

theorem rank_requeuedAll :
    (requeuedAll taskCount i ret).rank < 5 * (maxWakeIters - i) + 5 := by
  unfold requeuedAll
  split_ifs with negative more
  · simp only [BroadcastPc.rank]
    omega
  · simp only [BroadcastPc.rank]
    omega
  · simp only [BroadcastPc.rank]
    omega

theorem rank_requeuedOne : (requeuedOne taskCount i ret).rank < 9 * (signalCap - i) + 4 := by
  unfold requeuedOne
  split_ifs with negative capped
  · simp only [SignalPc.rank]
    omega
  · simp only [SignalPc.rank]
    omega
  · have more : i + 1 < signalCap := by
      unfold signalCap
      omega
    simp only [SignalPc.rank]
    omega

theorem rank_release : (u.release taskCount i ret).rank < 9 * (signalCap - i) + 5 := by
  unfold release
  split_ifs
  · exact Nat.lt_succ_self _
  · exact rank_requeuedOne.trans (Nat.lt_succ_self _)

/-- A reading of `waiters_blocked` is the only thing that may take a waker back. -/
theorem BroadcastPc.rank_next {pc : BroadcastPc}
    (next : (u.broadcastWakerfn pc).toSyscalls.Next M mem loc access mem' l') :
    tooEarly ⟨.waker, .broadcast pc, access⟩ = true ∧ l' = .broadcast pc ∨
      tooEarly ⟨.waker, .broadcast pc, access⟩ = false ∧ l'.rank < pc.rank := by
  cases pc with
  | poll =>
    cases next
    by_cases early : mem .waitersBlocked < threadMax
    · exact .inl ⟨decide_eq_true early, if_pos early⟩
    · refine .inr ⟨decide_eq_false early, ?_⟩
      dsimp only
      rw [if_neg early]
      split_ifs <;> simp only [Loc.rank, BroadcastPc.rank] <;> omega
  | test taskCount i r =>
    cases next
    refine .inr ⟨rfl, ?_⟩
    dsimp only
    split_ifs <;> simp only [Loc.rank, BroadcastPc.rank] <;> omega
  | store taskCount i r =>
    cases next
    exact .inr ⟨rfl, rank_requeuedAll⟩
  | wake taskCount r =>
    cases next
    refine .inr ⟨rfl, ?_⟩
    dsimp only
    split_ifs
    · exact Nat.lt_succ_self _
    · exact rank_broadcastResult.trans (Nat.lt_succ_self _)
  | unlock taskCount r =>
    cases next
    exact .inr ⟨rfl, rank_broadcastResult⟩
  | exit r => cases next
  | _ =>
    cases next
    exact .inr ⟨rfl, by simp only [Loc.rank, BroadcastPc.rank]; omega⟩

theorem SignalPc.rank_next {pc : SignalPc}
    (next : (u.signalWakerfn pc).toSyscalls.Next M mem loc access mem' l') :
    tooEarly ⟨.waker, .signal pc, access⟩ = true ∧ l' = .signal pc ∨
      tooEarly ⟨.waker, .signal pc, access⟩ = false ∧ l'.rank < pc.rank := by
  cases pc with
  | poll =>
    cases next
    by_cases early : mem .waitersBlocked < threadMax
    · exact .inl ⟨decide_eq_true early, if_pos early⟩
    · refine .inr ⟨decide_eq_false early, ?_⟩
      dsimp only
      rw [if_neg early]
      simp only [Loc.rank, SignalPc.rank]
      omega
  | guard taskCount i r =>
    cases next
    refine .inr ⟨rfl, ?_⟩
    split_ifs <;> simp only [Loc.rank, SignalPc.rank] <;> omega
  | guardWoken taskCount i r =>
    cases next
    refine .inr ⟨rfl, ?_⟩
    dsimp only
    split_ifs <;> simp only [Loc.rank, SignalPc.rank] <;> omega
  | store taskCount i r =>
    cases next
    refine .inr ⟨rfl, ?_⟩
    split_ifs
    · exact Nat.lt_succ_self _
    · exact rank_release.trans (Nat.lt_succ_self _)
  | negate taskCount i errno =>
    cases next
    exact .inr ⟨rfl, rank_release⟩
  | unlock taskCount i r =>
    cases next
    exact .inr ⟨rfl, rank_requeuedOne⟩
  | wake taskCount r =>
    cases next
    refine .inr ⟨rfl, ?_⟩
    split_ifs <;> simp only [Loc.rank, SignalPc.rank] <;> omega
  | exit r => cases next
  | _ =>
    cases next
    exact .inr ⟨rfl, by simp only [Loc.rank, SignalPc.rank]; omega⟩

/-- Every operation of a waker brings it nearer to its end, but one that comes too early. -/
theorem rank_next (next : (u.test.program .waker l).Next u.test.program mem loc access mem' l') :
    tooEarly ⟨.waker, l, access⟩ = true ∧ l' = l ∨
      tooEarly ⟨.waker, l, access⟩ = false ∧ l'.rank < l.rank := by
  cases l with
  | broadcast pc => exact BroadcastPc.rank_next next
  | signal pc => exact SignalPc.rank_next next
  | _ => cases next

end Rank

/-! ## Runs of a waker -/

/-- The waker, when the others write anything but its result. -/
def UnitTest.wakerAlone (u : UnitTest) : System (Local Cell Loc) AnyEvent :=
  alone u.test.program u.test.start .waker (· = .wakerRet)

/-- The results of its requeues, in order. -/
def requeues (w : List AnyEvent) : List SysResult := returns .waker isRequeue w

/-- What an event shows of `waiters_woken`. -/
def wokenReading (e : AnyEvent) : Option ℤ :=
  match e.access with
  | .load .waitersWoken woken => some woken
  | _ => none

/-- What the waker reads in `waiters_woken`, in order. -/
def wokenReadings (w : List AnyEvent) : List ℤ := w.filterMap wokenReading

/-- How many operations a waker executes at most once all waiters have come. -/
def maxOps : ℕ := 9 * signalCap + 12

variable {w : List AnyEvent} {s : Local Cell Loc}

theorem requeues_append (w : List AnyEvent) (e : AnyEvent) :
    requeues (w ++ [e]) = requeues w ++ (e.returned .waker isRequeue).toList :=
  returns_append w e

/-- What was valid at the end of a run was so before its last event. -/
theorem valid_of_append {e : AnyEvent} (valid : ∀ r ∈ requeues (w ++ [e]), ValidRequeue r) :
    ∀ r ∈ requeues w, ValidRequeue r := by
  intro r member
  refine valid r ?_
  rw [requeues_append]
  exact List.mem_append_left _ member

/-- The tally of a run. -/
theorem tally_of_run (run : u.wakerAlone.Run w s) (valid : ∀ r ∈ requeues w, ValidRequeue r) :
    Tally u (requeues w) (s.mem .wakerRet) s.pc := by
  revert valid
  refine run.induction (P := fun w s => (∀ r ∈ requeues w, ValidRequeue r) →
    Tally u (requeues w) (s.mem .wakerRet) s.pc) ?_ ?_
  · rintro s ⟨here, cells⟩ -
    rw [here, waker_start, cells .wakerRet rfl]
    split_ifs with broadcast
    · exact ⟨broadcast, rfl⟩
    · exact ⟨Bool.eq_false_iff.mpr broadcast, rfl, rfl⟩
  · rintro w s e s' - tally step valid
    have before := tally (valid_of_append valid)
    cases step with
    | next kept next =>
      rw [← kept .wakerRet rfl] at before
      rw [requeues_append]
      exact before.next (valid_of_append valid) next

/-- No sum of a run overflows. -/
theorem fits_of_run (run : u.wakerAlone.Run w s) (valid : ∀ r ∈ requeues w, ValidRequeue r) :
    ∀ e ∈ w, UnitTest.overflows e = false := by
  revert valid
  refine run.induction (P := fun w _ => (∀ r ∈ requeues w, ValidRequeue r) →
    ∀ e ∈ w, UnitTest.overflows e = false) ?_ ?_
  · intro s _ _ e member
    exact absurd member List.not_mem_nil
  · intro w s e s' run fits step valid e' member
    rcases List.mem_append.mp member with before | now
    · exact fits (valid_of_append valid) e' before
    · rw [List.mem_singleton.mp now]
      cases step with
      | next kept next =>
        exact (tally_of_run run (valid_of_append valid)).overflows (valid_of_append valid)

/-- A waker executes a bounded number of operations once all waiters have come. -/
theorem ops_le_of_run (run : u.wakerAlone.Run w s) :
    (w.filter fun e => !tooEarly e).length + s.pc.rank ≤ maxOps := by
  refine run.induction
    (P := fun w s => (w.filter fun e => !tooEarly e).length + s.pc.rank ≤ maxOps) ?_ ?_
  · rintro s ⟨here, -⟩
    rw [here, waker_start]
    split_ifs <;> decide
  · rintro w s e s' - sofar step
    cases step with
    | @next mem mem' loc access l kept next =>
      rw [List.filter_append, List.length_append]
      rcases rank_next next with ⟨early, rfl⟩ | ⟨goes, less⟩
      · simpa [early] using sofar
      · have one : (List.filter (fun e => !tooEarly e)
            [(⟨.waker, s.pc, access⟩ : AnyEvent)]).length = 1 := by simp [goes]
        rw [one]
        dsimp only
        omega

/-! ### Every sequence of results and readings leads to the end -/

/-- A list is the beginning of a sequence. -/
def Begins {α : Type} (f : ℕ → α) (l : List α) : Prop := l = (List.range l.length).map f

theorem Begins.append {α : Type} {f : ℕ → α} {l : List α} {x : Option α} (begins : Begins f l)
    (next : ∀ y, x = some y → y = f l.length) : Begins f (l ++ x.toList) := by
  cases x with
  | none => simpa using begins
  | some y =>
    unfold Begins at begins ⊢
    rw [next y rfl, Option.toList_some, List.length_append, List.length_singleton,
      List.range_succ, List.map_append, ← begins]
    rfl

/-- The run has gone as the sequences of results and of readings say. -/
structure Follows (results : ℕ → SysResult) (readings : ℕ → ℤ) (w : List AnyEvent) : Prop where
  results : Begins results (requeues w)
  readings : Begins readings (wokenReadings w)

/-- A waker at its end, or one that goes on by itself. -/
theorem goes_on (u : UnitTest) (l : Loc) : u.test.program .waker l = .exit ∨
    (u.test.program .waker l).isLocal = true ∨ ∃ c k, u.test.program .waker l = .call c k := by
  cases l with
  | broadcast pc =>
    cases pc with
    | exit r => exact .inl rfl
    | lock | requeue taskCount i old | wake taskCount r | unlock taskCount r =>
      exact .inr (.inr ⟨_, _, rfl⟩)
    | _ => exact .inr (.inl rfl)
  | signal pc =>
    cases pc with
    | exit r => exact .inl rfl
    | lock taskCount i | requeue taskCount i old | wake taskCount r | unlock taskCount i r =>
      exact .inr (.inr ⟨_, _, rfl⟩)
    | _ => exact .inr (.inl rfl)
  | _ => exact .inl rfl

variable {results : ℕ → SysResult} {readings : ℕ → ℤ}

/-- The waker goes on with the next of the results and of the readings. -/
theorem exists_next (run : u.wakerAlone.Run w s) (follows : Follows results readings w)
    (more : u.test.program .waker s.pc ≠ .exit) :
    ∃ e s', u.wakerAlone.Run (w ++ [e]) s' ∧ Follows results readings (w ++ [e]) ∧
      s'.pc.rank < s.pc.rank := by
  obtain ⟨e, s', step, loads, returned⟩ := exists_localStep (M := u.test.program) (t := .waker)
    (s := s) (· = .wakerRet)
    (fun a => if a = .waitersWoken then readings (wokenReadings w).length else threadMax)
    (fun _ => results (requeues w).length) ((goes_on u s.pc).resolve_left more)
  refine ⟨e, s', run.next step, ⟨?_, ?_⟩, ?_⟩
  · rw [requeues_append]
    refine follows.results.append ?_
    intro r got
    unfold Event.returned at got
    split at got
    · rename_i c r' access
      split_ifs at got
      cases got
      exact returned _ _ access
    · cases got
  · have appended : wokenReadings (w ++ [e]) = wokenReadings w ++ (wokenReading e).toList := by
      rw [wokenReadings, List.filterMap_append, wokenReadings]
      cases shown : wokenReading e <;> simp [shown]
    rw [appended]
    refine follows.readings.append ?_
    intro woken got
    unfold wokenReading at got
    split at got
    · rename_i woken' access
      cases got
      rcases loads _ _ access with owned | same
      · cases owned
      · simpa using same
    · cases got
  · cases step with
    | next kept next =>
      rcases rank_next next with ⟨early, -⟩ | ⟨-, less⟩
      · -- all waiters have come
        unfold tooEarly at early
        split at early
        · rename_i blocked access
          rcases loads _ _ access with owned | same
          · cases owned
          · rw [same] at early
            simp at early
        · cases early
      · exact less

/-- A run that follows the sequences goes on to the end of the waker. -/
theorem exists_end (run : u.wakerAlone.Run w s) (follows : Follows results readings w) :
    ∃ w' s', u.wakerAlone.Run (w ++ w') s' ∧ Follows results readings (w ++ w') ∧
      u.test.program .waker s'.pc = .exit := by
  induction left : s.pc.rank using Nat.strong_induction_on generalizing w s with
  | _ n ih =>
    by_cases ended : u.test.program .waker s.pc = .exit
    · exact ⟨[], s, by simpa using run, by simpa using follows, ended⟩
    · obtain ⟨e, s', run', follows', less⟩ := exists_next run follows ended
      obtain ⟨w', s'', run'', follows'', ended'⟩ := ih _ (left ▸ less) run' follows' rfl
      rw [List.append_assoc] at run'' follows''
      exact ⟨_, s'', run'', follows'', ended'⟩

/-! ## What the wakers report -/

/-- `broadcast_wakerfn` leaves what it should unless it loses the sum. -/
theorem broadcastReport_eq_iff :
    broadcastReport R = report maxWakeIters R ↔ ¬ LosesSum maxWakeIters R := by
  unfold broadcastReport report LosesSum
  by_cases failed : Failed maxWakeIters R
  · rw [if_pos failed, if_pos failed]
    exact iff_of_true rfl fun loses => loses.1 failed
  · have fine := fine_of_not_failed failed
    have nonneg := lastRet_nonneg fine
    rw [if_neg failed, if_neg failed]
    by_cases positive : 0 < lastRet R
    · rw [if_pos positive]
      exact iff_of_true rfl fun loses => positive.ne' loses.2.1
    · have zero : lastRet R = 0 := by omega
      rw [if_neg positive, zero, eq_comm, total_eq_zero_iff fine]
      simp [failed]

/-- What a waker leaves at its end. -/
theorem Tally.reports_iff (tally : Tally u R ret l) (ended : u.test.program .waker l = .exit) :
    ret = report u.maxCalls R ↔ ¬ (u.broadcast = true ∧ LosesSum u.maxCalls R) := by
  unfold UnitTest.maxCalls
  cases l with
  | broadcast pc =>
    cases pc with
    | exit r =>
      obtain ⟨broadcast, -, value, rfl⟩ := tally
      rw [value, if_pos broadcast, broadcastReport_eq_iff]
      simp [broadcast]
    | _ => cases ended
  | signal pc =>
    cases pc with
    | exit r =>
      obtain ⟨signal, -, value, rfl⟩ := tally
      rw [value]
      simp [signal]
    | _ => cases ended
  | _ => exact tally.elim

/-- Whatever its requeues return and whatever it reads, a waker comes to its end, after a
bounded number of requeues and of other operations, without an overflow. It leaves an
error if a requeue has failed or their cap is reached, and the sum of their results
otherwise, except that `broadcast_wakerfn` loses the sum if the last result is 0. -/
theorem waker_reports_iff (u : UnitTest) :
    (∀ results readings w s, u.wakerAlone.Run w s → Follows results readings w →
      ∃ w' s', u.wakerAlone.Run (w ++ w') s' ∧ Follows results readings (w ++ w') ∧
        u.test.program .waker s'.pc = .exit) ∧
    ∀ w s, u.wakerAlone.Run w s → (∀ r ∈ requeues w, ValidRequeue r) →
      (requeues w).length ≤ u.maxCalls ∧ (w.filter fun e => !tooEarly e).length ≤ maxOps ∧
      (∀ e ∈ w, UnitTest.overflows e = false) ∧
      (u.test.program .waker s.pc = .exit →
        (s.mem .wakerRet = report u.maxCalls (requeues w) ↔
          ¬ (u.broadcast = true ∧ LosesSum u.maxCalls (requeues w)))) := by
  refine ⟨fun results readings w s run follows => exists_end run follows, ?_⟩
  intro w s run valid
  have tally := tally_of_run run valid
  exact ⟨tally.length_le, (Nat.le_add_right _ _).trans (ops_le_of_run run),
    fits_of_run run valid, tally.reports_iff⟩

/-- A signal for each of ten waiters that are all taken at once. -/
theorem waker_reports_iff_signal :
    ∃ w s, (unitTestWith false true false 0).wakerAlone.Run w s ∧
      s.mem .wakerRet = report signalCap (requeues w) := by
  have start : (unitTestWith false true false 0).wakerAlone.Run []
      ⟨.signal .poll, (unitTestWith false true false 0).test.start.mem⟩ :=
    .start ⟨rfl, fun _ _ => rfl⟩
  obtain ⟨w, s, run, follows, ended⟩ := (waker_reports_iff (unitTestWith false true false 0)).1
    (fun _ => .ok 10) (fun _ => 0) [] _ start ⟨rfl, rfl⟩
  have valid : ∀ r ∈ requeues ([] ++ w), ValidRequeue r := by
    intro r member
    rw [follows.results] at member
    obtain ⟨k, -, rfl⟩ := List.mem_map.mp member
    exact .inr ⟨by decide, by decide⟩
  obtain ⟨-, -, -, reports⟩ :=
    (waker_reports_iff (unitTestWith false true false 0)).2 _ s run valid
  exact ⟨_, s, run, (reports ended).mpr fun loses => Bool.false_ne_true loses.1⟩

/-- Nobody but the waker writes its result. -/
theorem wakerRet_owned (u : UnitTest) (t : Party) (l : Loc) (a : Cell) (other : t ≠ .waker)
    (owned : a = .wakerRet) : (u.test.program t l).writes ≠ some a := by
  rintro writes
  subst owned
  rcases writes_own writes with ⟨main, same⟩ | same | same
  · exact retCell_ne (v := .waker) nofun main (Ne.symm other) same
  · cases same
  · cases same

/-- The waker of every run of the test. -/
theorem wakerAlone_of_run {w : List AnyEvent} {s : Syscalls.State Cell Party Loc Unit}
    (run : u.test.anyMachine.Run w s) :
    ∃ c, u.wakerAlone.Run (w.filterMap (observe .waker)) c ∧ c.pc = s.loc .waker ∧
      c.mem .wakerRet = s.mem .wakerRet := by
  obtain ⟨c, alone, here, cells⟩ := Run.alone (wakerRet_owned u) run
  exact ⟨c, alone, here, cells _ rfl⟩

/-- What the waker has reported in a run of the test in which it has finished. -/
theorem test_reports_iff {w : List AnyEvent} {s : Syscalls.State Cell Party Loc Unit}
    (run : u.test.anyMachine.Run w s) (valid : ∀ r ∈ requeues w, ValidRequeue r)
    (finished : u.Finished s.loc .waker) :
    s.mem .wakerRet = report u.maxCalls (requeues w) ↔
      ¬ (u.broadcast = true ∧ LosesSum u.maxCalls (requeues w)) := by
  obtain ⟨c, alone, here, cell⟩ := wakerAlone_of_run run
  have same : requeues (w.filterMap (observe .waker)) = requeues w := returns_observe w
  have tally := tally_of_run alone (same ▸ valid)
  rw [here, cell, same] at tally
  exact tally.reports_iff finished

/-- The waker requeues three waiters that have come to their wait. The others come later,
and have timed out when it requeues again. -/
def sevenTimeOut : List (PiFutex.Choice Party) :=
  let three : Finset Party := {.waiter 0, .waiter 1, .waiter 2}
  let late (i : Fin threadMax) : List (PiFutex.Choice Party) :=
    if i.val < 3 then []
    else List.flatten [PiFutex.Choice.ops (.waiter i) 1, [.expire (.waiter i)],
      PiFutex.Choice.ops (.waiter i) 2]
  List.flatten [PiFutex.Choice.ops .main 13,
    (List.finRange threadMax).flatMap fun i =>
      PiFutex.Choice.ops (.waiter i) (if i.val < 3 then 3 else 2),
    PiFutex.Choice.ops .waker 2, [.run .waker ⟨three, some (.waiter 0), none⟩],
    PiFutex.Choice.ops .waker 2, (List.finRange threadMax).flatMap late,
    PiFutex.Choice.ops .waker 5]

/-- The same with calls that return these numbers. -/
def threeThenNone : List (Syscalls.Choice Party) :=
  let late (i : Fin threadMax) : List (Syscalls.Choice Party) :=
    if i.val < 3 then []
    else Choice.calls (.waiter i) (.error etimedout) ++ Choice.ops (.waiter i) 2
  List.flatten [Choice.ops .main 13,
    (List.finRange threadMax).flatMap fun i => Choice.ops (.waiter i) 2,
    Choice.ops .waker 2, Choice.calls .waker (.ok 3), Choice.ops .waker 2,
    (List.finRange threadMax).flatMap late, Choice.ops .waker 1, Choice.calls .waker (.ok 0),
    Choice.ops .waker 2, Choice.calls .waker (.ok 0)]

/-- The requeues return 3 and then 0, and `broadcast_wakerfn` leaves 0. The kernel can
return these numbers: it takes three waiters in all. -/
theorem broadcast_loses_sum :
    (∃ w s, (unitTestWith true false false 1).wakerAlone.Run w s ∧
      s.pc = .broadcast (.exit 0) ∧ requeues w = [.ok 3, .ok 0] ∧ wokenReadings w = [0, 7] ∧
      s.mem .wakerRet = 0 ∧ report (unitTestWith true false false 1).maxCalls (requeues w) = 3) ∧
    ∃ w s, (machine (unitTestWith true false false 1)).Run w s ∧
      s.loc .waker = .broadcast (.exit 0) ∧
      (w.map fun e => e.access.taken.card).sum = 3 := by
  refine ⟨?_, PiFutex.exists_run _ _ sevenTimeOut _ (by decide +kernel)⟩
  obtain ⟨w, s, run, exit, results, readings, ret⟩ := Syscalls.exists_run Kernel.any
    (unitTestWith true false false 1).test.program (unitTestWith true false false 1).test.start
    threeThenNone
    (fun w s => s.loc .waker = .broadcast (.exit 0) ∧ requeues w = [.ok 3, .ok 0] ∧
      wokenReadings (w.filterMap (observe .waker)) = [0, 7] ∧ s.mem .wakerRet = 0)
    (by decide +kernel)
  obtain ⟨c, alone, here, cell⟩ := wakerAlone_of_run run
  have same : requeues (w.filterMap (observe .waker)) = [.ok 3, .ok 0] :=
    (returns_observe w).trans results
  refine ⟨_, c, alone, here.trans exit, same, readings, cell.trans ret, ?_⟩
  rw [same]
  decide

end RequeuePi
