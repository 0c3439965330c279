import Mathlib.Algebra.GroupWithZero.Nat
import Mathlib.Data.Fintype.Sum
import Mathlib.Tactic.DeriveFintype
import Futextest.Constants
import Futextest.Deadline
import Futextest.PiFutex

/-!
# The test of `futex_requeue_pi.c`

`unit_test` starts waiters that sleep on the word `f1` until they are requeued to
the PI futex `f2`, a waker that requeues them, all at once or one by one, and
possibly a third party that owns `f2` until the waker is done. It joins them all and
combines their results.

Each thread is its C function statement by statement. The messages and the pauses
between the statements are left out: a pause is any number of steps of the others.

## Main definitions

* `UnitTest` — the options of a run, and what the environment answers
* `waiterfn`, `broadcastWakerfn`, `signalWakerfn`, `thirdPartyBlocker`, `unitTest` —
  the five thread functions
* `RequeuePi.machine` — all threads of a run
-/

namespace RequeuePi

open PiFutex

/-- `THREAD_MAX`. -/
abbrev threadMax : ℕ := 10

instance : NeZero threadMax := ⟨Nat.succ_ne_zero 9⟩

/-- `MAX_WAKE_ITERS`. -/
def maxWakeIters : ℕ := 1000

/-! ## Threads, words and control points -/

/-- The threads of a run. -/
inductive Party
  | main
  | blocker
  | waker
  | waiter (i : Fin threadMax)
  deriving DecidableEq, Fintype

/-- The words that are not PI futexes: `waiters_blocked`, `waiters_woken`, `f1`,
`wake_complete`, and `ret` in `args[i]`, `waker_arg` and `blocker_arg`. -/
inductive Cell
  | waitersBlocked
  | waitersWoken
  | f1
  | wakeComplete
  | waiterRet (i : Fin threadMax)
  | wakerRet
  | blockerRet
  deriving DecidableEq, Fintype

/-- The PI futex. -/
inductive PiWord
  | f2
  deriving DecidableEq

/-- Where a thread is in `waiterfn`. -/
inductive WaiterPc
  /-- `old_val = f1;` -/
  | load
  /-- `atomic_inc(&waiters_blocked);` -/
  | count (old : ℤ)
  /-- `futex_wait_requeue_pi(&f1, old_val, &f2, args->timeout, …)` -/
  | wait (old : ℤ)
  /-- `args->ret = …` -/
  | store (result : SysResult)
  /-- `atomic_inc(&waiters_woken);` -/
  | countWoken (result : SysResult)
  /-- `args->ret = 0;` or `args->ret = RET_ERROR;` -/
  | amend (ret : ℤ)
  /-- `futex_lock_pi(&f2, NULL, 0, …);` -/
  | lock
  /-- `futex_unlock_pi(&f2, …);` -/
  | unlock
  | exit
  deriving DecidableEq

/-- Where the waker is in `broadcast_wakerfn`. -/
inductive BroadcastPc
  /-- `while (waiters_blocked.val < THREAD_MAX)` -/
  | poll
  /-- `futex_lock_pi(&f2, NULL, 0, …);` -/
  | lock
  /-- `old_val = f1;` -/
  | load (taskCount : ℤ) (i : ℕ)
  /-- `futex_cmp_requeue_pi(&f1, old_val, &f2, nr_wake, nr_requeue, …)` -/
  | requeue (taskCount : ℤ) (i : ℕ) (old : ℤ)
  /-- `args->ret = …` -/
  | store (taskCount : ℤ) (i : ℕ) (result : SysResult)
  /-- `if (task_count < THREAD_MAX - waiters_woken.val) goto continue_requeue;` -/
  | test (taskCount : ℤ) (i : ℕ) (ret : ℤ)
  /-- `args->ret = RET_ERROR;` -/
  | setError (taskCount : ℤ)
  /-- `futex_wake(&wake_complete, 1, …);` -/
  | wake (taskCount ret : ℤ)
  /-- `futex_unlock_pi(&f2, …);` -/
  | unlock (taskCount ret : ℤ)
  /-- `args->ret = task_count;` -/
  | total (taskCount : ℤ)
  | exit (ret : ℤ)
  deriving DecidableEq

/-- Where the waker is in `signal_wakerfn`. -/
inductive SignalPc
  /-- `while (waiters_blocked.val < THREAD_MAX)` -/
  | poll
  /-- `while (task_count < THREAD_MAX && …)` -/
  | guard (taskCount : ℤ) (i : ℕ) (ret : ℤ)
  /-- `… && waiters_woken.val < THREAD_MAX` -/
  | guardWoken (taskCount : ℤ) (i : ℕ) (ret : ℤ)
  /-- `futex_lock_pi(&f2, NULL, 0, …);` -/
  | lock (taskCount : ℤ) (i : ℕ)
  /-- `old_val = f1;` -/
  | load (taskCount : ℤ) (i : ℕ)
  /-- `futex_cmp_requeue_pi(&f1, old_val, &f2, nr_wake, nr_requeue, …)` -/
  | requeue (taskCount : ℤ) (i : ℕ) (old : ℤ)
  /-- `args->ret = …` -/
  | store (taskCount : ℤ) (i : ℕ) (result : SysResult)
  /-- `args->ret = -errno;` -/
  | negate (taskCount : ℤ) (i : ℕ) (errno : ℕ)
  /-- `futex_unlock_pi(&f2, …);` -/
  | unlock (taskCount : ℤ) (i : ℕ) (ret : ℤ)
  /-- `args->ret = RET_ERROR;` -/
  | setError (taskCount : ℤ)
  /-- `futex_wake(&wake_complete, 1, …);` -/
  | wake (taskCount ret : ℤ)
  /-- `args->ret = task_count;` -/
  | total (taskCount : ℤ)
  | exit (ret : ℤ)
  deriving DecidableEq

/-- Where the blocker is in `third_party_blocker`. -/
inductive BlockerPc
  /-- `futex_lock_pi(&f2, NULL, 0, …)` -/
  | lock
  /-- `args->ret = …` -/
  | storeLock (result : SysResult)
  /-- The argument `wake_complete` of `futex_wait`. -/
  | load
  /-- `futex_wait(&wake_complete, wake_complete, NULL, …)` -/
  | wait (expected : ℤ)
  /-- `args->ret = …` -/
  | storeWait (result : SysResult)
  /-- `ret2 = futex_unlock_pi(&f2, …);` -/
  | unlock (ret : ℤ)
  /-- `args->ret = RET_ERROR;` -/
  | setError
  | exit
  deriving DecidableEq

/-- Where main is in `unit_test`. `waiterRet` is the index that `waiter_ret` points
to. -/
inductive MainPc
  /-- `ret = clock_gettime(CLOCK_MONOTONIC, &ts);` -/
  | clock
  /-- `create_rt_thread(&blocker, third_party_blocker, …)` -/
  | createBlocker (ret : ℤ)
  /-- `atomic_set(&waiters_woken, 0);` -/
  | reset (ret : ℤ)
  /-- `create_rt_thread(&waiter[i], waiterfn, …)` -/
  | createWaiter (ret : ℤ) (i : Fin threadMax)
  /-- `create_rt_thread(&waker, wakerfn, …)` -/
  | createWaker (ret : ℤ)
  /-- The argument `*waiter_ret ? NULL : (void **)&waiter_ret` of `pthread_join`. -/
  | readRet (ret : ℤ) (i waiterRet : Fin threadMax)
  /-- `pthread_join(waiter[i], …);` -/
  | join (ret : ℤ) (i waiterRet : Fin threadMax) (null : Bool)
  /-- `pthread_join(blocker, NULL);` -/
  | joinBlocker (ret : ℤ) (waiterRet : Fin threadMax)
  /-- `pthread_join(waker, NULL);` -/
  | joinWaker (ret : ℤ) (waiterRet : Fin threadMax)
  /-- `if (*waiter_ret) ret = *waiter_ret;` -/
  | readWaiter (waiterRet : Fin threadMax)
  /-- `else if (waker_arg.ret < 0) ret = waker_arg.ret;` -/
  | readWaker
  /-- `else if (blocker_arg.ret) ret = blocker_arg.ret;` -/
  | readBlocker
  | exit (ret : ℤ)
  deriving DecidableEq

/-- Where a thread of the run is. -/
inductive Loc
  | main (pc : MainPc)
  | blocker (pc : BlockerPc)
  | broadcast (pc : BroadcastPc)
  | signal (pc : SignalPc)
  | waiter (pc : WaiterPc)
  deriving DecidableEq

/-- A run of `unit_test`: its arguments, what `clock_gettime` returns and stores in `ts`,
what the calls of `create_rt_thread` return, and what `args` holds before it is written. -/
structure UnitTest where
  broadcast : Bool
  lock : Bool
  thirdPartyOwner : Bool
  timeoutNs : ℤ
  clockGettime : ℤ
  clock : TimespecWords 64 64
  createRtThread : Party → ℤ
  args : Fin threadMax → ℤ

/-- Operations of the run. -/
abbrev RunOp := Op Cell PiWord Party Loc

namespace UnitTest

variable (u : UnitTest)

/-- Whether the waiters have a timeout, so that `args->timeout` is not `NULL`. -/
def timed : Bool := u.timeoutNs ≠ 0

/-- What the kernel makes of `args->timeout`. Sums that overflow would be needed for a
deadline without a value; no reading of a clock and no `int` come near them. -/
def timeout : Timeout :=
  if u.timed then
    match deadline u.clock (.ofInt 64 u.timeoutNs) with
    | some ts => if ts.toTimespec.Valid then .valid else .invalid
    | none => .invalid
  else .never

theorem timeout_eq_never_iff : u.timeout = .never ↔ u.timed = false := by
  unfold timeout
  cases u.timed with
  | false => simp
  | true =>
    simp only [if_true, Bool.true_eq_false, iff_false]
    split
    · split_ifs <;> simp
    · simp

/-! ## The waiters -/

/-- Where `waiterfn` goes by the result of its wait. -/
def afterWait (result : SysResult) : WaiterPc :=
  if result.ret < 0 then .amend (if u.timed ∧ result.errno = etimedout then 0 else retError)
  else .unlock

/-- `waiterfn(&args[i])`. -/
def waiterfn (i : Fin threadMax) : WaiterPc → RunOp
  | .load => .load .f1 fun old => .waiter (.count old)
  | .count old => .inc .waitersBlocked (.waiter (.wait old))
  | .wait old => .waitRequeuePi .f1 old .f2 u.timeout fun result => .waiter (.store result)
  | .store result => .store (.waiterRet i) result.ret (.waiter (.countWoken result))
  | .countWoken result => .inc .waitersWoken (.waiter (u.afterWait result))
  | .amend ret => .store (.waiterRet i) ret (.waiter .lock)
  -- after an error the waiter does not own `f2`, so it takes it before it unlocks it
  | .lock => .lockPi .f2 fun _ => .waiter .unlock
  | .unlock => .unlockPi .f2 fun _ => .waiter .exit
  | .exit => .exit

/-! ## The broadcast waker -/

/-- Where `broadcast_wakerfn` goes by the result of its requeue. -/
def requeuedAll (taskCount : ℤ) (i : ℕ) (ret : ℤ) : BroadcastPc :=
  -- `++i` comes before the test, and nothing is added to `task_count` in the last pass
  if ret < 0 then .setError taskCount
  else if i + 1 < maxWakeIters then .test (taskCount + ret) (i + 1) ret
  else .setError taskCount

/-- `if (args->ret > 0)`, and what follows. -/
def broadcastResult (taskCount ret : ℤ) : BroadcastPc :=
  if 0 < ret then .total taskCount else .exit ret

/-- `broadcast_wakerfn(&waker_arg)`. -/
def broadcastWakerfn : BroadcastPc → RunOp
  | .poll => .load .waitersBlocked fun blocked =>
      if blocked < threadMax then .broadcast .poll
      else if u.lock then .broadcast .lock
      else .broadcast (.load 0 0)
  | .lock => .lockPi .f2 fun _ => .broadcast (.load 0 0)
  | .load taskCount i => .load .f1 fun old => .broadcast (.requeue taskCount i old)
  | .requeue taskCount i old =>
      .cmpRequeuePi .f1 old .f2 1 intMax fun result => .broadcast (.store taskCount i result)
  | .store taskCount i result =>
      .store .wakerRet result.ret (.broadcast (requeuedAll taskCount i result.ret))
  | .test taskCount i ret => .load .waitersWoken fun woken =>
      if taskCount < threadMax - woken then .broadcast (.load taskCount i)
      else .broadcast (.wake taskCount ret)
  | .setError taskCount => .store .wakerRet retError (.broadcast (.wake taskCount retError))
  | .wake taskCount ret =>
      .wake .wakeComplete 1
        (.broadcast (if u.lock then .unlock taskCount ret else broadcastResult taskCount ret))
  | .unlock taskCount ret => .unlockPi .f2 fun _ => .broadcast (broadcastResult taskCount ret)
  | .total taskCount => .store .wakerRet taskCount (.broadcast (.exit taskCount))
  | .exit _ => .exit

/-! ## The signal waker -/

/-- Where a pass of `signal_wakerfn` ends, by the result of its requeue. -/
def requeuedOne (taskCount : ℤ) (i : ℕ) (ret : ℤ) : SignalPc :=
  if ret < 0 then .setError taskCount
  -- here `task_count` is added to before the test of `i`
  else if maxWakeIters + threadMax < i + 1 then .setError (taskCount + ret)
  else .guard (taskCount + ret) (i + 1) ret

/-- `if (args->lock)` after the requeue, and what follows. -/
def release (taskCount : ℤ) (i : ℕ) (ret : ℤ) : SignalPc :=
  if u.lock then .unlock taskCount i ret else requeuedOne taskCount i ret

/-- `signal_wakerfn(&waker_arg)`. -/
def signalWakerfn : SignalPc → RunOp
  | .poll => .load .waitersBlocked fun blocked =>
      if blocked < threadMax then .signal .poll else .signal (.guard 0 0 0)
  | .guard taskCount i ret =>
      .tau (.signal (if taskCount < threadMax then .guardWoken taskCount i ret
        else .wake taskCount ret))
  | .guardWoken taskCount i ret => .load .waitersWoken fun woken =>
      if woken < threadMax then .signal (if u.lock then .lock taskCount i else .load taskCount i)
      else .signal (.wake taskCount ret)
  | .lock taskCount i => .lockPi .f2 fun _ => .signal (.load taskCount i)
  | .load taskCount i => .load .f1 fun old => .signal (.requeue taskCount i old)
  | .requeue taskCount i old =>
      .cmpRequeuePi .f1 old .f2 1 0 fun result => .signal (.store taskCount i result)
  | .store taskCount i result =>
      -- `args->ret` is written twice if the call fails
      .store .wakerRet result.ret (.signal (if result.ret < 0 then
        .negate taskCount i result.errno
        else u.release taskCount i result.ret))
  | .negate taskCount i errno =>
      .store .wakerRet (-errno) (.signal (u.release taskCount i (-errno)))
  | .unlock taskCount i ret => .unlockPi .f2 fun _ => .signal (requeuedOne taskCount i ret)
  | .setError taskCount => .store .wakerRet retError (.signal (.wake taskCount retError))
  | .wake taskCount ret =>
      .wake .wakeComplete 1 (.signal (if 0 ≤ ret then .total taskCount else .exit ret))
  | .total taskCount => .store .wakerRet taskCount (.signal (.exit taskCount))
  | .exit _ => .exit

/-! ## The third party -/

/-- `if (args->ret || ret2)`, and what follows. -/
def blockerResult (ret ret2 : ℤ) : BlockerPc :=
  if ret ≠ 0 ∨ ret2 ≠ 0 then .setError else .exit

/-- `third_party_blocker(&blocker_arg)`. -/
def thirdPartyBlocker : BlockerPc → RunOp
  | .lock => .lockPi .f2 fun result => .blocker (.storeLock result)
  -- `goto out;` if the lock fails, with `ret2` still 0
  | .storeLock result =>
      .store .blockerRet result.ret
        (.blocker (if result.ret ≠ 0 then blockerResult result.ret 0 else .load))
  | .load => .load .wakeComplete fun expected => .blocker (.wait expected)
  | .wait expected => .wait .wakeComplete expected fun result => .blocker (.storeWait result)
  | .storeWait result => .store .blockerRet result.ret (.blocker (.unlock result.ret))
  | .unlock ret => .unlockPi .f2 fun result => .blocker (blockerResult ret result.ret)
  | .setError => .store .blockerRet retError (.blocker .exit)
  | .exit => .exit

/-! ## Main -/

/-- The next pass of a loop over the waiters, or what follows the loop. -/
def nextWaiter (i : Fin threadMax) (pass : Fin threadMax → MainPc) (past : MainPc) : MainPc :=
  if more : i.val + 1 < threadMax then pass ⟨i + 1, more⟩ else past

/-- From the label `out`. -/
def out (ret : ℤ) (waiterRet : Fin threadMax) : MainPc :=
  -- an error of the clock keeps main from looking at the results
  if ret = 0 then .readWaiter waiterRet else .exit ret

/-- A call of `create_rt_thread`, and `ret = RET_ERROR; goto out;` if it fails:
`out` then leaves `ret` as it is. -/
def create (t : Party) (next : MainPc) : RunOp :=
  if u.createRtThread t = 0 then .create t (.main next) else .tau (.main (.exit retError))

/-- `unit_test(broadcast, lock, third_party_owner, timeout_ns)`. -/
def unitTest : MainPc → RunOp
  | .clock =>
      -- `ret` is not tested here: the threads are created all the same
      let ret := if u.timed then u.clockGettime else retPass
      .tau (.main (if u.thirdPartyOwner then .createBlocker ret else .reset ret))
  | .createBlocker ret => u.create .blocker (.reset ret)
  | .reset ret => .store .waitersWoken 0 (.main (.createWaiter ret 0))
  | .createWaiter ret i =>
      u.create (.waiter i) (nextWaiter i (fun j => .createWaiter ret j) (.createWaker ret))
  | .createWaker ret => u.create .waker (.readRet ret 0 0)
  | .readRet ret i waiterRet =>
      .load (.waiterRet waiterRet) fun value => .main (.join ret i waiterRet (value ≠ 0))
  | .join ret i waiterRet null =>
      -- unless it is given `NULL`, the join stores `&args[i].ret` in `waiter_ret`
      let first := if null then waiterRet else i
      .join (.waiter i) (.main (nextWaiter i (fun j => .readRet ret j first)
        (if u.thirdPartyOwner then .joinBlocker ret first else .joinWaker ret first)))
  | .joinBlocker ret waiterRet => .join .blocker (.main (.joinWaker ret waiterRet))
  | .joinWaker ret waiterRet => .join .waker (.main (out ret waiterRet))
  | .readWaiter waiterRet => .load (.waiterRet waiterRet) fun value =>
      .main (if value ≠ 0 then .exit value else .readWaker)
  | .readWaker => .load .wakerRet fun value =>
      .main (if value < 0 then .exit value else .readBlocker)
  | .readBlocker => .load .blockerRet fun value =>
      .main (if value ≠ 0 then .exit value else .exit 0)
  | .exit _ => .exit

/-! ## The run -/

/-- Every thread runs its function. -/
def program : Program Cell PiWord Party Loc
  | .main, .main pc => u.unitTest pc
  | .blocker, .blocker pc => thirdPartyBlocker pc
  | .waker, .broadcast pc => u.broadcastWakerfn pc
  | .waker, .signal pc => u.signalWakerfn pc
  | .waiter i, .waiter pc => u.waiterfn i pc
  | _, _ => .exit

/-- Main is about to start, and nobody owns `f2`. -/
def start : State Cell PiWord Party Loc where
  mem
    | .waiterRet i => u.args i
    | _ => 0
  owner _ := none
  thread
    | .main => .ready (.main .clock)
    | .blocker => .unborn (.blocker .lock)
    | .waker => .unborn (if u.broadcast then .broadcast .poll else .signal .poll)
    | .waiter _ => .unborn (.waiter .load)

end UnitTest

/-- States of the run. -/
abbrev RunState := State Cell PiWord Party Loc

/-- Events of the run. -/
abbrev RunEvent := Event Cell PiWord Party Loc

/-- The run with these options in which every call for a clock or a thread succeeds, at the
zero of the clock. -/
def unitTestWith (broadcast lock thirdPartyOwner : Bool) (timeoutNs : ℤ) : UnitTest where
  broadcast := broadcast
  lock := lock
  thirdPartyOwner := thirdPartyOwner
  timeoutNs := timeoutNs
  clockGettime := 0
  clock := ⟨0, 0⟩
  createRtThread _ := 0
  args _ := 0

/-- The first `n` operations of every waiter. -/
def waitersDo (n : ℕ) : List (Choice Party) :=
  (List.finRange threadMax).flatMap fun i => Choice.ops (.waiter i) n

/-- All threads of a run of `unit_test`. -/
abbrev machine (u : UnitTest) : System RunState RunEvent := PiFutex.machine u.program u.start

end RequeuePi
