import Futextest.Constants
import Futextest.Syscalls

/-!
# The test of `futex_requeue_pi_signal_restart.c`

Main signals the waiter and requeues it to `f2`, which it owns, and does so again as
long as the requeue finds nobody to move. Then it publishes in `requeued` that the
waiter was moved and signals it once more. The waiter's call is to return with
`EWOULDBLOCK`, and only once `requeued` is set.

Messages, pauses and the handler, which only prints one, are left out.

## Main definitions

* `waiterfn`, `main` — the two thread functions
* `loopExit` — how the result of a requeue ends the loop of main
* `program`, `start` — the test, to be run under some kernel
-/

namespace SignalRestart

open Syscalls

/-- The threads of the test. -/
inductive Party
  | main
  | waiter
  deriving DecidableEq

/-- `f1`, `requeued` and `waiter_ret`. -/
inductive Cell
  | f1
  | requeued
  | waiterRet
  deriving DecidableEq

/-- The calls of the test; `f2` is the PI futex of all of them. -/
inductive Call
  /-- `futex_lock_pi(&f2, 0, 0, …)` -/
  | lockPi
  /-- `futex_unlock_pi(&f2, …)` -/
  | unlockPi
  /-- `pthread_kill(waiter, SIGUSR1)` -/
  | kill
  /-- `futex_cmp_requeue_pi(&f1, old_val, &(f2), 1, 0, …)` -/
  | cmpRequeuePi (old : ℤ)
  /-- `futex_wait_requeue_pi(&f1, old_val, &(f2), NULL, …)` -/
  | waitRequeuePi (old : ℤ)
  deriving DecidableEq

/-- Where the waiter is in `waiterfn`. -/
inductive WaiterPc
  /-- `waiter_ret = RET_PASS;` -/
  | init
  /-- `old_val = f1;` -/
  | load
  /-- `res = futex_wait_requeue_pi(&f1, old_val, &(f2), NULL, …);` -/
  | wait (old : ℤ)
  /-- `if (!requeued.val || errno != EWOULDBLOCK)` -/
  | test (result : SysResult)
  /-- `fail("unexpected return from futex_wait_requeue_pi: …");` -/
  | fail (result : SysResult)
  /-- `if (!res) futex_unlock_pi(&f2, …);` -/
  | unlock
  /-- `waiter_ret = RET_FAIL;` -/
  | setFail
  | exit
  deriving DecidableEq

/-- Where main is. -/
inductive MainPc
  /-- `create_rt_thread(&waiter, waiterfn, NULL, SCHED_FIFO, 1)` -/
  | create
  /-- `error("Creating waiting thread failed", res); ret = RET_ERROR;` -/
  | createFailed
  /-- `futex_lock_pi(&f2, 0, 0, …);` -/
  | lock
  /-- `pthread_kill(waiter, SIGUSR1);` at the head of the loop. -/
  | kill
  /-- `old_val = f1;` -/
  | load
  /-- `res = futex_cmp_requeue_pi(&f1, old_val, &(f2), 1, 0, …);` -/
  | requeue (old : ℤ)
  /-- `atomic_set(&requeued, 1);` -/
  | setRequeued
  /-- `error("FUTEX_CMP_REQUEUE_PI failed\n", errno); ret = RET_ERROR;` -/
  | requeueFailed
  /-- `pthread_kill(waiter, SIGUSR1);` after the loop. -/
  | killAgain (ret : ℤ)
  /-- `pthread_join(waiter, NULL);` -/
  | join (ret : ℤ)
  /-- `futex_unlock_pi(&f2, …);` -/
  | unlock (ret : ℤ)
  /-- `if (ret == RET_PASS && waiter_ret) ret = waiter_ret;` -/
  | out (ret : ℤ)
  /-- `print_result(ret);` -/
  | exit (ret : ℤ)
  deriving DecidableEq

/-- Where a thread of the test is. -/
inductive Loc
  | main (pc : MainPc)
  | waiter (pc : WaiterPc)
  deriving DecidableEq

/-- Operations of the test. -/
abbrev TestOp := Op Cell Call Party Loc

/-- `waiterfn(NULL)`. -/
def waiterfn : WaiterPc → TestOp
  | .init => .store .waiterRet retPass (.waiter .load)
  | .load => .load .f1 fun old => .waiter (.wait old)
  | .wait old => .call (.waitRequeuePi old) fun result => .waiter (.test result)
  | .test result => .load .requeued fun requeued =>
      .waiter (if requeued = 0 ∨ result.errno ≠ ewouldblock then .fail result else .exit)
  -- after a wait that returned 0 the waiter owns `f2`
  | .fail result => .tau (.waiter (if result.ret = 0 then .unlock else .setFail))
  | .unlock => .call .unlockPi fun _ => .waiter .setFail
  | .setFail => .store .waiterRet retFail (.waiter .exit)
  | .exit => .exit

/-- How a pass of the loop of main ends it. -/
inductive LoopExit
  | requeued
  | failed
  deriving DecidableEq

/-- `if (res > 0) { … break; } else if (res > 0) { … break; }`. -/
def loopExit (res : ℤ) : Option LoopExit :=
  -- the second test repeats the first, so that an error only leads to the head of the loop
  if 0 < res then some .requeued else if 0 < res then some .failed else none

/-- Where main goes by the result of its requeue: out of the loop or to its head. -/
def afterRequeue (res : ℤ) : MainPc :=
  match loopExit res with
  | none => .kill
  | some .requeued => .setRequeued
  | some .failed => .requeueFailed

/-- What `create_rt_thread` returns by the result of `pthread_create`. -/
def createRtThread (pthreadCreate : ℤ) : ℤ :=
  if pthreadCreate ≠ 0 then -1 else 0

/-- `main`, after its options; `pthreadCreate` is what `pthread_create` returns. -/
def main (pthreadCreate : ℤ) : MainPc → TestOp
  | .create =>
      if createRtThread pthreadCreate = 0 then .create .waiter (.main .lock)
      else .tau (.main .createFailed)
  | .createFailed => .tau (.main (.out retError))
  | .lock => .call .lockPi fun _ => .main .kill
  | .kill => .call .kill fun _ => .main .load
  | .load => .load .f1 fun old => .main (.requeue old)
  | .requeue old => .call (.cmpRequeuePi old) fun result => .main (afterRequeue result.ret)
  | .setRequeued => .store .requeued 1 (.main (.killAgain retPass))
  | .requeueFailed => .tau (.main (.killAgain retError))
  | .killAgain ret => .call .kill fun _ => .main (.join ret)
  | .join ret => .join .waiter (.main (.unlock ret))
  | .unlock ret => .call .unlockPi fun _ => .main (.out ret)
  -- an error of main is not replaced by the result of the waiter
  | .out ret =>
      if ret = retPass then
        .load .waiterRet fun waiterRet => .main (.exit (if waiterRet ≠ 0 then waiterRet else ret))
      else .tau (.main (.exit ret))
  | .exit _ => .exit

/-- Both threads of the test. -/
def program (pthreadCreate : ℤ) : Program Cell Call Party Loc
  | .main, .main pc => main pthreadCreate pc
  | .waiter, .waiter pc => waiterfn pc
  | _, _ => .exit

/-- Main is about to create the waiter, and all cells are 0. -/
def start {K : Type} (kernel : K) : State Cell Party Loc K where
  mem _ := 0
  thread
    | .main => .ready (.main .create)
    | .waiter => .unborn (.waiter .init)
  kernel := kernel

/-- Events of the test. -/
abbrev TestEvent := Event Cell Call Party Loc

end SignalRestart
