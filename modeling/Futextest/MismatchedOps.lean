import Futextest.Constants
import Futextest.Syscalls

/-!
# The test of `futex_requeue_pi_mismatched_ops.c`

A child waits on `f1` with a plain `futex_wait`, and main tries to requeue it to a PI
futex, which the kernel is to refuse with `EINVAL`. Main then wakes the child, joins it
and takes over its result if there was no error so far.

## Main definitions

* `blockingChild`, `main` — the two thread functions
* `program`, `start` — the test, to be run under some kernel
-/

namespace MismatchedOps

open Syscalls

/-- The threads of the test. -/
inductive Party
  | main
  | child
  deriving DecidableEq

/-- `f1` and `child_ret`. -/
inductive Cell
  | f1
  | childRet
  deriving DecidableEq

/-- The calls of the test. -/
inductive Call
  /-- `futex_wait(&f1, f1, NULL, …)` -/
  | wait (expected : ℤ)
  /-- `futex_cmp_requeue_pi(&f1, f1, &f2, 1, 0, …)` -/
  | cmpRequeuePi (expected : ℤ)
  /-- `futex_wake(&f1, 1, …)` -/
  | wake
  deriving DecidableEq

/-- Where the child is in `blocking_child`. -/
inductive ChildPc
  /-- The argument `f1` of `futex_wait`. -/
  | load
  /-- `futex_wait(&f1, f1, NULL, …)` -/
  | wait (expected : ℤ)
  /-- `child_ret = …` -/
  | store (result : SysResult)
  /-- `child_ret = -errno; error("futex_wait\n", errno);` -/
  | failed (errno : ℕ)
  | exit
  deriving DecidableEq

/-- Where main is. -/
inductive MainPc
  /-- `pthread_create(&child, NULL, blocking_child, NULL)` -/
  | create
  /-- `error("pthread_create\n", errno); ret = RET_ERROR;` -/
  | createFailed
  /-- The argument `f1` of `futex_cmp_requeue_pi`. -/
  | load
  /-- `ret = futex_cmp_requeue_pi(&f1, f1, &f2, 1, 0, …);` -/
  | requeue (expected : ℤ)
  /-- `ret = futex_wake(&f1, 1, …);` -/
  | wake
  /-- `error(…)` or `fail(…)`, and `ret = RET_ERROR;` or `ret = RET_FAIL;`. -/
  | report (ret : ℤ)
  /-- `pthread_join(child, NULL);` -/
  | join (ret : ℤ)
  /-- `if (!ret) ret = child_ret;` -/
  | out (ret : ℤ)
  /-- `print_result(ret);` -/
  | exit (ret : ℤ)
  deriving DecidableEq

/-- Where a thread of the test is. -/
inductive Loc
  | main (pc : MainPc)
  | child (pc : ChildPc)
  deriving DecidableEq

/-- Operations of the test. -/
abbrev TestOp := Op Cell Call Party Loc

/-- `blocking_child(NULL)`. -/
def blockingChild : ChildPc → TestOp
  | .load => .load .f1 fun expected => .child (.wait expected)
  | .wait expected => .call (.wait expected) fun result => .child (.store result)
  | .store result =>
      .store .childRet result.ret
        (.child (if result.ret < 0 then .failed result.errno else .exit))
  | .failed errno => .store .childRet (-errno) (.child .exit)
  | .exit => .exit

/-- Where main goes by the result of its requeue. -/
def requeued (result : SysResult) : MainPc :=
  if result.ret < 0 then
    if result.errno = einval then .wake else .report retError
  else if 0 < result.ret then .report retFail
  else .report retError

/-- Where main goes by the result of its wake. -/
def woken (result : SysResult) : MainPc :=
  if result.ret = 1 then .join retPass else .report retError

/-- `main`, after its options; `pthreadCreate` is what `pthread_create` returns. -/
def main (pthreadCreate : ℤ) : MainPc → TestOp
  | .create =>
      if pthreadCreate = 0 then .create .child (.main .load) else .tau (.main .createFailed)
  | .createFailed => .tau (.main (.exit retError))
  | .load => .load .f1 fun expected => .main (.requeue expected)
  | .requeue expected => .call (.cmpRequeuePi expected) fun result => .main (requeued result)
  | .wake => .call .wake fun result => .main (woken result)
  | .report ret => .tau (.main (.join ret))
  | .join ret => .join .child (.main (.out ret))
  -- an error of main is not replaced by the result of the child
  | .out ret =>
      if ret = 0 then .load .childRet fun childRet => .main (.exit childRet)
      else .tau (.main (.exit ret))
  | .exit _ => .exit

/-- Both threads of the test. -/
def program (pthreadCreate : ℤ) : Program Cell Call Party Loc
  | .main, .main pc => main pthreadCreate pc
  | .child, .child pc => blockingChild pc
  | _, _ => .exit

/-- Main is about to create the child, and all cells are 0. -/
def start {K : Type} (kernel : K) : State Cell Party Loc K where
  mem _ := 0
  thread
    | .main => .ready (.main .create)
    | .child => .unborn (.child .load)
  kernel := kernel

/-- Events of the test. -/
abbrev TestEvent := Event Cell Call Party Loc

end MismatchedOps
