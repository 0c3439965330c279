import Futextest.Constants
import Futextest.Deadline
import Futextest.Syscalls

/-!
# The tests of `futex_wait`

The four programs whose name starts with `futex_wait`. Two of them leave the call to a
second thread: `futex_wait_private_mapped_file` changes the word and wakes the waiter,
and `futex_wait_uninitialized_heap` looks after a while whether the call has returned.
`futex_wait_timeout` and `futex_wait_wouldblock` only check how their one call fails.

## Main definitions

* `PrivateMappedFile.program`, `UninitializedHeap.program`, `WaitTimeout.program`,
  `WaitWouldblock.program` — the tests, to be run under some kernel
-/

open Syscalls

namespace PrivateMappedFile

/-! ## futex_wait_private_mapped_file.c -/

/-- The threads of the test. -/
inductive Party
  | main
  | waiter
  deriving DecidableEq

/-- `val`. -/
inductive Cell
  | val
  deriving DecidableEq

/-- The calls of the test. -/
inductive Call
  /-- `futex_wait(&val, 1, &wait_timeout, 0)` -/
  | wait
  /-- `futex_wake(&val, 1, 0)` -/
  | wake
  deriving DecidableEq

/-- Where the waiter is in `thr_futex_wait`. -/
inductive WaiterPc
  /-- `ret = futex_wait(&val, 1, &wait_timeout, 0);` -/
  | wait
  /-- `error("futex error.\n", errno); print_result(RET_ERROR); exit(RET_ERROR);` -/
  | failed
  /-- `exit(RET_ERROR);` has ended the process. -/
  | quit
  /-- `fail("waiter timedout\n");` -/
  | timedOut
  | exit
  deriving DecidableEq

/-- Where main is. -/
inductive MainPc
  /-- `ret = pthread_create(&thr, NULL, thr_futex_wait, NULL);` -/
  | create
  /-- `val = 2;` -/
  | store (ret : ℤ)
  /-- `res = futex_wake(&val, 1, 0);` -/
  | wake (ret : ℤ)
  /-- `fail("FUTEX_WAKE didn't find the waiting thread.\n"); ret = RET_FAIL;` -/
  | wakeFailed
  /-- `pthread_join(thr, NULL);` -/
  | join (ret : ℤ)
  /-- `print_result(ret);` -/
  | exit (ret : ℤ)
  deriving DecidableEq

/-- Where a thread of the test is. -/
inductive Loc
  | main (pc : MainPc)
  | waiter (pc : WaiterPc)
  deriving DecidableEq

/-- Operations of the test. -/
abbrev TestOp := Op Cell Call Party Loc

/-- Where the waiter goes by the result of its wait. -/
def waited (result : SysResult) : WaiterPc :=
  if result.ret ≠ 0 ∧ result.errno ≠ ewouldblock ∧ result.errno ≠ etimedout then .failed
  -- a timeout is reported, but does not show in any result
  else if result.ret ≠ 0 ∧ result.errno = etimedout then .timedOut
  else .exit

/-- `thr_futex_wait(NULL)`. -/
def thrFutexWait : WaiterPc → TestOp
  | .wait => .call .wait fun result => .waiter (waited result)
  | .failed => .tau (.waiter .quit)
  | .quit => .quit
  | .timedOut => .tau (.waiter .exit)
  | .exit => .exit

/-- `main`, after its options; `pthreadCreate` is what `pthread_create` returns. When that
is positive there is no thread, but main goes on; its join of a thread it does not have
then returns some error, which main ignores. -/
def main (pthreadCreate : ℤ) : MainPc → TestOp
  | .create =>
      if pthreadCreate = 0 then .create .waiter (.main (.store pthreadCreate))
      -- only this is taken for an error, though the error numbers are positive
      else if pthreadCreate < 0 then .tau (.main (.exit retError))
      else .tau (.main (.store pthreadCreate))
  | .store ret => .store .val 2 (.main (.wake ret))
  | .wake ret => .call .wake fun result => .main (if result.ret ≠ 1 then .wakeFailed else .join ret)
  | .wakeFailed => .tau (.main (.join retFail))
  | .join ret =>
      if pthreadCreate = 0 then .join .waiter (.main (.exit ret)) else .tau (.main (.exit ret))
  | .exit _ => .exit

/-- Both threads of the test. -/
def program (pthreadCreate : ℤ) : Program Cell Call Party Loc
  | .main, .main pc => main pthreadCreate pc
  | .waiter, .waiter pc => thrFutexWait pc
  | _, _ => .exit

/-- Main is about to create the waiter, and `val` is 1. -/
def start : State Cell Party Loc Unit where
  mem _ := 1
  thread
    | .main => .ready (.main .create)
    | .waiter => .unborn (.waiter .wait)
  kernel := ()

/-- Events of the test. -/
abbrev TestEvent := Event Cell Call Party Loc

end PrivateMappedFile

namespace UninitializedHeap

/-! ## futex_wait_uninitialized_heap.c -/

/-- The threads of the test. -/
inductive Party
  | main
  | child
  deriving DecidableEq

/-- `child_blocked` and `child_ret`. -/
inductive Cell
  | childBlocked
  | childRet
  deriving DecidableEq

/-- The call of the test, `futex_wait(buf, 1, NULL, 0)`. -/
inductive Call
  | wait
  deriving DecidableEq

/-- Where the child is in `wait_thread`. -/
inductive ChildPc
  /-- `child_ret = RET_PASS;` -/
  | init
  /-- `res = futex_wait(buf, 1, NULL, 0);` -/
  | wait
  /-- `child_blocked = 0;` -/
  | unblock (result : SysResult)
  /-- `error("futex failure\n", errno); child_ret = RET_ERROR;` -/
  | failed
  | exit
  deriving DecidableEq

/-- Where main is. -/
inductive MainPc
  /-- `ret = pthread_create(&thr, NULL, wait_thread, NULL);` -/
  | create
  /-- `error("pthread_create\n", errno); ret = RET_ERROR;` -/
  | createFailed
  /-- `if (child_blocked)` -/
  | test
  /-- `fail("child blocked in kernel\n"); ret = RET_FAIL;` -/
  | blocked
  /-- `ret = child_ret;` -/
  | readRet
  /-- `print_result(ret);` -/
  | exit (ret : ℤ)
  deriving DecidableEq

/-- Where a thread of the test is. -/
inductive Loc
  | main (pc : MainPc)
  | child (pc : ChildPc)
  deriving DecidableEq

/-- Operations of the test. -/
abbrev TestOp := Op Cell Call Party Loc

/-- `if (res != 0 && errno != EWOULDBLOCK)`. -/
def Fails (result : SysResult) : Prop := result.ret ≠ 0 ∧ result.errno ≠ ewouldblock

instance (result : SysResult) : Decidable (Fails result) := inferInstanceAs (Decidable (_ ∧ _))

/-- `wait_thread(NULL)`. -/
def waitThread : ChildPc → TestOp
  | .init => .store .childRet retPass (.child .wait)
  | .wait => .call .wait fun result => .child (.unblock result)
  -- from here on main reads `child_ret`, whether a failure is in it or not
  | .unblock result => .store .childBlocked 0 (.child (if Fails result then .failed else .exit))
  | .failed => .store .childRet retError (.child .exit)
  | .exit => .exit

/-- `main`, after its options and with a `buf` that could be mapped; `pthreadCreate` is
what `pthread_create` returns. -/
def main (pthreadCreate : ℤ) : MainPc → TestOp
  | .create =>
      if pthreadCreate ≠ 0 then .tau (.main .createFailed) else .create .child (.main .test)
  | .createFailed => .tau (.main (.exit retError))
  | .test => .load .childBlocked fun childBlocked =>
      .main (if childBlocked ≠ 0 then .blocked else .readRet)
  | .blocked => .tau (.main (.exit retFail))
  | .readRet => .load .childRet fun childRet => .main (.exit childRet)
  | .exit _ => .exit

/-- Both threads of the test. -/
def program (pthreadCreate : ℤ) : Program Cell Call Party Loc
  | .main, .main pc => main pthreadCreate pc
  | .child, .child pc => waitThread pc
  | _, _ => .exit

/-- Main is about to create the child; `child_blocked` is 1 and `child_ret` 0. -/
def start : State Cell Party Loc Unit where
  mem
    | .childBlocked => 1
    | .childRet => 0
  thread
    | .main => .ready (.main .create)
    | .child => .unborn (.child .init)
  kernel := ()

/-- Events of the test. -/
abbrev TestEvent := Event Cell Call Party Loc

end UninitializedHeap

/-! ## The tests without a second thread -/

/-- Where `main` of such a test is. -/
inductive WaitTestPc
  /-- The arguments `f1` or `f1+1` of `futex_wait`. -/
  | load
  /-- `res = futex_wait(&f1, …, &to, FUTEX_PRIVATE_FLAG);` -/
  | wait (expected : ℤ)
  /-- `fail("futex_wait returned …"); ret = RET_FAIL;` -/
  | failed
  /-- `print_result(ret);` -/
  | exit (ret : ℤ)
  deriving DecidableEq

/-- The call `futex_wait(&f1, expected, &to, FUTEX_PRIVATE_FLAG)`. -/
inductive WaitCall
  | wait (expected : ℤ) (timeout : Timespec)
  deriving DecidableEq

/-- `main` of a test that expects of its one call, with the value `f1 + off`, that it fails
with `errno`. -/
def waitTest (off : ℤ) (timeout : Timespec) (errno : ℕ) :
    Program Unit WaitCall Unit WaitTestPc
  | _, .load => .load () fun f1 => .wait (f1 + off)
  | _, .wait expected => .call (.wait expected timeout) fun result =>
      if result.ret = 0 ∨ result.errno ≠ errno then .failed else .exit retPass
  | _, .failed => .tau (.exit retFail)
  | _, .exit _ => .exit

/-- Main is about to call, with `f1` 0. -/
def waitTestStart : State Unit Unit WaitTestPc Unit where
  mem _ := 0
  thread _ := .ready .load
  kernel := ()

namespace WaitTimeout

/-! ### futex_wait_timeout.c -/

/-- `to.tv_sec = 0; to.tv_nsec = timeout_ns;`. -/
def timeout (timeoutNs : ℤ) : Timespec := ⟨0, timeoutNs⟩

/-- `main`, after its options. -/
def program (timeoutNs : ℤ) : Program Unit WaitCall Unit WaitTestPc :=
  waitTest 0 (timeout timeoutNs) etimedout

end WaitTimeout

namespace WaitWouldblock

/-! ### futex_wait_wouldblock.c -/

/-- `timeout_ns`. -/
def timeoutNs : ℤ := 100000

/-- `main`, after its options. -/
def program : Program Unit WaitCall Unit WaitTestPc :=
  waitTest 1 ⟨0, timeoutNs⟩ ewouldblock

end WaitWouldblock
