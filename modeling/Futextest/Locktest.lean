import Futextest.Barrier

/-!
# The benchmark harness

`locktest` creates its workers, lets them meet at a first barrier, takes the time,
opens the barrier, waits for them at a second one, takes the time again and joins
them; if a thread cannot be created it opens the first barrier with -1 and joins
those that it has. Between the barriers a worker calls `locktest_function`, which
is any procedure on words of its own.

## Main definitions

* `Locktest` — the arguments of a run, and what the environment answers
* `Locktest.thread`, `Locktest.main` — `locktest_thread` and `locktest`
* `Locktest.machine` — all threads of a run
* `futexWaitLocktest` — the run with `futex_wait_test`
-/

open FutexMachine

/-- The words of `struct locktest_shared`: two barriers, and what the function
under test works on, `futex` among it. -/
inductive LocktestAddr (A : Type)
  | before (a : BarrierAddr)
  | after (a : BarrierAddr)
  | user (a : A)
  deriving DecidableEq

/-- Where a worker is in `locktest_thread`. -/
inductive WorkerPc (F : Type)
  /-- In `barrier_sync(&shared->barrier_before)`. -/
  | before (pc : SyncPc)
  /-- `if (… > 0)`, with the result of `barrier_sync`. -/
  | test (result : Int32)
  /-- `shared->locktest_function(&shared->futex, shared->loops);` -/
  | call
  /-- In that call. -/
  | body (pc : F)
  /-- In `barrier_sync(&shared->barrier_after)`. -/
  | after (pc : SyncPc)
  /-- `return NULL;`, after the block of the `if` or past it. -/
  | ret (ran : Bool)
  deriving DecidableEq

/-- Where main is in `locktest` with `n` workers. -/
inductive MainPc (n : ℕ)
  /-- `for (i = 0; i < threads; i++) if (pthread_create(thread + i, …))` -/
  | create (i : Fin (n + 1))
  /-- `barrier_unblock(&shared.barrier_before, -1);` -/
  | abort (i : Fin (n + 1)) (pc : UnblockPc)
  /-- `while (--i >= 0) pthread_join(thread[i], NULL);` -/
  | abortJoin (i : Fin (n + 1))
  /-- `barrier_wait(&shared.barrier_before);` -/
  | waitBefore (pc : WaitPc)
  /-- `before = times(&tms_before);` -/
  | timesBefore
  /-- `barrier_unblock(&shared.barrier_before, 1);` -/
  | unblockBefore (pc : UnblockPc)
  /-- `barrier_wait(&shared.barrier_after);` -/
  | waitAfter (pc : WaitPc)
  /-- `after = times(&tms_after);` -/
  | timesAfter
  /-- `barrier_unblock(&shared.barrier_after, 1);` -/
  | unblockAfter (pc : UnblockPc)
  /-- `for (i = 0; i < threads; i++) pthread_join(thread[i], NULL);` -/
  | join (i : Fin (n + 1))
  /-- `locktest` has returned. -/
  | ret (result : ℤ)
  deriving DecidableEq

/-- Where a thread of the run is. -/
inductive LocktestLoc (F : Type) (n : ℕ)
  | main (pc : MainPc n)
  | worker (pc : WorkerPc F)
  deriving DecidableEq

/-- A run of `locktest`. The function under test is a procedure with an entry for
each value of its argument; `shared.loops` is the quotient of the iterations by
the threads; `pthreadCreate i` is what the call for thread `i` returns. -/
structure Locktest (A F : Type) where
  locktestFunction : Procedure A F Unit
  entry : Int32 → F
  words : A → UInt32
  threads : Int32
  loops : Int32
  pthreadCreate : ℕ → Int32

namespace Locktest

variable {A F : Type} (c : Locktest A F)

/-- The number of threads that `locktest` is asked for. -/
abbrev n : ℕ := workers c.threads

/-- Operations of the run. -/
abbrev RunOp := Op (LocktestAddr A) (Team c.threads) (LocktestLoc F c.n)

/-- `locktest_thread(&shared)`. -/
def thread : WorkerPc F → c.RunOp
  | .before pc =>
      .instr ((barrierSync pc).map .before
        (Sum.elim (fun pc => .worker (.before pc)) fun result => .worker (.test result)))
  | .test result =>
      .instr (.tau (if 0 < result then .worker .call else .worker (.ret false)))
  | .call => .instr (.tau (.worker (.body (c.entry c.loops))))
  | .body pc =>
      .instr ((c.locktestFunction pc).map .user
        (Sum.elim (fun pc => .worker (.body pc)) fun _ => .worker (.after .dec)))
  | .after pc =>
      .instr ((barrierSync pc).map .after
        (Sum.elim (fun pc => .worker (.after pc)) fun _ => .worker (.ret true)))
  | .ret _ => .exit

/-- `locktest(locktest_function, iterations, threads)`, after its initialisations. -/
def main : MainPc c.n → c.RunOp
  | .create i =>
      if more : i.val < c.n then
        if c.pthreadCreate i = 0 then
          .create (.worker ⟨i, more⟩) (.main (.create ⟨i + 1, Nat.succ_lt_succ more⟩))
        -- the threads before `i` run and are to be sent home
        else .instr (.tau (.main (.abort i .store)))
      else .instr (.tau (.main (.waitBefore .read)))
  | .abort i pc =>
      .instr ((barrierUnblock (-1) pc).map .before
        (Sum.elim (fun pc => .main (.abort i pc)) fun _ => .main (.abortJoin i)))
  -- `while (--i >= 0)`, from the last thread created down to the first
  | .abortJoin ⟨0, _⟩ => .instr (.tau (.main (.ret retError)))
  | .abortJoin ⟨i + 1, bound⟩ =>
      .join (.worker ⟨i, Nat.lt_of_succ_lt_succ bound⟩)
        (.main (.abortJoin ⟨i, Nat.lt_of_succ_lt bound⟩))
  | .waitBefore pc =>
      .instr ((barrierWait pc).map .before
        (Sum.elim (fun pc => .main (.waitBefore pc)) fun _ => .main .timesBefore))
  | .timesBefore => .instr (.tau (.main (.unblockBefore .store)))
  | .unblockBefore pc =>
      .instr ((barrierUnblock 1 pc).map .before
        (Sum.elim (fun pc => .main (.unblockBefore pc)) fun _ => .main (.waitAfter .read)))
  | .waitAfter pc =>
      .instr ((barrierWait pc).map .after
        (Sum.elim (fun pc => .main (.waitAfter pc)) fun _ => .main .timesAfter))
  | .timesAfter => .instr (.tau (.main (.unblockAfter .store)))
  | .unblockAfter pc =>
      .instr ((barrierUnblock 1 pc).map .after
        (Sum.elim (fun pc => .main (.unblockAfter pc)) fun _ => .main (.join 0)))
  | .join i =>
      if more : i.val < c.n then
        .join (.worker ⟨i, more⟩) (.main (.join ⟨i + 1, Nat.succ_lt_succ more⟩))
      else .instr (.tau (.main (.ret retPass)))
  | .ret _ => .exit

/-- Main runs `locktest` and every worker `locktest_thread`. -/
def program : Program (LocktestAddr A) (Team c.threads) (LocktestLoc F c.n)
  | .main, .main pc => c.main pc
  | .worker _, .worker pc => c.thread pc
  | _, _ => .exit

/-- After `barrier_init` of both barriers, before the first `pthread_create`. -/
def start : State (LocktestAddr A) (Team c.threads) (LocktestLoc F c.n) where
  mem
    | .before a => barrierInit c.threads a
    | .after a => barrierInit c.threads a
    | .user a => c.words a
  thread
    | .main => .ready (.main (.create 0))
    | .worker _ => .unborn (.worker (.before .dec))

/-- States of the run. -/
abbrev RunState := State (LocktestAddr A) (Team c.threads) (LocktestLoc F c.n)

/-- Events of the run. -/
abbrev RunEvent := Event (LocktestAddr A) (Team c.threads) (LocktestLoc F c.n)

section Machine

variable [DecidableEq A]

/-- All threads of a run of `locktest`. -/
abbrev machine : System c.RunState c.RunEvent := FutexMachine.machine c.program c.start

end Machine

/-- Exactly the first `k` calls of `pthread_create` succeed: all of them, or call
`k` fails. -/
structure Creates (k : ℕ) : Prop where
  le : k ≤ c.n
  succeed : ∀ i, i < k → c.pthreadCreate i = 0
  fails : k < c.n → c.pthreadCreate k ≠ 0

end Locktest

/-- The benchmark of `futex_wait.c`: `locktest` with `futex_wait_test`, on the one
word `shared.futex`. -/
def futexWaitLocktest (threads loops : Int32) (pthreadCreate : ℕ → Int32) :
    Locktest Unit TestPc where
  locktestFunction := futexWaitTest
  entry loops := .head loops.toInt
  words _ := 0
  threads := threads
  loops := loops
  pthreadCreate := pthreadCreate
