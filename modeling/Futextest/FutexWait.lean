import Mathlib.Data.Fintype.Basic
import Futextest.FutexMachine
import Futextest.Mutex

/-!
# The benchmark lock of `futex_wait.c`

The lock keeps its state in one futex word: 0 when it is free, 1 when it is held
and 2 when it is held and somebody may be asleep on it. Each procedure below is
the C function statement by statement. A control point is the statement about to
run, with the local `status` where it is live; a statement makes at most one
access to the word.

## Main definitions

* `futexWaitLock`, `futexCmpxchgUnlock` — the lock and the unlock
* `futexWaitTest` — the loop of a worker that locks and unlocks
* `lockMachine` — any number of threads that run this loop on one word
-/

open FutexMachine

/-- A procedure: at each of its control points one instruction, after which it
goes on inside or returns a result. -/
abbrev Procedure (A P R : Type) := P → Instr A (P ⊕ R)

/-- Where a thread is in `futex_wait_lock`. -/
inductive LockPc
  /-- `int status = *futex;` -/
  | read
  /-- `if (status == 0) status = futex_cmpxchg(futex, 0, 1);` -/
  | fast (status : Int32)
  /-- `while (status != 0)` -/
  | loop (status : Int32)
  /-- `if (status == 1) status = futex_cmpxchg(futex, 1, 2);` -/
  | mark (status : Int32)
  /-- `if (status != 0) futex_wait(futex, 2, NULL, FUTEX_PRIVATE_FLAG);` -/
  | sleep (status : Int32)
  /-- `status = *futex;`, still under the same condition. -/
  | reread
  /-- `if (status == 0) status = futex_cmpxchg(futex, 0, 2);` -/
  | take (status : Int32)
  deriving DecidableEq

/-- `futex_wait_lock(futex)`. -/
@[simp] def futexWaitLock : Procedure Unit LockPc Unit
  | .read => .load () fun v => .inl (.fast v.toInt32)
  | .fast status =>
      if status = 0 then .cmpxchg () 0 1 fun v => .inl (.loop v.toInt32)
      else .tau (.inl (.loop status))
  | .loop status => if status ≠ 0 then .tau (.inl (.mark status)) else .tau (.inr ())
  | .mark status =>
      if status = 1 then .cmpxchg () 1 2 fun v => .inl (.sleep v.toInt32)
      else .tau (.inl (.sleep status))
  -- a word that is not 2 sends the thread on without a sleep
  | .sleep status => if status ≠ 0 then .wait () 2 (.inl .reread) else .tau (.inl (.take status))
  | .reread => .load () fun v => .inl (.take v.toInt32)
  | .take status =>
      if status = 0 then .cmpxchg () 0 2 fun v => .inl (.loop v.toInt32)
      else .tau (.inl (.loop status))

/-- Where a thread is in `futex_cmpxchg_unlock`. -/
inductive UnlockPc
  /-- `int status = *futex;` -/
  | read
  /-- `if (status == 1) status = futex_cmpxchg(futex, 1, 0);` -/
  | clear (status : Int32)
  /-- `if (status == 2) futex_cmpxchg(futex, 2, 0);` -/
  | clearMarked (status : Int32)
  /-- `futex_wake(futex, 1, FUTEX_PRIVATE_FLAG);`, still under the same condition. -/
  | wake
  deriving DecidableEq

/-- `futex_cmpxchg_unlock(futex)`. -/
@[simp] def futexCmpxchgUnlock : Procedure Unit UnlockPc Unit
  | .read => .load () fun v => .inl (.clear v.toInt32)
  | .clear status =>
      if status = 1 then .cmpxchg () 1 0 fun v => .inl (.clearMarked v.toInt32)
      else .tau (.inl (.clearMarked status))
  | .clearMarked status =>
      if status = 2 then .cmpxchg () 2 0 fun _ => .inl .wake else .tau (.inr ())
  | .wake => .wake () 1 (.inr ())

/-- Where a thread is in `futex_wait_test`, with its local `loops`. -/
inductive TestPc
  /-- `while (loops--)` -/
  | head (loops : ℤ)
  /-- `futex_wait_lock(futex);` -/
  | lock (loops : ℤ) (pc : LockPc)
  /-- `futex_cmpxchg_unlock(futex);` -/
  | unlock (loops : ℤ) (pc : UnlockPc)
  deriving DecidableEq

/-- `futex_wait_test(futex, loops)`. -/
@[simp] def futexWaitTest : Procedure Unit TestPc Unit
  | .head loops =>
      if loops ≠ 0 then .tau (.inl (.lock (loops - 1) .read)) else .tau (.inr ())
  | .lock loops pc =>
      (futexWaitLock pc).map id
        (Sum.elim (fun pc' => .inl (.lock loops pc')) fun _ => .inl (.unlock loops .read))
  | .unlock loops pc =>
      (futexCmpxchgUnlock pc).map id
        (Sum.elim (fun pc' => .inl (.unlock loops pc')) fun _ => .inl (.head loops))

/-- A thread of the lock machine runs `futex_wait_test` and is then done. -/
abbrev LockLoc := TestPc ⊕ Unit

/-- Every thread runs `futex_wait_test`. -/
@[simp] def lockProgram (T : Type) : Program Unit T LockLoc
  | _, .inl pc => .instr (futexWaitTest pc)
  | _, .inr () => .exit

/-- All threads before their first pass, with the word 0. Thread `t` is to make
`loops t` passes, or never to stop if that is negative. -/
def lockStart {T : Type} (loops : T → ℤ) : State Unit T LockLoc where
  mem _ := 0
  thread t := .ready (.inl (.head (loops t)))

section Machine

variable {T : Type} [DecidableEq T] [Fintype T]

/-- Any number of threads that lock and unlock one futex word. -/
abbrev lockMachine (loops : T → ℤ) : System (State Unit T LockLoc) (Event Unit T LockLoc) :=
  machine (lockProgram T) (lockStart loops)

end Machine

/-! ## Who holds the lock

A thread becomes the owner by a compare-and-exchange that returns 0, which it
sees one statement later in `status`, and stops being it by one that writes 0. -/

/-- The control points at which a thread holds the lock. -/
def Holds : LockLoc → Prop
  | .inl (.lock _ (.loop status)) => status = 0
  | .inl (.unlock _ .read) => True
  | .inl (.unlock _ (.clear _)) => True
  | .inl (.unlock _ (.clearMarked status)) => status = 2
  | _ => False

/-- What the local `status` of an unlocking thread says about the word. -/
def StatusAgrees (w : UInt32) : LockLoc → Prop
  | .inl (.unlock _ (.clear status)) => status = 1 ∨ (status = 2 ∧ w = 2)
  | .inl (.unlock _ (.clearMarked status)) => status = 1 ∨ (status = 2 ∧ w = 2)
  | _ => True

/-- The mutex action of an access: a compare-and-exchange of 0 for 1 or 2 that
succeeds acquires, one of 1 or 2 for 0 that succeeds releases. -/
def accessAction {T : Type} (t : T) : Access Unit T → Option (Mutex.Action T)
  | .cmpxchg _ old new got =>
      if got = old ∧ old = 0 ∧ (new = 1 ∨ new = 2) then some (.acquire t)
      else if got = old ∧ (old = 1 ∨ old = 2) ∧ new = 0 then some (.release t)
      else none
  | _ => none

/-- The mutex action that a step of the lock machine is. -/
def mutexAction {T : Type} (e : Event Unit T LockLoc) : Option (Mutex.Action T) :=
  accessAction e.thread e.access

/-- The actor of a step's action is the thread that takes the step. -/
theorem mutexAction_actor {T : Type} {e : Event Unit T LockLoc} {a : Mutex.Action T}
    (acts : mutexAction e = some a) : a.actor = e.thread := by
  unfold mutexAction accessAction at acts
  split at acts
  · split_ifs at acts
    · rw [← Option.some.inj acts, Mutex.Action.actor]
    · rw [← Option.some.inj acts, Mutex.Action.actor]
  · simp at acts

/-- What one statement of `futex_wait_test` can do to the word and to the
ownership of its thread. Word, control point and mutex action before and after:
it acquires a free lock, releases the lock it holds, or changes neither its
ownership nor, unless it marks a held word, the word. -/
theorem futexWaitTest_effect {T : Type} (t : T) {mem : Unit → UInt32} (pc : TestPc)
    (woken : Finset T) (word : mem () = 0 ∨ mem () = 1 ∨ mem () = 2)
    (agrees : StatusAgrees (mem ()) (.inl pc))
    (held : Holds (.inl pc) → mem () ≠ 0) :
    let next := (futexWaitTest pc).effect mem
    let action := accessAction t ((futexWaitTest pc).shows mem woken)
    StatusAgrees (next.1 ()) next.2 ∧
    ((action = some (.acquire t) ∧ mem () = 0 ∧ ¬ Holds (.inl pc) ∧ Holds next.2 ∧
        (next.1 () = 1 ∨ next.1 () = 2)) ∨
      (action = some (.release t) ∧ Holds (.inl pc) ∧ ¬ Holds next.2 ∧ next.1 () = 0) ∨
      (action = none ∧ (Holds next.2 ↔ Holds (.inl pc)) ∧
        (next.1 () = mem () ∨ mem () = 1 ∧ next.1 () = 2))) := by
  cases pc with
  | head loops => by_cases h : loops = 0 <;> simp [Holds, StatusAgrees, accessAction, h]
  | lock loops pc =>
    cases pc with
    | read | reread => simp [Holds, StatusAgrees, accessAction]
    | loop status | sleep status =>
      by_cases h : status = 0 <;> simp [Holds, StatusAgrees, accessAction, h]
    | fast status | take status =>
      by_cases h : status = 0
      · subst h
        rcases word with w | w | w <;> simp [Holds, StatusAgrees, accessAction, w]
      · simp [Holds, StatusAgrees, accessAction, h]
    | mark status =>
      by_cases h : status = 1
      · subst h
        rcases word with w | w | w <;> simp [Holds, StatusAgrees, accessAction, w]
      · simp [Holds, StatusAgrees, accessAction, h]
  | unlock loops pc =>
    cases pc with
    | read =>
      have nonzero := held trivial
      rcases word with w | w | w
      · exact absurd w nonzero
      · simp [Holds, StatusAgrees, accessAction, w]
      · simp [Holds, StatusAgrees, accessAction, w]
    | clear status =>
      have nonzero := held trivial
      rcases agrees with rfl | ⟨rfl, two⟩
      · rcases word with w | w | w
        · exact absurd w nonzero
        · simp [Holds, StatusAgrees, accessAction, w]
        · simp [Holds, StatusAgrees, accessAction, w]
      · simp [Holds, StatusAgrees, accessAction, two]
    | clearMarked status =>
      rcases agrees with rfl | ⟨rfl, two⟩
      · simp [Holds, StatusAgrees, accessAction]
      · simp [Holds, StatusAgrees, accessAction, two]
    | wake => simp [Holds, StatusAgrees, accessAction]
