import Futextest.FunctionalTest
import Futextest.PiFutex.Calls
import Futextest.RequeuePi.Waiters
import Futextest.Scan

/-!
# The verdict of `futex_requeue_pi`

What `unit_test` returns, whatever its futex calls return. Each thread settles its own
result before it ends, and main reads the results of threads it has joined only, so
that an error of any of them shows in the verdict. A positive result of a wait is
nobody's error: it is returned as it is, unless an earlier waiter failed.

## Main definitions

* `UnitTest.test` — the test with its diagnostics
* `UnitTest.EarlyError`, `UnitTest.ErrorsFirst` — where the verdict is a documented one

## Main results

* `Inv.run` — what every run has of the threads' results and of main's
* `UnitTest.documentedWhen` — in which runs the verdict is a documented one
* `UnitTest.heeded` — every diagnostic shows in the verdict
-/

namespace RequeuePi

open Syscalls

/-- The futex calls of the test. -/
abbrev FutexCall := PiFutex.Call Cell PiWord

/-- Events of the test when its calls return anything. -/
abbrev AnyEvent := Syscalls.Event Cell FutexCall Party Loc

/-- `futex_wait_requeue_pi`. -/
def isWait : FutexCall → Bool
  | .waitRequeuePi .. => true
  | _ => false

/-- The results of the waits of a waiter. -/
def waitResults (i : Fin threadMax) (w : List AnyEvent) : List SysResult :=
  returns (.waiter i) isWait w

/-- The place of a thread in the order of creation. -/
def Party.order : Party → ℕ
  | .main => 0
  | .blocker => 1
  | .waiter i => i + 2
  | .waker => threadMax + 2

theorem Party.order_injective : Function.Injective Party.order := by
  intro s t same
  cases s <;> cases t <;> simp only [Party.order] at same <;> first | rfl | skip
  case waiter.waiter i j => rw [Fin.ext (by omega : i.val = j.val)]
  all_goals omega

/-- The cell with the result of a thread. -/
def Party.retCell : Party → Cell
  | .main | .waker => .wakerRet
  | .blocker => .blockerRet
  | .waiter i => .waiterRet i

namespace UnitTest

variable (u : UnitTest)

/-- Whether `error()` is called at a control point, by the thread itself or in a call
of `create_rt_thread` that fails. -/
def diagnoses : Loc → Bool
  | .main (.createBlocker _) => u.createRtThread .blocker ≠ 0
  | .main (.createWaiter _ i) => u.createRtThread (.waiter i) ≠ 0
  | .main (.createWaker _) => u.createRtThread .waker ≠ 0
  -- a timeout that was asked for is no error
  | .waiter (.amend ret) => ret = retError
  | .broadcast (.setError _) | .signal (.setError _) | .blocker .setError => true
  | _ => false

/-- Whether `task_count += args->ret`, which follows the event, overflows. -/
def overflows (e : AnyEvent) : Bool :=
  match e.pc with
  -- nothing is added after an error or in the last pass
  | .broadcast (.store taskCount i result) =>
      0 ≤ result.ret ∧ i + 1 < maxWakeIters ∧ intMax < taskCount + result.ret
  | .signal (.store taskCount _ result) => 0 ≤ result.ret ∧ intMax < taskCount + result.ret
  | _ => false

/-- The test, whose verdict is what `unit_test` returns. -/
def test : FunctionalTest Cell FutexCall Party Loc where
  program := u.program.toSyscalls
  start := u.start.toSyscalls
  main := .main
  verdict
    | .main (.exit ret) => some ret
    | _ => none
  diagnoses := u.diagnoses
  overflows := overflows

/-! ## Results of the threads -/

/-- What a waiter leaves in `args[i].ret` when its wait returns `result`. -/
def finalRet (result : SysResult) : ℤ :=
  if result.ret < 0 then if u.timed ∧ result.errno = etimedout then 0 else retError
  else result.ret

/-- The result of the waker or of the blocker is settled: either an error or, without a
diagnostic, some number of threads. -/
def Settled (diagnosed : Prop) (ret : ℤ) : Prop := ret = retError ∨ 0 ≤ ret ∧ ¬ diagnosed

/-- What a waiter has of its wait and leaves in its result. -/
def WaiterPhase (results : List SysResult) (diagnosed : Prop) (ret : ℤ) : WaiterPc → Prop
  | .load | .count _ | .wait _ => results = [] ∧ ¬ diagnosed
  | .store r => results = [r] ∧ ¬ diagnosed
  | .countWoken r => results = [r] ∧ ret = r.ret ∧ ¬ diagnosed
  | .amend value => ∃ r, results = [r] ∧ r.ret < 0 ∧ value = u.finalRet r ∧ ¬ diagnosed
  | .lock | .unlock | .exit =>
      ∃ r, results = [r] ∧ ret = u.finalRet r ∧ (diagnosed → ret = retError)

/-- What the waker has counted, in `broadcast_wakerfn`. -/
def BroadcastPhase (diagnosed : Prop) (ret : ℤ) : BroadcastPc → Prop
  | .poll | .lock => ¬ diagnosed
  | .load taskCount _ | .requeue taskCount _ _ | .store taskCount _ _ | .setError taskCount
  | .total taskCount => 0 ≤ taskCount ∧ ¬ diagnosed
  | .test taskCount _ r => ret = r ∧ 0 ≤ r ∧ 0 ≤ taskCount ∧ ¬ diagnosed
  | .wake taskCount r | .unlock taskCount r => ret = r ∧ 0 ≤ taskCount ∧ Settled diagnosed r
  | .exit _ => Settled diagnosed ret

/-- What the waker has counted, in `signal_wakerfn`. -/
def SignalPhase (diagnosed : Prop) (ret : ℤ) : SignalPc → Prop
  | .poll => ret = 0 ∧ ¬ diagnosed
  | .guard taskCount _ r | .guardWoken taskCount _ r =>
      ret = r ∧ 0 ≤ r ∧ 0 ≤ taskCount ∧ ¬ diagnosed
  | .unlock taskCount _ r => ret = r ∧ 0 ≤ taskCount ∧ ¬ diagnosed
  | .lock taskCount _ | .load taskCount _ | .requeue taskCount _ _ | .store taskCount _ _
  | .negate taskCount _ _ | .setError taskCount | .total taskCount => 0 ≤ taskCount ∧ ¬ diagnosed
  | .wake taskCount r => ret = r ∧ 0 ≤ taskCount ∧ Settled diagnosed r
  | .exit _ => Settled diagnosed ret

/-- Whether the blocker has failed. -/
def BlockerPhase (diagnosed : Prop) (ret : ℤ) : BlockerPc → Prop
  | .lock | .storeLock _ | .load | .wait _ | .storeWait _ | .setError => ¬ diagnosed
  | .unlock r => ret = r ∧ ¬ diagnosed
  | .exit => ret = retError ∨ ret = 0 ∧ ¬ diagnosed

/-- What a thread has done, at each of its control points. -/
def Phase (results : List SysResult) (diagnosed : Prop) (ret : ℤ) : Party → Loc → Prop
  | .main, .main _ => True
  | .blocker, .blocker pc => BlockerPhase diagnosed ret pc
  | .waker, .broadcast pc => BroadcastPhase diagnosed ret pc
  | .waker, .signal pc => SignalPhase diagnosed ret pc
  | .waiter _, .waiter pc => u.WaiterPhase results diagnosed ret pc
  | _, _ => False

variable {u} {results : List SysResult} {diagnosed : Prop} {mem mem' : Cell → ℤ}
  {loc : Party → Loc} {access : Syscalls.Access Cell FutexCall Party} {l l' : Loc}
  {M : Syscalls.Program Cell FutexCall Party Loc}

theorem finalRet_of_not_neg {r : SysResult} (fine : ¬ r.ret < 0) : u.finalRet r = r.ret :=
  if_neg fine

/-- A waiter whose wait failed amends its result. -/
theorem afterWait_eq (r : SysResult) :
    u.afterWait r = if r.ret < 0 then .amend (u.finalRet r) else .unlock := by
  unfold afterWait finalRet
  split_ifs <;> rfl

theorem WaiterPhase.next {i : Fin threadMax} {pc : WaiterPc}
    (phase : u.WaiterPhase results diagnosed (mem (.waiterRet i)) pc)
    (next : (u.waiterfn i pc).toSyscalls.Next M mem loc access mem' l') :
    u.Phase
      (results ++
        (Event.returned (.waiter i) isWait (⟨.waiter i, .waiter pc, access⟩ : AnyEvent)).toList)
      (diagnosed ∨ u.diagnoses (.waiter pc) = true) (mem' (.waiterRet i)) (.waiter i) l' := by
  cases pc with
  | load | count old | store r =>
    cases next
    simpa [Phase, WaiterPhase, Event.returned, diagnoses] using phase
  | wait old =>
    cases next with
    | leave c k r => simpa [Phase, WaiterPhase, Event.returned, diagnoses, isWait] using phase
  | countWoken r =>
    obtain ⟨one, stored, quiet⟩ := phase
    cases next
    rw [afterWait_eq]
    split_ifs with failed
    · simp [Phase, WaiterPhase, Event.returned, diagnoses, one, failed, quiet]
    · simp [Phase, WaiterPhase, Event.returned, diagnoses, one, stored, quiet,
        finalRet_of_not_neg failed]
  | amend value =>
    obtain ⟨r, one, failed, rfl, quiet⟩ := phase
    cases next
    simp [Phase, WaiterPhase, Event.returned, diagnoses, one, quiet]
  | lock | unlock =>
    cases next with
    | leave c k r => simpa [Phase, WaiterPhase, Event.returned, diagnoses, isWait] using phase
  | exit => cases next

/-- What the broadcast waker leaves at its end. -/
theorem broadcastResult_phase {taskCount r ret : ℤ} (stored : ret = r) (counted : 0 ≤ taskCount)
    (settled : Settled diagnosed r) :
    BroadcastPhase diagnosed ret (broadcastResult taskCount r) := by
  unfold broadcastResult
  split_ifs with positive
  · -- a positive result is no error, so nothing was diagnosed
    rcases settled with error | ⟨-, quiet⟩
    · rw [error] at positive
      exact absurd positive (by decide)
    · exact ⟨counted, quiet⟩
  · rw [BroadcastPhase, stored]
    exact settled

theorem BroadcastPhase.next {pc : BroadcastPc}
    (phase : BroadcastPhase diagnosed (mem .wakerRet) pc)
    (next : (u.broadcastWakerfn pc).toSyscalls.Next M mem loc access mem' l') :
    u.Phase results (diagnosed ∨ u.diagnoses (.broadcast pc) = true) (mem' .wakerRet) .waker
      l' := by
  cases pc with
  | poll =>
    cases next
    dsimp only
    split_ifs <;> simpa [Phase, BroadcastPhase, diagnoses] using phase
  | lock =>
    cases next
    simpa [Phase, BroadcastPhase, diagnoses] using phase
  | load taskCount i | requeue taskCount i old =>
    cases next
    simpa [Phase, BroadcastPhase, diagnoses] using phase
  | store taskCount i r =>
    obtain ⟨counted, quiet⟩ := phase
    cases next
    -- an error, a pass that goes on to the test, and the last pass
    unfold requeuedAll
    split_ifs with failed more
    · simpa [Phase, BroadcastPhase, diagnoses] using ⟨counted, quiet⟩
    · have sum : 0 ≤ taskCount + r.ret := by omega
      simpa [Phase, BroadcastPhase, diagnoses, sum, quiet] using failed
    · simpa [Phase, BroadcastPhase, diagnoses] using ⟨counted, quiet⟩
  | test taskCount i r =>
    obtain ⟨stored, some, counted, quiet⟩ := phase
    cases next
    dsimp only
    split_ifs
    · simpa [Phase, BroadcastPhase, diagnoses] using ⟨counted, quiet⟩
    · simpa [Phase, BroadcastPhase, diagnoses] using ⟨stored, counted, .inr ⟨some, quiet⟩⟩
  | setError taskCount =>
    cases next
    simpa [Phase, BroadcastPhase, diagnoses, Settled] using phase.1
  | wake taskCount r =>
    obtain ⟨stored, counted, settled⟩ := phase
    cases next
    dsimp only
    split_ifs
    · simpa [Phase, BroadcastPhase, diagnoses] using ⟨stored, counted, settled⟩
    · simpa [Phase, diagnoses] using broadcastResult_phase stored counted settled
  | unlock taskCount r =>
    obtain ⟨stored, counted, settled⟩ := phase
    cases next
    simpa [Phase, diagnoses] using broadcastResult_phase stored counted settled
  | total taskCount =>
    cases next
    simpa [Phase, BroadcastPhase, diagnoses, Settled] using .inr phase
  | exit r => cases next

/-- Where the signal waker goes by the result of a requeue. -/
theorem requeuedOne_phase {taskCount r ret : ℤ} {i : ℕ} (stored : ret = r)
    (counted : 0 ≤ taskCount) (quiet : ¬ diagnosed) :
    SignalPhase diagnosed ret (requeuedOne taskCount i r) := by
  unfold requeuedOne
  split_ifs with failed capped
  · exact ⟨counted, quiet⟩
  · exact ⟨by omega, quiet⟩
  · exact ⟨stored, by omega, by omega, quiet⟩

/-- The same after the release of `f2`. -/
theorem release_phase {taskCount r ret : ℤ} {i : ℕ} (stored : ret = r) (counted : 0 ≤ taskCount)
    (quiet : ¬ diagnosed) : SignalPhase diagnosed ret (u.release taskCount i r) := by
  unfold release
  split_ifs
  · exact ⟨stored, counted, quiet⟩
  · exact requeuedOne_phase stored counted quiet

theorem SignalPhase.next {pc : SignalPc} (phase : SignalPhase diagnosed (mem .wakerRet) pc)
    (next : (u.signalWakerfn pc).toSyscalls.Next M mem loc access mem' l') :
    u.Phase results (diagnosed ∨ u.diagnoses (.signal pc) = true) (mem' .wakerRet) .waker l' := by
  cases pc with
  | poll =>
    obtain ⟨zero, quiet⟩ := phase
    cases next
    dsimp only
    split_ifs <;> simpa [Phase, SignalPhase, diagnoses] using ⟨zero, quiet⟩
  | guard taskCount i r =>
    obtain ⟨stored, some, counted, quiet⟩ := phase
    cases next
    split_ifs
    · simpa [Phase, SignalPhase, diagnoses] using ⟨stored, some, counted, quiet⟩
    · simpa [Phase, SignalPhase, diagnoses] using ⟨stored, counted, .inr ⟨some, quiet⟩⟩
  | guardWoken taskCount i r =>
    obtain ⟨stored, some, counted, quiet⟩ := phase
    cases next
    dsimp only
    split_ifs
    · simpa [Phase, SignalPhase, diagnoses] using ⟨counted, quiet⟩
    · simpa [Phase, SignalPhase, diagnoses] using ⟨counted, quiet⟩
    · simpa [Phase, SignalPhase, diagnoses] using ⟨stored, counted, .inr ⟨some, quiet⟩⟩
  | lock taskCount i | load taskCount i | requeue taskCount i old =>
    cases next
    simpa [Phase, SignalPhase, diagnoses] using phase
  | store taskCount i r =>
    obtain ⟨counted, quiet⟩ := phase
    cases next
    split_ifs
    · simpa [Phase, SignalPhase, diagnoses] using ⟨counted, quiet⟩
    · simpa [Phase, diagnoses] using release_phase rfl counted quiet
  | negate taskCount i errno =>
    obtain ⟨counted, quiet⟩ := phase
    cases next
    simpa [Phase, diagnoses] using release_phase rfl counted quiet
  | unlock taskCount i r =>
    obtain ⟨stored, counted, quiet⟩ := phase
    cases next
    simpa [Phase, diagnoses] using requeuedOne_phase stored counted quiet
  | setError taskCount =>
    cases next
    simpa [Phase, SignalPhase, diagnoses, Settled] using phase.1
  | wake taskCount r =>
    obtain ⟨stored, counted, settled⟩ := phase
    cases next
    dsimp only
    split_ifs with some
    · -- a result of 0 or more is no error
      rcases settled with error | ⟨-, quiet⟩
      · rw [error] at some
        exact absurd some (by decide)
      · simpa [Phase, SignalPhase, diagnoses] using ⟨counted, quiet⟩
    · simpa [Phase, SignalPhase, diagnoses, stored] using settled
  | total taskCount =>
    cases next
    simpa [Phase, SignalPhase, diagnoses, Settled] using .inr phase
  | exit r => cases next

theorem BlockerPhase.next {pc : BlockerPc} (phase : BlockerPhase diagnosed (mem .blockerRet) pc)
    (next : (thirdPartyBlocker pc).toSyscalls.Next M mem loc access mem' l') :
    u.Phase results (diagnosed ∨ u.diagnoses (.blocker pc) = true) (mem' .blockerRet) .blocker
      l' := by
  cases pc with
  | lock | load | wait expected | storeWait r =>
    cases next
    simpa [Phase, BlockerPhase, diagnoses] using phase
  | storeLock r =>
    cases next
    split_ifs with failed
    · rw [blockerResult, if_pos (.inl failed)]
      simpa [Phase, BlockerPhase, diagnoses] using phase
    · simpa [Phase, BlockerPhase, diagnoses] using phase
  | unlock r =>
    obtain ⟨stored, quiet⟩ := phase
    cases next with
    | leave c k r' =>
      dsimp only
      unfold blockerResult
      split_ifs with failed
      · simpa [Phase, BlockerPhase, diagnoses] using quiet
      · -- without an error both results are 0
        have zero : r = 0 := by
          by_contra nonzero
          exact failed (.inl nonzero)
        simpa [Phase, BlockerPhase, diagnoses, stored, zero] using .inr quiet
  | setError =>
    cases next
    simp [Phase, BlockerPhase, diagnoses]
  | exit => cases next

/-- Every thread but main goes on to what its phase allows. -/
theorem Phase.next {t : Party} (phase : u.Phase results diagnosed (mem t.retCell) t l)
    (other : t ≠ .main) (next : (u.test.program t l).Next u.test.program mem loc access mem' l') :
    u.Phase (results ++ (Event.returned t isWait (⟨t, l, access⟩ : AnyEvent)).toList)
      (diagnosed ∨ u.diagnoses l = true) (mem' t.retCell) t l' := by
  cases t with
  | main => exact absurd rfl other
  | blocker =>
    cases l with
    | blocker pc => exact BlockerPhase.next phase next
    | _ => exact phase.elim
  | waker =>
    cases l with
    | broadcast pc => exact BroadcastPhase.next phase next
    | signal pc => exact SignalPhase.next phase next
    | _ => exact phase.elim
  | waiter i =>
    cases l with
    | waiter pc => exact WaiterPhase.next phase next
    | _ => exact phase.elim

/-- A thread writes its own result and the counters. -/
theorem writes_own {t : Party} {a : Cell} (writes : (u.test.program t l).writes = some a) :
    (t ≠ .main ∧ a = t.retCell) ∨ a = .waitersBlocked ∨ a = .waitersWoken := by
  cases t with
  | main =>
    cases l with
    | main pc =>
      cases pc with
      -- `ret` and `waiter_ret` are locals of main, and a creation writes no cell
      | createBlocker ret | createWaiter ret i | createWaker ret =>
        change (u.create _ _).toSyscalls.writes = _ at writes
        unfold create at writes
        split_ifs at writes <;> cases writes
      | reset ret =>
        cases writes
        exact .inr (.inr rfl)
      | _ => cases writes
    | _ => cases writes
  | blocker =>
    cases l with
    | blocker pc => cases pc <;> cases writes <;> simp [Party.retCell]
    | _ => cases writes
  | waker =>
    cases l with
    | broadcast pc => cases pc <;> cases writes <;> simp [Party.retCell]
    | signal pc => cases pc <;> cases writes <;> simp [Party.retCell]
    | _ => cases writes
  | waiter i =>
    cases l with
    | waiter pc => cases pc <;> cases writes <;> simp [Party.retCell]
    | _ => cases writes

theorem retCell_ne {t v : Party} (hv : v ≠ .main) (ht : t ≠ .main) (ne : v ≠ t) :
    v.retCell ≠ t.retCell := by
  intro same
  cases v <;> cases t <;> cases same
  all_goals contradiction

/-- Nobody else writes the result of a thread. -/
theorem retCell_frame {t v : Party} (other : v ≠ .main) (ne : v ≠ t)
    (next : (u.test.program t l).Next u.test.program mem loc access mem' l') :
    mem' v.retCell = mem v.retCell := by
  apply next.frame
  intro writes
  rcases writes_own writes with ⟨main, same⟩ | same | same
  · exact retCell_ne other main ne same
  · cases v <;> cases same
  · cases v <;> cases same

/-! ## Main -/

variable (u)

/-- What `ret` is when the threads are created. -/
def firstRet : ℤ := if u.timed then u.clockGettime else retPass

/-- Whether main tries to create the thread. -/
def Starts : Party → Prop
  | .main => False
  | .blocker => u.thirdPartyOwner = true
  | .waker | .waiter _ => True

/-- Main comes across an error before it joins anyone. -/
def EarlyError : Prop := u.firstRet ≠ 0 ∨ ∃ t, u.Starts t ∧ u.createRtThread t ≠ 0

/-- The threads before the place `n` could be created. -/
def CreatedBelow (n : ℕ) : Prop := ∀ t, u.Starts t → t.order < n → u.createRtThread t = 0

/-- The thread has reached the end of its function. -/
def Finished (loc : Party → Loc) (t : Party) : Prop := u.test.program t (loc t) = .exit

/-- Main has joined `n` waiters, and `waiter_ret` points to the first of them with a
nonzero result, or to the last of them if there is none. -/
structure Joined (mem : Cell → ℤ) (loc : Party → Loc) (n : ℕ) (p : Fin threadMax) : Prop where
  finished : ∀ j : Fin threadMax, j.val < n → u.Finished loc (.waiter j)
  below : ∀ j < p, mem (.waiterRet j) = 0
  le : p.val ≤ n - 1
  stuck : p.val + 1 < n → mem (.waiterRet p) ≠ 0

/-- The blocker has finished, if there is one. -/
def BlockerDone (loc : Party → Loc) : Prop := u.thirdPartyOwner = true → u.Finished loc .blocker

/-- Main has joined all threads. -/
structure AllJoined (mem : Cell → ℤ) (loc : Party → Loc) (p : Fin threadMax) : Prop where
  early : ¬ u.EarlyError
  waiters : u.Joined mem loc threadMax p
  blocker : u.BlockerDone loc
  waker : u.Finished loc .waker

/-- The combination of the results. -/
def combined (mem : Cell → ℤ) (p : Fin threadMax) : ℤ :=
  if mem (.waiterRet p) ≠ 0 then mem (.waiterRet p)
  else if mem .wakerRet < 0 then mem .wakerRet
  else mem .blockerRet

/-- What main has found out so far. -/
def MainPhase (mem : Cell → ℤ) (loc : Party → Loc) : MainPc → Prop
  | .clock => True
  | .createBlocker ret => ret = u.firstRet ∧ u.thirdPartyOwner = true
  | .reset ret => ret = u.firstRet ∧ u.CreatedBelow 2
  | .createWaiter ret i => ret = u.firstRet ∧ u.CreatedBelow (i + 2)
  | .createWaker ret => ret = u.firstRet ∧ u.CreatedBelow (threadMax + 2)
  | .readRet ret i p => ret = u.firstRet ∧ u.CreatedBelow (threadMax + 3) ∧ u.Joined mem loc i p
  | .join ret i p null =>
      ret = u.firstRet ∧ u.CreatedBelow (threadMax + 3) ∧ u.Joined mem loc i p ∧
        (0 < i.val → (null = true ↔ mem (.waiterRet p) ≠ 0))
  | .joinBlocker ret p =>
      ret = u.firstRet ∧ u.CreatedBelow (threadMax + 3) ∧ u.Joined mem loc threadMax p
  | .joinWaker ret p =>
      ret = u.firstRet ∧ u.CreatedBelow (threadMax + 3) ∧ u.Joined mem loc threadMax p ∧
        u.BlockerDone loc
  | .readWaiter p => u.AllJoined mem loc p
  | .readWaker => ∃ p, u.AllJoined mem loc p ∧ mem (.waiterRet p) = 0
  | .readBlocker => ∃ p, u.AllJoined mem loc p ∧ mem (.waiterRet p) = 0 ∧ ¬ mem .wakerRet < 0
  | .exit v =>
      u.EarlyError ∧ (v = retError ∨ v = u.firstRet ∧ u.firstRet ≠ 0) ∨
        ∃ p, u.AllJoined mem loc p ∧ v = combined mem p

variable {u}

/-! ### What other threads leave alone -/

section Frame

variable {t : Party} (next : (u.test.program t (loc t)).Next u.test.program mem loc access mem' l')
include next

/-- A finished thread is not the one that takes a step. -/
theorem Finished.ne {v : Party} (finished : u.Finished loc v) : v ≠ t := by
  rintro rfl
  rw [finished] at next
  cases next

theorem Finished.frame {v : Party} (finished : u.Finished loc v) :
    u.Finished (Function.update loc t l') v := by
  rw [Finished, Function.update_of_ne (finished.ne next)]
  exact finished

/-- The result of a finished thread stays. -/
theorem Finished.ret {v : Party} (other : v ≠ .main) (finished : u.Finished loc v) :
    mem' v.retCell = mem v.retCell :=
  retCell_frame other (finished.ne next) next

theorem Joined.ret {n : ℕ} {p j : Fin threadMax} (joined : u.Joined mem loc n p) (below : j < n) :
    mem' (.waiterRet j) = mem (.waiterRet j) :=
  Finished.ret next (v := .waiter j) (by simp) (joined.finished j below)

theorem Joined.frame {n : ℕ} {p : Fin threadMax} (joined : u.Joined mem loc n p) :
    u.Joined mem' (Function.update loc t l') n p where
  finished j below := (joined.finished j below).frame next
  below j less := by
    have le := joined.le
    rw [joined.ret next (j := j) (by omega)]
    exact joined.below j less
  le := joined.le
  stuck more := by
    rw [joined.ret next (j := p) (by omega)]
    exact joined.stuck more

theorem BlockerDone.frame (done : u.BlockerDone loc) :
    u.BlockerDone (Function.update loc t l') :=
  fun third => (done third).frame next

theorem AllJoined.frame {p : Fin threadMax} (joined : u.AllJoined mem loc p) :
    u.AllJoined mem' (Function.update loc t l') p where
  early := joined.early
  waiters := joined.waiters.frame next
  blocker := joined.blocker.frame next
  waker := joined.waker.frame next

theorem AllJoined.waiterRet {p : Fin threadMax} (joined : u.AllJoined mem loc p) :
    mem' (.waiterRet p) = mem (.waiterRet p) :=
  joined.waiters.ret next p.isLt

theorem AllJoined.wakerRet {p : Fin threadMax} (joined : u.AllJoined mem loc p) :
    mem' .wakerRet = mem .wakerRet :=
  Finished.ret next (v := .waker) (by simp) joined.waker

/-- A blocker that is not created does not run, and one that is has finished. -/
theorem AllJoined.blockerRet {p : Fin threadMax} (joined : u.AllJoined mem loc p)
    (live : t = .blocker → u.thirdPartyOwner = true) : mem' .blockerRet = mem .blockerRet := by
  by_cases third : u.thirdPartyOwner = true
  · exact Finished.ret next (v := .blocker) (by simp) (joined.blocker third)
  · refine retCell_frame (v := .blocker) (by simp) ?_ next
    rintro rfl
    exact third (live rfl)

/-- The steps of the others keep what main knows. -/
theorem MainPhase.frame {pc : MainPc} (phase : u.MainPhase mem loc pc)
    (live : t = .blocker → u.thirdPartyOwner = true) :
    u.MainPhase mem' (Function.update loc t l') pc := by
  cases pc with
  | clock | createBlocker ret | reset ret | createWaiter ret i | createWaker ret => exact phase
  | readRet ret i p =>
    obtain ⟨same, created, joined⟩ := phase
    exact ⟨same, created, joined.frame next⟩
  | join ret i p null =>
    obtain ⟨same, created, joined, read⟩ := phase
    refine ⟨same, created, joined.frame next, ?_⟩
    intro later
    have le := joined.le
    rw [joined.ret next (j := p) (by omega)]
    exact read later
  | joinBlocker ret p =>
    obtain ⟨same, created, joined⟩ := phase
    exact ⟨same, created, joined.frame next⟩
  | joinWaker ret p =>
    obtain ⟨same, created, joined, blocker⟩ := phase
    exact ⟨same, created, joined.frame next, blocker.frame next⟩
  | readWaiter p => exact AllJoined.frame next phase
  | readWaker =>
    obtain ⟨p, joined, zero⟩ := phase
    exact ⟨p, joined.frame next, (joined.waiterRet next).trans zero⟩
  | readBlocker =>
    obtain ⟨p, joined, zero, some⟩ := phase
    refine ⟨p, joined.frame next, (joined.waiterRet next).trans zero, ?_⟩
    rw [joined.wakerRet next]
    exact some
  | exit v =>
    rcases phase with early | ⟨p, joined, value⟩
    · exact .inl early
    · refine .inr ⟨p, joined.frame next, ?_⟩
      rw [value, combined, combined, joined.waiterRet next, joined.wakerRet next,
        joined.blockerRet next live]

end Frame

/-! ### What main does -/

/-- `waiter_ret` scans the results of the waiters. -/
theorem Joined.scan {n : ℕ} {p : Fin threadMax} (joined : u.Joined mem loc n p) :
    Scan (fun x => x ≠ 0) (fun j => mem (.waiterRet j)) n p where
  below j before := not_not.mpr (joined.below j before)
  le := joined.le
  stuck := joined.stuck

/-- After the join of the waiter `i`, `waiter_ret` has moved to it unless it pointed to
an error. -/
theorem Joined.next {i p : Fin threadMax} {null : Bool} (joined : u.Joined mem loc i p)
    (read : 0 < i.val → (null = true ↔ mem (.waiterRet p) ≠ 0))
    (ended : u.Finished loc (.waiter i)) :
    u.Joined mem loc (i + 1) (if null then p else i) := by
  have scan := joined.scan.next read
  refine ⟨?_, fun j before => not_not.mp (scan.below j before), scan.le, scan.stuck⟩
  intro j below
  rcases Nat.lt_or_eq_of_le (Nat.le_of_lt_succ below) with before | now
  · exact joined.finished j before
  · rw [Fin.ext now]
    exact ended

theorem CreatedBelow.mono {m n : ℕ} (created : u.CreatedBelow n) (le : m ≤ n) :
    u.CreatedBelow m :=
  fun t starts below => created t starts (below.trans_le le)

/-- One more thread could be created. -/
theorem CreatedBelow.next {t : Party} (created : u.CreatedBelow t.order)
    (done : u.createRtThread t = 0) : u.CreatedBelow (t.order + 1) := by
  intro v starts below
  rcases Nat.lt_or_eq_of_le (Nat.le_of_lt_succ below) with before | now
  · exact created v starts before
  · rw [Party.order_injective now]
    exact done

/-- A call of `create_rt_thread`: main goes on, or gives up. -/
theorem create_next {t : Party} {m : MainPc} (starts : u.Starts t)
    (next : (u.create t m).toSyscalls.Next u.test.program mem loc access mem' l') :
    mem' = mem ∧ ((u.createRtThread t = 0 ∧ access = .create t ∧ l' = .main m) ∨
      (u.EarlyError ∧ access = .tau ∧ l' = .main (.exit retError))) := by
  unfold create at next
  split_ifs at next with done
  · cases next
    exact ⟨rfl, .inl ⟨done, rfl, rfl⟩⟩
  · cases next
    exact ⟨rfl, .inr ⟨.inr ⟨t, starts, done⟩, rfl, rfl⟩⟩

theorem createdBelow_one : u.CreatedBelow 1 := by
  intro t starts first
  cases t with
  | main => exact starts.elim
  | blocker | waiter i | waker => simp [Party.order] at first

theorem createdBelow_two (third : u.thirdPartyOwner ≠ true) : u.CreatedBelow 2 := by
  intro t starts first
  cases t with
  | main => exact starts.elim
  | blocker => exact absurd starts third
  | waiter i | waker =>
    simp only [Party.order] at first
    omega

/-- All threads could be created. -/
theorem not_earlyError (first : u.firstRet = 0) (created : u.CreatedBelow (threadMax + 3)) :
    ¬ u.EarlyError := by
  rintro (clock | ⟨t, starts, fails⟩)
  · exact clock first
  · refine fails (created t starts ?_)
    cases t with
    | main | blocker => simp [Party.order]
    | waiter i =>
      have bound := i.isLt
      simp only [Party.order]
      omega
    | waker => simp [Party.order]

theorem nextWaiter_cases (i : Fin threadMax) (pass : Fin threadMax → MainPc) (past : MainPc) :
    (∃ more : i.val + 1 < threadMax, nextWaiter i pass past = pass ⟨i + 1, more⟩) ∨
      (i.val + 1 = threadMax ∧ nextWaiter i pass past = past) := by
  unfold nextWaiter
  split_ifs with more
  · exact .inl ⟨more, rfl⟩
  · exact .inr ⟨by omega, rfl⟩

/-- What main has of the results, from the first it reads to its own. -/
theorem AllJoined.out {ret : ℤ} {p : Fin threadMax} (first : ret = u.firstRet)
    (joined : ret = 0 → u.AllJoined mem loc p) :
    u.MainPhase mem loc (RequeuePi.UnitTest.out ret p) := by
  unfold RequeuePi.UnitTest.out
  split_ifs with zero
  · exact joined zero
  · have clock : u.firstRet ≠ 0 := first ▸ zero
    exact .inl ⟨.inl clock, .inr ⟨first, clock⟩⟩

theorem main_next {m : MainPc} (here : loc .main = .main m)
    (next : (u.test.program .main (loc .main)).Next u.test.program mem loc access mem' l') :
    (u.unitTest m).toSyscalls.Next u.test.program mem loc access mem' l' := by
  have same : u.test.program .main (loc .main) = (u.unitTest m).toSyscalls := by
    rw [here]
    rfl
  exact same ▸ next

/-- Main goes on to what its phase allows. -/
theorem MainPhase.next {m : MainPc} (here : loc .main = .main m) (phase : u.MainPhase mem loc m)
    (next : (u.test.program .main (loc .main)).Next u.test.program mem loc access mem' l') :
    ∃ m', l' = .main m' ∧ u.MainPhase mem' (Function.update loc .main l') m' := by
  -- what main knows of the others survives its own step
  have ends : ∀ v, u.Finished loc v → u.Finished (Function.update loc .main l') v :=
    fun v finished => finished.frame next
  have joins : ∀ n p, u.Joined mem loc n p → u.Joined mem' (Function.update loc .main l') n p :=
    fun n p joined => joined.frame next
  have all : ∀ p, u.AllJoined mem loc p → u.AllJoined mem' (Function.update loc .main l') p :=
    fun p joined => joined.frame next
  have own := main_next here next
  -- from here on only the operation at `m` matters
  clear next
  generalize Function.update loc .main l' = loc' at ends joins all ⊢
  cases m with
  | clock =>
    cases own
    refine ⟨_, rfl, ?_⟩
    by_cases third : u.thirdPartyOwner = true
    · rw [if_pos third]
      exact ⟨rfl, third⟩
    · rw [if_neg third]
      exact ⟨rfl, createdBelow_two third⟩
  | createBlocker ret =>
    obtain ⟨first, third⟩ := phase
    obtain ⟨-, ⟨fine, -, there⟩ | ⟨early, -, there⟩⟩ := create_next (t := .blocker) third own
    · exact ⟨_, there, first, CreatedBelow.next (t := .blocker) createdBelow_one fine⟩
    · exact ⟨_, there, .inl ⟨early, .inl rfl⟩⟩
  | reset ret =>
    cases own
    exact ⟨_, rfl, phase⟩
  | createWaiter ret i =>
    obtain ⟨first, created⟩ := phase
    obtain ⟨-, ⟨fine, -, there⟩ | ⟨early, -, there⟩⟩ := create_next (t := .waiter i) trivial own
    · refine ⟨_, there, ?_⟩
      have further := CreatedBelow.next (t := .waiter i) created fine
      rcases nextWaiter_cases i (fun j => .createWaiter ret j) (.createWaker ret) with
        ⟨more, pass⟩ | ⟨last, past⟩
      · rw [pass]
        exact ⟨first, further⟩
      · rw [past]
        exact ⟨first, further.mono (by simp only [Party.order]; omega)⟩
    · exact ⟨_, there, .inl ⟨early, .inl rfl⟩⟩
  | createWaker ret =>
    obtain ⟨first, created⟩ := phase
    obtain ⟨-, ⟨fine, -, there⟩ | ⟨early, -, there⟩⟩ := create_next (t := .waker) trivial own
    · refine ⟨_, there, first, CreatedBelow.next (t := .waker) created fine, ?_⟩
      exact ⟨fun j below => absurd below (Nat.not_lt_zero j),
        fun j below => absurd below (Nat.not_lt_zero j), le_rfl, fun more => absurd more (by simp)⟩
    · exact ⟨_, there, .inl ⟨early, .inl rfl⟩⟩
  | readRet ret i p =>
    obtain ⟨first, created, joined⟩ := phase
    have after := joins _ _ joined
    cases own
    exact ⟨_, rfl, first, created, after, fun _ => by simp⟩
  | join ret i p null =>
    obtain ⟨first, created, joined, read⟩ := phase
    cases own with
    | join v k ended =>
      have after := joins _ _ (joined.next read ended)
      refine ⟨_, rfl, ?_⟩
      generalize (if null = true then p else i) = q at after ⊢
      rcases nextWaiter_cases i (fun j => .readRet ret j q)
        (if u.thirdPartyOwner then .joinBlocker ret q else .joinWaker ret q) with
        ⟨more, pass⟩ | ⟨last, past⟩
      · rw [pass]
        exact ⟨first, created, after⟩
      · rw [past]
        rw [last] at after
        split_ifs with third
        · exact ⟨first, created, after⟩
        · exact ⟨first, created, after, fun third' => absurd third' third⟩
  | joinBlocker ret p =>
    obtain ⟨first, created, joined⟩ := phase
    have after := joins _ _ joined
    cases own with
    | join v k ended => exact ⟨_, rfl, first, created, after, fun _ => ends _ ended⟩
  | joinWaker ret p =>
    obtain ⟨first, created, joined, blocker⟩ := phase
    cases own with
    | join v k ended =>
      have together : ret = 0 → u.AllJoined mem loc p := fun zero =>
        ⟨not_earlyError (first.symm.trans zero) created, joined, blocker, ended⟩
      exact ⟨_, rfl, AllJoined.out first fun zero => all p (together zero)⟩
  | readWaiter p =>
    have after := all _ phase
    cases own
    refine ⟨_, rfl, ?_⟩
    split_ifs with nonzero
    · exact .inr ⟨p, after, by rw [combined, if_pos nonzero]⟩
    · exact ⟨p, after, not_not.mp nonzero⟩
  | readWaker =>
    obtain ⟨p, joined, zero⟩ := phase
    have after := all _ joined
    cases own
    refine ⟨_, rfl, ?_⟩
    split_ifs with negative
    · exact .inr ⟨p, after, by rw [combined, if_neg (not_not.mpr zero), if_pos negative]⟩
    · exact ⟨p, after, zero, negative⟩
  | readBlocker =>
    obtain ⟨p, joined, zero, some⟩ := phase
    have after := all _ joined
    cases own
    refine ⟨_, rfl, ?_⟩
    have value : mem .blockerRet = combined mem p := by
      rw [combined, if_neg (not_not.mpr zero), if_neg some]
    split_ifs with nonzero
    · exact .inr ⟨p, after, value⟩
    · exact .inr ⟨p, after, (not_not.mp nonzero).symm.trans value⟩
  | exit v => cases own

/-! ### All threads -/

/-- What every run has of its threads. -/
structure Inv (u : UnitTest) (w : List AnyEvent) (mem : Cell → ℤ) (loc : Party → Loc) : Prop where
  phase : ∀ t, u.Phase (returns t isWait w) (u.test.DiagnosedBy w t) (mem t.retCell) t (loc t)
  main : ∀ m, loc .main = .main m → u.MainPhase mem loc m
  alone : u.thirdPartyOwner = false →
    (∀ e ∈ w, e.access ≠ .create .blocker) ∧ loc .blocker = .blocker .lock ∧ mem .blockerRet = 0
  early : u.test.DiagnosedBy w .main → u.EarlyError

theorem waker_start :
    u.test.start.loc .waker = if u.broadcast then .broadcast .poll else .signal .poll := rfl

theorem Inv.start : Inv u [] u.test.start.mem u.test.start.loc where
  phase t := by
    have quiet : ¬ u.test.DiagnosedBy [] t := FunctionalTest.not_diagnosedBy_nil
    cases t with
    | main => exact trivial
    | blocker => exact quiet
    | waker =>
      rw [waker_start]
      split_ifs
      · exact quiet
      · exact ⟨rfl, quiet⟩
    | waiter i => exact ⟨rfl, quiet⟩
  main m here := by
    cases here
    exact trivial
  alone _ := ⟨fun e member => absurd member List.not_mem_nil, rfl, rfl⟩
  early diagnosed := absurd diagnosed FunctionalTest.not_diagnosedBy_nil

variable {w : List AnyEvent}

/-- Main makes no call. -/
theorem unitTest_ne_call {m : MainPc} {c : FutexCall} {k : SysResult → Loc} :
    (u.unitTest m).toSyscalls ≠ .call c k := by
  intro calls
  have futex := PiFutex.Op.isFutex_of_call calls
  rw [unitTest_isFutex] at futex
  cases futex

/-- No call is a diagnostic. -/
theorem diagnoses_of_call {t : Party} {c : FutexCall} {k : SysResult → Loc}
    (op : u.test.program t l = .call c k) : u.diagnoses l = false := by
  cases t with
  | main =>
    cases l with
    | main pc => exact absurd op unitTest_ne_call
    | _ => cases op
  | blocker =>
    cases l with
    | blocker pc => cases pc <;> first | rfl | cases op
    | _ => cases op
  | waker =>
    cases l with
    | broadcast pc => cases pc <;> first | rfl | cases op
    | signal pc => cases pc <;> first | rfl | cases op
    | _ => cases op
  | waiter i =>
    cases l with
    | waiter pc => cases pc <;> first | rfl | cases op
    | _ => cases op

theorem Inv.enter (inv : Inv u w mem loc) {t : Party} {c : FutexCall} {k : SysResult → Loc}
    (op : u.test.program t (loc t) = .call c k) : Inv u (w ++ [⟨t, loc t, .enter c⟩]) mem loc where
  phase v := by
    rw [returns_append_of_none (returned_of_silent (.inr ⟨c, rfl⟩)),
      propext (FunctionalTest.diagnosedBy_append_of_false _ (diagnoses_of_call op))]
    exact inv.phase v
  main := inv.main
  alone two := by
    obtain ⟨others, still⟩ := inv.alone two
    refine ⟨?_, still⟩
    intro e member
    rcases List.mem_append.mp member with before | now
    · exact others e before
    · rw [List.mem_singleton.mp now]
      intro same
      cases same
  early diagnosed :=
    inv.early ((FunctionalTest.diagnosedBy_append_of_false _ (diagnoses_of_call op)).mp diagnosed)

/-- A blocker that nobody asked for never runs. -/
theorem Inv.live (inv : Inv u w mem loc) {t : Party} (born : Born u.test.start w t)
    (blocker : t = .blocker) : u.thirdPartyOwner = true := by
  subst blocker
  by_contra two
  obtain ⟨others, -⟩ := inv.alone (Bool.eq_false_iff.mpr two)
  rcases born with outset | ⟨e, member, creates⟩
  · exact outset (.blocker .lock) rfl
  · exact others e member creates

/-- A diagnostic of main is an error of its own. -/
theorem MainPhase.early {m : MainPc} (phase : u.MainPhase mem loc m)
    (diagnosed : u.diagnoses (.main m) = true) : u.EarlyError := by
  cases m with
  | createBlocker ret => exact .inr ⟨.blocker, phase.2, of_decide_eq_true diagnosed⟩
  | createWaiter ret i => exact .inr ⟨.waiter i, trivial, of_decide_eq_true diagnosed⟩
  | createWaker ret => exact .inr ⟨.waker, trivial, of_decide_eq_true diagnosed⟩
  | _ => cases diagnosed

theorem Inv.main_loc (inv : Inv u w mem loc) : ∃ m, loc .main = .main m := by
  have phase := inv.phase .main
  generalize loc .main = l at phase
  cases l with
  | main m => exact ⟨m, rfl⟩
  | _ => exact phase.elim

theorem Inv.next_phase (inv : Inv u w mem loc) {t : Party}
    (next : (u.test.program t (loc t)).Next u.test.program mem loc access mem' l') (v : Party) :
    u.Phase (returns v isWait (w ++ [⟨t, loc t, access⟩]))
      (u.test.DiagnosedBy (w ++ [⟨t, loc t, access⟩]) v) (mem' v.retCell) v
      (Function.update loc t l' v) := by
  obtain ⟨m, here⟩ := inv.main_loc
  -- a thread goes on by its own phase, and the others stay as they are
  by_cases same : v = t
  · subst same
    rw [Function.update_self, returns_append, propext FunctionalTest.diagnosedBy_append_self]
    by_cases main : v = .main
    · subst main
      obtain ⟨m', there, -⟩ := MainPhase.next here (inv.main m here) next
      rw [there]
      exact trivial
    · exact (inv.phase v).next main next
  · rw [Function.update_of_ne same, returns_append_of_none (returned_of_ne (Ne.symm same)),
      propext (FunctionalTest.diagnosedBy_append_of_ne (Ne.symm same))]
    by_cases main : v = .main
    · subst main
      rw [here]
      exact trivial
    · rw [retCell_frame main same next]
      exact inv.phase v

theorem Inv.next (inv : Inv u w mem loc) {t : Party} (born : Born u.test.start w t)
    (next : (u.test.program t (loc t)).Next u.test.program mem loc access mem' l') :
    Inv u (w ++ [⟨t, loc t, access⟩]) mem' (Function.update loc t l') where
  phase := inv.next_phase next
  main m' there := by
    by_cases main : t = .main
    · subst main
      obtain ⟨m, here⟩ := inv.main_loc
      obtain ⟨m'', goes, phase⟩ := MainPhase.next here (inv.main m here) next
      rw [Function.update_self, goes] at there
      cases there
      exact phase
    · rw [Function.update_of_ne (Ne.symm main)] at there
      exact (inv.main m' there).frame next (inv.live born)
  alone two := by
    obtain ⟨others, still, zero⟩ := inv.alone two
    have distinct : Party.blocker ≠ t := by
      rintro rfl
      exact absurd (inv.live born rfl) (by simp [two])
    refine ⟨?_, (Function.update_of_ne distinct _ _).trans still,
      (retCell_frame (v := .blocker) (by simp) distinct next).trans zero⟩
    intro e member creates
    rcases List.mem_append.mp member with before | now
    · exact others e before creates
    · -- it would be main that creates the blocker now
      rw [List.mem_singleton.mp now] at creates
      have made : access = .create .blocker := creates
      subst made
      obtain ⟨k, op⟩ := next.create_op
      obtain ⟨rfl, ⟨-, ret, here⟩ | ⟨i, ret, waiter, -⟩ | ⟨waker, -⟩⟩ :=
        program_create (PiFutex.Op.toSyscalls_eq_create.mp op)
      · exact absurd (inv.main _ here).2 (by simp [two])
      · cases waiter
      · cases waker
  early diagnosed := by
    rcases FunctionalTest.diagnosedBy_append.mp diagnosed with before | ⟨main, now⟩
    · exact inv.early before
    · obtain ⟨m, here⟩ := inv.main_loc
      have same : t = .main := main
      subst same
      refine (inv.main m here).early ?_
      rw [← here]
      exact now

/-- What every run has of its threads. -/
theorem Inv.run {s : Syscalls.State Cell Party Loc Unit} (run : u.test.anyMachine.Run w s) :
    Inv u w s.mem s.loc :=
  FunctionalTest.run_induction u.test .start (fun _ _ _ _ _ _ op inv => inv.enter op)
    (fun _ _ _ _ _ _ _ born inv next => inv.next born next) run

/-! ## Finished threads -/

theorem Inv.waiter_ended (inv : Inv u w mem loc) {i : Fin threadMax}
    (finished : u.Finished loc (.waiter i)) :
    (∃ r, waitResults i w = [r] ∧ mem (.waiterRet i) = u.finalRet r) ∧
      (u.test.DiagnosedBy w (.waiter i) → mem (.waiterRet i) = retError) ∧
      u.diagnoses (loc (.waiter i)) = false := by
  have phase := inv.phase (.waiter i)
  unfold Finished at finished
  generalize loc (.waiter i) = l at phase finished ⊢
  cases l with
  | waiter pc =>
    cases pc with
    | exit =>
      obtain ⟨r, one, final, diagnosed⟩ := phase
      exact ⟨⟨r, one, final⟩, diagnosed, rfl⟩
    | _ => cases finished
  | _ => exact phase.elim

theorem Inv.waker_ended (inv : Inv u w mem loc) (finished : u.Finished loc .waker) :
    Settled (u.test.DiagnosedBy w .waker) (mem .wakerRet) ∧
      u.diagnoses (loc .waker) = false := by
  have phase := inv.phase .waker
  unfold Finished at finished
  generalize loc .waker = l at phase finished ⊢
  cases l with
  | broadcast pc =>
    cases pc with
    | exit ret => exact ⟨phase, rfl⟩
    | _ => cases finished
  | signal pc =>
    cases pc with
    | exit ret => exact ⟨phase, rfl⟩
    | _ => cases finished
  | _ => exact phase.elim

/-- A blocker that is not created has no error either. -/
theorem Inv.blocker_ended (inv : Inv u w mem loc) (done : u.BlockerDone loc) :
    (mem .blockerRet = retError ∨ mem .blockerRet = 0 ∧ ¬ u.test.DiagnosedBy w .blocker) ∧
      u.diagnoses (loc .blocker) = false := by
  have phase := inv.phase .blocker
  by_cases third : u.thirdPartyOwner = true
  · have finished := done third
    unfold Finished at finished
    generalize loc .blocker = l at phase finished ⊢
    cases l with
    | blocker pc =>
      cases pc with
      | exit => exact ⟨phase, rfl⟩
      | _ => cases finished
    | _ => exact phase.elim
  · obtain ⟨-, still, zero⟩ := inv.alone (Bool.eq_false_iff.mpr third)
    rw [still] at phase ⊢
    exact ⟨.inr ⟨zero, phase⟩, rfl⟩

/-- If the combination of the results is zero, so are all results of the waiters. -/
theorem AllJoined.zero {p : Fin threadMax} (joined : u.AllJoined mem loc p)
    (zero : mem (.waiterRet p) = 0) (i : Fin threadMax) : mem (.waiterRet i) = 0 :=
  not_not.mp (joined.waiters.scan.not_hit (not_not.mpr zero) i)

theorem retError_ne_zero : retError ≠ 0 := by decide

/-- When all results are zero nobody has called `error()`. -/
theorem Inv.quiet (inv : Inv u w mem loc) {p : Fin threadMax} {v : ℤ}
    (here : loc .main = .main (.exit v)) (joined : u.AllJoined mem loc p)
    (zero : combined mem p = 0) (t : Party) :
    ¬ u.test.DiagnosedBy w t ∧ u.diagnoses (loc t) = false := by
  -- the first of the three results that is not zero would be the combination
  have waiters : mem (.waiterRet p) = 0 := by
    by_contra nonzero
    rw [combined, if_pos nonzero] at zero
    exact nonzero zero
  rw [combined, if_neg (not_not.mpr waiters)] at zero
  have waker : ¬ mem .wakerRet < 0 := by
    intro negative
    rw [if_pos negative] at zero
    omega
  rw [if_neg waker] at zero
  cases t with
  | main =>
    rw [here]
    exact ⟨fun diagnosed => joined.early (inv.early diagnosed), rfl⟩
  | blocker =>
    obtain ⟨error | ⟨-, quiet⟩, still⟩ := inv.blocker_ended joined.blocker
    · exact absurd (error.symm.trans zero) retError_ne_zero
    · exact ⟨quiet, still⟩
  | waker =>
    obtain ⟨error | ⟨-, quiet⟩, still⟩ := inv.waker_ended joined.waker
    · rw [error] at waker
      exact absurd (by decide) waker
    · exact ⟨quiet, still⟩
  | waiter i =>
    obtain ⟨-, error, still⟩ := inv.waiter_ended (joined.waiters.finished i i.isLt)
    refine ⟨?_, still⟩
    intro diagnosed
    exact retError_ne_zero ((error diagnosed).symm.trans (joined.zero waiters i))

/-! ## The verdict -/

theorem exit_of_prints {w : List AnyEvent} {s : Syscalls.State Cell Party Loc Unit} {v : ℤ}
    (prints : u.test.Prints w s v) : s.loc .main = .main (.exit v) := by
  have verdict := prints.2.2
  change (match s.loc .main with | .main (.exit ret) => some ret | _ => none) = some v at verdict
  split at verdict
  · rename_i ret here
    rw [here, Option.some.inj verdict]
  · cases verdict

/-- Every diagnostic shows in the verdict. -/
theorem heeded (u : UnitTest) : u.test.HeededWhen fun _ => True := by
  intro w s v prints
  refine iff_true_intro ?_
  intro diagnosed pass
  have inv := Inv.run prints.1
  have here := exit_of_prints prints
  rcases inv.main _ here with ⟨-, error | ⟨first, clock⟩⟩ | ⟨p, joined, value⟩
  · exact retError_ne_retPass (error.symm.trans pass)
  · exact clock (first.symm.trans pass)
  · -- a pass means that nobody has an error
    have quiet := inv.quiet here joined (value.symm.trans pass)
    obtain ⟨t, of⟩ := FunctionalTest.diagnosed_iff.mp diagnosed
    rcases of with before | now
    · exact (quiet t).1 before
    · exact absurd now (Bool.eq_false_iff.mp (quiet t).2)

/-- Every positive result of a wait comes with an error of an earlier waiter. -/
def ErrorsFirst (u : UnitTest) (w : List AnyEvent) : Prop :=
  ∀ i, ∀ r ∈ waitResults i w, 0 < r.ret →
    ∃ j < i, ∃ r' ∈ waitResults j w, r'.ret < 0 ∧ ¬ (u.timed ∧ r'.errno = etimedout)

theorem finalRet_of_error {r : SysResult} (failed : r.ret < 0)
    (unexcused : ¬ (u.timed ∧ r.errno = etimedout)) : u.finalRet r = retError := by
  rw [finalRet, if_pos failed, if_neg unexcused]

/-- A waiter's result is positive only if its wait returned that. -/
theorem finalRet_cases (r : SysResult) :
    (r.ret < 0 ∧ ¬ (u.timed ∧ r.errno = etimedout) ∧ u.finalRet r = retError) ∨
      (r.ret < 0 ∧ u.finalRet r = 0) ∨ (0 ≤ r.ret ∧ u.finalRet r = r.ret) := by
  unfold finalRet
  split_ifs with failed excused
  · exact .inr (.inl ⟨failed, rfl⟩)
  · exact .inl ⟨failed, excused, rfl⟩
  · exact .inr (.inr ⟨not_lt.mp failed, rfl⟩)

/-- What a joined waiter with the given result leaves. -/
theorem Inv.waiterRet (inv : Inv u w mem loc) {p i : Fin threadMax}
    (joined : u.AllJoined mem loc p) {r : SysResult} (member : r ∈ waitResults i w) :
    mem (.waiterRet i) = u.finalRet r := by
  obtain ⟨⟨r', one, final⟩, -⟩ := inv.waiter_ended (joined.waiters.finished i i.isLt)
  rw [one] at member
  rw [final, List.mem_singleton.mp member]

/-- An undocumented result of the first failed waiter is positive, and no earlier one has
an error. -/
theorem AllJoined.documented_iff (inv : Inv u w mem loc) {p : Fin threadMax}
    (joined : u.AllJoined mem loc p) : Documented (combined mem p) ↔ u.ErrorsFirst w := by
  obtain ⟨⟨r, one, final⟩, -⟩ := inv.waiter_ended (joined.waiters.finished p p.isLt)
  have own : r ∈ waitResults p w := by rw [one]; exact List.mem_singleton_self r
  constructor
  · intro documented i r' member positive
    have mine : mem (.waiterRet i) = r'.ret := by
      rw [inv.waiterRet joined member, finalRet_of_not_neg (by omega)]
    -- `waiter_ret` does not point behind the waiter `i`
    have le : p ≤ i := by
      by_contra behind
      have zero := joined.waiters.below i (not_le.mp behind)
      omega
    have nonzero : mem (.waiterRet p) ≠ 0 := by
      intro zero
      have all := joined.zero zero i
      omega
    rw [combined, if_pos nonzero] at documented
    rcases finalRet_cases (u := u) r with ⟨failed, unexcused, -⟩ | ⟨-, none⟩ | ⟨fine, same⟩
    · refine ⟨p, lt_of_le_of_ne le ?_, r, own, failed, unexcused⟩
      intro same
      rw [same, mine] at documented
      exact absurd documented (by unfold Documented retPass retError retFail; omega)
    · exact absurd (final.trans none) nonzero
    · rw [final, same] at documented nonzero
      exact absurd documented (by unfold Documented retPass retError retFail; omega)
  · intro first
    unfold combined
    split_ifs with nonzero negative
    · rcases finalRet_cases (u := u) r with ⟨-, -, error⟩ | ⟨-, none⟩ | ⟨fine, same⟩
      · rw [final, error]
        exact documented_retError
      · exact absurd (final.trans none) nonzero
      · -- an earlier error would have been found first
        rw [final, same] at nonzero
        obtain ⟨j, before, r', theirs, failed, unexcused⟩ := first p r own (by omega)
        have error := inv.waiterRet joined theirs
        rw [joined.waiters.below j before, finalRet_of_error failed unexcused] at error
        exact absurd error.symm retError_ne_zero
    · obtain ⟨error | ⟨some, -⟩, -⟩ := inv.waker_ended joined.waker
      · rw [error]
        exact documented_retError
      · omega
    · obtain ⟨error | ⟨zero, -⟩, -⟩ := inv.blocker_ended joined.blocker
      · rw [error]
        exact documented_retError
      · rw [zero]
        exact documented_retPass

/-- The verdict is a documented one unless a positive result of a wait comes first. -/
theorem documentedWhen (u : UnitTest) (clock : u.clockGettime = 0 ∨ u.clockGettime = -1) :
    u.test.DocumentedWhen fun w => u.EarlyError ∨ u.ErrorsFirst w := by
  intro w s v prints
  have inv := Inv.run prints.1
  rcases inv.main _ (exit_of_prints prints) with ⟨early, value⟩ | ⟨p, joined, value⟩
  · refine iff_of_true ?_ (.inl early)
    rcases value with error | ⟨first, nonzero⟩
    · rw [error]
      exact documented_retError
    · rw [first]
      -- main has kept what `clock_gettime` returned
      unfold firstRet at nonzero ⊢
      split_ifs at nonzero ⊢
      · rcases clock with zero | failed
        · exact absurd zero nonzero
        · rw [failed]
          exact documented_retError
      · exact documented_retPass
  · rw [value, joined.documented_iff inv]
    exact (or_iff_right joined.early).symm

end UnitTest

end RequeuePi
