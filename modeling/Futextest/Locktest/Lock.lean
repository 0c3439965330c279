import Futextest.FutexWait.Kernel
import Futextest.Locktest.Bounded

/-!
# The lock inside the benchmark

A run of the benchmark contains a run of the lock machine, step for step: the steps of
the workers in `futex_wait_test` are its steps, and no other step touches the lock word.
So what was shown of the lock by itself can be read off the accesses of the whole run. They
are a run of the mutex, and when the result line is printed every worker has acquired the
mutex as often as it was to, and has released it.

## Main definitions

* `lockAction` — the mutex action of a step of the benchmark

## Main results

* `exists_lock_run` — the run of the lock machine below a run of the benchmark
* `benchmark_is_mutex` — the accesses to `shared.futex` are a run of the mutex
-/

open FutexMachine

namespace Locktest

variable {c : Locktest Unit TestPc}

/-- In `futex_wait_test` a worker does what a thread of the lock machine does. -/
theorem calls_lock (locks : c.LocksAndUnlocks) :
    Calls LocktestAddr.user c.LockView c.inBody c.program (lockProgram (Team c.threads)) := by
  intro t l l' view inside
  rcases t with _ | i <;> rcases l with pc | pc
  · cases inside
  · cases inside
  · cases inside
  · cases pc with
    | body pc =>
      obtain rfl : l' = .inl pc := view
      have same : lockProgram (Team c.threads) (.worker i) (.inl pc) =
          .instr ((futexWaitTest pc).map id id) := by
        rw [Instr.map_id]
        rfl
      rw [program, thread, same, locks.code]
      refine ⟨_, _, _, _, rfl, rfl, ?_⟩
      rintro (pc | _)
      · exact rfl
      · exact rfl
    | before pc | test result | call | after pc | ret ran => cases inside

variable {w : List c.RunEvent} {s : c.RunState}

/-- The run of the lock machine below a run of the benchmark. -/
theorem exists_lock_run (locks : c.LocksAndUnlocks) (run : c.machine.Run w s) :
    ∃ w' u, (lockMachine c.passes).Run w' u ∧ Projects LocktestAddr.user c.LockView s u ∧
      Shadow LocktestAddr.user c.inBody w w' := by
  refine exists_component_run (by intro a b _; rfl) (tracks_lock locks) (calls_lock locks) ?_ run
  refine ⟨fun a => locks.word, fun t => ?_⟩
  cases t with
  | main => exact .ready rfl
  | worker i => exact .unborn rfl

/-! ## What shows of the lock -/

/-- What is done with `shared.futex`, as an access of the lock machine. -/
def futexAccess {T : Type} : Access (LocktestAddr Unit) T → Option (Access Unit T)
  | .cmpxchg (.user a) old new got => some (.cmpxchg a old new got)
  | .wake (.user a) n woken => some (.wake a n woken)
  | _ => none

theorem futexAccess_map {T : Type} (a : Access Unit T) :
    futexAccess (a.map LocktestAddr.user) =
      match a with
      | .cmpxchg _ _ _ _ => some a
      | .wake _ _ _ => some a
      | _ => none := by
  cases a <;> rfl

theorem futexAccess_eq_none {T : Type} {a : Access (LocktestAddr Unit) T}
    (outside : ∀ b, a.addr ≠ some (.user b)) : futexAccess a = none := by
  cases a with
  | cmpxchg x old new got | wake x n woken =>
    cases x with
    | user b => exact absurd rfl (outside b)
    | before b | after b => rfl
  | tau | load x got | store x v | dec x r | wait x v slept | create t | join t | resume => rfl

/-- The mutex action of a step of the benchmark. -/
def lockAction (e : c.RunEvent) : Option (Mutex.Action (Team c.threads)) :=
  (futexAccess e.access).bind (accessAction e.thread)

/-- The acquisitions and releases of a run and of the lock machine below it. -/
theorem lockAction_shadow {w' : List (Event Unit (Team c.threads) LockLoc)}
    (shadow : Shadow LocktestAddr.user c.inBody w w') :
    w'.filterMap mutexAction = w.filterMap lockAction := by
  refine shadow.filterMap (fun t a => (futexAccess a).bind (accessAction t)) accessAction ?_ ?_
  · intro t a
    rw [futexAccess_map]
    cases a <;> rfl
  · intro t a outside
    rw [futexAccess_eq_none outside]
    rfl

/-- The step sets `shared.futex` to 2. -/
def marksFutex (e : c.RunEvent) : Bool := (futexAccess e.access).any accessMarks

/-- The step is a wake on `shared.futex`. -/
def wakesFutex (e : c.RunEvent) : Bool := (futexAccess e.access).any accessWakes

/-- A kind of access that only compare-and-exchanges and wakes can be is met as often in
a run as in the lock machine below it. -/
theorem countP_shadow {w' : List (Event Unit (Team c.threads) LockLoc)}
    (shadow : Shadow LocktestAddr.user c.inBody w w') {p : Access Unit (Team c.threads) → Bool}
    (kind : ∀ a, p a = true → futexAccess (a.map LocktestAddr.user) = some a) :
    w'.countP (fun e => p e.access) = w.countP fun e => (futexAccess e.access).any p := by
  have same := shadow.filterMap (fun _ a => (futexAccess a).filter p)
    (fun _ a => (some a).filter p) ?_ ?_
  · have lengths := congrArg List.length same
    simpa [List.length_filterMap_eq_countP, Option.isSome_filter] using lengths
  · intro _ a
    by_cases holds : p a = true
    · rw [kind a holds]
    · rw [futexAccess_map]
      cases a <;> simp [Option.filter, holds]
  · intro _ a outside
    rw [futexAccess_eq_none outside]
    rfl

/-- **The benchmark is a mutex.** The compare-and-exchanges on `shared.futex` that succeed
from 0 or to 0 are, in every run, the acquisitions and releases of a mutex, which is free
exactly when the word is 0. When `locktest` has returned `RET_PASS` each worker has
acquired and released it as often as `loops` says, main never, and there has been one wake
for each time that the word became 2. -/
theorem benchmark_is_mutex (threads loops : Int32) (pthreadCreate : ℕ → Int32)
    (positive : 0 < threads) {w : List (futexWaitLocktest threads loops pthreadCreate).RunEvent}
    {s : (futexWaitLocktest threads loops pthreadCreate).RunState}
    (run : (futexWaitLocktest threads loops pthreadCreate).machine.Run w s) :
    (∃ owner, (Mutex.system (Team threads)).Run (w.filterMap lockAction) owner ∧
      (owner = none ↔ s.mem (.user ()) = 0)) ∧
    (s.loc .main = .main (.ret retPass) →
      (∀ i, ((w.filterMap lockAction).count (.acquire (.worker i)) : ℤ) = loops.toInt ∧
        ((w.filterMap lockAction).count (.release (.worker i)) : ℤ) = loops.toInt) ∧
      (w.filterMap lockAction).count (.acquire .main) = 0 ∧
      w.countP wakesFutex = w.countP marksFutex) := by
  have locks : (futexWaitLocktest threads loops pthreadCreate).LocksAndUnlocks := ⟨rfl, rfl, rfl⟩
  obtain ⟨w', u, run', proj, shadow⟩ := exists_lock_run locks run
  have actions := lockAction_shadow shadow
  obtain ⟨owner, abstract, inv⟩ := (lock_simulates_mutex _).exists_run run'
  rw [actions] at abstract
  have word : s.mem (.user ()) = u.mem () := proj.mem ()
  refine ⟨⟨owner, abstract, ?_⟩, ?_⟩
  · rw [word]
    exact inv.free.symm
  intro result
  obtain ⟨created, ready⟩ := ran_of_result positive run.reachable result
  -- the count-down has come to its end in some worker, so it started from above
  have some : 0 < workers threads := by
    have above : 0 < threads.toInt := by simpa using Int32.lt_iff_toInt_lt.mp positive
    rw [workers_eq]
    omega
  have calls := calls_of_result locks positive run result .lock ⟨0, some⟩
  have nonneg : ∀ t, 0 ≤ (futexWaitLocktest threads loops pthreadCreate).passes t := by
    intro t
    cases t with
    | main => exact le_rfl
    | worker i =>
      rw [passes, ← calls]
      exact Int.natCast_nonneg _
  have wakes := count_wakes nonneg run'
  have acquires := count_acquire nonneg run'
  rw [actions] at acquires
  -- all are done, and the lock is free
  have done : ∀ t, u.loc t = .inl (.head 0) ∨ u.loc t = .inr () := by
    intro t
    have view := proj.loc t
    cases t with
    | main =>
      rw [result] at view
      exact .inl view
    | worker i =>
      rw [State.loc, ready i] at view
      exact .inr view
  have nobody : ∀ t, ¬ Mutex.Owns (w.filterMap lockAction) t := by
    intro t owns
    have holds := (inv.owner t).mp ((Mutex.owner_iff_owns abstract t).mpr owns)
    rcases done t with here | here
    · rw [here] at holds
      exact holds
    · rw [here] at holds
      exact holds
  have free : marked (u.mem ()) = 0 := by
    have word' := (clean_of_returned locks created positive run.reachable result).2.1
    rw [← word, word']
    rfl
  have waking : (Finset.univ.filter fun t => atWake (u.loc t)) = ∅ := by
    rw [Finset.filter_eq_empty_iff]
    intro t _
    rcases done t with here | here
    · rw [here]
      exact Bool.false_ne_true
    · rw [here]
      exact Bool.false_ne_true
  refine ⟨?_, ?_, ?_⟩
  · intro i
    have acquired := acquires (.worker i)
    have released := Mutex.count_release abstract (.worker i)
    have view := proj.loc (.worker i)
    rw [State.loc, ready i] at view
    rw [show u.loc (.worker i) = .inr () from view] at acquired
    rw [if_neg (nobody _), add_zero] at released
    have passes : ((futexWaitLocktest threads loops pthreadCreate).passes (.worker i)).toNat =
        loops.toInt.toNat := rfl
    have least : 0 ≤ loops.toInt := nonneg (.worker i)
    simp only [passesLeft] at acquired
    omega
  · have acquired := acquires .main
    have passes : ((futexWaitLocktest threads loops pthreadCreate).passes .main).toNat = 0 := rfl
    omega
  · rw [waking, free, Finset.card_empty, countP_shadow shadow (p := accessWakes),
      countP_shadow shadow (p := accessMarks)] at wakes
    · exact wakes
    · intro a marks
      cases a <;> first | rfl | cases marks
    · intro a marks
      cases a <;> first | rfl | cases marks

theorem benchmark_is_mutex_wholeRun :
    ∃ w s, (futexWaitLocktest 2 1 fun _ => 0).machine.Run w s ∧
      ∀ i, (w.filterMap lockAction).count (.acquire (.worker i)) = 1 := by
  obtain ⟨w, s, run, returned⟩ := exists_run (futexWaitLocktest 2 1 fun _ => 0).program
    (futexWaitLocktest 2 1 fun _ => 0).start wholeRun
    (fun _ s => s.loc .main = .main (.ret retPass)) (by decide)
  obtain ⟨acquired, -⟩ := (benchmark_is_mutex 2 1 (fun _ => 0) (by decide) run).2 returned
  refine ⟨w, s, run, fun i => ?_⟩
  have once := (acquired i).1
  have one : (1 : Int32).toInt = 1 := by decide
  omega

end Locktest
