import Futextest.Locktest.Window

/-!
# The benchmark of `futex_wait.c`

With `futex_wait_test` as the function under test, a run of `locktest` contains a
run of the lock machine. A worker that sleeps on the lock is answered for by one
that is awake between its lock and its unlock, so the run as a whole cannot get
stuck; and when it is over nothing is left behind.

## Main results

* `exists_lock` — the lock in a reachable state of the run
* `futexWaitLocktest_runs_clean` — the run does not get stuck, and ends clean
-/

open FutexMachine

namespace Locktest

/-- The function under test is `futex_wait_test`, on a word that starts at 0. -/
structure LocksAndUnlocks (c : Locktest Unit TestPc) : Prop where
  code : c.locktestFunction = futexWaitTest
  entry : c.entry c.loops = .head c.loops.toInt
  word : c.words () = 0

variable {c : Locktest Unit TestPc} {k : ℕ}

/-- The passes of each thread, as the lock machine counts them: main makes none. -/
def passes (c : Locktest Unit TestPc) : Team c.threads → ℤ
  | .main => 0
  | .worker _ => c.loops.toInt

/-- A worker, seen from the lock. -/
@[simp] def workerLock (c : Locktest Unit TestPc) : WorkerPc TestPc → LockLoc
  | .body pc => .inl pc
  | .after _ => .inr ()
  | .ret true => .inr ()
  | _ => .inl (.head c.loops.toInt)

/-- How a control point of the run shows in the lock. -/
@[simp] def LockView (c : Locktest Unit TestPc) :
    Team c.threads → LocktestLoc TestPc c.n → LockLoc → Prop
  | .main, .main _, l => l = .inl (.head 0)
  | .worker _, .worker pc, l => l = c.workerLock pc
  | _, _, _ => False

/-- Every operation of the run is one of the lock or none of its business. -/
theorem tracks_lock (locks : c.LocksAndUnlocks) (t : Team c.threads) (l : LocktestLoc TestPc c.n)
    (l' : LockLoc) (view : c.LockView t l l') :
    Tracks LocktestAddr.user (c.LockView t) l' (c.program t l)
      (lockProgram (Team c.threads) t l') := by
  rcases t with _ | i <;> rcases l with pc | pc <;> simp only [LockView] at view
  · obtain rfl := view
    cases pc with
    | create i =>
      simp only [program, main]
      split
      · split
        · exact .create _ _ _ rfl
        · exact .tau _ _ rfl
      · exact .tau _ _ rfl
    | abortJoin i =>
      rcases abortJoin_cases (c := c) i with ⟨-, op⟩ | ⟨j, less, -, op⟩
      · rw [program, op]
        exact .tau _ _ rfl
      · rw [program, op]
        exact .join _ _ _ rfl
    | join i =>
      rcases join_cases (c := c) i with ⟨more, op⟩ | ⟨-, op⟩
      · rw [program, op]
        exact .join _ _ _ rfl
      · rw [program, op]
        exact .tau _ _ rfl
    | timesBefore | timesAfter => exact .tau _ _ rfl
    | ret result => exact .exit _
    -- the words of the barriers are not the lock
    | abort i pc | waitBefore pc | unblockBefore pc | waitAfter pc | unblockAfter pc =>
      rw [program, main]
      apply Tracks.away _ _ _ _ (by simp)
      rintro (pc | _)
      · exact rfl
      · exact rfl
  · obtain rfl := view
    cases pc with
    | before pc =>
      rw [program, thread]
      apply Tracks.away _ _ _ _ (by simp)
      rintro (pc | _)
      · exact rfl
      · exact rfl
    | test result =>
      apply Tracks.tau
      split
      · exact rfl
      · exact rfl
    | call =>
      refine .tau _ _ ?_
      rw [locks.entry]
      exact rfl
    | body pc =>
      have same : lockProgram (Team c.threads) (.worker i) (c.workerLock (.body pc)) =
          .instr ((futexWaitTest pc).map id id) := by
        rw [Instr.map_id]
        rfl
      rw [program, thread, same, locks.code]
      apply Tracks.call
      rintro (pc | _)
      · exact rfl
      · exact rfl
    | after pc =>
      rw [program, thread]
      apply Tracks.away _ _ _ _ (by simp)
      rintro (pc | _)
      · exact rfl
      · exact rfl
    | ret ran => exact .exit _

variable {s : c.RunState}

/-- The lock in a reachable state of the run. -/
theorem exists_lock (locks : c.LocksAndUnlocks) (reach : c.machine.Reachable s) :
    ∃ u, (lockMachine c.passes).Reachable u ∧ Projects LocktestAddr.user c.LockView s u := by
  refine exists_component (by intro a b _; rfl) (tracks_lock locks) ?_ reach
  refine ⟨fun a => locks.word, fun t => ?_⟩
  cases t with
  | main => exact .ready rfl
  | worker i => exact .unborn rfl

/-- While a worker sleeps on the lock another one can move. -/
theorem enabled_of_lock_asleep (locks : c.LocksAndUnlocks) (reach : c.machine.Reachable s)
    {i : Fin c.n} {l : LocktestLoc TestPc c.n}
    (asleep : s.thread (.worker i) = .asleep (.user ()) l) : ∃ t, Enabled c.program s t := by
  obtain ⟨u, reach', proj⟩ := exists_lock locks reach
  have tracks := proj.thread (.worker i)
  rw [asleep] at tracks
  obtain ⟨l', asleep', -⟩ := tracks.asleep_embed (by intro a b _; rfl)
  -- the lock by itself loses no wakeup
  obtain ⟨t, l₁, ready, busy⟩ := exists_inPass reach' (lock_sleepers_answered reach' asleep')
  have at_pass : u.loc t = l₁ := by simp [State.loc, ready]
  have view := proj.loc t
  rw [at_pass] at view
  have shown := proj.thread t
  rw [ready] at shown
  -- the thread that answers for the sleeper is a worker in the function under test
  obtain ⟨j, rfl, pc, at_body⟩ : ∃ j, t = .worker j ∧ ∃ pc, s.loc t = .worker (.body pc) := by
    rcases t with _ | j <;> rcases hl : s.loc _ with pc | pc <;> rw [hl] at view
    · obtain rfl := view
      exact busy.elim
    · exact view.elim
    · exact view.elim
    · obtain rfl := view
      refine ⟨j, rfl, ?_⟩
      cases pc with
      | body pc => exact ⟨pc, rfl⟩
      | before pc | test result | call | after pc => exact busy.elim
      | ret ran => cases ran <;> exact busy.elim
  refine ⟨.worker j, ?_⟩
  cases hj : s.thread (.worker j) with
  | ready l₂ =>
    obtain rfl : l₂ = .worker (.body pc) := by simpa [State.loc, hj] using at_body
    exact enabled_of_instr hj (by rw [program, thread])
  | unborn l₂ =>
    have there := unborn_at_start reach hj
    obtain rfl : l₂ = .worker (.body pc) := by simpa [State.loc, hj] using at_body
    simp [start] at there
  | asleep a l₂ =>
    obtain rfl : l₂ = .worker (.body pc) := by simpa [State.loc, hj] using at_body
    rcases locktest_asleep reach hj with ⟨main, -⟩ | ⟨m, -, ⟨-, other⟩ | ⟨-, other⟩ | ⟨b, rfl, -⟩⟩
    · simp at main
    · simp at other
    · simp at other
    · rw [hj] at shown
      obtain ⟨l₃, awake, -⟩ := shown.asleep_embed (by intro a b _; rfl)
      simp at awake

/-- A worker that has finished after all were created ran the function under test. -/
theorem ready_of_finished (created : c.Creates c.n) (positive : 0 < c.threads)
    (reach : c.machine.Reachable s) {i : Fin c.n}
    (finished : s.finished c.program (.worker i) = true) :
    s.thread (.worker i) = .ready (.worker (.ret true)) := by
  cases hi : s.thread (.worker i) with
  | unborn l => simp [State.finished, hi] at finished
  | asleep a l => simp [State.finished, hi] at finished
  | ready l =>
    obtain ⟨pc, at_pc⟩ := exists_worker created reach i
    obtain rfl : l = .worker pc := by simpa [State.loc, hi] using at_pc
    cases pc with
    | ret ran =>
      cases ran with
      | true => rfl
      | false => exact absurd (fewer_of_skipped created positive reach at_pc) (lt_irrefl _)
    | before pc | test result | call | body pc | after pc =>
      simp [State.finished, hi, program, thread, Op.isExit] at finished

/-- In the end nothing is left behind. -/
theorem clean_of_returned (locks : c.LocksAndUnlocks) (created : c.Creates c.n)
    (positive : 0 < c.threads) (reach : c.machine.Reachable s)
    (returned : s.loc .main = .main (.ret retPass)) :
    (∀ i, s.finished c.program (.worker i) = true) ∧ s.mem (.user ()) = 0 ∧
    s.mem (.before .threads) = 0 ∧ s.mem (.after .threads) = 0 ∧
    ∀ t a l, s.thread t ≠ .asleep a l := by
  obtain ⟨w, run⟩ := id reach
  obtain ⟨pc, at_pc, ok, inv⟩ := runInv created run
  obtain rfl : pc = .ret retPass := by simpa [returned] using at_pc.symm
  have finished : ∀ i, s.finished c.program (.worker i) = true := fun i => inv.finished i i.isLt
  -- the workers have run the function, and are done with it
  have ready := fun i => ready_of_finished created positive reach (finished i)
  refine ⟨finished, ?_, ?_, ?_, ?_⟩
  · -- nobody is where it could hold the lock
    obtain ⟨u, reach', proj⟩ := exists_lock locks reach
    obtain ⟨owner, lockInv⟩ := exists_lockInv reach'
    have nobody : owner = none := by
      cases howner : owner with
      | none => rfl
      | some t =>
        have holds := (lockInv.owner t).mp howner
        have view := proj.loc t
        rcases t with _ | i
        · rw [returned] at view
          rw [view] at holds
          exact holds.elim
        · have at_ret : s.loc (.worker i) = .worker (.ret true) := by simp [State.loc, ready i]
          rw [at_ret] at view
          rw [view] at holds
          exact holds.elim
    have word := proj.mem ()
    rw [word]
    exact lockInv.free.mpr nobody
  · obtain ⟨u, reach', proj⟩ := exists_before created reach
    have main := proj.loc .main
    rw [returned] at main
    have inv := barrierInv positive reach'
    have all := inv.awaited (by simp [waits]) (by rw [main.2]; rfl)
    rw [proj.mem .threads]
    exact inv.all_arrived.mpr all
  · obtain ⟨u, reach', proj⟩ := exists_after created reach
    have main := proj.loc .main
    rw [returned] at main
    have inv := barrierInv positive reach'
    have all := inv.awaited rfl (by rw [main.2]; rfl)
    rw [proj.mem .threads]
    exact inv.all_arrived.mpr all
  · intro t a l asleep
    rcases t with _ | i
    · rcases locktest_asleep reach asleep with ⟨-, ⟨-, rfl⟩ | ⟨-, rfl⟩⟩ | ⟨i, other, -⟩
      · simp [State.loc, asleep] at returned
      · simp [State.loc, asleep] at returned
      · simp at other
    · simp [ready i] at asleep

/-- **The whole benchmark cannot get stuck and ends clean.** With every
`pthread_create` successful, whatever the number of threads and of passes: as long
as `locktest` has not returned some thread can move; and once it has returned
`RET_PASS` all workers have finished, the lock and both barrier counters are 0 and
no thread sleeps. -/
theorem futexWaitLocktest_runs_clean (threads loops : Int32) (pthreadCreate : ℕ → Int32)
    (positive : 0 < threads) (succeed : ∀ i, i < workers threads → pthreadCreate i = 0)
    {s : (futexWaitLocktest threads loops pthreadCreate).RunState}
    (reach : (futexWaitLocktest threads loops pthreadCreate).machine.Reachable s) :
    ((∀ result, s.loc .main ≠ .main (.ret result)) →
      ∃ t, Enabled (futexWaitLocktest threads loops pthreadCreate).program s t) ∧
    (s.loc .main = .main (.ret retPass) →
      (∀ i, s.finished (futexWaitLocktest threads loops pthreadCreate).program (.worker i) = true) ∧
      s.mem (.user ()) = 0 ∧ s.mem (.before .threads) = 0 ∧ s.mem (.after .threads) = 0 ∧
      ∀ t a l, s.thread t ≠ .asleep a l) := by
  have locks : (futexWaitLocktest threads loops pthreadCreate).LocksAndUnlocks := ⟨rfl, rfl, rfl⟩
  have created : (futexWaitLocktest threads loops pthreadCreate).Creates (workers threads) :=
    ⟨le_rfl, succeed, fun less => absurd less (lt_irrefl _)⟩
  constructor
  · intro running
    rcases locktest_progress created positive reach running with enabled | ⟨i, a, l, asleep⟩
    · exact enabled
    · exact enabled_of_lock_asleep locks reach asleep
  · intro returned
    exact clean_of_returned locks created positive reach returned

/-- The same run to its end. -/
def wholeRun : List (Choice (Team 2)) :=
  let m : Choice (Team 2) := .run .main ∅
  let t : Choice (Team 2) := .run taker ∅
  let w : Choice (Team 2) := .run sleeper ∅
  toSecondReading ++ [m, m, .run .main {taker, sleeper}, t, t, w, w, m, m, m]

theorem futexWaitLocktest_runs_clean_wholeRun :
    ∃ s, (futexWaitLocktest 2 1 fun _ => 0).machine.Reachable s ∧
      s.loc .main = .main (.ret retPass) ∧ s.mem (.user ()) = 0 ∧
      ∀ t a l, s.thread t ≠ .asleep a l := by
  obtain ⟨w, s, run, returned⟩ := exists_run (futexWaitLocktest 2 1 fun _ => 0).program
    (futexWaitLocktest 2 1 fun _ => 0).start wholeRun
    (fun _ s => s.loc .main = .main (.ret retPass)) (by decide)
  obtain ⟨-, word, -, -, awake⟩ := (futexWaitLocktest_runs_clean 2 1 (fun _ => 0) (by decide)
    (fun _ _ => rfl) run.reachable).2 returned
  exact ⟨s, run.reachable, returned, word, awake⟩

end Locktest
