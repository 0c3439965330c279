import Futextest.Locktest.Window

/-!
# A run that cannot create all its threads

When `pthread_create` fails for thread `k`, main opens the first barrier with -1
without waiting there, and joins the `k` threads it has. These may be anywhere in
their `barrier_sync`; each of them gets the -1, skips the function under test and
the second barrier, and returns.

## Main results

* `locktest_abort` — what such a run does, step by step and in the end
-/

open FutexMachine

namespace Locktest

variable {A F : Type} {c : Locktest A F} {k : ℕ}

section Machine

variable [DecidableEq A] {s s' : c.RunState} {e : c.RunEvent}

/-- A worker of an aborted run takes no step past the test of the first result. -/
theorem not_ran_of_abort (created : c.Creates k) (fewer : k < c.n) (positive : 0 < c.threads)
    (reach : c.machine.Reachable s) (step : Step c.program s e s') {pc : WorkerPc F}
    (at_pc : e.pc = .worker pc) : pc.ran = false := by
  have here := step.pc_eq
  rw [at_pc] at here
  cases mover : e.thread with
  | main =>
    obtain ⟨pc', main, -⟩ := exists_main created reach
    simp [mover, main] at here
  | worker i =>
    rw [mover] at here
    by_contra ran
    have all := all_created_of_ran created positive reach here.symm (by simpa using ran)
    omega

/-- No worker of an aborted run sleeps in the function under test. -/
theorem not_asleep_of_abort (created : c.Creates k) (fewer : k < c.n) (positive : 0 < c.threads)
    (reach : c.machine.Reachable s) (i : Fin c.n) (a : A) (l : LocktestLoc F c.n) :
    s.thread (.worker i) ≠ .asleep (.user a) l := by
  intro asleep
  -- it would have run, and that only happens when all threads were created
  have ran : ∃ pc, s.loc (.worker i) = .worker pc ∧ pc.ran = true := by
    rcases locktest_asleep reach asleep with ⟨main, -⟩ |
      ⟨j, -, ⟨other, -⟩ | ⟨other, -⟩ | ⟨b, -, ⟨f, rfl⟩ | rfl⟩⟩
    · simp at main
    · simp at other
    · simp at other
    · exact ⟨.body f, by simp [State.loc, asleep], rfl⟩
    · exact ⟨.after .dec, by simp [State.loc, asleep], rfl⟩
  obtain ⟨pc, at_pc, ran⟩ := ran
  have all := all_created_of_ran created positive reach at_pc ran
  omega

/-- Once `locktest` has returned nothing moves any more: the threads that were
created have finished. -/
theorem halted_of_returned (created : c.Creates k) {w : List c.RunEvent}
    (run : c.machine.Run w s) {result : ℤ} (returned : s.loc .main = .main (.ret result)) :
    ¬ Step c.program s e s' := by
  intro step
  obtain ⟨pc, at_pc, -, inv⟩ := runInv created run
  obtain rfl : pc = .ret result := by simpa [returned] using at_pc.symm
  cases mover : e.thread with
  | main =>
    rcases step.view with ⟨i, woken, hop, -⟩ | ⟨u, l, m, hop, -⟩ | ⟨u, m, hop, -⟩ | ⟨a, asleep, -⟩
    · simp [mover, step.pc_eq, returned, program, Locktest.main] at hop
    · simp [mover, step.pc_eq, returned, program, Locktest.main] at hop
    · simp [mover, step.pc_eq, returned, program, Locktest.main] at hop
    · rw [mover] at asleep
      rcases locktest_asleep run.reachable asleep with ⟨-, ⟨-, other⟩ | ⟨-, other⟩⟩ | ⟨i, other, -⟩
      · simp [step.pc_eq, mover, returned] at other
      · simp [step.pc_eq, mover, returned] at other
      · simp at other
  | worker i =>
    by_cases present : i.val < k
    · have finished := inv.finished i present
      rw [← mover, step.not_finished_self] at finished
      simp at finished
    · obtain ⟨l, unborn⟩ := (inv.born i).mpr (Nat.le_of_not_lt present)
      rw [← mover] at unborn
      exact step.not_unborn_self l unborn

/-- **Aborting is clean.** When exactly `pthread_create` number `k` fails: no
worker ever calls the function under test or gets to the second barrier; as long
as `locktest` has not returned some thread can move; main joins only threads it
has created, each at most once; and when `locktest` returns it returns
`RET_ERROR`, has joined each of the `k` threads exactly once, all of them have
finished, and no step is taken any more. -/
theorem locktest_abort (c : Locktest A F) (positive : 0 < c.threads) {k : ℕ} (fewer : k < c.n)
    (succeed : ∀ i, i < k → c.pthreadCreate i = 0) (fails : c.pthreadCreate k ≠ 0)
    {w : List c.RunEvent} {s : c.RunState} (run : c.machine.Run w s) :
    (∀ e ∈ w, ¬ InFunction e ∧ ∀ pc, e.pc ≠ .worker (.after pc)) ∧
    ((∀ result, s.loc .main ≠ .main (.ret result)) → ∃ t, Enabled c.program s t) ∧
    (∀ i : Fin c.n, w.countP (fun e => e.access = .join (.worker i)) ≤ if i < k then 1 else 0) ∧
    ∀ result, s.loc .main = .main (.ret result) →
      result = retError ∧
      (∀ i : Fin c.n, w.countP (fun e => e.access = .join (.worker i)) = if i < k then 1 else 0) ∧
      (∀ i : Fin c.n, i < k → s.finished c.program (.worker i) = true) ∧
      ∀ e s', ¬ c.machine.step s e s' := by
  have created : c.Creates k := ⟨fewer.le, succeed, fun _ => fails⟩
  obtain ⟨pc, at_pc, ok, inv⟩ := runInv created run
  refine ⟨?_, fun running => ?_, fun i => ?_, fun result returned => ⟨?_, fun i => ?_, ?_, ?_⟩⟩
  · refine run.induction (P := fun w _ => ∀ e ∈ w, ¬ InFunction e ∧
      ∀ pc, e.pc ≠ .worker (.after pc)) (by simp) ?_
    intro w s e s' before ih step e' taken
    rcases List.mem_append.mp taken with sooner | last
    · exact ih e' sooner
    · obtain rfl : e' = e := by simpa using last
      have skips : ∀ pc, e'.pc = .worker pc → pc.ran = false := fun pc =>
        not_ran_of_abort created fewer positive before.reachable step
      refine ⟨?_, fun pc at_after => by simpa [WorkerPc.ran] using skips _ at_after⟩
      rintro (at_call | ⟨f, at_body⟩)
      · simpa [WorkerPc.ran] using skips _ at_call
      · simpa [WorkerPc.ran] using skips _ at_body
  · rcases locktest_progress created positive run.reachable running with enabled | ⟨i, a, l, asleep⟩
    · exact enabled
    · exact absurd asleep (not_asleep_of_abort created fewer positive run.reachable i a l)
  · by_cases joined : c.JoinedBy k i pc
    · have present : i.val < k := by
        cases pc with
        | abortJoin j => exact joined.2
        | ret result => exact joined
        | join j => exact absurd ok (Nat.ne_of_lt fewer)
        | create j | abort j pc | waitBefore pc | timesBefore | unblockBefore pc | waitAfter pc
        | timesAfter | unblockAfter pc => exact joined.elim
      simp [(inv.joins i).1 joined, present]
    · simp [(inv.joins i).2 joined]
  · obtain rfl : pc = .ret result := by simpa [returned] using at_pc.symm
    simpa [fewer] using ok
  · obtain rfl : pc = .ret result := by simpa [returned] using at_pc.symm
    by_cases present : i.val < k
    · simp [(inv.joins i).1 present, present]
    · simp [(inv.joins i).2 present, present]
  · obtain rfl : pc = .ret result := by simpa [returned] using at_pc.symm
    exact fun i present => inv.finished i present
  · exact fun e s' => halted_of_returned created run returned

end Machine

/-- Two threads are asked for and the second cannot be created. The first worker
sleeps at the gate when main opens it. -/
def secondFails : List (Choice (Team 2)) :=
  let m : Choice (Team 2) := .run .main ∅
  let w : Choice (Team 2) := .run (.worker ⟨0, workers_two_pos⟩) ∅
  [m, m, w, w, w, w, m, .run .main {.worker ⟨0, workers_two_pos⟩}, w, w, w, m, m]

theorem locktest_abort_secondFails :
    ∃ w s, (futexWaitLocktest 2 1 fun i => if i = 1 then 11 else 0).machine.Run w s ∧
      s.loc .main = .main (.ret retError) ∧ ∀ e ∈ w, ¬ InFunction e := by
  obtain ⟨w, s, run, returned⟩ := exists_run
    (futexWaitLocktest 2 1 fun i => if i = 1 then 11 else 0).program
    (futexWaitLocktest 2 1 fun i => if i = 1 then 11 else 0).start secondFails
    (fun _ s => s.loc .main = .main (.ret retError)) (by decide)
  have clean := locktest_abort (futexWaitLocktest 2 1 fun i => if i = 1 then 11 else 0)
    (by decide) (k := 1) (by decide) (fun i first => by simp [futexWaitLocktest]; omega)
    (by decide) run
  exact ⟨w, s, run, returned, fun e taken => (clean.1 e taken).1⟩

end Locktest
