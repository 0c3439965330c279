import Futextest.Locktest.Lock

/-!
# The benchmark comes to an end

The steps of a run of the benchmark are those of the harness and those of the lock. The
ones are bounded by the number of threads, the others by the number of passes too, so
every run comes to a point where no thread can move, and there `locktest` has returned: the
harness adds no deadlock, and a sleeper on the lock is answered for.

## Main results

* `locktest_bounded` — how many steps a run takes
* `benchmark_terminates` — and that it can always be continued until `locktest` returns
-/

open FutexMachine

namespace Locktest

variable {c : Locktest Unit TestPc} {w : List c.RunEvent} {s : c.RunState}

theorem sum_passes : ∑ t, (c.passes t).toNat = c.n * c.loops.toInt.toNat := by
  have each : ∀ t ∈ Finset.univ.erase .main, (c.passes t).toNat = c.loops.toInt.toNat := by
    intro t member
    cases t with
    | main => exact absurd rfl (Finset.ne_of_mem_erase member)
    | worker i => rfl
  rw [← Finset.add_sum_erase _ _ (Finset.mem_univ Thread.main), Finset.sum_congr rfl each,
    Finset.sum_const, Finset.card_erase_of_mem (Finset.mem_univ _), Finset.card_univ, card_team]
  simp [passes]

/-- The steps of a run in `futex_wait_test` are bounded as those of the lock are. -/
theorem body_bounded (locks : c.LocksAndUnlocks) (nonneg : 0 ≤ c.loops.toInt)
    (run : c.machine.Run w s) :
    w.countP (fun e => c.inBody e.thread e.pc && !e.resumes) ≤
      (20 * (c.n + 1) + 1) * (3 * (c.n * c.loops.toInt.toNat)) + 10 * (c.n + 1) +
        5 * w.countP Event.resumes := by
  obtain ⟨w', u, run', -, shadow⟩ := exists_lock_run locks run
  have passes : ∀ t, 0 ≤ c.passes t := by
    intro t
    cases t with
    | main => exact le_rfl
    | worker i => exact nonneg
  have bounded := (lock_bounded passes).count_le run'
  rw [card_team, sum_passes] at bounded
  have resumes := shadow.count_resumes
  refine shadow.count_inside.trans ?_
  omega

/-- A step that is not the return of a wait is one of the harness or of the function. -/
theorem count_steps (w : List c.RunEvent) :
    w.countP (fun e => !e.resumes) =
      w.countP ofHarness + w.countP fun e => c.inBody e.thread e.pc && !e.resumes := by
  induction w with
  | nil => rfl
  | cons e w ih =>
    rw [List.countP_cons, List.countP_cons, List.countP_cons, ih, ofHarness]
    cases c.inBody e.thread e.pc <;> cases e.resumes <;> simp <;> omega

/-- How many steps a run of the benchmark has. -/
theorem locktest_bounded (locks : c.LocksAndUnlocks) (nonneg : 0 ≤ c.loops.toInt) :
    c.machine.Bounded (fun e => !e.resumes)
      ((20 * (c.n + 1) + 1) * (3 * (c.n * c.loops.toInt.toNat)) + 43 * c.n + 22) 7 := by
  intro w s run
  have harness := harness_bounded c run
  have body := body_bounded locks nonneg run
  have resumes : w.countP (fun e => !!e.resumes) = w.countP Event.resumes := by
    simp only [Bool.not_not]
  rw [count_steps, resumes]
  refine (Nat.add_le_add harness body).trans ?_
  omega

/-- Where no thread can move `locktest` has returned. -/
theorem returned_of_stuck (locks : c.LocksAndUnlocks) (positive : 0 < c.threads)
    (reach : c.machine.Reachable s) (stuck : ∀ t, ¬ Enabled c.program s t) :
    s.loc .main = .main (.ret (if ∀ i, i < c.n → c.pthreadCreate i = 0 then retPass
      else retError)) := by
  obtain ⟨k, created⟩ := c.exists_creates
  obtain ⟨pc, at_pc, ok⟩ := exists_main created reach
  by_cases running : ∀ result, s.loc .main ≠ .main (.ret result)
  · exfalso
    rcases locktest_progress created positive reach running with ⟨t, enabled⟩ | ⟨i, a, l, asleep⟩
    · exact stuck t enabled
    · obtain ⟨t, enabled⟩ := enabled_of_lock_asleep locks reach asleep
      exact stuck t enabled
  · push Not at running
    obtain ⟨result, returned⟩ := running
    obtain rfl : pc = .ret result := by simpa [returned] using at_pc.symm
    have value : result = if k < c.n then retError else retPass := ok
    rw [returned, value]
    have le := created.le
    by_cases fewer : k < c.n
    · have failed : ¬ ∀ i, i < c.n → c.pthreadCreate i = 0 :=
        fun all => created.fails fewer (all k fewer)
      rw [if_pos fewer, if_neg failed]
    · have all : ∀ i, i < c.n → c.pthreadCreate i = 0 :=
        fun i less => created.succeed i (by omega)
      rw [if_neg fewer, if_pos all]

/-- **The benchmark terminates.** For any number of threads and of passes, and whichever
call of `pthread_create` fails, if any: whoever moves next, the threads take at most so
many steps, and seven more for every wait that returns without a wake; and every run can be
continued, without such returns, until `locktest` returns, with `RET_PASS` if all threads
could be created and with `RET_ERROR` otherwise. -/
theorem benchmark_terminates (threads loops : Int32) (pthreadCreate : ℕ → Int32)
    (positive : 0 < threads) (nonneg : 0 ≤ loops.toInt)
    {w : List (futexWaitLocktest threads loops pthreadCreate).RunEvent}
    {s : (futexWaitLocktest threads loops pthreadCreate).RunState}
    (run : (futexWaitLocktest threads loops pthreadCreate).machine.Run w s) :
    w.countP (fun e => !e.resumes) ≤
      (20 * (workers threads + 1) + 1) * (3 * (workers threads * loops.toInt.toNat)) +
        43 * workers threads + 22 + 7 * w.countP Event.resumes ∧
    ∃ w' s', (futexWaitLocktest threads loops pthreadCreate).machine.Run (w ++ w') s' ∧
      (∀ e ∈ w', e.resumes = false) ∧
      s'.loc .main = .main (.ret (if ∀ i, i < workers threads → pthreadCreate i = 0 then retPass
        else retError)) := by
  have locks : (futexWaitLocktest threads loops pthreadCreate).LocksAndUnlocks := ⟨rfl, rfl, rfl⟩
  have bounded := locktest_bounded locks nonneg
  refine ⟨bounded.count_le run, ?_⟩
  obtain ⟨w', s', further, quiet, stuck⟩ := bounded.exists_stuck run
  refine ⟨w', s', further, fun e member => by simpa using quiet e member, ?_⟩
  exact returned_of_stuck locks positive further.reachable (not_enabled_of_stuck stuck)

theorem benchmark_terminates_start :
    ∃ w s, (futexWaitLocktest 2 3 fun i => if i = 1 then 11 else 0).machine.Run w s ∧
      s.loc .main = .main (.ret retError) := by
  obtain ⟨-, w, s, run, -, returned⟩ := benchmark_terminates 2 3 (fun i => if i = 1 then 11 else 0)
    (by decide) (by decide) (.start rfl)
  refine ⟨w, s, run, ?_⟩
  rw [returned, if_neg]
  intro all
  exact absurd (all 1 (by decide)) (by decide)

end Locktest
