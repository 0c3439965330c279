import Futextest.FutexWait.Wakeup
import Futextest.Locktest.Run

/-!
# A run of the harness does not get stuck

Whatever the function under test does, the harness around it adds no deadlock: if
no thread can move before `locktest` returns, then some worker sleeps on a word
of that function.

## Main results

* `locktest_progress` — only the function under test can get stuck
-/

open FutexMachine

/-- A worker that has found the barrier opened for work. -/
def WorkerPc.ran {F : Type} : WorkerPc F → Bool
  | .call => true
  | .body _ => true
  | .after _ => true
  | .ret ran => ran
  | _ => false

namespace Locktest

variable {A F : Type} {c : Locktest A F} {k : ℕ}

theorem gateValue_ne_zero : c.gateValue k ≠ 0 := by
  unfold gateValue
  split <;> decide

section Machine

variable [DecidableEq A] {s s' : c.RunState} {e : c.RunEvent}

/-- A worker goes on only if all threads were created. -/
theorem all_created_of_ran (created : c.Creates k) (positive : 0 < c.threads)
    (reach : c.machine.Reachable s) {i : Fin c.n} {pc : WorkerPc F}
    (at_pc : s.loc (.worker i) = .worker pc) (ran : pc.ran = true) : k = c.n := by
  obtain ⟨u, reach', proj⟩ := exists_before created reach
  have view := proj.loc (.worker i)
  rw [at_pc] at view
  have positive_result : ∃ result, 0 < result ∧ u.loc (.worker i) = .returned result := by
    cases pc with
    | before pc => simp [WorkerPc.ran] at ran
    | test result => simp [WorkerPc.ran] at ran
    | call => exact view
    | body pc => exact view
    | after pc => exact view
    | ret ran' =>
      obtain rfl : ran' = true := ran
      exact view
  obtain ⟨result, pos, returned⟩ := positive_result
  obtain ⟨-, rfl⟩ := (barrierInv positive reach').returned i result returned
  have le := created.le
  by_contra fewer
  -- otherwise main would have opened the gate with -1
  have value : c.gateValue k = -1 := if_pos (by omega)
  rw [value] at pos
  exact absurd pos (by decide)

/-- A worker that has returned without running did so because a thread could not
be created. -/
theorem fewer_of_skipped (created : c.Creates k) (positive : 0 < c.threads)
    (reach : c.machine.Reachable s) {i : Fin c.n}
    (skipped : s.loc (.worker i) = .worker (.ret false)) : k < c.n := by
  obtain ⟨u, reach', proj⟩ := exists_before created reach
  have view := proj.loc (.worker i)
  rw [skipped] at view
  obtain ⟨result, nonpos, returned⟩ := view
  obtain ⟨-, rfl⟩ := (barrierInv positive reach').returned i result returned
  by_contra all
  have value : c.gateValue k = 1 := if_neg all
  rw [value] at nonpos
  exact nonpos (by decide)

/-- A worker that is awake can move or has finished. -/
theorem worker_awake (created : c.Creates k) (reach : c.machine.Reachable s) {i : Fin c.n}
    {l : LocktestLoc F c.n} (awake : s.thread (.worker i) = .ready l) :
    s.finished c.program (.worker i) = true ∨ Enabled c.program s (.worker i) := by
  obtain ⟨pc, at_pc⟩ := exists_worker created reach i
  obtain rfl : l = .worker pc := by simpa [State.loc, awake] using at_pc
  cases pc with
  | ret ran => exact .inl (by simp [State.finished, awake, program, thread, Op.isExit])
  | before pc | test result | call | body pc | after pc =>
    exact .inr (enabled_of_instr awake (by rw [program, thread]))

/-- A worker that sleeps at the first barrier does so before main has issued its
wake there. -/
theorem before_asleep (created : c.Creates k) (positive : 0 < c.threads)
    (reach : c.machine.Reachable s) {i : Fin c.n} {l : LocktestLoc F c.n} {pc : MainPc c.n}
    (asleep : s.thread (.worker i) = .asleep (.before .unblock) l)
    (at_pc : s.loc .main = .main pc) : c.mainBefore k pc ≠ .done := by
  obtain ⟨u, reach', proj⟩ := exists_before created reach
  have main := proj.loc .main
  rw [at_pc] at main
  have tracks := proj.thread (.worker i)
  rw [asleep] at tracks
  obtain ⟨l', asleep', -⟩ := tracks.asleep_embed (by intro a b same; simpa using same)
  intro finished
  exact awake_of_done positive gateValue_ne_zero reach' (main.2.trans finished) i _ l' asleep'

/-- The same at the second barrier. -/
theorem after_asleep (created : c.Creates k) (positive : 0 < c.threads)
    (reach : c.machine.Reachable s) {i : Fin c.n} {l : LocktestLoc F c.n} {pc : MainPc c.n}
    (asleep : s.thread (.worker i) = .asleep (.after .unblock) l)
    (at_pc : s.loc .main = .main pc) : c.mainAfter pc ≠ .done := by
  obtain ⟨u, reach', proj⟩ := exists_after created reach
  have main := proj.loc .main
  rw [at_pc] at main
  have tracks := proj.thread (.worker i)
  rw [asleep] at tracks
  obtain ⟨l', asleep', -⟩ := tracks.asleep_embed (by intro a b same; simpa using same)
  intro finished
  exact awake_of_done positive (by decide) reach' (main.2.trans finished) i _ l' asleep'

/-- What a worker may be that cannot move, and where. -/
theorem worker_blocked (created : c.Creates k) (reach : c.machine.Reachable s)
    {i : Fin c.n} (blocked : ¬ Enabled c.program s (.worker i)) :
    (∃ l, s.thread (.worker i) = .unborn l) ∨
    (s.finished c.program (.worker i) = true ∧ ∃ ran, s.loc (.worker i) = .worker (.ret ran)) ∨
    (s.thread (.worker i) = .asleep (.before .unblock) (.worker (.before .test))) ∨
    (s.thread (.worker i) = .asleep (.after .unblock) (.worker (.after .test))) ∨
    ∃ a l, s.thread (.worker i) = .asleep (.user a) l ∧
      ((∃ f, l = .worker (.body f)) ∨ l = .worker (.after .dec)) := by
  cases ht : s.thread (.worker i) with
  | unborn l => exact .inl ⟨l, rfl⟩
  | ready l =>
    have finished := (worker_awake created reach ht).resolve_right blocked
    obtain ⟨pc, at_pc⟩ := exists_worker created reach i
    obtain rfl : l = .worker pc := by simpa [State.loc, ht] using at_pc
    cases pc with
    | ret ran => exact .inr (.inl ⟨finished, ran, at_pc⟩)
    | before pc | test result | call | body pc | after pc =>
      simp [State.finished, ht, program, thread, Op.isExit] at finished
  | asleep a l =>
    rcases locktest_asleep reach ht with ⟨main, -⟩ |
      ⟨j, -, ⟨rfl, rfl⟩ | ⟨rfl, rfl⟩ | ⟨b, rfl, inside⟩⟩
    · simp at main
    · exact .inr (.inr (.inl rfl))
    · exact .inr (.inr (.inr (.inl rfl)))
    · exact .inr (.inr (.inr (.inr ⟨b, l, rfl, inside⟩)))

/-- Main asleep at the first barrier is waiting for a worker that can move. -/
theorem enabled_of_main_before (created : c.Creates k) (positive : 0 < c.threads)
    (reach : c.machine.Reachable s) (born : ∀ i l, s.thread (.worker i) ≠ .unborn l)
    {l : LocktestLoc F c.n} (asleep : s.thread .main = .asleep (.before .threads) l) :
    ∃ i, Enabled c.program s (.worker i) := by
  obtain ⟨u, reach', proj⟩ := exists_before created reach
  have tracks := proj.thread .main
  rw [asleep] at tracks
  obtain ⟨l', asleep', -⟩ := tracks.asleep_embed (by intro a b same; simpa using same)
  -- in the barrier by itself somebody is on the way to wake main
  obtain ⟨i, pc, at_pc, busy⟩ := main_asleep_sync positive reach' asleep'
  refine ⟨i, ?_⟩
  have view := proj.loc (.worker i)
  rw [at_pc] at view
  -- such a worker is in its first `barrier_sync`, and there it sleeps only at the gate
  by_contra blocked
  rcases worker_blocked created reach blocked with ⟨l, unborn⟩ | ⟨-, ran, loc⟩ | asleep | asleep |
    ⟨a, l, asleep, inside⟩
  · exact born i l unborn
  · rw [loc] at view
    cases ran <;> simp at view
  · simp [State.loc, asleep] at view
    exact busy view
  · simp [State.loc, asleep] at view
  · rcases inside with ⟨f, rfl⟩ | rfl <;> simp [State.loc, asleep] at view

/-- Main asleep at the second barrier is waiting for a worker that can move, or
that sleeps in the function under test. -/
theorem enabled_of_main_after (created : c.Creates k) (all : k = c.n) (positive : 0 < c.threads)
    (reach : c.machine.Reachable s) (born : ∀ i l, s.thread (.worker i) ≠ .unborn l)
    {l : LocktestLoc F c.n} (asleep : s.thread .main = .asleep (.after .threads) l) :
    ∃ i, Enabled c.program s (.worker i) ∨ ∃ a l, s.thread (.worker i) = .asleep (.user a) l := by
  obtain ⟨u, reach', proj⟩ := exists_after created reach
  have tracks := proj.thread .main
  rw [asleep] at tracks
  obtain ⟨l', asleep', -⟩ := tracks.asleep_embed (by intro a b same; simpa using same)
  obtain ⟨i, pc, at_pc, busy⟩ := main_asleep_sync positive reach' asleep'
  refine ⟨i, ?_⟩
  have view := proj.loc (.worker i)
  rw [at_pc] at view
  by_contra neither
  push Not at neither
  obtain ⟨blocked, awake⟩ := neither
  rcases worker_blocked created reach blocked with ⟨l, unborn⟩ | ⟨-, ran, loc⟩ | sleeping |
    sleeping | ⟨a, l, sleeping, -⟩
  · exact born i l unborn
  · -- it cannot have returned without coming to this barrier
    rw [loc] at view
    cases ran with
    | true => simp at view
    | false => exact absurd (fewer_of_skipped created positive reach loc) (by omega)
  · -- it cannot sleep at the first barrier, whose gate main has opened
    have at_wait : s.loc .main = .main (.waitAfter .read) := by
      rcases locktest_asleep reach asleep with ⟨-, ⟨elsewhere, -⟩ | ⟨-, rfl⟩⟩ | ⟨j, other, -⟩
      · simp at elsewhere
      · simp [State.loc, asleep]
      · simp at other
    exact before_asleep created positive reach sleeping at_wait rfl
  · simp [State.loc, sleeping] at view
    exact busy view
  · exact awake a l sleeping

/-- A worker that main waits for in a join is done or can move, or sleeps in the
function under test. -/
theorem finished_or_enabled (created : c.Creates k) (positive : 0 < c.threads)
    (reach : c.machine.Reachable s) {i : Fin c.n} {pc : MainPc c.n}
    (at_pc : s.loc .main = .main pc) (opened : c.mainBefore k pc = .done)
    (last : k = c.n → c.mainAfter pc = .done) (born : ∀ l, s.thread (.worker i) ≠ .unborn l) :
    s.finished c.program (.worker i) = true ∨ Enabled c.program s (.worker i) ∨
      ∃ a l, s.thread (.worker i) = .asleep (.user a) l := by
  by_cases blocked : Enabled c.program s (.worker i)
  · exact .inr (.inl blocked)
  rcases worker_blocked created reach blocked with ⟨l, unborn⟩ | ⟨finished, -⟩ | sleeping |
    sleeping | ⟨a, l, sleeping, -⟩
  · exact absurd unborn (born l)
  · exact .inl finished
  · exact absurd opened (before_asleep created positive reach sleeping at_pc)
  · have here : s.loc (.worker i) = .worker (.after .test) := by simp [State.loc, sleeping]
    have all := all_created_of_ran created positive reach here rfl
    exact absurd (last all) (after_asleep created positive reach sleeping at_pc)
  · exact .inr (.inr ⟨a, l, sleeping⟩)

/-- **The harness adds no deadlock.** As long as `locktest` has not returned, some
thread can move, or a worker sleeps on a word of the function under test. -/
theorem locktest_progress (created : c.Creates k) (positive : 0 < c.threads)
    (reach : c.machine.Reachable s) (running : ∀ result, s.loc .main ≠ .main (.ret result)) :
    (∃ t, Enabled c.program s t) ∨ ∃ i a l, s.thread (.worker i) = .asleep (.user a) l := by
  obtain ⟨w, run⟩ := id reach
  obtain ⟨pc, at_pc, ok, inv⟩ := runInv created run
  have born : c.createdBy k pc = c.n → ∀ i l, s.thread (.worker i) ≠ .unborn l := by
    intro all i l unborn
    have late := (inv.born i).mp ⟨l, unborn⟩
    omega
  cases hm : s.thread .main with
  | unborn l => exact absurd hm (not_unborn (by simp [start]) reach l)
  | asleep a l =>
    rcases locktest_asleep reach hm with ⟨-, ⟨rfl, rfl⟩ | ⟨rfl, rfl⟩⟩ | ⟨i, other, -⟩
    · obtain rfl : pc = .waitBefore .read := by simpa [State.loc, hm] using Eq.symm at_pc
      obtain ⟨i, enabled⟩ := enabled_of_main_before created positive reach (born ok) hm
      exact .inl ⟨_, enabled⟩
    · obtain rfl : pc = .waitAfter .read := by simpa [State.loc, hm] using Eq.symm at_pc
      obtain ⟨i, enabled | sleeping⟩ :=
        enabled_of_main_after created ok positive reach (born ok) hm
      · exact .inl ⟨_, enabled⟩
      · exact .inr ⟨i, sleeping⟩
    · simp at other
  | ready l =>
    obtain rfl : l = .main pc := by simpa [State.loc, hm] using at_pc
    cases pc with
    | create i =>
      refine .inl ⟨.main, ?_⟩
      rcases create_cases created i ok with ⟨more, less, op⟩ | ⟨-, -, op⟩ | ⟨-, -, op⟩
      · exact enabled_of_create hm (by rw [program, op]) ((inv.born ⟨i, more⟩).mpr le_rfl)
      · exact enabled_of_instr hm (by rw [program, op])
      · exact enabled_of_instr hm (by rw [program, op])
    | abortJoin i =>
      rcases abortJoin_cases (c := c) i with ⟨-, op⟩ | ⟨j, less, pred, op⟩
      · exact .inl ⟨.main, enabled_of_instr hm (by rw [program, op])⟩
      · have fewer : k < c.n := ok.2
        -- only threads that were created are joined
        have present : ∀ l, s.thread (.worker ⟨j, less⟩) ≠ .unborn l := by
          intro l unborn
          have late : k ≤ j.val := (inv.born ⟨j, less⟩).mp ⟨l, unborn⟩
          have bound : i.val ≤ k := ok.1
          omega
        rcases finished_or_enabled created positive reach at_pc rfl (by omega) present with
          finished | enabled | sleeping
        · exact .inl ⟨.main, enabled_of_join hm (by rw [program, op]) finished⟩
        · exact .inl ⟨_, enabled⟩
        · exact .inr ⟨_, sleeping⟩
    | join i =>
      rcases join_cases (c := c) i with ⟨more, op⟩ | ⟨-, op⟩
      · rcases finished_or_enabled created positive reach at_pc rfl (fun _ => rfl)
          (born ok ⟨i, more⟩) with finished | enabled | sleeping
        · exact .inl ⟨.main, enabled_of_join hm (by rw [program, op]) finished⟩
        · exact .inl ⟨_, enabled⟩
        · exact .inr ⟨_, sleeping⟩
      · exact .inl ⟨.main, enabled_of_instr hm (by rw [program, op])⟩
    | ret result => exact absurd at_pc (running result)
    | abort i pc | waitBefore pc | timesBefore | unblockBefore pc | waitAfter pc | timesAfter
    | unblockAfter pc => exact .inl ⟨.main, enabled_of_instr hm (by rw [program, main])⟩

end Machine

end Locktest
