import Futextest.RequeuePi.Stranding

/-!
# Runs without a timeout

Nobody writes `f1`, so that a waiter always finds there the value it expects. Without
a timeout it then leaves `f1` only by a requeue: the waiters past `f1` are the moved
ones. The condition on the exit test of `broadcast_wakerfn` becomes exact.

## Main results

* `left_eq_moved` — without a timeout the waiters past `f1` are the moved ones
* `broadcast_test_strands` — a test that misses the condition ends the loop, with a
  waiter left
-/

namespace RequeuePi

open PiFutex UnitTest

variable {u : UnitTest} {w : List RunEvent} {s s' : RunState} {e : RunEvent}

/-! ## The word f1 -/

/-- No operation writes `f1`. -/
theorem cells_f1 (t : Party) (l : Loc) (mem : Cell → ℤ) :
    (u.program t l).cells mem .f1 = mem .f1 := by
  refine program_cases u (P := fun _ _ op => op.cells mem .f1 = mem .f1) ?_ ?_ ?_ ?_ ?_
    (fun _ _ => rfl) t l
  · intro pc
    cases pc with
    | createBlocker | createWaiter | createWaker =>
      rw [unitTest]
      rcases create_cases u _ _ with op | op <;> rw [op] <;> rfl
    | _ => rfl
  · intro pc
    cases pc <;> rfl
  · intro pc
    cases pc <;> rfl
  · intro pc
    cases pc <;> rfl
  · intro i pc
    cases pc <;> rfl

theorem f1_eq_zero (reach : (machine u).Reachable s) : s.mem .f1 = 0 := by
  have inv : (machine u).Invariant fun s => s.mem .f1 = 0 := by
    refine ⟨?_, ?_⟩
    · rintro s rfl
      rfl
    · intro s e s' _ held step
      have cells := Step.cells step
      by_cases ready : s.thread e.thread = .ready e.pc
      · rw [cells.1 ready, cells_f1, held]
      · rw [cells.2 ready, held]
  exact inv.of_reachable reach

/-- The value that a waiter is about to expect in `f1` is 0. -/
def Loc.ExpectsZero : Loc → Prop
  | .waiter (.count old) | .waiter (.wait old) => old = 0
  | _ => True

theorem expectsZero (reach : (machine u).Reachable s) (i : Fin threadMax) :
    (s.thread (.waiter i)).Holds Loc.ExpectsZero := by
  have inv : (machine u).Invariant fun s => (s.thread (.waiter i)).Holds Loc.ExpectsZero := by
    refine ⟨?_, ?_⟩
    · rintro s rfl
      trivial
    · intro s e s' reach held step
      refine Step.holds step ?_ held
      intro _ ready
      rw [ready] at held
      cases hpc : e.pc with
      | waiter pc =>
        rw [hpc] at held
        cases pc with
        | load => exact f1_eq_zero reach
        | count old => exact held
        | wait old | lock | unlock => exact fun _ => trivial
        | countWoken result =>
          simp only [UnitTest.program, waiterfn, Op.Leads, afterWait]
          split <;> trivial
        | store result | amend ret | exit => trivial
      | _ => trivial
  exact inv.of_reachable reach

/-! ## Leaving f1 -/

/-- Without a timeout no waiter gives up waiting. -/
theorem untimed_queued (untimed : u.timed = false) (reach : (machine u).Reachable s)
    {t : Party} {q : Queue Cell PiWord} {l : Loc} {x : Option Loc}
    (queued : s.thread t = .queued q l x) : x = none := by
  cases queuedBy (fun t => (start_awake t).2) reach queued with
  | lock pc p k op => rfl
  | wait pc a v p timeout k op | requeued pc a v p timeout k op =>
    obtain ⟨-, -, same, -⟩ := program_waitRequeuePi op
    rw [same, u.timeout_eq_never_iff.mpr untimed]
    rfl

/-- Without a timeout only a requeue takes a waiter past `f1`. -/
theorem left_or_taken_of_step (untimed : u.timed = false) (reach : (machine u).Reachable s)
    (step : Step u.program s e s') {i : Fin threadMax} (after : i ∈ left s') :
    i ∈ left s ∨ .waiter i ∈ e.access.taken := by
  rw [mem_left] at after ⊢
  by_cases self : .waiter i = e.thread
  · left
    rcases step.active with ⟨ready, leaves⟩ | ⟨a, asleep, awake⟩ | ⟨q, x, queued, awake⟩
    · rw [← self] at ready leaves
      have expects := expectsZero reach i
      rw [ready] at expects ⊢
      cases hpc : e.pc with
      | waiter pc =>
        rw [hpc] at leaves expects
        generalize s'.thread (.waiter i) = y at leaves after
        cases pc with
        | load | count old =>
          cases leaves
          exact absurd after Bool.false_ne_true
        | wait old =>
          have same : s.mem .f1 = old := (f1_eq_zero reach).trans expects.symm
          cases leaves with
          | rejected _ _ _ _ _ invalid =>
            rw [u.timeout_eq_never_iff.mpr untimed] at invalid
            cases invalid
          | queued => exact absurd after Bool.false_ne_true
          | mismatched _ _ _ _ _ _ differs => exact absurd same differs
        | _ => rfl
      | _ =>
        rw [hpc] at leaves
        cases leaves
    · rw [self, awake] at after
      rw [self, asleep]
      exact after
    · have never := untimed_queued untimed reach queued
      simp at never
  · have passive := step.passive self
    generalize s'.thread (.waiter i) = y at passive after
    generalize s.thread (.waiter i) = x at passive
    cases passive with
    | same | woken | created | granted => exact .inl after
    | moved a p l x here | acquired a p l x here => exact .inr here

/-- Without a timeout the waiters past `f1` are the moved ones. -/
theorem left_eq_moved (untimed : u.timed = false) (run : (machine u).Run w s) :
    left s = moved w := by
  refine Finset.Subset.antisymm ?_ (moved_subset_left run)
  induction run with
  | start first =>
    rw [show _ = u.start from first]
    intro i past
    exact absurd (mem_left.mp past) Bool.false_ne_true
  | next before step ih =>
    intro i after
    rw [mem_moved_append]
    rcases left_or_taken_of_step untimed before.reachable (machine_step.mp step) after with
      earlier | taken
    · exact .inl (ih earlier)
    · exact .inr taken

/-! ## The exit test -/

/-- Only the waker runs `broadcast_wakerfn`. -/
theorem waker_of_broadcast (step : Step u.program s e s') (ready : s.thread e.thread = .ready e.pc)
    {pc : BroadcastPc} (here : e.pc = .broadcast pc) : e.thread = .waker := by
  rcases step.active with ⟨-, leaves⟩ | ⟨a, asleep, -⟩ | ⟨q, x, queued, -⟩
  · rw [here] at leaves
    cases self : e.thread with
    | waker => rfl
    | main | blocker | waiter =>
      rw [self] at leaves
      cases leaves
  · simp [asleep] at ready
  · simp [queued] at ready

/-- Without a timeout a test of `broadcast_wakerfn` that misses the condition ends the
loop, without an error and with a waiter left. -/
theorem broadcast_test_strands (untimed : u.timed = false) (run : (machine u).Run w s)
    (step : Step u.program s e s') (ready : s.thread e.thread = .ready e.pc)
    {taskCount ret : ℤ} {i : ℕ} (at_test : e.pc = .broadcast (.test taskCount i ret))
    (late : ¬ TestsApart s e) :
    s'.loc .waker = .broadcast (.wake taskCount ret) ∧ 0 ≤ ret ∧ left s' ≠ Finset.univ := by
  have waker := waker_of_broadcast step ready at_test
  obtain ⟨-, some_left, many⟩ : e.pc.testing ∧ left s ≠ Finset.univ ∧
      threadMax ≤ (left s).card + (woke s).card := by
    simpa [TestsApart] using late
  -- the test reads what the condition speaks of
  obtain ⟨p, at_phase, counts⟩ := State.loc_of_holds (waker_phase run)
  have here : s.loc .waker = .broadcast (.test taskCount i ret) := by
    rw [waker] at ready
    simp [State.loc, ready, at_test]
  rw [here] at at_phase
  have at_loop : taskCount = (moved w).card ∧ 0 ≤ ret := by
    cases p with
    | looping n => exact ⟨at_phase.1.trans (congrArg Nat.cast counts), at_phase.2⟩
    | waking count | gone count => cases count <;> exact at_phase.elim
    | givingUp => exact at_phase.elim
  have ends : ¬ taskCount < threadMax - s.mem .waitersWoken := by
    rw [at_loop.1, waitersWoken_eq run.reachable, ← left_eq_moved untimed run]
    omega
  refine ⟨?_, at_loop.2, ?_⟩
  · rcases step.active with ⟨-, leaves⟩ | ⟨a, asleep, -⟩ | ⟨q, x, queued, -⟩
    · rw [waker, at_test] at leaves
      unfold State.loc
      generalize s'.thread .waker = y at leaves ⊢
      cases leaves
      exact if_neg ends
    · simp [asleep] at ready
    · simp [queued] at ready
  · intro all
    have none_taken : e.access.taken = ∅ := by
      refine step.taken_eq_empty ?_
      intro _ a v p nrWake nrRequeue k op
      rw [waker, at_test] at op
      cases op
    apply some_left
    rw [Finset.eq_univ_iff_forall] at all ⊢
    intro j
    have before := left_or_taken_of_step untimed run.reachable step (all j)
    rw [none_taken] at before
    exact before.resolve_right (Finset.notMem_empty _)

end RequeuePi
