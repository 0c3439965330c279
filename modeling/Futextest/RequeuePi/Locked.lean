import Futextest.RequeuePi.Passes

/-!
# A broadcast waker that locks f2

Without a timeout a waiter only wakes when it is given `f2`. A waker that has locked `f2`
before its first requeue keeps it until its loop has ended, so that nobody has woken yet
when `broadcast_wakerfn` tests how many have. Its test then compares the waiters it has
moved with all there are, and it leaves nobody behind.

## Main results

* `woke_eq_empty` — no waiter wakes while such a waker is in its loop
* `all_left_of_locked_done` — nobody is left on `f1` after the loop
-/

namespace RequeuePi

open PiFutex UnitTest

variable {u : UnitTest} {w : List RunEvent} {s s' : RunState} {e : RunEvent}

/-! ## In the loop -/

/-- Whether `broadcast_wakerfn` is in its loop or on its way there. -/
def BroadcastPc.inLoop : BroadcastPc → Bool
  | .poll | .lock | .load _ _ | .requeue _ _ _ | .store _ _ _ | .test _ _ _ => true
  | _ => false

/-- Whether a broadcast waker at this control point is in its loop. -/
def Loc.inLoop : Loc → Bool
  | .broadcast pc => pc.inLoop
  | _ => false

theorem broadcastResult_inLoop (taskCount ret : ℤ) :
    (broadcastResult taskCount ret).inLoop = false := by
  unfold broadcastResult
  split <;> rfl

/-- Nothing leads back into the loop. -/
theorem leads_out_of_loop {l : Loc} (out : l.inLoop = false) (mem : Cell → ℤ) :
    (u.program .waker l).Leads mem fun l' => l'.inLoop = false := by
  cases l with
  | broadcast pc =>
    cases pc with
    | setError taskCount | total taskCount => exact rfl
    | wake taskCount ret =>
      simp only [UnitTest.program, broadcastWakerfn, Op.Leads]
      split
      · rfl
      · exact broadcastResult_inLoop taskCount ret
    | unlock taskCount ret => exact fun _ => broadcastResult_inLoop taskCount ret
    | exit ret => trivial
    | _ => cases out
  | signal pc =>
    refine (signal_leads_signal pc mem).mono ?_
    rintro l' ⟨pc', rfl⟩
    rfl
  | _ => trivial

/-- A waker that is in its loop was so before each step. -/
theorem inLoop_before (untimed : u.timed = false) (reach : (machine u).Reachable s)
    (step : Step u.program s e s') (after : (s'.loc .waker).inLoop = true) :
    (s.loc .waker).inLoop = true := by
  by_contra out
  have out : (s.loc .waker).inLoop = false := by simpa using out
  have held : (s.thread .waker).Holds fun l => l.inLoop = false := by
    unfold State.loc at out
    cases there : s.thread .waker with
    | queued q l x =>
      obtain rfl := untimed_queued untimed reach there
      rw [there] at out
      exact ⟨out, by simp⟩
    | _ =>
      rw [there] at out
      exact out
  have still := step.holds
    (fun _ ready => leads_out_of_loop (by simpa [State.loc, ready] using out) s.mem) held
  have out' := State.loc_of_holds still
  rw [out'] at after
  cases after

/-! ## Nobody wakes -/

/-- A waker that is to lock owns `f2` while it is in its loop, or it has not come to its
first requeue. -/
theorem owner_or_unmoved (lock : u.lock = true) (run : (machine u).Run w s)
    (looping : (s.loc .waker).inLoop = true) : s.owner .f2 = some .waker ∨ moved w = ∅ := by
  have reach := run.reachable
  obtain ⟨p, at_phase, counts⟩ := State.loc_of_holds (waker_phase run)
  -- before its first requeue the count of the loop is 0
  have unmoved : ∀ l, l = s.loc .waker → l = .broadcast .poll ∨ l = .broadcast .lock ∨
      (∃ i, l = .broadcast (.load 0 i)) → moved w = ∅ := by
    rintro l rfl first
    have none : (moved w).card = 0 := by
      rcases first with here | here | ⟨i, here⟩ <;> rw [here] at at_phase <;> cases p with
      | looping n =>
        have count : n = 0 := by simpa [Loc.In, BroadcastPc.In, eq_comm] using at_phase
        exact count ▸ counts.symm
      | givingUp => exact at_phase.elim
      | waking count | gone count => cases count <;> exact at_phase.elim
    exact Finset.card_eq_zero.mp none
  have owned := (f2_discipline u).owned (start_owned u) (start_proper u) reach
  cases there : s.thread .waker with
  | unborn l =>
    right
    have first := unborn_at_start reach there
    have here : s.loc .waker = l := by simp [State.loc, there]
    refine unmoved l here.symm (.inl ?_)
    rw [here] at looping
    cases broadcast : u.broadcast with
    | true => simpa [UnitTest.start, broadcast] using first.symm
    | false =>
      simp only [UnitTest.start, broadcast] at first
      cases first
      cases looping
  | ready l =>
    have here : s.loc .waker = l := by simp [State.loc, there]
    have has : u.has .waker l → s.owner .f2 = some .waker := by
      intro has
      refine (owned.owner .waker).mpr ?_
      rw [there]
      exact has
    rw [here] at looping
    cases l with
    | broadcast pc =>
      cases pc with
      | poll => exact .inr (unmoved _ here.symm (.inl rfl))
      | lock => exact .inr (unmoved _ here.symm (.inr (.inl rfl)))
      | load taskCount i | requeue taskCount i old | store taskCount i result
      | test taskCount i ret => exact .inl (has lock)
      | _ => cases looping
    | _ => cases looping
  | asleep a l => cases (sleeper_waited reach there).1
  | queued q l x =>
    right
    have here : s.loc .waker = l := by simp [State.loc, there]
    rw [here] at looping
    cases queuedBy (fun t => (start_awake t).2) reach there with
    | lock pc p k op =>
      refine unmoved _ here.symm (.inr (.inr ⟨0, ?_⟩))
      cases pc with
      | broadcast pc =>
        cases pc <;> cases op
        rfl
      | signal pc =>
        cases pc <;> cases op
        cases looping
      | _ => cases op
    | wait pc a v p timeout k op | requeued pc a v p timeout k op =>
      obtain ⟨⟨i, waiter⟩, -⟩ := program_waitRequeuePi op
      cases waiter

/-- A waiter that is about to count itself has been given `f2`, without a timeout. -/
theorem owner_of_count (untimed : u.timed = false) (reach : (machine u).Reachable s)
    {i : Fin threadMax} {r : SysResult}
    (ready : s.thread (.waiter i) = .ready (.waiter (.countWoken r))) :
    s.owner .f2 = some (.waiter i) := by
  have owned := (f2_discipline u).owned (start_owned u) (start_proper u) reach
  refine (owned.owner (.waiter i)).mpr ?_
  have keeps := waiterRet_keeps reach i
  rw [ready] at keeps ⊢
  obtain ⟨expected, -⟩ := keeps
  have never := u.timeout_eq_never_iff.mpr untimed
  cases expected with
  | given => exact le_rfl
  | timedOut timeout | rejected timeout =>
    rw [never] at timeout
    cases timeout

/-- Nobody wakes in the loop: without a timeout, no waiter has counted itself as woken
while a broadcast waker that is to lock is in its loop. -/
theorem woke_eq_empty (lock : u.lock = true) (untimed : u.timed = false)
    (run : (machine u).Run w s) (looping : (s.loc .waker).inLoop = true) : woke s = ∅ := by
  induction run with
  | start first =>
    rw [show _ = u.start from first]
    ext i
    simp [UnitTest.start, State.loc, Loc.woken, WaiterPc.woken]
  | @next w s s' e before move ih =>
    have reach := before.reachable
    have step := machine_step.mp move
    have earlier := inLoop_before untimed reach step looping
    have none := ih earlier
    have no_count : s.thread e.thread = .ready e.pc →
        ∀ r, e.pc ≠ .waiter (.countWoken r) := by
      intro ready r here
      obtain ⟨i, self⟩ : ∃ i, e.thread = .waiter i := by
        rcases step.active with ⟨-, leaves⟩ | ⟨a, asleep, -⟩ | ⟨q, x, queued, -⟩
        · rw [here] at leaves
          cases self : e.thread with
          | waiter i => exact ⟨i, rfl⟩
          | _ =>
            rw [self] at leaves
            cases leaves
        · simp [asleep] at ready
        · simp [queued] at ready
      rw [self, here] at ready
      -- it has been moved, and owns `f2`
      have owner := owner_of_count untimed reach ready
      have past : i ∈ left s := by
        rw [mem_left, ready]
        rfl
      rcases owner_or_unmoved lock before earlier with waker | unmoved
      · rw [owner] at waker
        cases waker
      · rw [left_eq_moved untimed before, unmoved] at past
        exact Finset.notMem_empty i past
    ext i
    rw [mem_woke, woken_of_step reach step no_count, ← mem_woke, none]

/-- Such a waker leaves its loop only with all waiters past `f1`. -/
theorem all_left_of_locked_done (lock : u.lock = true) (untimed : u.timed = false)
    (run : (machine u).Run w s) (done : (s.loc .waker).Done) : left s = Finset.univ := by
  have always : ∀ w s (e : RunEvent), (machine u).Run w s → True →
      s.thread .waker = .ready e.pc → e.pc.Exits s.mem → left s = Finset.univ := by
    intro w s e run _ ready exits
    have here : s.loc .waker = e.pc := by simp [State.loc, ready]
    cases hpc : e.pc with
    | signal pc =>
      rw [hpc] at here exits
      exact all_left_of_signal_exits run here exits
    | broadcast pc =>
      rw [hpc] at here exits
      refine all_left_of_broadcast_exits run ?_ here hpc exits
      have looping : (s.loc .waker).inLoop = true := by
        rw [here]
        cases pc <;> first | rfl | exact exits.elim
      exact testsApart_of_woke_eq_empty (woke_eq_empty lock untimed run looping)
    | main pc | blocker pc | waiter pc =>
      rw [hpc] at exits
      exact exits.elim
  exact all_left_of_done (all_left_or_not_done always (run.restrict fun _ _ _ _ _ => trivial)) done

end RequeuePi
