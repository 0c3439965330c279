import Futextest.Locktest.Progress

/-!
# The measured window

What `locktest` measures is the time between two readings of the clock. Every
step of the function under test lies between them, whatever that function does:
the first barrier holds the workers back until after the first reading, and the
second reading waits for all of them at the second barrier.

## Main definitions

* `InFunction` — the steps of the function under test, its call included
* `called` — the control points of a worker after its call

## Main results

* `calls` — a worker has called the function once if it is past the call
* `locktest_window` — where everybody is at either reading, and in between
-/

open FutexMachine

/-- A worker that has called the function under test. -/
def WorkerPc.called {F : Type} : WorkerPc F → Bool
  | .body _ => true
  | .after _ => true
  | .ret ran => ran
  | _ => false

namespace Locktest

variable {A F : Type} {c : Locktest A F} {k : ℕ}

/-- The call of the function under test, and every step in it. -/
def InFunction (e : c.RunEvent) : Prop :=
  e.pc = .worker .call ∨ ∃ pc, e.pc = .worker (.body pc)

/-- The event is the call of the function under test by worker `i`. -/
def IsCall (i : Fin c.n) (e : c.RunEvent) : Bool :=
  match e.thread, e.pc with
  | .worker j, .worker .call => j = i
  | _, _ => false

section Machine

variable [DecidableEq A] {s s' : c.RunState} {e : c.RunEvent}

/-- A step of a worker, as far as its call goes. -/
theorem worker_calls (created : c.Creates k) (reach : c.machine.Reachable s)
    (step : Step c.program s e s') {i : Fin c.n} (mover : e.thread = .worker i) :
    ∃ pc pc', e.pc = .worker pc ∧ s.loc (.worker i) = .worker pc ∧
      s'.loc (.worker i) = .worker pc' ∧ (pc'.called = true ↔ pc.called = true ∨ pc = .call) ∧
      (pc = .call → pc' = .body (c.entry c.loops)) := by
  obtain ⟨pc, here, at_pc, moves⟩ := worker_next created reach step mover
  refine ⟨pc, ?_⟩
  rcases moves with ⟨j, op, next⟩ | ⟨⟨a, asleep⟩, stays⟩
  · cases pc with
    | before pc =>
      obtain rfl := (Op.instr.inj op).symm
      rw [Instr.effect_map] at next
      rcases hx : ((barrierSync pc).effect (s.mem ∘ .before)).2 with pc' | r <;> rw [hx] at next
      · exact ⟨_, here, at_pc, next, by simp [WorkerPc.called], by simp⟩
      · exact ⟨_, here, at_pc, next, by simp [WorkerPc.called], by simp⟩
    | test result =>
      obtain rfl := (Op.instr.inj op).symm
      by_cases positive : 0 < result
      · exact ⟨.call, here, at_pc, by simp [next, positive], by simp [WorkerPc.called], by simp⟩
      · refine ⟨.ret false, here, at_pc, ?_, by simp [WorkerPc.called], by simp⟩
        simp [next, Int32.not_lt.mp positive]
    | call =>
      obtain rfl := (Op.instr.inj op).symm
      exact ⟨_, here, at_pc, next, by simp [WorkerPc.called], by simp⟩
    | body pc =>
      obtain rfl := (Op.instr.inj op).symm
      rw [Instr.effect_map] at next
      rcases hx : ((c.locktestFunction pc).effect (s.mem ∘ .user)).2 with pc' | r <;>
        rw [hx] at next
      · exact ⟨_, here, at_pc, next, by simp [WorkerPc.called], by simp⟩
      · exact ⟨_, here, at_pc, next, by simp [WorkerPc.called], by simp⟩
    | after pc =>
      obtain rfl := (Op.instr.inj op).symm
      rw [Instr.effect_map] at next
      rcases hx : ((barrierSync pc).effect (s.mem ∘ .after)).2 with pc' | r <;> rw [hx] at next
      · exact ⟨_, here, at_pc, next, by simp [WorkerPc.called], by simp⟩
      · exact ⟨_, here, at_pc, next, by simp [WorkerPc.called], by simp⟩
    | ret ran => cases op
  · -- a spurious return, and nobody sleeps before the call
    have past : pc ≠ .call := by
      rintro rfl
      rcases locktest_asleep reach asleep with ⟨other, -⟩ |
        ⟨j, -, ⟨-, other⟩ | ⟨-, other⟩ | ⟨b, -, ⟨f, other⟩ | other⟩⟩ <;> simp at other
    exact ⟨pc, here, at_pc, stays, by simp [past], fun call => absurd call past⟩

/-- A worker past its call has made it once, and one before it has not. -/
theorem calls (created : c.Creates k) {w : List c.RunEvent} (run : c.machine.Run w s)
    (i : Fin c.n) : ∃ pc, s.loc (.worker i) = .worker pc ∧
      w.countP (IsCall i) = if pc.called then 1 else 0 := by
  refine run.induction (P := fun w s => ∃ pc, s.loc (.worker i) = .worker pc ∧
    w.countP (IsCall i) = if pc.called then 1 else 0) ?_ ?_
  · rintro s rfl
    exact ⟨.before .dec, rfl, rfl⟩
  · rintro w s e s' before ⟨pc, at_pc, count⟩ step
    by_cases mover : e.thread = .worker i
    · obtain ⟨pc₀, pc', here, at_pc₀, at_pc', called, -⟩ :=
        worker_calls created before.reachable step mover
      obtain rfl : pc = pc₀ := by simpa [at_pc] using at_pc₀
      refine ⟨pc', at_pc', ?_⟩
      rw [List.countP_append, count]
      by_cases now : pc = .call
      · subst now
        have isCall : IsCall i e = true := by simp [IsCall, mover, here]
        rw [called.mpr (.inr rfl)]
        simp [WorkerPc.called, isCall]
      · have same : pc'.called = pc.called := by
          rw [Bool.eq_iff_iff, called]
          simp [now]
        have other : IsCall i e = false := by
          cases pc <;> simp [IsCall, mover, here] at now ⊢
        simp [same, other]
    · have same : s'.loc (.worker i) = s.loc (.worker i) := Step.loc_other step (Ne.symm mover)
      refine ⟨pc, same ▸ at_pc, ?_⟩
      have other : IsCall i e = false := by
        unfold IsCall
        split
        · rename_i j by_j _
          simp only [decide_eq_false_iff_not]
          rintro rfl
          exact mover by_j
        · rfl
      rw [List.countP_append, count]
      simp [other]

/-- While a worker is at its call or in the function, `before` has been taken and
`after` has not. -/
theorem function_in_window (created : c.Creates c.n) (positive : 0 < c.threads)
    (reach : c.machine.Reachable s) {i : Fin c.n} {l : WorkerPc F} {pc : MainPc c.n}
    (at_l : s.loc (.worker i) = .worker l) (inside : l = .call ∨ ∃ f, l = .body f)
    (at_pc : s.loc .main = .main pc) : pastBefore pc = true ∧ pastAfter pc = false := by
  obtain ⟨u, reachU, before⟩ := exists_before created reach
  obtain ⟨v, reachV, after⟩ := exists_after created reach
  constructor
  · -- the worker has passed the first barrier, so main has opened it
    have worker := before.loc (.worker i)
    have main := before.loc .main
    rw [at_l] at worker
    rw [at_pc] at main
    obtain ⟨result, -, returned⟩ : ∃ result, 0 < result ∧ u.loc (.worker i) = .returned result := by
      rcases inside with rfl | ⟨f, rfl⟩ <;> exact worker
    have opened := ((barrierInv positive reachU).returned i result returned).1
    obtain ⟨ok, shown⟩ := main
    rw [shown] at opened
    cases pc with
    | create j => cases hw : c.waits c.n <;> simp [hw, BarrierLoc.opened] at opened
    | abort j pc => exact absurd ok.2 (lt_irrefl _)
    | abortJoin j => exact absurd ok.2 (lt_irrefl _)
    | waitBefore pc => simp [BarrierLoc.opened] at opened
    | timesBefore => simp [BarrierLoc.opened] at opened
    | ret result =>
      have pass : result = retPass := by simpa using ok
      simp [pastBefore, pass]
    | unblockBefore pc | waitAfter pc | timesAfter | unblockAfter pc | join j => rfl
  · -- the worker has not come to the second barrier, so main is not past it
    have worker := after.loc (.worker i)
    have main := after.loc .main
    rw [at_l] at worker
    rw [at_pc] at main
    -- seen from there it is before its decrement
    have missing : (v.loc (.worker i)).arrived = false := by
      rcases inside with rfl | ⟨f, rfl⟩ <;> rw [show v.loc (.worker i) = .sync .dec from worker] <;>
        rfl
    have waiting : (v.loc .main).waiting = true := by
      by_contra past
      have arrived := (barrierInv positive reachV).awaited rfl (by simpa using past) i
      simp [missing] at arrived
    rw [main.2] at waiting
    cases pc with
    | unblockAfter pc => simp [BarrierLoc.waiting] at waiting
    | join j => simp [BarrierLoc.waiting] at waiting
    | ret result =>
      by_cases pass : result = retPass
      · simp [pass, BarrierLoc.waiting] at waiting
      · simp [pastAfter, pass]
    | create j | abort j pc | abortJoin j | waitBefore pc | timesBefore | unblockBefore pc
    | waitAfter pc | timesAfter => rfl

/-- At the first reading every worker is at the first barrier, its decrement done. -/
theorem at_timesBefore (created : c.Creates c.n) (positive : 0 < c.threads)
    (reach : c.machine.Reachable s) (reading : s.loc .main = .main .timesBefore) (i : Fin c.n) :
    ∃ pc, pc ≠ .dec ∧ s.loc (.worker i) = .worker (.before pc) := by
  obtain ⟨u, reachU, proj⟩ := exists_before created reach
  have inv := barrierInv positive reachU
  have main := proj.loc .main
  rw [reading] at main
  have arrived := inv.awaited (by simp [waits]) (by rw [main.2]; rfl) i
  have shut : (u.loc .main).opened = false := by rw [main.2]; rfl
  have inside : ∀ r, u.loc (.worker i) ≠ .returned r := by
    intro r returned
    have opened := (inv.returned i r returned).1
    simp [shut] at opened
  obtain ⟨pc, at_pc⟩ := exists_worker created reach i
  have view := proj.loc (.worker i)
  rw [at_pc] at view
  cases pc with
  | before pc =>
    have shown : u.loc (.worker i) = .sync pc := view
    refine ⟨pc, ?_, at_pc⟩
    rintro rfl
    rw [shown] at arrived
    simp [BarrierLoc.arrived] at arrived
  | test result => exact absurd view (inside result)
  | call | body pc | after pc =>
    obtain ⟨r, -, returned⟩ := view
    exact absurd returned (inside r)
  | ret ran =>
    cases ran <;> obtain ⟨r, -, returned⟩ := view <;> exact absurd returned (inside r)

/-- At the second reading every worker is at the second barrier. -/
theorem at_timesAfter (created : c.Creates c.n) (positive : 0 < c.threads)
    (reach : c.machine.Reachable s) (reading : s.loc .main = .main .timesAfter) (i : Fin c.n) :
    ∃ pc, s.loc (.worker i) = .worker (.after pc) := by
  obtain ⟨u, reachU, proj⟩ := exists_after created reach
  have inv := barrierInv positive reachU
  have main := proj.loc .main
  rw [reading] at main
  have arrived := inv.awaited rfl (by rw [main.2]; rfl) i
  have shut : (u.loc .main).opened = false := by rw [main.2]; rfl
  have come : u.loc (.worker i) ≠ .sync .dec := by
    intro missing
    simp [missing, BarrierLoc.arrived] at arrived
  obtain ⟨pc, at_pc⟩ := exists_worker created reach i
  have view := proj.loc (.worker i)
  rw [at_pc] at view
  cases pc with
  | after pc => exact ⟨pc, at_pc⟩
  | before pc | test result | call | body pc => exact absurd view come
  | ret ran =>
    cases ran with
    | false => exact absurd view come
    | true =>
      obtain ⟨r, returned⟩ := view
      have opened := (inv.returned i r returned).1
      simp [shut] at opened

/-- A step in the function under test is taken by a worker after the first reading
and before the second. -/
theorem step_in_window (created : c.Creates c.n) (positive : 0 < c.threads)
    {w : List c.RunEvent} (run : c.machine.Run w s) (step : Step c.program s e s')
    (inside : InFunction e) :
    (∃ e' ∈ w, e'.pc = .main .timesBefore) ∧ ∀ e' ∈ w, e'.pc ≠ .main .timesAfter := by
  obtain ⟨pc, at_pc, -, inv⟩ := runInv created run
  obtain ⟨i, l, at_l, inside⟩ : ∃ i l, s.loc (.worker i) = .worker l ∧
      (l = .call ∨ ∃ f, l = .body f) := by
    have here := step.pc_eq
    cases mover : e.thread with
    | main =>
      rw [mover, at_pc] at here
      rcases inside with at_call | ⟨f, at_body⟩
      · simp [here] at at_call
      · simp [here] at at_body
    | worker i =>
      rw [mover] at here
      rcases inside with at_call | ⟨f, at_body⟩
      · exact ⟨i, .call, by rw [← here, at_call], .inl rfl⟩
      · exact ⟨i, .body f, by rw [← here, at_body], .inr ⟨f, rfl⟩⟩
  obtain ⟨before, after⟩ := function_in_window created positive run.reachable at_l inside at_pc
  refine ⟨inv.before.mp before, fun e' taken reading => ?_⟩
  have past := inv.after.mpr ⟨e', taken, reading⟩
  simp [after] at past

/-- No step of the function is taken before the first reading. -/
theorem before_of_function (created : c.Creates c.n) (positive : 0 < c.threads)
    {w : List c.RunEvent} (run : c.machine.Run w s) (inside : ∃ e ∈ w, InFunction e) :
    ∃ e ∈ w, e.pc = .main .timesBefore := by
  revert inside
  refine run.induction (P := fun w _ => (∃ e ∈ w, InFunction e) →
    ∃ e ∈ w, e.pc = .main .timesBefore) ?_ ?_
  · rintro s - ⟨e, none, -⟩
    simp at none
  · rintro w s e s' before ih step ⟨e', taken, inside⟩
    have earlier : ∃ e ∈ w, e.pc = .main .timesBefore := by
      rcases List.mem_append.mp taken with sooner | last
      · exact ih ⟨e', sooner, inside⟩
      · obtain rfl : e' = e := by simpa using last
        exact (step_in_window created positive before step inside).1
    obtain ⟨e₀, taken₀, reading⟩ := earlier
    exact ⟨e₀, List.mem_append_left _ taken₀, reading⟩

/-- **The measured window contains exactly the work.** When all threads are
created, whatever the function under test: when main takes `before`, every worker
has decremented the counter of the first barrier and no step of the function has
been taken; when it takes `after`, every worker has called the function exactly
once and come back from it; a call passes `shared.loops`; and every step of the
function is taken after the one reading and before the other. -/
theorem locktest_window (c : Locktest A F) (positive : 0 < c.threads)
    (succeed : ∀ i, i < c.n → c.pthreadCreate i = 0) {w : List c.RunEvent} {s : c.RunState}
    (run : c.machine.Run w s) :
    (s.loc .main = .main .timesBefore →
      (∀ i, ∃ pc, pc ≠ .dec ∧ s.loc (.worker i) = .worker (.before pc)) ∧
        ∀ e ∈ w, ¬ InFunction e) ∧
    (s.loc .main = .main .timesAfter →
      ∀ i, w.countP (IsCall i) = 1 ∧ ∃ pc, s.loc (.worker i) = .worker (.after pc)) ∧
    ∀ e s', c.machine.step s e s' → InFunction e →
      (∃ e' ∈ w, e'.pc = .main .timesBefore) ∧ (∀ e' ∈ w, e'.pc ≠ .main .timesAfter) ∧
        (e.pc = .worker .call → s'.loc e.thread = .worker (.body (c.entry c.loops))) := by
  have created : c.Creates c.n := ⟨le_rfl, succeed, fun less => absurd less (lt_irrefl _)⟩
  refine ⟨fun reading => ⟨?_, ?_⟩, fun reading i => ?_, fun e s' step inside => ?_⟩
  · exact at_timesBefore created positive run.reachable reading
  · intro e taken inside
    obtain ⟨pc, at_pc, -, inv⟩ := runInv created run
    obtain rfl : pc = .timesBefore := by simpa [reading] using at_pc.symm
    have past := inv.before.mpr (before_of_function created positive run ⟨e, taken, inside⟩)
    simp [pastBefore] at past
  · obtain ⟨pc, at_after⟩ := at_timesAfter created positive run.reachable reading i
    obtain ⟨pc', at_pc', count⟩ := calls created run i
    obtain rfl : pc' = .after pc := by simpa [at_after] using at_pc'.symm
    exact ⟨count, pc, at_after⟩
  · obtain ⟨before, after⟩ := step_in_window created positive run step inside
    refine ⟨before, after, fun call => ?_⟩
    cases mover : e.thread with
    | main =>
      obtain ⟨pc, pc', here, -⟩ := main_step created run.reachable step mover
      simp [here] at call
    | worker i =>
      obtain ⟨pc, pc', here, -, at_pc', -, passes⟩ := worker_calls created run.reachable step mover
      obtain rfl : pc = .call := by simpa [here] using call
      rw [at_pc', passes rfl]

end Machine

theorem one_lt_workers_two : 1 < workers 2 := by decide

/-- The worker that takes the lock in the runs below. -/
abbrev taker : Team 2 := .worker ⟨0, workers_two_pos⟩

/-- The one that sleeps on it. -/
abbrev sleeper : Team 2 := .worker ⟨1, one_lt_workers_two⟩

/-- Two workers that make one pass each, up to the second reading. While the first one has
the lock the second goes to sleep on it, to be woken by the unlock; at each barrier all three
threads sleep. -/
def toSecondReading : List (Choice (Team 2)) :=
  let m : Choice (Team 2) := .run .main ∅
  let t : Choice (Team 2) := .run taker ∅
  let w : Choice (Team 2) := .run sleeper ∅
  -- the first barrier
  [m, m, m, m, m, t, t, t, t, w, w, .run sleeper {.main}, w, w, m, m, m,
    .run .main {taker, sleeper}, m, m] ++
  -- one locks, the other marks the word and sleeps
  List.replicate 8 t ++ List.replicate 10 w ++
  -- the unlock wakes it, and then it has the lock to itself
  [t, t, t, .run taker {sleeper}, t, t, t, t, t] ++
  List.replicate 10 w ++ [.run sleeper {.main}, w, w, m]

theorem locktest_window_toSecondReading :
    ∃ w s, (futexWaitLocktest 2 1 fun _ => 0).machine.Run w s ∧
      s.loc .main = .main .timesAfter ∧ ∀ i, w.countP (IsCall i) = 1 := by
  obtain ⟨w, s, run, reading⟩ := exists_run (futexWaitLocktest 2 1 fun _ => 0).program
    (futexWaitLocktest 2 1 fun _ => 0).start toSecondReading
    (fun _ s => s.loc .main = .main .timesAfter) (by decide)
  have window := locktest_window (futexWaitLocktest 2 1 fun _ => 0) (by decide)
    (fun _ _ => rfl) run
  exact ⟨w, s, run, reading, fun i => (window.2.1 reading i).1⟩

end Locktest
