import Futextest.PiFutex.Ownership
import Futextest.RequeuePi.Waiters

/-!
# The ownership of f2

Each of the four thread functions shows by its control points whether it owns `f2`: a
waiter once its wait has returned 0 or its lock has returned, until it unlocks; the
waker with `args->lock` around its requeues; the third party from its lock to its
unlock. The functions are disciplined in this sense for all options, also where a
timeout or a failing requeue takes them another way.

## Main definitions

* `UnitTest.has` — the control points at which a thread owns `f2`

## Main results

* `f2_discipline` — the thread functions keep to them
* `f2_ownership` — who unlocks `f2` owns it, who locks it does not, and in the end
  nobody does
-/

namespace RequeuePi

open PiFutex UnitTest

namespace UnitTest

variable (u : UnitTest)

/-- The control points at which a thread owns `f2`. A waiter has it as soon as its wait
returns 0; after an error it has to lock it first. -/
def has : Party → Loc → Prop
  | .waiter _, .waiter (.store result) | .waiter _, .waiter (.countWoken result) =>
      0 ≤ result.ret
  | .waiter _, .waiter .unlock => True
  | .waker, .broadcast (.load _ _) | .waker, .broadcast (.requeue _ _ _)
  | .waker, .broadcast (.store _ _ _) | .waker, .broadcast (.test _ _ _)
  | .waker, .broadcast (.setError _) | .waker, .broadcast (.wake _ _) => u.lock = true
  | .waker, .broadcast (.unlock _ _) => True
  | .waker, .signal (.load _ _) | .waker, .signal (.requeue _ _ _)
  | .waker, .signal (.store _ _ _) | .waker, .signal (.negate _ _ _) => u.lock = true
  | .waker, .signal (.unlock _ _ _) => True
  | .blocker, .blocker (.storeLock result) => result.ret = 0
  | .blocker, .blocker .load | .blocker, .blocker (.wait _) | .blocker, .blocker (.storeWait _)
  | .blocker, .blocker (.unlock _) => True
  | _, _ => False

/-- The waker goes to its lock only if it is to lock. -/
def proper : Party → Loc → Prop
  | .waker, .broadcast .lock | .waker, .signal (.lock _ _) => u.lock = true
  | _, _ => True

end UnitTest

variable {u : UnitTest} {s : RunState}

/-! ## The wakers -/

theorem requeuedAll_has (taskCount ret : ℤ) (i : ℕ) :
    u.has .waker (.broadcast (requeuedAll taskCount i ret)) ↔ u.lock = true := by
  unfold requeuedAll
  split
  · exact Iff.rfl
  · split <;> exact Iff.rfl

theorem broadcastResult_has_not (taskCount ret : ℤ) :
    ¬ u.has .waker (.broadcast (broadcastResult taskCount ret)) := by
  unfold broadcastResult
  split <;> exact id

theorem requeuedOne_has_not (taskCount ret : ℤ) (i : ℕ) :
    ¬ u.has .waker (.signal (requeuedOne taskCount i ret)) := by
  unfold requeuedOne
  split
  · exact id
  · split <;> exact id

theorem release_has (taskCount ret : ℤ) (i : ℕ) :
    u.has .waker (.signal (u.release taskCount i ret)) ↔ u.lock = true := by
  unfold release
  split
  · rename_i lock
    exact ⟨fun _ => lock, fun _ => trivial⟩
  · rename_i unlocked
    exact ⟨fun h => absurd h (requeuedOne_has_not taskCount ret i), fun h => absurd h unlocked⟩

theorem broadcastWakerfn_respects (pc : BroadcastPc) (proper : u.proper .waker (.broadcast pc)) :
    (u.broadcastWakerfn pc).Respects .f2 (u.has .waker) (u.has .waker (.broadcast pc)) := by
  cases pc with
  | poll =>
    intro blocked
    dsimp only
    split
    · exact Iff.rfl
    · split
      · exact Iff.rfl
      · rename_i unlocked
        -- without a lock it goes on as it is
        exact ⟨fun h => absurd h unlocked, False.elim⟩
  | lock => exact ⟨fun _ => ⟨id, proper⟩, fun differs => absurd rfl differs⟩
  | load taskCount i => exact fun _ => Iff.rfl
  | requeue taskCount i old => exact fun _ => Iff.rfl
  | store taskCount i result => exact requeuedAll_has taskCount result.ret i
  | test taskCount i ret =>
    intro woken
    dsimp only
    split <;> exact Iff.rfl
  | setError taskCount => exact Iff.rfl
  | wake taskCount ret =>
    -- with a lock it unlocks next, so it is to have `f2` there
    simp only [broadcastWakerfn, Op.Respects]
    split
    · rename_i lock
      exact ⟨fun _ => lock, fun _ => trivial⟩
    · rename_i unlocked
      exact ⟨fun h => absurd h (broadcastResult_has_not taskCount ret), fun h => absurd h unlocked⟩
  | unlock taskCount ret =>
    exact ⟨fun _ => ⟨trivial, fun _ => broadcastResult_has_not taskCount ret⟩,
      fun differs => absurd rfl differs⟩
  | total taskCount => exact Iff.rfl
  | exit ret => exact id

theorem signalWakerfn_respects (pc : SignalPc) (proper : u.proper .waker (.signal pc)) :
    (u.signalWakerfn pc).Respects .f2 (u.has .waker) (u.has .waker (.signal pc)) := by
  cases pc with
  | poll =>
    intro blocked
    dsimp only
    split <;> exact Iff.rfl
  | guard taskCount i ret =>
    simp only [signalWakerfn, Op.Respects]
    split <;> exact Iff.rfl
  | guardWoken taskCount i ret =>
    intro woken
    dsimp only
    split
    · split
      · exact Iff.rfl
      · rename_i unlocked
        -- without a lock it goes on as it is
        exact ⟨fun h => absurd h unlocked, False.elim⟩
    · exact Iff.rfl
  | lock taskCount i => exact ⟨fun _ => ⟨id, proper⟩, fun differs => absurd rfl differs⟩
  | load taskCount i => exact fun _ => Iff.rfl
  | requeue taskCount i old => exact fun _ => Iff.rfl
  | store taskCount i result =>
    simp only [signalWakerfn, Op.Respects]
    split
    · exact Iff.rfl
    · -- with a lock it unlocks after each requeue
      exact release_has taskCount result.ret i
  | negate taskCount i errno => exact release_has taskCount (-errno) i
  | unlock taskCount i ret =>
    exact ⟨fun _ => ⟨trivial, fun _ => requeuedOne_has_not taskCount ret i⟩,
      fun differs => absurd rfl differs⟩
  | setError taskCount | total taskCount => exact Iff.rfl
  | wake taskCount ret =>
    simp only [signalWakerfn, Op.Respects]
    split <;> exact Iff.rfl
  | exit ret => exact id

/-! ## Waiters, third party and main -/

theorem waiterfn_respects (i : Fin threadMax) (pc : WaiterPc) :
    (u.waiterfn i pc).Respects .f2 (u.has (.waiter i)) (u.has (.waiter i) (.waiter pc)) := by
  cases pc with
  | load => exact fun _ => Iff.rfl
  | count old | amend ret => exact Iff.rfl
  | store result => exact Iff.rfl
  | wait old =>
    -- whatever the error is, the waiter has `f2` only after a result of 0
    have refused : ¬ (0 : ℤ) ≤ -1 := by decide
    exact ⟨fun _ => ⟨id, Int.le_refl 0, fun _ => refused⟩, fun differs => absurd rfl differs⟩
  | countWoken result =>
    simp only [waiterfn, Op.Respects, afterWait]
    -- after an error the waiter goes to the lock, otherwise to the unlock
    split
    · rename_i negative
      exact ⟨False.elim, fun h => absurd negative (Int.not_lt.mpr h)⟩
    · rename_i nonneg
      exact ⟨fun _ => Int.not_lt.mp nonneg, fun _ => trivial⟩
  | lock => exact ⟨fun _ => ⟨id, trivial⟩, fun differs => absurd rfl differs⟩
  | unlock => exact ⟨fun _ => ⟨trivial, fun _ => id⟩, fun differs => absurd rfl differs⟩
  | exit => exact id

theorem blockerResult_has_not (ret ret2 : ℤ) :
    ¬ u.has .blocker (.blocker (blockerResult ret ret2)) := by
  unfold blockerResult
  split <;> exact id

theorem thirdPartyBlocker_respects (pc : BlockerPc) :
    (thirdPartyBlocker pc).Respects .f2 (u.has .blocker) (u.has .blocker (.blocker pc)) := by
  cases pc with
  | lock => exact ⟨fun _ => ⟨id, rfl⟩, fun differs => absurd rfl differs⟩
  | storeLock result =>
    simp only [thirdPartyBlocker, Op.Respects]
    split
    · rename_i failed
      exact ⟨fun h => absurd h (blockerResult_has_not result.ret 0), fun h => absurd h failed⟩
    · rename_i succeeded
      exact ⟨fun _ => not_not.mp succeeded, fun _ => trivial⟩
  | load => exact fun _ => Iff.rfl
  | wait expected => exact fun _ => Iff.rfl
  | storeWait result | setError => exact Iff.rfl
  | unlock ret =>
    exact ⟨fun _ => ⟨trivial, fun _ => blockerResult_has_not ret _⟩,
      fun differs => absurd rfl differs⟩
  | exit => exact id

theorem unitTest_respects (pc : MainPc) :
    (u.unitTest pc).Respects .f2 (u.has .main) (u.has .main (.main pc)) := by
  cases pc with
  | clock | reset ret | join ret i waiterRet null | joinBlocker ret waiterRet
  | joinWaker ret waiterRet => exact Iff.rfl
  | createBlocker ret | createWaiter ret i | createWaker ret =>
    simp only [unitTest, UnitTest.create]
    split <;> exact Iff.rfl
  | readRet ret i waiterRet => exact fun _ => Iff.rfl
  | readWaiter waiterRet | readWaker | readBlocker =>
    intro value
    dsimp only
    split <;> exact Iff.rfl
  | exit ret => exact id

/-! ## The run -/

theorem proper_leads (t : Party) (l : Loc) (mem : Cell → ℤ) :
    (u.program t l).Leads mem (u.proper t) := by
  -- only the waker has control points that are not always proper
  by_cases waker : t = .waker
  · subst waker
    cases l with
    | broadcast pc =>
      cases pc with
      | poll =>
        simp only [UnitTest.program, broadcastWakerfn, Op.Leads]
        split
        · trivial
        · split
          · rename_i lock
            exact lock
          · trivial
      | store taskCount i result =>
        simp only [UnitTest.program, broadcastWakerfn, Op.Leads, requeuedAll]
        split
        · trivial
        · split <;> trivial
      | test taskCount i ret =>
        simp only [UnitTest.program, broadcastWakerfn, Op.Leads]
        split <;> trivial
      | wake taskCount ret =>
        simp only [UnitTest.program, broadcastWakerfn, Op.Leads, broadcastResult]
        split
        · trivial
        · split <;> trivial
      | unlock taskCount ret =>
        intro _
        dsimp only [broadcastResult]
        split <;> trivial
      | lock | requeue taskCount i old => exact fun _ => trivial
      | load taskCount i | setError taskCount | total taskCount | exit ret => trivial
    | signal pc =>
      have requeued :
          ∀ taskCount i ret, u.proper .waker (.signal (requeuedOne taskCount i ret)) := by
        intro taskCount i ret
        unfold requeuedOne
        split
        · trivial
        · split <;> trivial
      have released : ∀ taskCount i ret, u.proper .waker (.signal (u.release taskCount i ret)) := by
        intro taskCount i ret
        unfold release
        split
        · trivial
        · exact requeued taskCount i ret
      cases pc with
      | poll | guard taskCount i ret | wake taskCount ret =>
        simp only [UnitTest.program, signalWakerfn, Op.Leads]
        split <;> trivial
      | guardWoken taskCount i ret =>
        simp only [UnitTest.program, signalWakerfn, Op.Leads]
        split
        · split
          · rename_i lock
            exact lock
          · trivial
        · trivial
      | store taskCount i result =>
        simp only [UnitTest.program, signalWakerfn, Op.Leads]
        split
        · trivial
        · exact released taskCount i result.ret
      | negate taskCount i errno => exact released taskCount i (-errno)
      | unlock taskCount i ret => exact fun _ => requeued taskCount i ret
      | lock taskCount i | requeue taskCount i old => exact fun _ => trivial
      | load taskCount i | setError taskCount | total taskCount | exit ret => trivial
    | _ => trivial
  · have all : ∀ l, u.proper t l := by
      intro l
      cases t with
      | waker => exact absurd rfl waker
      | _ => trivial
    cases u.program t l with
    | exit => trivial
    | wait | lockPi | unlockPi | waitRequeuePi | cmpRequeuePi => exact fun _ => all _
    | _ => exact all _

/-- The thread functions keep to the control points at which they own `f2`. -/
theorem f2_discipline (u : UnitTest) : Discipline .f2 u.has u.program u.proper where
  leads t l mem _ := proper_leads t l mem
  respects t l proper := by
    unfold UnitTest.program
    split
    · exact unitTest_respects _
    · exact thirdPartyBlocker_respects _
    · exact broadcastWakerfn_respects _ proper
    · exact signalWakerfn_respects _ proper
    · exact waiterfn_respects _ _
    · -- no thread is at a control point of another one's function
      rename_i main blocker broadcast signal waiter
      cases t with
      | main =>
        cases l with
        | main pc => exact absurd rfl (main pc rfl)
        | _ => exact id
      | blocker =>
        cases l with
        | blocker pc => exact absurd rfl (blocker pc rfl)
        | _ => exact id
      | waker =>
        cases l with
        | broadcast pc => exact absurd rfl (broadcast pc rfl)
        | signal pc => exact absurd rfl (signal pc rfl)
        | _ => exact id
      | waiter i =>
        cases l with
        | waiter pc => exact absurd rfl (waiter i pc rfl)
        | _ => exact id

theorem start_owned (u : UnitTest) : Owned .f2 u.has u.start := by
  constructor
  · intro t
    cases t with
    | main => simp [UnitTest.start, Status.Has, UnitTest.has]
    | _ => simp [UnitTest.start, Status.Has]
  · intro t
    cases t with
    | waker =>
      simp only [UnitTest.start, Status.Settled]
      split <;> exact id
    | blocker | waiter i => exact id
    | main => trivial

theorem start_proper (u : UnitTest) (t : Party) : (u.start.thread t).Holds (u.proper t) := by
  cases t with
  | waker =>
    simp only [UnitTest.start, Status.Holds, Status.loc]
    split <;> trivial
  | _ => trivial

/-- **Ownership of f2.** In every mode, with timeouts and failing requeues, and whatever
error ends a wait: a thread that is about to unlock `f2` owns it, one that is about to lock
it does not, and when every thread that was created has finished nobody owns it. -/
theorem f2_ownership (u : UnitTest) {s : RunState}
    (reach : (faultyMachine u.program u.start).Reachable s) :
    (∀ t l k, s.thread t = .ready l → u.program t l = .unlockPi .f2 k → s.owner .f2 = some t) ∧
    (∀ t l k, s.thread t = .ready l → u.program t l = .lockPi .f2 k → s.owner .f2 ≠ some t) ∧
    ((∀ t, s.finished u.program t = true ∨ ∃ l, s.thread t = .unborn l) → s.owner .f2 = none) := by
  have discipline := f2_discipline u
  have at_op := fun (t : Party) (l : Loc) (k : SysResult → Loc) (ready : s.thread t = .ready l) =>
    discipline.owner_at_op (start_owned u) (start_proper u) reach (k := k) ready
  exact ⟨fun t l k ready => (at_op t l k ready).1, fun t l k ready => (at_op t l k ready).2,
    discipline.free_of_finished (start_owned u) (start_proper u) reach⟩

/-- A deadline before the zero of the clock: every wait fails with `EINVAL`, the waker has
nobody to requeue, and every waiter takes `f2` after its error and gives it up again. -/
def allRefused : List (Choice Party) :=
  Choice.ops .main 13 ++ waitersDo 5 ++ Choice.ops .waker 8 ++
  (List.finRange threadMax).flatMap (fun i => Choice.ops (.waiter i) 3) ++ Choice.ops .main 22

theorem f2_ownership_allRefused : ∃ s,
    (faultyMachine (unitTestWith true true false (-1)).program
      (unitTestWith true true false (-1)).start).Reachable s ∧
    s.loc .main = .main (.exit retError) ∧
    (∀ i, s.loc (.waiter i) = .waiter .exit) ∧ s.owner .f2 = none := by
  obtain ⟨w, s, run, at_exit, finished, unborn, waiters⟩ := exists_run
    (unitTestWith true true false (-1)).program (unitTestWith true true false (-1)).start allRefused
    (fun _ s => s.loc .main = .main (.exit retError) ∧
      (∀ t, t ≠ .blocker → s.finished (unitTestWith true true false (-1)).program t = true) ∧
      s.thread .blocker = .unborn (.blocker .lock) ∧ ∀ i, s.loc (.waiter i) = .waiter .exit)
    (by decide +kernel)
  have reach := (Run.faulty run).reachable
  refine ⟨s, reach, at_exit, waiters, ?_⟩
  apply (f2_ownership (unitTestWith true true false (-1)) reach).2.2
  intro t
  by_cases blocker : t = .blocker
  · exact .inr ⟨_, blocker ▸ unborn⟩
  · exact .inl (finished t blocker)

end RequeuePi
