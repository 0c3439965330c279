import Mathlib.Data.Fintype.Card
import Futextest.RequeuePi

/-!
# The waiters

A waiter is on its way to `f1`, queued there, or past it: moved to `f2` by a
requeue, or returned from its wait. It never goes back, and only a requeue or the end
of its own wait takes it away from `f1`.

## Main definitions

* `Left` — the waiter is past `f1`
* `Woke` — the waiter has counted itself in `waiters_woken`

## Main results

* `left_of_step` — a waiter that is past `f1` stays so
* `taken_waiter` — a requeue takes waiters that are not past `f1`, and then they are
* `waitersWoken_eq` — `waiters_woken` is the number of waiters that woke
-/

namespace RequeuePi

open PiFutex UnitTest

variable {u : UnitTest} {s s' : RunState} {e : RunEvent}

/-! ## Who executes which operation -/

/-- Each thread executes its own function, and has finished at a control point of another
one. -/
theorem program_cases (u : UnitTest) {P : Party → Loc → RunOp → Prop}
    (main : ∀ pc, P .main (.main pc) (u.unitTest pc))
    (blocker : ∀ pc, P .blocker (.blocker pc) (thirdPartyBlocker pc))
    (broadcast : ∀ pc, P .waker (.broadcast pc) (u.broadcastWakerfn pc))
    (signal : ∀ pc, P .waker (.signal pc) (u.signalWakerfn pc))
    (waiter : ∀ i pc, P (.waiter i) (.waiter pc) (u.waiterfn i pc))
    (elsewhere : ∀ t l, P t l .exit) (t : Party) (l : Loc) : P t l (u.program t l) := by
  unfold UnitTest.program
  split
  · exact main _
  · exact blocker _
  · exact broadcast _
  · exact signal _
  · exact waiter _ _
  · exact elsewhere _ _

/-- A call of `create_rt_thread` creates the thread, or main gives up. -/
theorem create_cases (u : UnitTest) (t : Party) (m : MainPc) :
    u.create t m = .create t (.main m) ∨ u.create t m = .tau (.main (.exit retError)) := by
  unfold UnitTest.create
  split
  · exact .inl rfl
  · exact .inr rfl

/-- Main makes no futex call. -/
theorem unitTest_isFutex (m : MainPc) : (u.unitTest m).isFutex = false := by
  cases m with
  | createBlocker ret | createWaiter ret i | createWaker ret =>
    rw [unitTest]
    rcases create_cases u _ _ with op | op <;> rw [op] <;> rfl
  | _ => rfl

theorem program_waitRequeuePi {t : Party} {l : Loc} {a : Cell} {v : ℤ} {p : PiWord}
    {timeout : Timeout} {k : SysResult → Loc}
    (op : u.program t l = .waitRequeuePi a v p timeout k) :
    (∃ i, t = .waiter i) ∧ a = .f1 ∧ timeout = u.timeout ∧
      k = fun result => .waiter (.store result) := by
  revert op
  refine program_cases u (P := fun t _ op => op = .waitRequeuePi a v p timeout k →
    (∃ i, t = .waiter i) ∧ a = .f1 ∧ timeout = u.timeout ∧
      k = fun result => .waiter (.store result)) ?_ ?_ ?_ ?_ ?_ ?_ t l
  · intro pc op
    have none := unitTest_isFutex (u := u) pc
    rw [op] at none
    cases none
  · intro pc op
    cases pc <;> cases op
  · intro pc op
    cases pc <;> cases op
  · intro pc op
    cases pc <;> cases op
  · intro i pc op
    cases pc <;> cases op
    exact ⟨⟨i, rfl⟩, rfl, rfl, rfl⟩
  · rintro t l ⟨⟩

theorem program_cmpRequeuePi {t : Party} {l : Loc} {a : Cell} {v : ℤ} {p : PiWord}
    {nrWake nrRequeue : ℕ} {k : SysResult → Loc}
    (op : u.program t l = .cmpRequeuePi a v p nrWake nrRequeue k) :
    t = .waker ∧ ((∃ taskCount i old, l = .broadcast (.requeue taskCount i old)) ∨
      ∃ taskCount i old, l = .signal (.requeue taskCount i old)) := by
  revert op
  refine program_cases u (P := fun t l op => op = .cmpRequeuePi a v p nrWake nrRequeue k →
    t = .waker ∧ ((∃ taskCount i old, l = .broadcast (.requeue taskCount i old)) ∨
      ∃ taskCount i old, l = .signal (.requeue taskCount i old))) ?_ ?_ ?_ ?_ ?_ ?_ t l
  · intro pc op
    have none := unitTest_isFutex (u := u) pc
    rw [op] at none
    cases none
  · intro pc op
    cases pc <;> cases op
  · intro pc op
    cases pc <;> cases op
    exact ⟨rfl, .inl ⟨_, _, _, rfl⟩⟩
  · intro pc op
    cases pc <;> cases op
    exact ⟨rfl, .inr ⟨_, _, _, rfl⟩⟩
  · intro i pc op
    cases pc <;> cases op
  · rintro t l ⟨⟩

/-- Only main creates threads, each kind at a place of its own. -/
theorem program_create {t v : Party} {l k : Loc} (op : u.program t l = .create v k) :
    t = .main ∧ ((v = .blocker ∧ ∃ ret, l = .main (.createBlocker ret)) ∨
      (∃ i ret, v = .waiter i ∧ l = .main (.createWaiter ret i)) ∨
      (v = .waker ∧ ∃ ret, l = .main (.createWaker ret) ∧ k = .main (.readRet ret 0 0))) := by
  revert op
  refine program_cases u (P := fun t l op => op = .create v k →
    t = .main ∧ ((v = .blocker ∧ ∃ ret, l = .main (.createBlocker ret)) ∨
      (∃ i ret, v = .waiter i ∧ l = .main (.createWaiter ret i)) ∨
      (v = .waker ∧ ∃ ret, l = .main (.createWaker ret) ∧ k = .main (.readRet ret 0 0))))
    ?_ ?_ ?_ ?_ ?_ ?_ t l
  · intro pc op
    refine ⟨rfl, ?_⟩
    cases pc with
    | createBlocker ret =>
      rcases create_cases u .blocker (.reset ret) with creates | fails
      · cases creates.symm.trans op
        exact .inl ⟨rfl, ret, rfl⟩
      · cases fails.symm.trans op
    | createWaiter ret i =>
      rcases create_cases u (.waiter i) _ with creates | fails
      · cases creates.symm.trans op
        exact .inr (.inl ⟨i, ret, rfl, rfl⟩)
      · cases fails.symm.trans op
    | createWaker ret =>
      rcases create_cases u .waker (.readRet ret 0 0) with creates | fails
      · cases creates.symm.trans op
        exact .inr (.inr ⟨rfl, ret, rfl, rfl⟩)
      · cases fails.symm.trans op
    | _ => cases op
  · intro pc op
    cases pc <;> cases op
  · intro pc op
    cases pc <;> cases op
  · intro pc op
    cases pc <;> cases op
  · intro i pc op
    cases pc <;> cases op
  · rintro t l ⟨⟩

/-! ## Where a waiter is -/

/-- Whether `waiterfn` is past its wait. -/
def WaiterPc.returned : WaiterPc → Bool
  | .load | .count _ | .wait _ => false
  | _ => true

/-- Whether `waiterfn` has counted itself in `waiters_woken`. -/
def WaiterPc.woken : WaiterPc → Bool
  | .amend _ | .lock | .unlock | .exit => true
  | _ => false

@[simp] theorem afterWait_returned (result : SysResult) : (u.afterWait result).returned := by
  unfold afterWait
  split <;> rfl

@[simp] theorem afterWait_woken (result : SysResult) : (u.afterWait result).woken := by
  unfold afterWait
  split <;> rfl

/-- Whether a waiter at this control point is past its wait. -/
def Loc.returned : Loc → Bool
  | .waiter pc => pc.returned
  | _ => false

/-- Whether a waiter at this control point has counted itself in `waiters_woken`. -/
def Loc.woken : Loc → Bool
  | .waiter pc => pc.woken
  | _ => false

/-- Whether a thread is past `f1`. One that is queued there is not, although it
continues past its wait when it is woken. -/
def past : Status Cell PiWord Loc → Bool
  | .queued (.source _ _) _ _ => false
  | status => status.loc.returned

/-- The waiters that are past `f1`: moved to `f2`, or returned from the wait. -/
def left (s : RunState) : Finset (Fin threadMax) :=
  Finset.univ.filter fun i => past (s.thread (.waiter i))

/-- The waiters that have counted themselves in `waiters_woken`. -/
def woke (s : RunState) : Finset (Fin threadMax) :=
  Finset.univ.filter fun i => (s.loc (.waiter i)).woken

@[simp] theorem mem_left {i : Fin threadMax} : i ∈ left s ↔ past (s.thread (.waiter i)) := by
  simp [left]

@[simp] theorem mem_woke {i : Fin threadMax} : i ∈ woke s ↔ (s.loc (.waiter i)).woken := by
  simp [woke]

/-- Nobody sleeps or is queued when the run starts. -/
theorem start_awake (t : Party) : (∀ a l, u.start.thread t ≠ .asleep a l) ∧
    ∀ q l x, u.start.thread t ≠ .queued q l x := by
  cases t <;> simp [UnitTest.start]

/-- A waiter is queued by its wait, at `f1` or moved to `f2`, or by its call of
`futex_lock_pi`. -/
theorem queued_waiter (reach : (machine u).Reachable s) {i : Fin threadMax}
    {q : Queue Cell PiWord} {l : Loc} {x : Option Loc}
    (queued : s.thread (.waiter i) = .queued q l x) :
    (l = .waiter (.store (.ok 0)) ∧ ∀ l' ∈ x, l' = .waiter (.store (.error etimedout))) ∨
      l = .waiter .unlock ∧ x = none ∧ ∃ p, q = .pi p := by
  have source : ∀ {pc a v p timeout k},
      u.program (.waiter i) pc = .waitRequeuePi a v p timeout k →
      k (.ok 0) = .waiter (.store (.ok 0)) ∧
      ∀ l' ∈ if timeout = .valid then some (k (.error etimedout)) else none,
        l' = .waiter (.store (.error etimedout)) := by
    intro pc a v p timeout k op
    obtain ⟨-, -, -, rfl⟩ := program_waitRequeuePi op
    refine ⟨rfl, ?_⟩
    intro l' expires
    exact (Option.some.inj (Option.ite_none_right_eq_some.mp expires).2).symm
  cases queuedBy (fun t => (start_awake t).2) reach queued with
  | lock pc p k op =>
    right
    cases pc with
    | waiter pc =>
      cases pc <;> simp [UnitTest.program, waiterfn] at op
      obtain ⟨-, rfl⟩ := op
      exact ⟨rfl, rfl, p, rfl⟩
    | _ => simp [UnitTest.program] at op
  | wait pc a v p timeout k op | requeued pc a v p timeout k op => exact .inl (source op)

/-- Only waiters are queued at a word that is not a PI futex, and that is `f1`. -/
theorem queued_source (reach : (machine u).Reachable s) {t : Party} {a : Cell} {p : PiWord}
    {l : Loc} {x : Option Loc} (queued : s.thread t = .queued (.source a p) l x) :
    (∃ i, t = .waiter i) ∧ a = .f1 := by
  cases queuedBy (fun t => (start_awake t).2) reach queued with
  | wait pc a v p timeout k op =>
    obtain ⟨waiter, at_f1, -⟩ := program_waitRequeuePi op
    exact ⟨waiter, at_f1⟩

/-! ## Past f1 -/

/-- A waiter that has returned from its wait goes on to its exit. -/
theorem leaves_returned {i : Fin threadMax} {l : Loc} (returned : l.returned)
    {y : Status Cell PiWord Loc} (leaves : (u.program (.waiter i) l).Leaves s.mem y) : past y := by
  cases l with
  | waiter pc =>
    cases pc <;> simp [Loc.returned, WaiterPc.returned] at returned <;>
      simp only [UnitTest.program, waiterfn] at leaves <;> cases leaves <;>
      first | rfl | exact afterWait_returned _
  | _ => simp [Loc.returned] at returned

/-- A waiter that is past `f1` stays so. -/
theorem left_of_step (reach : (machine u).Reachable s) (step : Step u.program s e s')
    {i : Fin threadMax} (before : i ∈ left s) : i ∈ left s' := by
  rw [mem_left] at before ⊢
  by_cases self : .waiter i = e.thread
  · rcases step.active with ⟨ready, leaves⟩ | ⟨a, asleep, awake⟩ | ⟨q, x, queued, awake⟩
    · rw [self, ready] at before
      rw [← self] at leaves
      exact leaves_returned before leaves
    · rw [self, asleep] at before
      rw [self, awake]
      exact before
    · rw [← self] at queued awake
      rcases queued_waiter reach queued with ⟨-, expired⟩ | ⟨-, none_given, -⟩
      · rw [awake, expired x rfl]
        rfl
      · simp at none_given
  · have passive := step.passive self
    generalize s'.thread (.waiter i) = y at passive ⊢
    generalize s.thread (.waiter i) = x at passive before
    cases passive with
    | same | woken | created | granted => exact before
    | moved | acquired => simp [past] at before

/-- A step takes waiters only, which were not past `f1` and then are. -/
theorem taken_waiter (reach : (machine u).Reachable s) (step : Step u.program s e s') {t : Party}
    (taken : t ∈ e.access.taken) : ∃ i, t = .waiter i ∧ i ∉ left s ∧ i ∈ left s' := by
  obtain ⟨a, p, l, x, queued, moved⟩ := step.taken_moved taken
  obtain ⟨⟨i, rfl⟩, -⟩ := queued_source reach queued
  refine ⟨i, rfl, by simp [queued, past], ?_⟩
  rcases queued_waiter reach queued with ⟨rfl, -⟩ | ⟨-, -, p', pi⟩
  · rw [mem_left]
    rcases moved with moved | moved <;> rw [moved] <;> rfl
  · simp at pi

/-- A waiter that has counted itself is past `f1`. -/
theorem left_of_woke (reach : (machine u).Reachable s) {i : Fin threadMax} (up : i ∈ woke s) :
    i ∈ left s := by
  have woken : (s.thread (.waiter i)).loc.woken := mem_woke.mp up
  rw [mem_left]
  have returned : ∀ l : Loc, l.woken → l.returned := by
    intro l
    cases l with
    | waiter pc => cases pc <;> simp [Loc.woken, Loc.returned, WaiterPc.woken, WaiterPc.returned]
    | _ => simp [Loc.woken]
  cases h : s.thread (.waiter i) with
  | queued q l x =>
    rw [h] at woken
    rcases queued_waiter reach h with ⟨rfl, -⟩ | ⟨rfl, -, p, rfl⟩
    · simp [Loc.woken, WaiterPc.woken] at woken
    · rfl
  | _ =>
    rw [h] at woken
    exact returned _ woken

/-! ## The count of the woken -/

/-- Whether main has reset `waiters_woken`. -/
def Loc.counting : Loc → Bool
  | .main pc => match pc with
    | .clock | .createBlocker _ | .reset _ => false
    | _ => true
  | _ => false

theorem main_leads_counting {l : Loc} (counting : l.counting) (mem : Cell → ℤ) :
    (u.program .main l).Leads mem fun l => l.counting := by
  cases l with
  | main pc =>
    cases pc with
    | clock | createBlocker ret | reset ret => simp [Loc.counting] at counting
    | createWaiter ret i =>
      simp only [UnitTest.program, unitTest, UnitTest.create, nextWaiter]
      split <;> [(split <;> rfl); rfl]
    | createWaker ret =>
      simp only [UnitTest.program, unitTest, UnitTest.create]
      split <;> rfl
    | join ret i waiterRet null =>
      simp only [UnitTest.program, unitTest, nextWaiter, Op.Leads]
      split
      · rfl
      · split <;> rfl
    | readRet ret i waiterRet | joinBlocker ret waiterRet | exit ret => trivial
    | joinWaker ret waiterRet =>
      simp only [UnitTest.program, unitTest, out, Op.Leads]
      split <;> rfl
    | readWaiter waiterRet | readWaker | readBlocker =>
      simp only [UnitTest.program, unitTest, Op.Leads]
      split <;> rfl
  | _ => simp [Loc.counting] at counting

/-- No waiter exists before main has reset `waiters_woken`. -/
theorem unborn_before_reset (reach : (machine u).Reachable s)
    (early : ¬ (s.thread .main).Holds fun l => l.counting) (i : Fin threadMax) :
    s.thread (.waiter i) = .unborn (.waiter .load) := by
  have inv : (machine u).Invariant fun s => (¬ (s.thread .main).Holds fun l => l.counting) →
      ∀ i, s.thread (.waiter i) = .unborn (.waiter .load) := by
    refine ⟨?_, ?_⟩
    · rintro s rfl - i
      rfl
    · intro s e s' _ held step early' i
      have early : ¬ (s.thread .main).Holds fun l => l.counting := by
        intro counting
        refine early' (step.holds ?_ counting)
        intro _ ready
        rw [ready] at counting
        exact main_leads_counting counting s.mem
      have before := held early i
      by_cases self : .waiter i = e.thread
      · rw [self] at before
        rcases step.active with ⟨ready, -⟩ | ⟨a, asleep, -⟩ | ⟨q, x, queued, -⟩
        · simp [ready] at before
        · simp [asleep] at before
        · simp [queued] at before
      · have passive := step.passive self
        rw [before] at passive
        generalize s'.thread (.waiter i) = y at passive ⊢
        cases passive with
        | same _ _ => rfl
        | created l create _ =>
          -- main would be past its reset
          obtain ⟨ready, k, op⟩ := create
          obtain ⟨by_main, ⟨other, -⟩ | ⟨j, ret, -, at_create⟩ | ⟨other, -⟩⟩ := program_create op
          · cases other
          · rw [by_main, at_create] at ready
            exact absurd (by rw [ready]; rfl) early
          · cases other
  exact inv.of_reachable reach early i

/-- Only main's reset and the count of a waiter write `waiters_woken`. -/
theorem cells_waitersWoken {t : Party} {l : Loc} (no_reset : ∀ ret, l ≠ .main (.reset ret))
    (no_count : ∀ result, l ≠ .waiter (.countWoken result)) (mem : Cell → ℤ) :
    (u.program t l).cells mem .waitersWoken = mem .waitersWoken := by
  revert no_reset no_count
  refine program_cases u (P := fun _ l op => (∀ ret, l ≠ .main (.reset ret)) →
    (∀ result, l ≠ .waiter (.countWoken result)) →
      op.cells mem .waitersWoken = mem .waitersWoken) ?_ ?_ ?_ ?_ ?_ (fun _ _ _ _ => rfl) t l
  · intro pc no_reset _
    cases pc with
    | reset ret => exact absurd rfl (no_reset ret)
    | createBlocker | createWaiter | createWaker =>
      rw [unitTest]
      rcases create_cases u _ _ with op | op <;> rw [op] <;> rfl
    | _ => rfl
  · intro pc _ _
    cases pc <;> simp [thirdPartyBlocker]
  · intro pc _ _
    cases pc <;> simp [broadcastWakerfn]
  · intro pc _ _
    cases pc <;> simp [signalWakerfn]
  · intro i pc _ no_count
    cases pc with
    | countWoken result => exact absurd rfl (no_count result)
    | _ => simp [waiterfn]

/-- No other statement of `waiterfn` makes a waiter one that has counted itself. -/
theorem leaves_woken {i : Fin threadMax} {l : Loc}
    (no_count : ∀ result, l ≠ .waiter (.countWoken result)) {mem : Cell → ℤ}
    {y : Status Cell PiWord Loc} (leaves : (u.program (.waiter i) l).Leaves mem y) :
    y.loc.woken = l.woken := by
  cases l with
  | waiter pc =>
    cases pc with
    | countWoken result => exact absurd rfl (no_count result)
    | _ =>
      simp only [UnitTest.program, waiterfn] at leaves
      cases leaves <;> rfl
  | _ =>
    simp only [UnitTest.program] at leaves
    cases leaves

/-- Only the count of a waiter changes whether it has counted itself. -/
theorem woken_of_step (reach : (machine u).Reachable s) (step : Step u.program s e s')
    (no_count : s.thread e.thread = .ready e.pc → ∀ result, e.pc ≠ .waiter (.countWoken result))
    (i : Fin threadMax) : (s'.loc (.waiter i)).woken = (s.loc (.waiter i)).woken := by
  by_cases self : .waiter i = e.thread
  · unfold State.loc
    rw [self]
    rcases step.active with ⟨ready, leaves⟩ | ⟨a, asleep, awake⟩ | ⟨q, x, queued, awake⟩
    · rw [← self] at leaves
      rw [ready, ← self]
      exact leaves_woken (no_count ready) leaves
    · rw [asleep, awake]
      rfl
    · rw [queued, awake]
      rw [← self] at queued
      rcases queued_waiter reach queued with ⟨from_store, expired⟩ | ⟨-, none_given, -⟩
      · rw [from_store, expired x rfl]
        rfl
      · simp at none_given
  · rw [step.loc_other self]

/-- A waiter that counts itself is one more, and `waiters_woken` one higher. -/
theorem woke_of_count (step : Step u.program s e s') (ready : s.thread e.thread = .ready e.pc)
    {result : SysResult} (count : e.pc = .waiter (.countWoken result)) :
    (woke s').card = (woke s).card + 1 ∧ s'.mem .waitersWoken = s.mem .waitersWoken + 1 := by
  have mem := step.cells.1 ready
  rcases step.active with ⟨-, leaves⟩ | ⟨a, asleep, -⟩ | ⟨q, x, queued, -⟩
  · rw [count] at ready leaves mem
    cases self : e.thread with
    | waiter i =>
      rw [self] at ready leaves mem
      simp only [UnitTest.program, waiterfn] at leaves mem
      have before : s.loc (.waiter i) = .waiter (.countWoken result) := by simp [State.loc, ready]
      have after : s'.loc (.waiter i) = .waiter (u.afterWait result) := by
        unfold State.loc
        generalize s'.thread (.waiter i) = y at leaves ⊢
        cases leaves
        rfl
      have asleep : i ∉ woke s := by
        rw [mem_woke, before]
        simp [Loc.woken, WaiterPc.woken]
      have one_more : woke s' = insert i (woke s) := by
        ext j
        rw [Finset.mem_insert, mem_woke, mem_woke]
        by_cases hj : j = i
        · subst hj
          simp [after, Loc.woken]
        · have other : Party.waiter j ≠ e.thread := by simp [self, hj]
          simp [step.loc_other other, hj]
      refine ⟨?_, ?_⟩
      · rw [one_more, Finset.card_insert_of_notMem asleep]
      · simp [mem]
    | main | blocker | waker =>
      rw [self] at leaves
      simp only [UnitTest.program] at leaves
      cases leaves
  · simp [asleep] at ready
  · simp [queued] at ready

/-- When main resets `waiters_woken` there is no waiter that could have counted
itself. -/
theorem woke_of_reset (reach : (machine u).Reachable s) (step : Step u.program s e s')
    (ready : s.thread e.thread = .ready e.pc) {ret : ℤ} (reset : e.pc = .main (.reset ret)) :
    woke s = ∅ ∧ s'.mem .waitersWoken = 0 := by
  have mem := step.cells.1 ready
  rcases step.active with ⟨-, leaves⟩ | ⟨a, asleep, -⟩ | ⟨q, x, queued, -⟩
  · rw [reset] at ready leaves mem
    cases self : e.thread with
    | main =>
      rw [self] at ready mem
      have early : ¬ (s.thread .main).Holds fun l => l.counting := by
        rw [ready]
        simp [Status.Holds, Loc.counting]
      refine ⟨?_, by simp [mem, UnitTest.program, unitTest]⟩
      ext i
      rw [mem_woke]
      have unborn := unborn_before_reset reach early i
      simp [State.loc, unborn, Loc.woken, WaiterPc.woken]
    | waiter | blocker | waker =>
      rw [self] at leaves
      simp only [UnitTest.program] at leaves
      cases leaves
  · simp [asleep] at ready
  · simp [queued] at ready

/-- `waiters_woken` is the number of waiters that have counted themselves. -/
theorem waitersWoken_eq (reach : (machine u).Reachable s) :
    s.mem .waitersWoken = (woke s).card := by
  have inv : (machine u).Invariant fun s => s.mem .waitersWoken = (woke s).card := by
    refine ⟨?_, ?_⟩
    · rintro s rfl
      rfl
    · intro s e s' reach held step
      by_cases counts : s.thread e.thread = .ready e.pc ∧
          ∃ result, e.pc = .waiter (.countWoken result)
      · obtain ⟨ready, result, count⟩ := counts
        obtain ⟨card, mem⟩ := woke_of_count step ready count
        rw [mem, card, held]
        push_cast
        rfl
      have same : woke s' = woke s := by
        ext i
        rw [mem_woke, mem_woke,
          woken_of_step reach step fun ready result count => counts ⟨ready, result, count⟩]
      rw [same]
      by_cases ready : s.thread e.thread = .ready e.pc
      · by_cases resets : ∃ ret, e.pc = .main (.reset ret)
        · obtain ⟨ret, reset⟩ := resets
          obtain ⟨nobody, mem⟩ := woke_of_reset reach step ready reset
          rw [mem, nobody]
          rfl
        · rw [step.cells.1 ready, cells_waitersWoken (fun ret reset => resets ⟨ret, reset⟩)
            (fun result count => counts ⟨ready, result, count⟩), held]
      · rw [step.cells.2 ready, held]
  exact inv.of_reachable reach

end RequeuePi
