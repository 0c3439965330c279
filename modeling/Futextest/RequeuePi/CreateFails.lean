import Mathlib.Order.WellFounded
import Futextest.RequeuePi.Options

/-!
# A thread that cannot be created

If a call of `create_rt_thread` fails, `unit_test` jumps to its end and returns
`RET_ERROR`. It joins nobody on this way, so that the threads it has created so far go on
with pointers into its frame. Nobody is left behind only if the first creation is the one
that fails, or if none fails and all threads are joined.

## Main definitions

* `UnitTest.LeavesNobody` — when `unit_test` returns `RET_ERROR`, all its threads have
  finished
* `UnitTest.FirstFails`, `UnitTest.NoneFails` — which creations fail

## Main results

* `leaves_nobody_iff` — these are the runs in which nobody is left behind
* `second_waiter_fails` — a waiter that is left queued on `f1`
-/

namespace RequeuePi

open PiFutex UnitTest

namespace UnitTest

/-- When main returns `RET_ERROR`, every thread that it has created has finished. -/
def LeavesNobody (u : UnitTest) : Prop :=
  ∀ s, (machine u).Reachable s → s.loc .main = .main (.exit retError) →
    ∀ t ≠ .main, (∀ l, s.thread t ≠ .unborn l) → s.finished u.program t = true

/-- The thread that main creates first. -/
def firstThread (u : UnitTest) : Party :=
  if u.thirdPartyOwner then .blocker else .waiter 0

/-- The first creation fails. -/
def FirstFails (u : UnitTest) : Prop := u.createRtThread u.firstThread ≠ 0

/-- No creation fails. -/
def NoneFails (u : UnitTest) : Prop := ∀ t, u.Starts t → u.createRtThread t = 0

end UnitTest

variable {u : UnitTest} {s s' : RunState} {e : RunEvent} {m : MainPc}

/-! ## Without a failure -/

/-- Whether main has joined the thread, if it is one that main creates. -/
def MainPc.hasJoined : MainPc → Party → Bool
  | .readRet _ i _, .waiter j | .join _ i _ _, .waiter j => j < i
  | .joinBlocker _ _, .waiter _ => true
  | .joinWaker _ _, .waiter _ | .joinWaker _ _, .blocker => true
  | .readWaiter _, _ | .readWaker, _ | .readBlocker, _ | .exit _, _ => true
  | _, _ => false

/-- What every run has of main if no creation fails: it never sleeps, and the threads it
has joined have finished. -/
structure MainInv (u : UnitTest) (s : RunState) (m : MainPc) : Prop where
  ready : s.thread .main = .ready (.main m)
  joined : ∀ t, u.Starts t → m.hasJoined t = true → s.finished u.program t = true

/-- Where main goes from a creation that does not fail. -/
theorem leaves_create {t : Party} {mem : Cell → ℤ} {x : Status Cell PiWord Loc}
    (fine : u.createRtThread t = 0) (leaves : (u.create t m).Leaves mem x) : x = .ready (.main m) := by
  unfold UnitTest.create at leaves
  rw [if_pos fine] at leaves
  cases leaves
  rfl

/-- After the last pass of a loop over the waiters all of them are joined. -/
theorem hasJoined_nextWaiter {i : Fin threadMax} {pass : Fin threadMax → MainPc} {past : MainPc}
    {t : Party} (joined : (nextWaiter i pass past).hasJoined t = true) :
    (∃ more : i.val + 1 < threadMax, (pass ⟨i + 1, more⟩).hasJoined t = true) ∨
      i.val + 1 = threadMax ∧ past.hasJoined t = true := by
  rcases nextWaiter_cases i pass past with ⟨more, there⟩ | ⟨last, there⟩
  · rw [there] at joined
    exact .inl ⟨more, joined⟩
  · rw [there] at joined
    exact .inr ⟨last, joined⟩

/-- Without a failure main has joined a thread only by a join. -/
theorem main_joins {mem : Cell → ℤ} {x : Status Cell PiWord Loc} (fine : u.NoneFails)
    (third : ∀ ret, m = .createBlocker ret → u.thirdPartyOwner = true)
    (leaves : (u.unitTest m).Leaves mem x) :
    ∃ m', x = .ready (.main m') ∧ ∀ t, u.Starts t → m'.hasJoined t = true →
      m.hasJoined t = true ∨ ∃ k, u.unitTest m = .join t k := by
  cases m with
  | clock =>
    cases leaves
    refine ⟨_, rfl, ?_⟩
    intro t _ joined
    cases owner : u.thirdPartyOwner <;> simp [owner, MainPc.hasJoined] at joined
  | createBlocker ret =>
    obtain rfl := leaves_create (fine .blocker (third ret rfl)) leaves
    exact ⟨_, rfl, nofun⟩
  | reset ret =>
    cases leaves
    exact ⟨_, rfl, nofun⟩
  | createWaiter ret i =>
    obtain rfl := leaves_create (fine (.waiter i) trivial) leaves
    refine ⟨_, rfl, ?_⟩
    intro t _ joined
    rcases hasJoined_nextWaiter joined with ⟨more, early⟩ | ⟨last, early⟩
    · cases early
    · cases early
  | createWaker ret =>
    obtain rfl := leaves_create (fine .waker trivial) leaves
    refine ⟨_, rfl, ?_⟩
    intro t _ joined
    cases t with
    | waiter j => simp [MainPc.hasJoined] at joined
    | _ => cases joined
  | readRet ret i p =>
    cases leaves
    refine ⟨_, rfl, fun t _ joined => .inl ?_⟩
    cases t <;> exact joined
  | join ret i p null =>
    cases leaves
    refine ⟨_, rfl, ?_⟩
    intro t starts joined
    -- a waiter that has been joined is an earlier one, or the one of this pass
    have waiter : ∀ j : Fin threadMax, j.val ≤ i.val →
        (MainPc.join ret i p null).hasJoined (.waiter j) = true ∨
          ∃ k, u.unitTest (.join ret i p null) = .join (.waiter j) k := by
      intro j le
      rcases Nat.lt_or_eq_of_le le with before | now
      · exact .inl (decide_eq_true before)
      · obtain rfl := Fin.ext now
        exact .inr ⟨_, rfl⟩
    rcases hasJoined_nextWaiter joined with ⟨more, further⟩ | ⟨last, all⟩
    · cases t with
      | waiter j => exact waiter j (Nat.le_of_lt_succ (of_decide_eq_true further))
      | _ => cases further
    · cases t with
      | waiter j => exact waiter j (by have bound := j.isLt; omega)
      | main => exact starts.elim
      | blocker =>
        rw [if_pos (show u.thirdPartyOwner = true from starts)] at all
        cases all
      | waker => split_ifs at all <;> cases all
  | joinBlocker ret p =>
    cases leaves
    refine ⟨_, rfl, ?_⟩
    intro t starts joined
    cases t with
    | waiter j => exact .inl rfl
    | blocker => exact .inr ⟨_, rfl⟩
    | main => exact starts.elim
    | waker => cases joined
  | joinWaker ret p =>
    cases leaves
    refine ⟨_, rfl, ?_⟩
    intro t starts _
    cases t with
    | waiter j | blocker => exact .inl rfl
    | main => exact starts.elim
    | waker => exact .inr ⟨_, rfl⟩
  | readWaiter p | readWaker | readBlocker =>
    cases leaves
    exact ⟨_, rfl, fun _ _ _ => .inl rfl⟩
  | exit ret => cases leaves

theorem MainInv.step (reach : (machine u).Reachable s) (inv : MainInv u s m)
    (fine : u.NoneFails) (step : Step u.program s e s') : ∃ m', MainInv u s' m' := by
  by_cases main : e.thread = .main
  · have here : s.thread e.thread = .ready (.main m) := main ▸ inv.ready
    rcases step.active with ⟨ready, leaves⟩ | ⟨a, asleep, -⟩ | ⟨q, x, queued, -⟩
    · have pc : e.pc = .main m := Status.ready.inj (ready.symm.trans here)
      rw [main, pc] at leaves
      have third : ∀ ret, m = .createBlocker ret → u.thirdPartyOwner = true := by
        rintro ret rfl
        exact third_of_createBlocker reach inv.ready
      obtain ⟨m', goes, joins⟩ := main_joins fine third leaves
      refine ⟨m', goes, ?_⟩
      intro t starts joined
      rcases joins t starts joined with before | ⟨k, op⟩
      · exact step.finished (inv.joined t starts before)
      · refine step.finished (step.finished_of_join ready (k := k) ?_)
        rw [main, pc]
        exact op
    · rw [here] at asleep
      cases asleep
    · rw [here] at queued
      cases queued
  · have passive := step.passive (Ne.symm main)
    rw [inv.ready] at passive
    refine ⟨m, ?_, fun t starts joined => step.finished (inv.joined t starts joined)⟩
    generalize s'.thread .main = y at passive
    cases passive with
    | same _ _ => rfl

theorem exists_mainInv (fine : u.NoneFails) (reach : (machine u).Reachable s) :
    ∃ m, MainInv u s m := by
  have inv : (machine u).Invariant fun s => ∃ m, MainInv u s m := by
    constructor
    · rintro s rfl
      exact ⟨.clock, rfl, nofun⟩
    · rintro s e s' reach ⟨m, inv⟩ step
      exact inv.step reach fine step
  exact inv.of_reachable reach

/-- A thread that has been created is one that main creates. -/
theorem starts_of_born (reach : (machine u).Reachable s) {t : Party} (other : t ≠ .main)
    (born : ∀ l, s.thread t ≠ .unborn l) : u.Starts t := by
  cases t with
  | main => exact absurd rfl other
  | blocker =>
    by_contra two
    obtain ⟨l, unborn⟩ := blocker_unborn (Bool.eq_false_iff.mpr two) reach
    exact born l unborn
  | waker | waiter i => exact trivial

theorem leavesNobody_of_noneFails (fine : u.NoneFails) : u.LeavesNobody := by
  intro s reach here t other born
  obtain ⟨m, inv⟩ := exists_mainInv fine reach
  have there : s.loc .main = .main m := by rw [State.loc, inv.ready]; rfl
  obtain rfl := Loc.main.inj (there.symm.trans here)
  exact inv.joined t (starts_of_born reach other born) rfl

/-! ## A failure of the first creation -/

/-- Where main is until the first creation has failed. -/
def MainPc.BeforeFirst (u : UnitTest) : MainPc → Prop
  | .clock => True
  | .createBlocker _ => u.thirdPartyOwner = true
  | .reset _ => u.thirdPartyOwner = false
  | .createWaiter _ i => u.thirdPartyOwner = false ∧ i = 0
  | .exit ret => ret = retError
  | _ => False

/-- A creation that fails. -/
theorem create_of_fails {t : Party} (fails : u.createRtThread t ≠ 0) :
    u.create t m = .tau (.main (.exit retError)) := if_neg fails

theorem firstThread_of_third (third : u.thirdPartyOwner = true) : u.firstThread = .blocker :=
  if_pos third

theorem firstThread_of_two (two : u.thirdPartyOwner = false) : u.firstThread = .waiter 0 := by
  rw [firstThread, two]
  rfl

/-- An operation that creates nobody and takes main to one control point. -/
theorem leads_of_moves {op : RunOp} {m' : MainPc} (before : m'.BeforeFirst u)
    (moves : op = .tau (.main m') ∨ ∃ a v, op = .store a v (.main m')) :
    (∀ t k, op ≠ .create t k) ∧
      ∀ mem, op.Leads mem fun l => ∃ m', l = .main m' ∧ m'.BeforeFirst u := by
  rcases moves with rfl | ⟨a, v, rfl⟩
  · exact ⟨by simp, fun _ => ⟨m', rfl, before⟩⟩
  · exact ⟨by simp, fun _ => ⟨m', rfl, before⟩⟩

/-- At the first creation main gives up. -/
theorem unitTest_of_firstFails (fails : u.FirstFails) (first : m.BeforeFirst u) :
    (∀ t k, u.unitTest m ≠ .create t k) ∧
      ∀ mem, (u.unitTest m).Leads mem fun l => ∃ m', l = .main m' ∧ m'.BeforeFirst u := by
  unfold FirstFails at fails
  -- the result of a creation that fails
  have gives_up : (MainPc.exit retError).BeforeFirst u := rfl
  cases m with
  | clock =>
    refine leads_of_moves ?_ (.inl rfl)
    by_cases third : u.thirdPartyOwner = true
    · rw [if_pos third]
      exact third
    · rw [if_neg third]
      exact Bool.eq_false_iff.mpr third
  | createBlocker ret =>
    rw [firstThread_of_third first] at fails
    exact leads_of_moves gives_up (.inl (create_of_fails fails))
  | reset ret =>
    have next : (MainPc.createWaiter ret 0).BeforeFirst u := ⟨first, rfl⟩
    exact leads_of_moves next (.inr ⟨_, _, rfl⟩)
  | createWaiter ret i =>
    obtain ⟨two, rfl⟩ := first
    rw [firstThread_of_two two] at fails
    exact leads_of_moves gives_up (.inl (create_of_fails fails))
  | exit ret => exact ⟨by simp [unitTest], fun mem => trivial⟩
  | _ => exact first.elim

/-- Only main creates threads. -/
theorem main_of_create {t v : Party} {l k : Loc} (op : u.program t l = .create v k) :
    t = .main ∧ ∃ m, l = .main m := by
  obtain ⟨main, ⟨-, ret, here⟩ | ⟨i, ret, -, here⟩ | ⟨-, ret, here, -⟩⟩ := program_create op
  all_goals exact ⟨main, _, here⟩

/-- If the first creation fails nobody is ever created. -/
theorem unborn_of_firstFails (fails : u.FirstFails) (reach : (machine u).Reachable s) {t : Party}
    (other : t ≠ .main) : ∃ l, s.thread t = .unborn l := by
  have inv : (machine u).Invariant fun s => ∃ l, s.thread t = .unborn l := by
    constructor
    · rintro s rfl
      cases t with
      | main => exact absurd rfl other
      | blocker | waker | waiter i => exact ⟨_, rfl⟩
    · rintro s e s' reach ⟨l, unborn⟩ step
      rcases step.unborn_or_created unborn with still | ⟨ready, k, op⟩
      · exact ⟨l, still⟩
      · obtain ⟨main, m, here⟩ := main_of_create op
        rw [main, here] at ready op
        have initial : (u.start.thread .main).Holds
            fun l => ∃ m, l = .main m ∧ m.BeforeFirst u := ⟨.clock, rfl, trivial⟩
        have early := loc_invariant initial (by
          rintro l mem ⟨m, rfl, first⟩
          exact (unitTest_of_firstFails fails first).2 mem) reach
        rw [ready] at early
        obtain ⟨m', same, first⟩ := early
        obtain rfl := Loc.main.inj same
        exact absurd op ((unitTest_of_firstFails fails first).1 t k)
  exact inv.of_reachable reach

theorem leavesNobody_of_firstFails (fails : u.FirstFails) : u.LeavesNobody := by
  intro s reach _ t other born
  obtain ⟨l, unborn⟩ := unborn_of_firstFails fails reach other
  exact absurd unborn (born l)

/-! ## A later failure -/

/-- The threads before the place `n` have been created and have not taken a step, and the
others do not run yet. -/
structure CreatedSoFar (u : UnitTest) (s : RunState) (n : ℕ) : Prop where
  created : ∀ t, u.Starts t → t.order < n → s.thread t = .ready (u.start.loc t)
  unborn : ∀ t ≠ .main, n ≤ t.order → s.thread t = .unborn (u.start.loc t)

/-- Main can come to the control point with the threads before `n` just created. -/
def Comes (u : UnitTest) (m : MainPc) (n : ℕ) : Prop :=
  ∃ s, (machine u).Reachable s ∧ s.thread .main = .ready (.main m) ∧ CreatedSoFar u s n

/-- A step of main alone. -/
theorem Comes.step {m' : MainPc} {n : ℕ} (comes : Comes u m n)
    (goes : ∀ s : RunState, ∃ access s', (u.unitTest m).perform u.program s .main
      ⟨∅, none, none⟩ = some (access, s') ∧
        s'.thread = Function.update s.thread .main (.ready (.main m'))) : Comes u m' n := by
  obtain ⟨s, reach, ready, created, unborn⟩ := comes
  obtain ⟨access, s', performed, after⟩ := goes s
  have other : ∀ t ≠ .main, s'.thread t = s.thread t := by
    intro t ne
    rw [after, Function.update_of_ne ne]
  refine ⟨s', reach.next (.run ready performed), by rw [after, Function.update_self], ?_, ?_⟩
  · intro t starts below
    rw [other t (by rintro rfl; exact starts)]
    exact created t starts below
  · intro t ne above
    rw [other t ne]
    exact unborn t ne above

/-- Main creates one more thread. -/
theorem Comes.create {t : Party} {m' : MainPc} (comes : Comes u m t.order) (other : t ≠ .main)
    (fine : u.createRtThread t = 0) (op : u.unitTest m = u.create t m') :
    Comes u m' (t.order + 1) := by
  obtain ⟨s, reach, ready, created, unborn⟩ := comes
  have calls : u.unitTest m = .create t (.main m') := op.trans (if_pos fine)
  have performed : (u.unitTest m).perform u.program s .main ⟨∅, none, none⟩ =
      some (.create t, (s.put t (.ready (u.start.loc t))).put .main (.ready (.main m'))) := by
    rw [calls]
    simp [Op.perform, unborn t other le_rfl]
  refine ⟨_, reach.next (.run ready performed), State.put_self _ _ _, ?_, ?_⟩
  · intro v starts below
    have main : v ≠ .main := by
      rintro rfl
      exact starts
    rw [State.put_of_ne _ main]
    rcases Nat.lt_or_eq_of_le (Nat.le_of_lt_succ below) with before | now
    · have ne : v ≠ t := by
        rintro rfl
        exact absurd before (lt_irrefl _)
      rw [State.put_of_ne _ ne]
      exact created v starts before
    · rw [Party.order_injective now]
      exact State.put_self _ _ _
  · intro v main above
    have ne : v ≠ t := by
      rintro rfl
      omega
    rw [State.put_of_ne _ main, State.put_of_ne _ ne]
    exact unborn v main (by omega)

theorem comes_clock : Comes u .clock 1 := by
  refine ⟨u.start, ⟨[], .start rfl⟩, rfl, ?_, ?_⟩
  · intro t starts below
    cases t with
    | main => exact starts.elim
    | blocker | waker | waiter i => simp [Party.order] at below
  · intro t other _
    cases t with
    | main => exact absurd rfl other
    | blocker | waker | waiter i => rfl

theorem comes_blocker (third : u.thirdPartyOwner = true) :
    Comes u (.createBlocker u.firstRet) 1 := by
  refine comes_clock.step fun s => ⟨_, _, rfl, ?_⟩
  rw [if_pos third]
  rfl

/-- The blocker needs no creation if there is none. -/
theorem CreatedSoFar.two (two : u.thirdPartyOwner ≠ true) (so_far : CreatedSoFar u s 1) :
    CreatedSoFar u s 2 where
  created t starts below := by
    cases t with
    | main => exact starts.elim
    | blocker => exact absurd starts two
    | waker | waiter i =>
      simp only [Party.order] at below
      omega
  unborn t other above := so_far.unborn t other (by omega)

theorem comes_reset (below : u.CreatedBelow 2) : Comes u (.reset u.firstRet) 2 := by
  by_cases third : u.thirdPartyOwner = true
  · exact (comes_blocker third).create (t := .blocker) nofun
      (below .blocker third (by simp [Party.order])) rfl
  · have comes : Comes u (.reset u.firstRet) 1 := by
      refine comes_clock.step fun s => ⟨_, _, rfl, ?_⟩
      rw [if_neg third]
      rfl
    obtain ⟨s, reach, ready, so_far⟩ := comes
    exact ⟨s, reach, ready, so_far.two third⟩

/-- By induction on the waiters. -/
theorem comes_waiter (i : Fin threadMax) (below : u.CreatedBelow (i + 2)) :
    Comes u (.createWaiter u.firstRet i) (i + 2) := by
  obtain ⟨n, bound⟩ := i
  induction n with
  | zero => exact (comes_reset below).step fun s => ⟨_, _, rfl, rfl⟩
  | succ n ih =>
    have earlier := ih (Nat.lt_of_succ_lt bound) (below.mono (by simp))
    have fine := below (.waiter ⟨n, Nat.lt_of_succ_lt bound⟩) trivial (by simp [Party.order])
    refine Comes.create (t := .waiter ⟨n, Nat.lt_of_succ_lt bound⟩) earlier (by simp) fine ?_
    rw [unitTest, nextWaiter, dif_pos bound]

theorem comes_waker (below : u.CreatedBelow (threadMax + 2)) :
    Comes u (.createWaker u.firstRet) (threadMax + 2) := by
  have last : threadMax - 1 < threadMax := Nat.lt_succ_self _
  have fine := below (.waiter ⟨threadMax - 1, last⟩) trivial (by simp [Party.order])
  have earlier := comes_waiter (u := u) ⟨threadMax - 1, last⟩ (below.mono (by simp))
  exact Comes.create (t := .waiter ⟨threadMax - 1, last⟩) earlier (by simp) fine rfl

/-- Main can come to every creation with the earlier threads just created. -/
theorem comes_of_createdBelow {t : Party} (starts : u.Starts t) (below : u.CreatedBelow t.order) :
    ∃ m m', u.unitTest m = u.create t m' ∧ Comes u m t.order := by
  cases t with
  | main => exact starts.elim
  | blocker => exact ⟨_, _, rfl, comes_blocker starts⟩
  | waiter i => exact ⟨_, _, rfl, comes_waiter i below⟩
  | waker => exact ⟨_, _, rfl, comes_waker below⟩

/-- No thread has finished at its first control point. -/
theorem not_finished_of_ready {t : Party} (starts : u.Starts t)
    (ready : s.thread t = .ready (u.start.loc t)) : s.finished u.program t ≠ true := by
  intro ended
  obtain ⟨l, here, exits⟩ := State.finished_iff.mp ended
  obtain rfl := Status.ready.inj (ready.symm.trans here)
  cases t with
  | main => exact starts.elim
  | blocker | waiter i => cases exits
  | waker =>
    change u.program .waker (if u.broadcast then .broadcast .poll else .signal .poll) = _ at exits
    split_ifs at exits <;> cases exits

/-- The first thread comes before all others. -/
theorem firstThread_order {t : Party} (starts : u.Starts t) :
    u.Starts u.firstThread ∧ u.firstThread.order ≤ t.order := by
  unfold firstThread
  split_ifs with third
  · refine ⟨third, ?_⟩
    cases t with
    | main => exact starts.elim
    | blocker | waker | waiter i => simp [Party.order]
  · refine ⟨trivial, ?_⟩
    cases t with
    | main => exact starts.elim
    | blocker => exact absurd starts third
    | waker | waiter i => simp [Party.order]

/-- If a later creation fails, main returns with the first thread still at its start. -/
theorem not_leavesNobody {t : Party} (starts : u.Starts t) (fails : u.createRtThread t ≠ 0)
    (below : u.CreatedBelow t.order) (first : u.createRtThread u.firstThread = 0) :
    ¬ u.LeavesNobody := by
  intro leaves
  obtain ⟨begins, le⟩ := firstThread_order starts
  have earlier : u.firstThread.order < t.order := by
    refine lt_of_le_of_ne le fun same => fails ?_
    rw [← Party.order_injective same]
    exact first
  obtain ⟨m, m', op, comes⟩ := comes_of_createdBelow starts below
  have gives_up : u.unitTest m = .tau (.main (.exit retError)) := op.trans (if_neg fails)
  obtain ⟨s, reach, ready, so_far⟩ : Comes u (.exit retError) t.order :=
    comes.step fun s => ⟨_, _, by rw [gives_up]; rfl, rfl⟩
  have running := so_far.created u.firstThread begins earlier
  have here : s.loc .main = .main (.exit retError) := by rw [State.loc, ready]; rfl
  refine not_finished_of_ready begins running (leaves s reach here u.firstThread ?_ ?_)
  · intro main
    rw [main] at begins
    exact begins
  · intro l unborn
    rw [running] at unborn
    cases unborn

/-- **A failed creation.** `unit_test` leaves no thread behind when it returns
`RET_ERROR`, in all its runs, if and only if no creation fails or the first one does. -/
theorem leaves_nobody_iff (u : UnitTest) : u.LeavesNobody ↔ u.NoneFails ∨ u.FirstFails := by
  constructor
  · intro leaves
    by_contra neither
    obtain ⟨some, first⟩ := not_or.mp neither
    obtain ⟨t, starts, fails⟩ : ∃ t, u.Starts t ∧ u.createRtThread t ≠ 0 := by
      simpa only [NoneFails, not_forall, exists_prop] using some
    -- of the creations that fail, main comes to the first one
    obtain ⟨v, ⟨begins, broken⟩, least⟩ := (measure Party.order).wf.has_min
      {t | u.Starts t ∧ u.createRtThread t ≠ 0} ⟨t, starts, fails⟩
    refine not_leavesNobody begins broken ?_ (not_not.mp first) leaves
    intro w starts before
    by_contra fails
    exact least w ⟨starts, fails⟩ before
  · rintro (fine | fails)
    · exact leavesNobody_of_noneFails fine
    · exact leavesNobody_of_firstFails fails

/-- The second waiter cannot be created. -/
def secondWaiterFails : UnitTest :=
  { unitTestWith false false false 0 with
    createRtThread := fun t => if t = .waiter 1 then -1 else 0 }

/-- `unit_test` has returned, and the first waiter is queued on `f1` without a timeout. -/
theorem second_waiter_fails : ∃ s, (machine secondWaiterFails).Reachable s ∧
    s.loc .main = .main (.exit retError) ∧
    s.thread (.waiter 0) = .queued (.source .f1 .f2) (.waiter (.store (.ok 0))) none := by
  obtain ⟨w, s, run, done⟩ := exists_run secondWaiterFails.program secondWaiterFails.start
    (Choice.ops .main 3 ++ Choice.ops (.waiter 0) 3 ++ Choice.ops .main 1)
    (fun _ s => s.loc .main = .main (.exit retError) ∧
      s.thread (.waiter 0) = .queued (.source .f1 .f2) (.waiter (.store (.ok 0))) none)
    (by decide +kernel)
  exact ⟨s, run.reachable, done⟩

end RequeuePi
