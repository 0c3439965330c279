import Futextest.PiFutex.Potential
import Futextest.RequeuePi.CreateFails
import Futextest.RequeuePi.Untimed
import Futextest.RequeuePi.WakerReport

/-!
# How long the test can run

No thread function of `unit_test` loops but for a waker, which polls `waiters_blocked` until
all waiters have come to their wait. Its other loop is bounded by `MAX_WAKE_ITERS`. So all
operations but those readings lead on, in every interleaving and whatever the kernel
chooses.

## Main definitions

* `Loc.depth` — how many operations a thread executes at most from a control point
* `polls` — a reading that shows that not all waiters have come

## Main results

* `unitTest_bounded` — how many other steps there are in a run
-/

namespace RequeuePi

open PiFutex UnitTest

variable {u : UnitTest} {s s' : RunState} {e : RunEvent}

/-! ## Ranks -/

/-- How many operations `waiterfn` executes at most. -/
def WaiterPc.rank : WaiterPc → ℕ
  | .load => 8
  | .count _ => 7
  | .wait _ => 6
  | .store _ => 5
  | .countWoken _ => 4
  | .amend _ => 3
  | .lock => 2
  | .unlock => 1
  | .exit => 0

/-- How many operations `third_party_blocker` executes at most. -/
def BlockerPc.rank : BlockerPc → ℕ
  | .lock => 7
  | .storeLock _ => 6
  | .load => 5
  | .wait _ => 4
  | .storeWait _ => 3
  | .unlock _ => 2
  | .setError => 1
  | .exit => 0

/-- How many operations `unit_test` itself executes at most. -/
def MainPc.rank : MainPc → ℕ
  | .clock => 3 * threadMax + 10
  | .createBlocker _ => 3 * threadMax + 9
  | .reset _ => 3 * threadMax + 8
  | .createWaiter _ i => 2 * threadMax + 7 + (threadMax - i)
  | .createWaker _ => 2 * threadMax + 7
  | .readRet _ i _ => 2 * (threadMax - i) + 5
  | .join _ i _ _ => 2 * (threadMax - i) + 4
  | .joinBlocker _ _ => 5
  | .joinWaker _ _ => 4
  | .readWaiter _ => 3
  | .readWaker => 2
  | .readBlocker => 1
  | .exit _ => 0

/-- How many operations a thread executes at most. -/
def Loc.depth : Loc → ℕ
  | .main pc => pc.rank
  | .blocker pc => pc.rank
  | .waiter pc => pc.rank
  | l => l.rank

/-- A reading that shows that not all waiters have come to their wait. -/
def polls (e : RunEvent) : Bool :=
  match e.access with
  | .load .waitersBlocked blocked => blocked < threadMax
  | _ => false

/-- A thread is about to poll before all waiters have come. -/
def Loc.Early (mem : Cell → ℤ) (l : Loc) : Prop :=
  (l = .broadcast .poll ∨ l = .signal .poll) ∧ mem .waitersBlocked < threadMax

theorem rank_nextWaiter {i : Fin threadMax} {pass : Fin threadMax → MainPc} {past : MainPc} {n : ℕ}
    (further : ∀ more : i.val + 1 < threadMax, (pass ⟨i + 1, more⟩).rank < n)
    (ended : past.rank < n) : (nextWaiter i pass past).rank < n := by
  rcases nextWaiter_cases i pass past with ⟨more, there⟩ | ⟨-, there⟩
  · rw [there]
    exact further more
  · rw [there]
    exact ended

theorem main_leads (m : MainPc) (mem : Cell → ℤ) :
    (u.unitTest m).Leads mem fun l => l.depth < m.rank := by
  have creates : ∀ t m' n, m'.rank < n → 0 < n →
      (u.create t m').Leads mem fun l => l.depth < n := by
    intro t m' n less positive
    rcases create_cases u t m' with op | op <;> rw [op]
    · exact less
    · exact positive
  cases m with
  | clock =>
    change Loc.depth (.main (if u.thirdPartyOwner then _ else _)) < _
    split_ifs <;> simp [Loc.depth, MainPc.rank, threadMax]
  | createBlocker ret => exact creates _ _ _ (by simp [MainPc.rank]) (by simp [MainPc.rank])
  | reset ret => simp [unitTest, Op.Leads, Loc.depth, MainPc.rank, threadMax]
  | createWaiter ret i =>
    refine creates _ _ _ (rank_nextWaiter ?_ ?_) (by simp [MainPc.rank])
    · intro more
      simp only [MainPc.rank]
      omega
    · simp only [MainPc.rank]
      omega
  | createWaker ret => exact creates _ _ _ (by simp [MainPc.rank]) (by simp [MainPc.rank])
  | readRet ret i p => exact Nat.lt_succ_self _
  | join ret i p null =>
    refine rank_nextWaiter ?_ ?_
    · intro more
      simp only [MainPc.rank]
      omega
    · have bound := i.isLt
      split_ifs <;> simp only [MainPc.rank] <;> omega
  | joinBlocker ret p => exact Nat.lt_succ_self _
  | joinWaker ret p =>
    change (UnitTest.out ret p).rank < _
    unfold UnitTest.out
    split_ifs <;> simp [MainPc.rank]
  | readWaiter p | readWaker | readBlocker =>
    change Loc.depth (.main (if _ then _ else _)) < _
    split_ifs <;> simp [Loc.depth, MainPc.rank]
  | exit ret => trivial

theorem blocker_leads (pc : BlockerPc) (mem : Cell → ℤ) :
    (thirdPartyBlocker pc).Leads mem fun l => l.depth < pc.rank := by
  have result : ∀ ret ret2, (blockerResult ret ret2).rank < 2 := by
    intro ret ret2
    unfold blockerResult
    split_ifs <;> simp [BlockerPc.rank]
  cases pc with
  | storeLock r =>
    change Loc.depth (.blocker (if _ then _ else _)) < _
    split_ifs
    · exact (result _ _).trans (by simp [BlockerPc.rank])
    · simp [Loc.depth, BlockerPc.rank]
  | unlock ret => exact fun r => result _ _
  | lock | wait expected => exact fun r => Nat.lt_succ_self _
  | load | storeWait r | setError => exact Nat.lt_succ_self _
  | exit => trivial

theorem waiter_leads (i : Fin threadMax) (pc : WaiterPc) (mem : Cell → ℤ) :
    (u.waiterfn i pc).Leads mem fun l => l.depth < pc.rank := by
  cases pc with
  | countWoken r =>
    change (u.afterWait r).rank < _
    unfold UnitTest.afterWait
    split_ifs <;> simp [WaiterPc.rank]
  | wait old | lock | unlock => exact fun r => Nat.lt_succ_self _
  | load | count old | store r | amend ret => exact Nat.lt_succ_self _
  | exit => trivial

/-- The operation leads where it can go under any kernel. -/
theorem leads_of_next {op : RunOp} {M : Syscalls.Program Cell FutexCall Party Loc}
    {mem : Cell → ℤ} (loc : Party → Loc) {Q : Loc → Prop} (no_join : ∀ t k, op ≠ .join t k)
    (next : ∀ access mem' l', op.toSyscalls.Next M mem loc access mem' l' → Q l') :
    op.Leads mem Q := by
  cases op with
  | tau k => exact next _ _ _ (.tau k)
  | load a k => exact next _ _ _ (.load a k)
  | store a v k => exact next _ _ _ (.store a v k)
  | inc a k => exact next _ _ _ (.inc a k)
  | wait a v k => exact fun r => next _ _ _ (.leave _ k r)
  | wake a n k => exact next _ _ _ (.leave _ _ (.ok 0))
  | lockPi p k | unlockPi p k => exact fun r => next _ _ _ (.leave _ k r)
  | waitRequeuePi a v p timeout k => exact fun r => next _ _ _ (.leave _ k r)
  | cmpRequeuePi a v p nrWake nrRequeue k => exact fun r => next _ _ _ (.leave _ k r)
  | create t k => exact next _ _ _ (.create t k)
  | join t k => exact absurd rfl (no_join t k)
  | exit => trivial

theorem broadcast_leads_broadcast (pc : BroadcastPc) (mem : Cell → ℤ) :
    (u.broadcastWakerfn pc).Leads mem fun l => ∃ pc, l = .broadcast pc := by
  cases pc with
  | poll =>
    simp only [broadcastWakerfn, Op.Leads]
    split_ifs <;> exact ⟨_, rfl⟩
  | test taskCount i ret =>
    simp only [broadcastWakerfn, Op.Leads]
    split_ifs <;> exact ⟨_, rfl⟩
  | lock | requeue taskCount i old | unlock taskCount ret => exact fun _ => ⟨_, rfl⟩
  | exit ret => trivial
  | _ => exact ⟨_, rfl⟩

/-- The waker stays in its function, where both ranks are the same. -/
theorem waker_leads_depth (l : Loc) (mem : Cell → ℤ) :
    (u.program .waker l).Leads mem fun l' => l'.depth = l'.rank := by
  cases l with
  | broadcast pc =>
    refine (broadcast_leads_broadcast pc mem).mono ?_
    rintro l' ⟨pc', rfl⟩
    rfl
  | signal pc =>
    refine (signal_leads_signal pc mem).mono ?_
    rintro l' ⟨pc', rfl⟩
    rfl
  | _ => trivial

/-- Only a poll reads `waiters_blocked`. -/
theorem early_of_tooEarly {l l' : Loc} {M : Syscalls.Program Cell FutexCall Party Loc}
    {mem mem' : Cell → ℤ} {loc : Party → Loc} {access : Syscalls.Access Cell FutexCall Party}
    (next : (u.program .waker l).toSyscalls.Next M mem loc access mem' l')
    (early : tooEarly ⟨.waker, l, access⟩ = true) : l.Early mem := by
  cases l with
  | broadcast pc | signal pc =>
    cases pc <;> cases next <;> first
      | exact ⟨by simp, of_decide_eq_true early⟩
      | cases early
  | _ => cases next

/-- Every operation leads nearer to the end of its function, but for a poll that comes too
early. -/
theorem program_leads (t : Party) (l : Loc) (mem : Cell → ℤ)
    (late : t = .waker → ¬ l.Early mem) :
    (u.program t l).Leads mem fun l' => l'.depth < l.depth := by
  have waker : ¬ l.Early mem →
      (u.program .waker l).Leads mem fun l' => l'.rank < l.rank := by
    intro late
    refine leads_of_next (M := u.test.program) (fun _ => l) ?_ ?_
    · intro v k join
      cases l with
      | broadcast pc | signal pc => cases pc <;> cases join
      | _ => cases join
    · intro access mem' l' next
      rcases rank_next next with ⟨early, -⟩ | ⟨-, lower⟩
      · exact absurd (early_of_tooEarly next early) late
      · exact lower
  cases t with
  | waker =>
    cases l with
    | broadcast pc | signal pc =>
      refine ((waker (late rfl)).and (waker_leads_depth _ mem)).mono ?_
      rintro l' ⟨lower, same⟩
      rw [same]
      exact lower
    | _ => trivial
  | main =>
    cases l with
    | main m => exact main_leads m mem
    | _ => trivial
  | blocker =>
    cases l with
    | blocker pc => exact blocker_leads pc mem
    | _ => trivial
  | waiter i =>
    cases l with
    | waiter pc => exact waiter_leads i pc mem
    | _ => trivial

/-! ## Runs -/

/-- A sum over the threads of a run. -/
theorem sum_party {R : Type} [AddCommMonoid R] (f : Party → R) :
    ∑ t, f t = f .main + (f .blocker + (f .waker + ∑ i, f (.waiter i))) := by
  have all : (Finset.univ : Finset Party) = insert .main (insert .blocker (insert .waker
      (Finset.univ.image .waiter))) := by decide
  rw [all, Finset.sum_insert (by decide), Finset.sum_insert (by decide),
    Finset.sum_insert (by decide), Finset.sum_image]
  intro i _ j _ same
  exact Party.waiter.inj same

theorem start_total_le (u : UnitTest) : u.start.total Loc.depth ≤ 2 * (maxOps + 127) := by
  have waker : (u.start.thread .waker).rank Loc.depth ≤ 2 * maxOps := by
    simp only [UnitTest.start]
    cases u.broadcast <;> decide
  rw [State.total, sum_party]
  have waiters : ∑ i, (u.start.thread (.waiter i)).rank Loc.depth = 160 := by
    calc ∑ i, (u.start.thread (.waiter i)).rank Loc.depth
      _ = Finset.univ.card * 16 := Finset.sum_const_nat fun _ _ => rfl
      _ = 160 := rfl
  rw [waiters]
  have main : (u.start.thread .main).rank Loc.depth = 80 := rfl
  have blocker : (u.start.thread .blocker).rank Loc.depth = 14 := rfl
  omega

/-- Only a poll reads `waiters_blocked`, and an early one stays where it is. -/
theorem program_load_blocked {t : Party} {l : Loc} {k : ℤ → Loc}
    (op : u.program t l = .load .waitersBlocked k) :
    (l = .broadcast .poll ∨ l = .signal .poll) ∧ ∀ blocked < (threadMax : ℤ), k blocked = l := by
  revert op
  refine program_cases u (P := fun _ l op => op = .load .waitersBlocked k →
    (l = .broadcast .poll ∨ l = .signal .poll) ∧ ∀ blocked < (threadMax : ℤ), k blocked = l)
    ?_ ?_ ?_ ?_ ?_ ?_ t l
  · intro m op
    cases m with
    | createBlocker ret | createWaiter ret i | createWaker ret =>
      rw [unitTest] at op
      rcases create_cases u _ _ with creates | creates <;> rw [creates] at op <;> cases op
    | _ => cases op
  · intro pc op
    cases pc <;> cases op
  · intro pc op
    cases pc <;> cases op
    exact ⟨.inl rfl, fun blocked few => if_pos few⟩
  · intro pc op
    cases pc <;> cases op
    exact ⟨.inr rfl, fun blocked few => if_pos few⟩
  · intro i pc op
    cases pc <;> cases op
  · rintro t l ⟨⟩

theorem load_of_polls (poll : polls e = true) :
    ∃ blocked, e.access = .load .waitersBlocked blocked ∧ blocked < threadMax := by
  unfold polls at poll
  split at poll
  · rename_i blocked access
    exact ⟨blocked, access, of_decide_eq_true poll⟩
  · cases poll

/-- A step that shows an early poll leaves its thread where it was. -/
theorem same_of_polls (step : Step u.program s e s') (poll : polls e = true) :
    s'.thread e.thread = s.thread e.thread := by
  obtain ⟨blocked, access, few⟩ := load_of_polls poll
  obtain ⟨ready, rfl, k, op⟩ := step.loads access
  have stays := (program_load_blocked op).2 _ few
  rcases step.active with ⟨-, leaves⟩ | ⟨a, asleep, -⟩ | ⟨q, x, queued, -⟩
  · rw [op] at leaves
    generalize s'.thread e.thread = x at leaves
    cases leaves
    rw [ready, stays]
  · rw [ready] at asleep
    cases asleep
  · rw [ready] at queued
    cases queued

/-- **The length of a run.** Whatever the scheduler and the kernel choose, a run has a
bounded number of steps besides early polls, returns of waits and timeouts included. -/
theorem unitTest_bounded (u : UnitTest) :
    (machine u).Bounded (fun e => !polls e) (2 * (maxOps + 127)) 0 := by
  refine (machine_bounded Loc.depth ?_ fun s e s' step poll => same_of_polls step poll).mono
    (fun _ counted => counted) (start_total_le u)
  intro s e s' step late ready
  refine program_leads e.thread e.pc s.mem ?_
  rintro waker ⟨poll, early⟩
  -- such a poll would show
  have shows := step.shows ready
  have load : ∃ k, u.program e.thread e.pc = .load .waitersBlocked k := by
    rw [waker]
    rcases poll with pc | pc <;> rw [pc] <;> exact ⟨_, rfl⟩
  obtain ⟨k, op⟩ := load
  rw [op] at shows
  generalize access : e.access = x at shows
  cases shows
  exact absurd early (by simpa [polls, access] using late)

end RequeuePi
