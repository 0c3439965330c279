import Futextest.PiFutex.Refinement
import Futextest.RequeuePi.Options
import Futextest.RequeuePi.Ownership
import Futextest.RequeuePi.Untimed
import Futextest.RequeuePi.Verdict

/-!
# When the test passes

On a kernel whose PI futexes do what they are for, a wait of a waiter returns 0 or times out,
unless its deadline is malformed, and every other call of a waiter or of the third party
returns 0. So their results are 0 once they have finished, or those of all waiters an error.
The result of `unit_test` is then that of the waker, if this is negative: with a well-formed
deadline the test fails in no other way than by requeues that fail or come to nothing.

## Main definitions

* `waiterKeeps`, `wakerKeeps`, `blockerKeeps` — what a thread and its result have at a control
  point

## Main results

* `own_run_invariant` — what the operations of a thread keep of it and of its result
* `unitTest_passes_iff` — the result of `unit_test`
-/

namespace RequeuePi

open PiFutex UnitTest

variable {u : UnitTest} {w : List RunEvent} {s s' : RunState} {e : RunEvent}

/-! ## Results and who writes them -/

/-- An operation changes no cell but the one it writes. -/
theorem cells_of_writes {op : RunOp} {mem : Cell → ℤ} {a : Cell}
    (other : op.toSyscalls.writes ≠ some a) : op.cells mem a = mem a := by
  cases op with
  | store b v k | inc b k =>
    have ne : a ≠ b := fun same => other (congrArg some same.symm)
    exact Function.update_of_ne ne _ _
  | _ => rfl

/-- Only the thread itself writes its result. -/
theorem cells_retCell {t v : Party} (worker : v ≠ .main) (ne : v ≠ t) (l : Loc)
    (mem : Cell → ℤ) : (u.program t l).cells mem v.retCell = mem v.retCell := by
  refine cells_of_writes fun writes => ?_
  rcases writes_own writes with ⟨main, same⟩ | same | same
  · exact retCell_ne worker main ne same
  · cases v <;> cases same
  · cases v <;> cases same

/-- Nobody writes `wake_complete`. -/
theorem cells_wakeComplete (t : Party) (l : Loc) (mem : Cell → ℤ) :
    (u.program t l).cells mem .wakeComplete = mem .wakeComplete := by
  refine cells_of_writes fun writes => ?_
  rcases writes_own writes with ⟨main, same⟩ | same | same
  · cases t <;> cases same
  · cases same
  · cases same

theorem wakeComplete_eq_zero (reach : (machine u).Reachable s) : s.mem .wakeComplete = 0 := by
  have inv : (machine u).Invariant fun s => s.mem .wakeComplete = 0 := by
    constructor
    · rintro s rfl
      rfl
    · intro s e s' _ held step
      have cells := Step.cells step
      by_cases ready : s.thread e.thread = .ready e.pc
      · rw [cells.1 ready, cells_wakeComplete, held]
      · rw [cells.2 ready, held]
  exact inv.of_reachable reach

/-- What a thread and its result keep in the course of a run: `Q` holds of the result wherever
the thread is, if its own operations keep it and what else happens makes no difference. -/
theorem own_run_invariant {t : Party} (worker : t ≠ .main) {Q : List RunEvent → ℤ → Loc → Prop}
    (initial : (u.start.thread t).Holds (Q [] (u.start.mem t.retCell)))
    (frame : ∀ w s e s', (machine u).Run w s → Step u.program s e s' →
      ¬ (e.thread = t ∧ s.thread t = .ready e.pc) → ∀ ret l, Q w ret l → Q (w ++ [e]) ret l)
    (own : ∀ w s e s', (machine u).Run w s → Step u.program s e s' → e.thread = t →
      s.thread t = .ready e.pc → (u.program t e.pc).Leaves s.mem (s'.thread t) →
      Q w (s.mem t.retCell) e.pc →
      (s'.thread t).Holds (Q (w ++ [e]) ((u.program t e.pc).cells s.mem t.retCell)))
    (run : (machine u).Run w s) : (s.thread t).Holds (Q w (s.mem t.retCell)) := by
  induction run with
  | start first =>
    rw [show _ = u.start from first]
    exact initial
  | @next w s s' e before move held =>
    have step := machine_step.mp move
    by_cases ht : e.thread = t
    · rcases Step.active step with ⟨ready, leaves⟩ | ⟨a, asleep, awake⟩ | ⟨q, x, queued, awake⟩
      · -- an operation of its own
        have cells := (Step.cells step).1 ready
        rw [ht] at ready cells leaves
        rw [ready] at held
        rw [cells]
        exact own w s e s' before step ht ready leaves held
      · -- a sleep that ends by itself
        rw [(Step.cells step).2 (by simp [asleep])]
        rw [ht] at asleep awake
        rw [asleep] at held
        rw [awake]
        exact frame w s e s' before step (by simp [asleep]) _ _ held
      · -- a timeout that ends
        rw [(Step.cells step).2 (by simp [queued])]
        rw [ht] at queued awake
        rw [queued] at held
        rw [awake]
        exact frame w s e s' before step (by simp [queued]) _ _ (held.2 x rfl)
    · -- nobody else writes the result
      have same : s'.mem t.retCell = s.mem t.retCell := by
        by_cases ready : s.thread e.thread = .ready e.pc
        · rw [(Step.cells step).1 ready, cells_retCell worker (Ne.symm ht)]
        · rw [(Step.cells step).2 ready]
      rw [same]
      refine (Step.passive step (Ne.symm ht)).holds (held.mono ?_)
      exact frame w s e s' before step (fun both => ht both.1) _

/-- The same for what does not look at the run. -/
theorem own_invariant {t : Party} (worker : t ≠ .main) {Q : ℤ → Loc → Prop}
    (initial : (u.start.thread t).Holds (Q (u.start.mem t.retCell)))
    (own : ∀ s e s', (machine u).Reachable s → Step u.program s e s' → e.thread = t →
      s.thread t = .ready e.pc → (u.program t e.pc).Leaves s.mem (s'.thread t) →
      Q (s.mem t.retCell) e.pc →
      (s'.thread t).Holds (Q ((u.program t e.pc).cells s.mem t.retCell)))
    (reach : (machine u).Reachable s) : (s.thread t).Holds (Q (s.mem t.retCell)) := by
  obtain ⟨w, run⟩ := reach
  exact own_run_invariant (Q := fun _ => Q) worker initial (fun _ _ _ _ _ _ _ _ _ => id)
    (fun _ s e s' before => own s e s' before.reachable) run

/-! ## The waiters -/

/-- What a wait of a waiter can return. -/
inductive Expected (u : UnitTest) : SysResult → Prop
  | given (accepted : u.timeout ≠ .invalid) : Expected u (.ok 0)
  | timedOut (valid : u.timeout = .valid) : Expected u (.error etimedout)
  | rejected (invalid : u.timeout = .invalid) : Expected u (.error einval)

/-- The result that the waiters come to: all of them have the same deadline. -/
def UnitTest.waiterResult (u : UnitTest) : ℤ := if u.timeout = .invalid then retError else 0

/-- What a waiter has of its wait. -/
def waiterKeeps (u : UnitTest) (ret : ℤ) : Loc → Prop
  | .waiter .load | .waiter (.count _) | .waiter (.wait _) => True
  | .waiter (.store r) => Expected u r
  | .waiter (.countWoken r) => Expected u r ∧ ret = r.ret
  | .waiter (.amend value) => value = u.waiterResult
  | .waiter .lock | .waiter .unlock | .waiter .exit => ret = u.waiterResult
  | _ => False

theorem afterWait_keeps {r : SysResult} (expected : Expected u r) :
    waiterKeeps u r.ret (.waiter (u.afterWait r)) := by
  cases expected with
  | given accepted => exact (if_neg accepted).symm
  | timedOut valid =>
    have timed : u.timed = true := by
      by_contra untimed
      rw [u.timeout_eq_never_iff.mpr (Bool.eq_false_iff.mpr untimed)] at valid
      cases valid
    simp [UnitTest.afterWait, timed, waiterKeeps, waiterResult, valid]
  | rejected invalid =>
    have other : einval ≠ etimedout := by decide
    simp [UnitTest.afterWait, other, waiterKeeps, waiterResult, invalid]

theorem waiterRet_keeps (reach : (machine u).Reachable s) (i : Fin threadMax) :
    (s.thread (.waiter i)).Holds (waiterKeeps u (s.mem (.waiterRet i))) := by
  refine own_invariant (t := .waiter i) (by simp) trivial ?_ reach
  intro s e s' reach step own ready leaves keeps
  have expects := expectsZero reach i
  rw [ready] at expects
  generalize s'.thread (.waiter i) = x at leaves ⊢
  generalize e.pc = l at keeps leaves expects ⊢
  cases l with
  | waiter pc =>
    cases pc with
    | load | count old =>
      cases leaves
      trivial
    | wait old =>
      cases leaves with
      | rejected a v p timeout k invalid => exact .rejected invalid
      | queued a v p timeout k accepted =>
        -- it will find 0, or `ETIMEDOUT` if its timeout ends
        refine ⟨.given accepted, ?_⟩
        intro l' expires
        split_ifs at expires with valid
        · obtain rfl := Option.some.inj expires
          exact .timedOut valid
        · cases expires
      | mismatched a v p timeout k accepted differs =>
        -- nobody has changed `f1` since the waiter read it
        exact absurd ((f1_eq_zero reach).trans expects.symm) differs
    | store r =>
      cases leaves
      exact ⟨keeps, Function.update_self _ _ _⟩
    | countWoken r =>
      cases leaves
      obtain ⟨expected, stored⟩ := keeps
      change waiterKeeps u (Function.update s.mem .waitersWoken _ (.waiterRet i)) _
      rw [Function.update_of_ne (by simp), show s.mem (.waiterRet i) = r.ret from stored]
      exact afterWait_keeps expected
    | amend value =>
      cases leaves
      obtain rfl : value = u.waiterResult := keeps
      exact Function.update_self _ _ _
    | lock =>
      cases leaves with
      | locked => exact keeps
      | blocked => exact ⟨keeps, by simp⟩
    | unlock =>
      cases leaves
      exact keeps
    | exit => cases leaves
  | _ => exact keeps.elim

/-! ## The third party -/

/-- What the third party has of its calls. -/
def blockerKeeps (ret : ℤ) : Loc → Prop
  | .blocker .lock | .blocker .load | .blocker .exit => ret = 0
  | .blocker (.storeLock r) | .blocker (.storeWait r) => r = .ok 0
  | .blocker (.wait expected) => expected = 0
  | .blocker (.unlock r) => r = 0 ∧ ret = 0
  | _ => False

theorem blockerRet_keeps (reach : (machine u).Reachable s) :
    (s.thread .blocker).Holds (blockerKeeps (s.mem .blockerRet)) := by
  refine own_invariant (t := .blocker) (by simp) rfl ?_ reach
  intro s e s' reach step own ready leaves keeps
  have word := wakeComplete_eq_zero reach
  have at_op := fun k : SysResult → Loc =>
    (f2_discipline u).owner_at_op (start_owned u) (start_proper u) (Reachable.faulty reach)
      (k := k) ready
  rw [← own] at ready at_op
  generalize at_pc : e.pc = l at keeps leaves ⊢
  cases l with
  | blocker pc =>
    cases pc with
    | lock =>
      have op : u.program e.thread e.pc = .lockPi .f2 fun r => .blocker (.storeLock r) := by
        rw [own, at_pc]
        rfl
      -- it does not own `f2` yet, so that the call does not fail
      have after := step.locks ready op ((at_op _).2 op)
      rw [own] at after
      rcases after with given | waits
      · rw [given]
        rfl
      · rw [waits]
        exact ⟨rfl, by simp⟩
    | storeLock r =>
      obtain rfl : r = .ok 0 := keeps
      generalize s'.thread .blocker = x at leaves ⊢
      cases leaves
      change Function.update s.mem .blockerRet (SysResult.ok 0).ret .blockerRet = 0
      rw [Function.update_self]
      rfl
    | load =>
      generalize s'.thread .blocker = x at leaves ⊢
      cases leaves
      exact word
    | wait expected =>
      obtain rfl : expected = 0 := keeps
      generalize s'.thread .blocker = x at leaves ⊢
      cases leaves with
      | slept => rfl
      -- the word never changes
      | refused a v k differs => exact absurd word differs
    | storeWait r =>
      obtain rfl : r = .ok 0 := keeps
      generalize s'.thread .blocker = x at leaves ⊢
      cases leaves
      refine ⟨rfl, ?_⟩
      change Function.update s.mem .blockerRet (SysResult.ok 0).ret .blockerRet = 0
      rw [Function.update_self]
      rfl
    | unlock ret =>
      obtain ⟨rfl, zero⟩ := keeps
      have op : u.program e.thread e.pc = .unlockPi .f2 fun r =>
          .blocker (blockerResult 0 r.ret) := by
        rw [own, at_pc]
        rfl
      -- it owns `f2`, so that neither does this one
      have after := step.unlocks ready op ((at_op _).1 op)
      rw [own] at after
      rw [after]
      exact zero
    | setError => exact keeps.elim
    | exit =>
      generalize s'.thread .blocker = x at leaves
      cases leaves
  | _ => exact keeps.elim

/-! ## The waker -/

/-- The result that a waker still carries. -/
def Loc.carries : Loc → Option ℤ
  | .broadcast (.test _ _ ret) | .broadcast (.wake _ ret) | .broadcast (.unlock _ ret)
  | .broadcast (.exit ret) => some ret
  | .signal .poll => some 0
  | .signal (.guard _ _ ret) | .signal (.guardWoken _ _ ret) | .signal (.unlock _ _ ret)
  | .signal (.wake _ ret) | .signal (.exit ret) => some ret
  | _ => none

/-- What it carries is what it has stored. -/
def wakerKeeps (ret : ℤ) (l : Loc) : Prop := ∀ r ∈ l.carries, r = ret

theorem requeuedAll_keeps (taskCount : ℤ) (i : ℕ) (ret : ℤ) :
    wakerKeeps ret (.broadcast (requeuedAll taskCount i ret)) := by
  unfold requeuedAll
  split_ifs <;> simp [wakerKeeps, Loc.carries]

theorem broadcastResult_keeps (taskCount ret : ℤ) :
    wakerKeeps ret (.broadcast (broadcastResult taskCount ret)) := by
  unfold broadcastResult
  split_ifs <;> simp [wakerKeeps, Loc.carries]

theorem requeuedOne_keeps (taskCount : ℤ) (i : ℕ) (ret : ℤ) :
    wakerKeeps ret (.signal (requeuedOne taskCount i ret)) := by
  unfold requeuedOne
  split_ifs <;> simp [wakerKeeps, Loc.carries]

theorem release_keeps (taskCount : ℤ) (i : ℕ) (ret : ℤ) :
    wakerKeeps ret (.signal (u.release taskCount i ret)) := by
  unfold release
  split_ifs
  · simp [wakerKeeps, Loc.carries]
  · exact requeuedOne_keeps taskCount i ret

/-- Where a store leads, the result is what was stored. -/
theorem keeps_store {l : Loc} {v : ℤ} {mem : Cell → ℤ} (keeps : wakerKeeps v l) :
    wakerKeeps (Function.update mem .wakerRet v .wakerRet) l := by
  rwa [Function.update_self]

theorem broadcast_keeps {pc : BroadcastPc} {mem : Cell → ℤ}
    (keeps : wakerKeeps (mem .wakerRet) (.broadcast pc)) :
    (u.broadcastWakerfn pc).Leads mem
      (wakerKeeps ((u.broadcastWakerfn pc).cells mem .wakerRet)) := by
  cases pc with
  | poll =>
    simp only [broadcastWakerfn, Op.Leads]
    split_ifs <;> simp [wakerKeeps, Loc.carries]
  | load taskCount i => simp [broadcastWakerfn, Op.Leads, wakerKeeps, Loc.carries]
  | lock | requeue taskCount i old =>
    intro r
    simp [wakerKeeps, Loc.carries]
  | store taskCount i r => exact keeps_store (requeuedAll_keeps taskCount i r.ret)
  | test taskCount i ret =>
    simp only [broadcastWakerfn, Op.Leads]
    split_ifs
    · simp [wakerKeeps, Loc.carries]
    · exact keeps
  | setError taskCount =>
    refine keeps_store ?_
    simp [wakerKeeps, Loc.carries]
  | wake taskCount ret =>
    obtain rfl : ret = mem .wakerRet := keeps ret rfl
    simp only [broadcastWakerfn, Op.Leads]
    split_ifs
    · exact keeps
    · exact broadcastResult_keeps taskCount _
  | unlock taskCount ret =>
    obtain rfl : ret = mem .wakerRet := keeps ret rfl
    exact fun r => broadcastResult_keeps taskCount _
  | total taskCount =>
    refine keeps_store ?_
    simp [wakerKeeps, Loc.carries]
  | exit ret => trivial

theorem signal_keeps {pc : SignalPc} {mem : Cell → ℤ}
    (keeps : wakerKeeps (mem .wakerRet) (.signal pc)) :
    (u.signalWakerfn pc).Leads mem (wakerKeeps ((u.signalWakerfn pc).cells mem .wakerRet)) := by
  cases pc with
  | poll =>
    simp only [signalWakerfn, Op.Leads]
    split_ifs <;> exact keeps
  | guard taskCount i ret =>
    simp only [signalWakerfn, Op.Leads]
    split_ifs <;> exact keeps
  | guardWoken taskCount i ret =>
    simp only [signalWakerfn, Op.Leads]
    by_cases few : mem .waitersWoken < threadMax
    · rw [if_pos few]
      split_ifs <;> simp [wakerKeeps, Loc.carries]
    · rw [if_neg few]
      exact keeps
  | load taskCount i => simp [signalWakerfn, Op.Leads, wakerKeeps, Loc.carries]
  | lock taskCount i | requeue taskCount i old =>
    intro r
    simp [wakerKeeps, Loc.carries]
  | store taskCount i r =>
    refine keeps_store ?_
    split_ifs
    · simp [wakerKeeps, Loc.carries]
    · exact release_keeps taskCount i r.ret
  | negate taskCount i errno => exact keeps_store (release_keeps taskCount i _)
  | unlock taskCount i ret =>
    obtain rfl : ret = mem .wakerRet := keeps ret rfl
    exact fun r => requeuedOne_keeps taskCount i _
  | setError taskCount =>
    refine keeps_store ?_
    simp [wakerKeeps, Loc.carries]
  | wake taskCount ret =>
    obtain rfl : ret = mem .wakerRet := keeps ret rfl
    simp only [signalWakerfn, Op.Leads]
    split_ifs
    · simp [wakerKeeps, Loc.carries]
    · exact keeps
  | total taskCount =>
    refine keeps_store ?_
    simp [wakerKeeps, Loc.carries]
  | exit ret => trivial

theorem wakerRet_keeps (reach : (machine u).Reachable s) :
    (s.thread .waker).Holds (wakerKeeps (s.mem .wakerRet)) := by
  refine own_invariant (t := .waker) (by simp) ?_ ?_ reach
  · simp only [UnitTest.start]
    cases u.broadcast <;> simp [Status.Holds, wakerKeeps, Loc.carries, Party.retCell]
  · intro s e s' reach step own ready leaves keeps
    refine Op.Leads.of_leaves ?_ leaves
    generalize e.pc = l at keeps leaves ⊢
    cases l with
    | broadcast pc => exact broadcast_keeps keeps
    | signal pc => exact signal_keeps keeps
    | _ => trivial

/-! ## The verdict -/

theorem start_fresh (u : UnitTest) (t : Party) :
    (∃ l, u.start.thread t = .unborn l) ∨ ∃ l, u.start.thread t = .ready l := by
  cases t with
  | main => exact .inr ⟨_, rfl⟩
  | _ => exact .inl ⟨_, rfl⟩

/-- No thread function ends where it begins. -/
theorem start_ne_exit {t : Party} {l : Loc} (first : u.start.thread t = .unborn l) :
    u.program t l ≠ .exit := by
  cases t with
  | main => cases first
  | waker =>
    rw [← Status.unborn.inj first]
    cases u.broadcast <;> simp [UnitTest.program, broadcastWakerfn, signalWakerfn]
  | blocker | waiter i =>
    rw [← Status.unborn.inj first]
    intro ended
    cases ended

/-- A thread that has finished under any kernel, while it does no more than lag, has
finished. -/
theorem finished_of_follows (reach : (machine u).Reachable s)
    {any : Syscalls.State Cell Party Loc Unit} (follows : Follows u.program s any) {t : Party}
    (ended : u.Finished any.loc t) : s.finished u.program t = true := by
  have lags := follows.thread t
  unfold Finished at ended
  rw [Syscalls.State.loc] at ended
  generalize here : s.thread t = x at lags
  generalize any.thread t = y at lags ended
  have exits : ∀ l, u.test.program t l = .exit → u.program t l = .exit := by
    intro l exit
    change (u.program t l).toSyscalls = .exit at exit
    generalize u.program t l = op at exit ⊢
    cases op <;> first | rfl | cases exit
  cases lags with
  | unborn l => exact absurd (exits l ended) (start_ne_exit (unborn_at_start reach here))
  | ready l => exact State.finished_iff.mpr ⟨l, here, exits l ended⟩
  | calling x pc c k op =>
    have ended : (u.program t pc).toSyscalls = .exit := ended
    rw [op] at ended
    cases ended

/-- When main has returned without an early error, its result is combined from those of
threads that have finished. -/
theorem combined_of_exit (fine : ¬ u.EarlyError) (reach : (machine u).Reachable s) {v : ℤ}
    (here : s.thread .main = .ready (.main (.exit v))) :
    ∃ p, v = combined s.mem p ∧ s.finished u.program (.waiter p) = true ∧
      s.finished u.program .waker = true ∧ (s.mem .wakerRet = retError ∨ 0 ≤ s.mem .wakerRet) ∧
      (u.thirdPartyOwner = true → s.finished u.program .blocker = true) := by
  -- the test under any kernel can have come to the same point
  obtain ⟨w, any, run, follows, awake⟩ := exists_anyRun (start_fresh u) reach
  have inv := Inv.run (u := u) run
  have there : any.loc .main = .main (.exit v) := by
    rw [Syscalls.State.loc, awake .main _ here]
    rfl
  rcases inv.main _ there with ⟨early, -⟩ | ⟨p, joined, value⟩
  · exact absurd early fine
  · have settled := (inv.waker_ended joined.waker).1
    rw [follows.mem] at value settled
    refine ⟨p, value, finished_of_follows reach follows (joined.waiters.finished p p.isLt),
      finished_of_follows reach follows joined.waker, ?_,
      fun third => finished_of_follows reach follows (joined.blocker third)⟩
    exact settled.imp id fun some => some.1

/-- The result of a waiter that has finished. -/
theorem waiterRet_eq (reach : (machine u).Reachable s) {i : Fin threadMax}
    (ended : s.finished u.program (.waiter i) = true) :
    s.mem (.waiterRet i) = u.waiterResult := by
  obtain ⟨l, ready, exits⟩ := State.finished_iff.mp ended
  have keeps := waiterRet_keeps reach i
  rw [ready] at keeps
  have keeps : waiterKeeps u (s.mem (.waiterRet i)) l := keeps
  cases l with
  | waiter pc => cases pc <;> first | exact keeps | cases exits
  | _ => exact keeps.elim

/-- The result of the third party is 0, if it has finished or there is none. -/
theorem blockerRet_eq_zero (reach : (machine u).Reachable s)
    (ended : u.thirdPartyOwner = true → s.finished u.program .blocker = true) :
    s.mem .blockerRet = 0 := by
  have keeps := blockerRet_keeps reach
  by_cases third : u.thirdPartyOwner = true
  · obtain ⟨l, ready, exits⟩ := State.finished_iff.mp (ended third)
    rw [ready] at keeps
    have keeps : blockerKeeps (s.mem .blockerRet) l := keeps
    cases l with
    | blocker pc => cases pc <;> first | exact keeps | cases exits
    | _ => exact keeps.elim
  · obtain ⟨l, unborn⟩ := blocker_unborn (Bool.eq_false_iff.mpr third) reach
    obtain rfl := Status.unborn.inj (unborn_at_start reach unborn)
    rw [unborn] at keeps
    exact keeps

/-- A waker that has finished has left its loop with an error exactly if its result is one. -/
theorem failed_iff (reach : (machine u).Reachable s) (ended : s.finished u.program .waker = true) :
    (s.loc .waker).Failed ↔ s.mem .wakerRet < 0 := by
  obtain ⟨l, ready, exits⟩ := State.finished_iff.mp ended
  have keeps := wakerRet_keeps reach
  obtain ⟨w, run⟩ := reach
  obtain ⟨p, at_phase, -⟩ := State.loc_of_holds (waker_phase run)
  have here : s.loc .waker = l := by rw [State.loc, ready]; rfl
  rw [ready] at keeps
  have keeps : wakerKeeps (s.mem .wakerRet) l := keeps
  rw [here] at at_phase ⊢
  cases l with
  | broadcast pc =>
    cases pc with
    | exit ret => rw [← keeps ret rfl]; rfl
    | _ => cases exits
  | signal pc =>
    cases pc with
    | exit ret => rw [← keeps ret rfl]; rfl
    | _ => cases exits
  | _ => exact at_phase.elim

/-- The result of `unit_test` is the error of its waiters or of its waker, if there is one. -/
theorem exit_value (fine : ¬ u.EarlyError) (reach : (machine u).Reachable s) {v : ℤ}
    (here : s.thread .main = .ready (.main (.exit v))) :
    (v = retError ∧ (u.timeout = .invalid ∨ (s.loc .waker).Failed)) ∨
      v = retPass ∧ u.timeout ≠ .invalid ∧ ¬ (s.loc .waker).Failed := by
  obtain ⟨p, value, waiter, waker, settled, blocker⟩ := combined_of_exit fine reach here
  rw [failed_iff reach waker]
  unfold combined at value
  rw [waiterRet_eq reach waiter] at value
  by_cases invalid : u.timeout = .invalid
  · -- the first waiter joined has an error, and main looks no further
    rw [waiterResult, if_pos invalid, if_pos (by decide)] at value
    exact .inl ⟨value, .inl invalid⟩
  · rw [waiterResult, if_neg invalid, if_neg (not_not.mpr rfl)] at value
    split_ifs at value with negative
    · have error : s.mem .wakerRet = retError := settled.resolve_right (by omega)
      rw [error] at value
      exact .inl ⟨value, .inr negative⟩
    · rw [blockerRet_eq_zero reach blocker] at value
      exact .inr ⟨value, invalid, negative⟩

/-- **The verdict on a kernel with PI futexes.** If the clock can be read and all threads can
be created, `unit_test` returns `RET_PASS` or `RET_ERROR`, and an error exactly if the
deadline that it has made of the timeout is malformed or its waker has left its loop with an
error. -/
theorem unitTest_passes_iff (u : UnitTest) (fine : ¬ u.EarlyError)
    (reach : (machine u).Reachable s) {v : ℤ} (here : s.thread .main = .ready (.main (.exit v))) :
    (v = retPass ∨ v = retError) ∧
      (v = retError ↔ u.timeout = .invalid ∨ (s.loc .waker).Failed) := by
  rcases exit_value fine reach here with ⟨error, failed⟩ | ⟨pass, accepted, fine⟩
  · exact ⟨.inr error, iff_of_true error failed⟩
  · refine ⟨.inl pass, iff_of_false ?_ (not_or.mpr ⟨accepted, fine⟩)⟩
    rw [pass]
    exact retError_ne_retPass.symm

/-- All waiters are requeued at once, and each hands `f2` on to the next one. -/
def allRequeued : List (Choice Party) :=
  Choice.ops .main 13 ++ waitersDo 3 ++ Choice.ops .waker 2 ++
    [.run .waker ⟨Finset.univ.image .waiter, some (.waiter 0), none⟩] ++ Choice.ops .waker 4 ++
    (List.finRange threadMax).flatMap (fun i => Choice.ops (.waiter i) 2 ++
      [.run (.waiter i) ⟨∅, if i.val + 1 < threadMax then some (.waiter (i + 1)) else none, none⟩]) ++
    Choice.ops .main 24

/-- They all come through. -/
theorem unitTest_passes_allRequeued : ∃ s v,
    (machine (unitTestWith true false false 0)).Reachable s ∧
    s.thread .main = .ready (.main (.exit v)) ∧ (v = retPass ∨ v = retError) ∧
    (v = retError ↔ (unitTestWith true false false 0).timeout = .invalid ∨
      (s.loc .waker).Failed) := by
  obtain ⟨w, s, run, done⟩ := exists_run (unitTestWith true false false 0).program
    (unitTestWith true false false 0).start allRequeued
    (fun _ s => s.thread .main = .ready (.main (.exit 0))) (by decide +kernel)
  have fine : ¬ (unitTestWith true false false 0).EarlyError := by
    simp [EarlyError, firstRet, unitTestWith, UnitTest.timed, retPass]
  exact ⟨s, 0, run.reachable, done, unitTest_passes_iff _ fine run.reachable done⟩

end RequeuePi
