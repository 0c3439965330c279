import Futextest.RequeuePi.Wakers

/-!
# The third party

`third_party_blocker` takes `f2` and sleeps on `wake_complete` until the waker is
done with its requeues. The waker wakes it once, and nobody ever changes the word, so
that a wake that comes before the wait is lost.

## Main definitions

* `WakesBlocker` — the condition under which the wake reaches the blocker

## Main results

* `third_party_gets_wakeup` — if the blocker is at its wait or past it when it is
  woken, it is awake from then on and can finish by itself
* `third_party_misses_wakeup` — if it is not, it sleeps when everybody else waits
  for it
-/

namespace RequeuePi

open PiFutex UnitTest

variable {u : UnitTest} {w : List RunEvent} {s s' : RunState} {e : RunEvent}

/-! ## Where the blocker and the waker are -/

/-- Whether `third_party_blocker` is past its wait, or does not come to it any more. -/
def BlockerPc.waited : BlockerPc → Bool
  | .storeWait _ | .unlock _ | .setError | .exit => true
  | _ => false

/-- Whether the blocker is past its wait. A sleeper is: it continues there. -/
def Loc.waited : Loc → Bool
  | .blocker pc => pc.waited
  | _ => false

/-- Whether the waker is about to wake the blocker. -/
def Loc.wakes : Loc → Bool
  | .broadcast (.wake _ _) | .signal (.wake _ _) => true
  | _ => false

/-- Whether the waker has woken the blocker. -/
def Loc.pastWake : Loc → Bool
  | .broadcast (.unlock _ _) | .broadcast (.total _) | .broadcast (.exit _)
  | .signal (.total _) | .signal (.exit _) => true
  | _ => false

/-- Then it has left its loop. -/
theorem gone_of_in {p : Phase} {l : Loc} (at_phase : l.In p) (past : l.pastWake) :
    ∃ count, p = .gone count := by
  cases p with
  | gone count => exact ⟨count, rfl⟩
  | looping n | givingUp =>
    cases l with
    | broadcast pc | signal pc =>
      cases pc <;> first | exact absurd past Bool.false_ne_true | exact at_phase.elim
    | _ => exact at_phase.elim
  | waking count =>
    cases l with
    | broadcast pc | signal pc =>
      cases count <;> cases pc <;>
        first | exact absurd past Bool.false_ne_true | exact at_phase.elim
    | _ => exact at_phase.elim

/-- A waker that is about to wake the blocker does so. -/
theorem wakes_of_in {count : Option ℕ} {l : Loc} (at_phase : l.In (.waking count)) :
    l.wakes ∧ ∃ k, u.program .waker l = .wake .wakeComplete 1 k := by
  cases l with
  | broadcast pc | signal pc =>
    cases pc <;> first
      | exact ⟨rfl, _, rfl⟩
      | (cases count <;> exact at_phase.elim)
  | _ => exact at_phase.elim

/-- Only the blocker sleeps. -/
theorem program_wait {t : Party} {l : Loc} {a : Cell} {v : ℤ} {k : SysResult → Loc}
    (op : u.program t l = .wait a v k) : t = .blocker ∧ a = .wakeComplete := by
  revert op
  refine program_cases u (P := fun t _ op => op = .wait a v k → t = .blocker ∧ a = .wakeComplete)
    ?_ ?_ ?_ ?_ ?_ ?_ t l
  · intro pc op
    have none := unitTest_isFutex (u := u) pc
    rw [op] at none
    cases none
  · intro pc op
    cases pc <;> cases op
    exact ⟨rfl, rfl⟩
  · intro pc op
    cases pc <;> cases op
  · intro pc op
    cases pc <;> cases op
  · intro i pc op
    cases pc <;> cases op
  · rintro t l ⟨⟩

/-- The blocker is queued for `f2` by its first statement. -/
theorem queued_blocker (reach : (machine u).Reachable s) {q : Queue Cell PiWord} {l : Loc}
    {x : Option Loc} (queued : s.thread .blocker = .queued q l x) :
    l = .blocker (.storeLock (.ok 0)) := by
  cases queuedBy (fun t => (start_awake t).2) reach queued with
  | lock pc p k op =>
    cases pc with
    | blocker pc =>
      cases pc <;> simp [UnitTest.program, thirdPartyBlocker] at op
      obtain ⟨-, rfl⟩ := op
      rfl
    | _ => simp [UnitTest.program] at op
  | wait pc a v p timeout k op | requeued pc a v p timeout k op =>
    obtain ⟨⟨i, waiter⟩, -⟩ := program_waitRequeuePi op
    simp at waiter

/-- Only the blocker sleeps, at its wait on `wake_complete`. -/
theorem sleeper_waited (reach : (machine u).Reachable s) {t : Party} {a : Cell} {l : Loc}
    (asleep : s.thread t = .asleep a l) : t = .blocker ∧ a = .wakeComplete := by
  obtain ⟨pc, v, k, op, -⟩ := asleep_at_wait (fun t => (start_awake t).1) reach asleep
  exact program_wait op

/-- So there is never more than one sleeper. -/
theorem card_sleepers (reach : (machine u).Reachable s) :
    (s.sleepers .wakeComplete).card ≤ 1 := by
  have subset : s.sleepers .wakeComplete ⊆ {.blocker} := by
    intro t sleeper
    obtain ⟨l, asleep⟩ := s.mem_sleepers.mp sleeper
    rw [Finset.mem_singleton]
    exact (sleeper_waited reach asleep).1
  exact Finset.card_le_card subset

/-! ## The wake -/

/-- The condition under which the wake reaches the blocker: when the waker wakes it,
it sleeps or is past its wait. -/
def WakesBlocker (s : RunState) (e : RunEvent) : Prop :=
  e.pc.wakes → (s.loc .blocker).waited

instance (s : RunState) (e : RunEvent) : Decidable (WakesBlocker s e) :=
  inferInstanceAs (Decidable (_ → _))

/-- The blocker is awake past its wait. -/
def BlockerUp (s : RunState) : Prop :=
  ∃ pc : BlockerPc, s.thread .blocker = .ready (.blocker pc) ∧ pc.waited

/-- How many statements the blocker has to go. -/
def BlockerPc.remaining : BlockerPc → ℕ
  | .exit => 0
  | .setError => 1
  | .unlock _ => 2
  | .storeWait _ => 3
  | _ => 4

theorem blockerResult_waited (ret ret2 : ℤ) :
    (blockerResult ret ret2).waited ∧ (blockerResult ret ret2).remaining ≤ 1 := by
  unfold blockerResult
  split <;> simp [BlockerPc.waited, BlockerPc.remaining]

/-- Past its wait the blocker goes on to its exit, whatever the others do. -/
theorem leaves_waited {pc : BlockerPc} (waited : pc.waited) {mem : Cell → ℤ}
    {y : Status Cell PiWord Loc} (leaves : (thirdPartyBlocker pc).Leaves mem y) :
    ∃ pc' : BlockerPc, y = .ready (.blocker pc') ∧ pc'.waited ∧ pc'.remaining < pc.remaining := by
  cases pc with
  | storeWait result =>
    cases leaves
    exact ⟨_, rfl, rfl, Nat.lt_succ_self 2⟩
  | unlock ret =>
    cases leaves with
    | unlocked p k r =>
      obtain ⟨waited, few⟩ := blockerResult_waited ret r.ret
      exact ⟨_, rfl, waited, Nat.lt_succ_of_le few⟩
  | setError =>
    cases leaves
    exact ⟨_, rfl, rfl, Nat.lt_succ_self 0⟩
  | exit => cases leaves
  | _ => simp [BlockerPc.waited] at waited

theorem blockerUp_of_step (step : Step u.program s e s') (up : BlockerUp s) : BlockerUp s' := by
  obtain ⟨pc, ready, waited⟩ := up
  by_cases self : .blocker = e.thread
  · rcases step.active with ⟨here, leaves⟩ | ⟨a, asleep, -⟩ | ⟨q, x, queued, -⟩
    · rw [← self] at here leaves
      rw [ready] at here
      rw [← Status.ready.inj here] at leaves
      obtain ⟨pc', after, waited', -⟩ := leaves_waited waited leaves
      exact ⟨pc', after, waited'⟩
    · rw [← self, ready] at asleep
      simp at asleep
    · rw [← self, ready] at queued
      simp at queued
  · have passive := step.passive self
    rw [ready] at passive
    refine ⟨pc, ?_, waited⟩
    generalize s'.thread .blocker = y at passive ⊢
    cases passive
    rfl

/-- Under the condition the wake leaves the blocker awake past its wait. -/
theorem blockerUp_of_wake (reach : (machine u).Reachable s) (step : Step u.program s e s')
    (waker : e.thread = .waker) (ready : s.thread .waker = .ready e.pc) {k : Loc}
    (wake : u.program .waker e.pc = .wake .wakeComplete 1 k)
    (waited : (s.loc .blocker).waited) : BlockerUp s' := by
  have other : Party.blocker ≠ e.thread := by simp [waker]
  have after := step.loc_other other
  -- the step moves the waker only, so that it is enough that the blocker is awake
  suffices up : ∃ l, s'.thread .blocker = .ready l by
    obtain ⟨l, up⟩ := up
    have here : s'.loc .blocker = l := by simp [State.loc, up]
    rw [← after, here] at waited
    cases l with
    | blocker pc => exact ⟨pc, up, waited⟩
    | _ => simp [Loc.waited] at waited
  cases blocker : s.thread .blocker with
  | unborn l =>
    have initial := unborn_at_start reach blocker
    have here : s.loc .blocker = l := by simp [State.loc, blocker]
    rw [here] at waited
    simp only [UnitTest.start, Status.unborn.injEq] at initial
    rw [← initial] at waited
    simp [Loc.waited, BlockerPc.waited] at waited
  | ready l =>
    have passive := step.passive other
    rw [blocker] at passive
    refine ⟨l, ?_⟩
    generalize s'.thread .blocker = y at passive ⊢
    cases passive
    rfl
  | asleep a l =>
    -- nobody else sleeps there, so that the one wake reaches it
    obtain ⟨-, rfl⟩ := sleeper_waited reach blocker
    rw [← waker] at ready wake
    exact ⟨l, step.wakes ready wake (card_sleepers reach) blocker⟩
  | queued q l x =>
    have here : s.loc .blocker = l := by simp [State.loc, blocker]
    rw [here] at waited
    rw [queued_blocker reach blocker] at waited
    simp [Loc.waited, BlockerPc.waited] at waited

/-- If the wakes after loops that end in one of the ways `Q` reach the blocker, it is
awake past its wait once such a loop is over and the waker has woken it. -/
theorem blockerUp_or_not_gone {P : RunState → RunEvent → Prop} {Q : Option ℕ → Prop}
    (reaches : ∀ s e count, P s e → Q count → e.pc.In (.waking count) →
      (s.loc .blocker).waited)
    (run : ((machine u).restrict P).Run w s) :
    BlockerUp s ∨ WakerIn s fun p => ∀ count, p = .gone count → ¬ Q count := by
  refine wakerIn_until (fun n _ => nofun) (fun s e s' _ => blockerUp_of_step) ?_ run
  intro w s e s' p p' before step met waker ready at_phase not_gone move
  cases move with
  | wake count =>
    by_cases wanted : Q count
    · right
      obtain ⟨-, k, wake⟩ := wakes_of_in at_phase
      exact blockerUp_of_wake before.reachable step waker ready wake
        (reaches s e count met wanted at_phase)
    · left
      intro count' same
      rwa [← Phase.gone.inj same]
  | rest count => exact .inl not_gone
  | loop n | exit n ended | giveUp n | error => exact .inl fun _ => nofun

/-- Past its wait the blocker has finished or can take a step that brings it nearer to
its exit. -/
theorem finished_or_step {pc : BlockerPc} (ready : s.thread .blocker = .ready (.blocker pc))
    (waited : pc.waited) :
    s.finished u.program .blocker ∨
    ∃ e s' pc', Step u.program s e s' ∧ e.thread = .blocker ∧
      s'.thread .blocker = .ready (.blocker pc') ∧ pc'.waited ∧ pc'.remaining < pc.remaining := by
  by_cases ended : pc = .exit
  · left
    subst ended
    simp [State.finished, ready, UnitTest.program, thirdPartyBlocker]
  · right
    have immediate : (u.program .blocker (.blocker pc)).immediate := by
      cases pc with
      | exit => exact absurd rfl ended
      | _ => rfl
    obtain ⟨access, s', step⟩ := exists_step ready immediate
    rcases step.active with ⟨-, leaves⟩ | ⟨a, asleep, -⟩ | ⟨q, x, queued, -⟩
    · obtain ⟨pc', after, waited', fewer⟩ := leaves_waited waited leaves
      exact ⟨_, s', pc', step, rfl, after, waited', fewer⟩
    · simp [ready] at asleep
    · simp [ready] at queued

/-- From there it can finish without the others. -/
theorem blocker_finishes (n : ℕ) {pc : BlockerPc} (ready : s.thread .blocker = .ready (.blocker pc))
    (waited : pc.waited) (few : pc.remaining < n) :
    ∃ s', ((machine u).restrict fun _ e => e.thread = .blocker).Later s s' ∧
      s'.finished u.program .blocker := by
  induction n generalizing s pc with
  | zero => omega
  | succ n ih =>
    rcases finished_or_step ready waited with finished |
      ⟨e, s₁, pc₁, step, self, after, waited₁, less⟩
    · exact ⟨s, .refl, finished⟩
    · obtain ⟨s', later, finished⟩ := ih after waited₁ (by omega)
      exact ⟨s', .head ⟨e, step, self⟩ later, finished⟩

/-- Under the condition the third party never misses its wakeup: once the waker has
woken it, it is not asleep, and it can unlock `f2` and finish by itself, so that main
can join it. -/
theorem third_party_gets_wakeup (run : ((machine u).restrict WakesBlocker).Run w s)
    (past : (s.loc .waker).pastWake) :
    (∀ a l, s.thread .blocker ≠ .asleep a l) ∧
    ∃ s', ((machine u).restrict fun _ e => e.thread = .blocker).Later s s' ∧
      s'.finished u.program .blocker := by
  have up : BlockerUp s := by
    rcases blockerUp_or_not_gone (Q := fun _ => True)
      (fun s e count met _ at_phase => met (wakes_of_in (u := u) at_phase).1) run with up | not_gone
    · exact up
    · obtain ⟨p, at_phase, not_gone⟩ := State.loc_of_holds not_gone
      obtain ⟨count, gone⟩ := gone_of_in at_phase past
      exact absurd trivial (not_gone count gone)
  obtain ⟨pc, ready, waited⟩ := up
  refine ⟨?_, blocker_finishes _ ready waited (Nat.lt_succ_self _)⟩
  intro a l asleep
  rw [ready] at asleep
  simp at asleep

/-- Every thread is created, the third party owns `f2`, and all waiters are moved. -/
def ownedByThirdParty : List (Choice Party) :=
  Choice.ops .main 14 ++ Choice.ops .blocker 3 ++ waitersDo 3 ++ Choice.ops .waker 2 ++
    [.run .waker ⟨Finset.univ.image .waiter, none, none⟩] ++ Choice.ops .waker 2

/-- The third party sleeps before it is woken. -/
theorem third_party_gets_wakeup_asleep : ∃ w s,
    ((machine (unitTestWith true false true 0)).restrict WakesBlocker).Run w s ∧
    (s.loc .waker).pastWake ∧ (∀ a l, s.thread .blocker ≠ .asleep a l) ∧
    ∃ s', ((machine (unitTestWith true false true 0)).restrict fun _ e =>
        e.thread = .blocker).Later s s' ∧
      s'.finished (unitTestWith true false true 0).program .blocker := by
  obtain ⟨w, s, run, past⟩ := exists_run_restrict (unitTestWith true false true 0).program
    (unitTestWith true false true 0).start WakesBlocker
    (ownedByThirdParty ++ Choice.ops .blocker 1 ++
      [.run .waker ⟨{.blocker}, none, none⟩])
    (fun _ s => (s.loc .waker).pastWake) (by decide +kernel)
  exact ⟨w, s, run, past, third_party_gets_wakeup run past⟩

/-- The wake comes first: the third party sleeps although the waker has finished, and
all waiters wait for the PI futex that it owns. -/
theorem third_party_misses_wakeup : ∃ s,
    (machine (unitTestWith true false true 0)).Reachable s ∧
    s.thread .waker = .ready (.broadcast (.exit threadMax)) ∧
    s.thread .blocker = .asleep .wakeComplete (.blocker (.storeWait (.ok 0))) ∧
    s.owner .f2 = some .blocker ∧ ∀ i, .waiter i ∈ s.queue (.pi .f2) := by
  obtain ⟨w, s, run, done⟩ := exists_run (unitTestWith true false true 0).program
    (unitTestWith true false true 0).start
    (ownedByThirdParty ++ Choice.ops .waker 2 ++ Choice.ops .blocker 1)
    (fun _ s => s.thread .waker = .ready (.broadcast (.exit threadMax)) ∧
      s.thread .blocker = .asleep .wakeComplete (.blocker (.storeWait (.ok 0))) ∧
      s.owner .f2 = some .blocker ∧ ∀ i, .waiter i ∈ s.queue (.pi .f2)) (by decide +kernel)
  exact ⟨s, run.reachable, done⟩

end RequeuePi
