import Futextest.RequeuePi.Correct

/-!
# Which modes can hang

A test that is not safe hangs in some run, although no call of its waker fails: with a third
party the waker may have finished before that goes to sleep, and a `broadcast_wakerfn` without
a lock may leave a waiter without a timeout behind. All other command lines return, on every
kernel that does not fail a requeue.

## Main definitions

* `UnitTest.MayHang` — some run of the test hangs without an error of its waker
* `runSh` — the command lines of `functional/run.sh`

## Main results

* `options_hang_iff` — the command lines whose test may hang
-/

namespace RequeuePi

open PiFutex UnitTest

variable {u : UnitTest}

/-- Some run of the test ends where nobody can move any more, except by a wait that returns by
itself, although main has not returned and the waker has not failed. -/
def UnitTest.MayHang (u : UnitTest) : Prop :=
  ∃ w s, (machine u).Run w s ∧ (machine u).Stuck (fun e => !e.resumes) s ∧
    s.finished u.program .main = false ∧ ¬ (s.loc .waker).Failed

/-- Only a test with a third party or one that is not safe may hang. -/
theorem unsafe_of_mayHang (fine : u.NoneFails) (hangs : u.MayHang) :
    u.thirdPartyOwner = true ∨ ¬ u.Safe := by
  obtain ⟨w, s, run, stuck, unfinished, not_failed⟩ := hangs
  have idle : (machine u).Stuck counts s := by
    intro e s' step
    simp only [counts, stuck e s' step, Bool.and_false]
  by_contra safe
  push Not at safe
  rcases hangs_of_stuck fine run.reachable idle with ended | hangs
  · rw [unfinished] at ended
    cases ended
  · exact not_failed (failed_of_hangs fine (by simpa using safe.1) safe.2 run hangs)

/-! ## Runs that hang -/

/-- The first `n` waiters wake one after the other, each given `f2` by the one before. -/
def wakeInTurn (n : ℕ) : List (Choice Party) :=
  (List.finRange threadMax).flatMap fun i =>
    if i.val < n then Choice.ops (.waiter i) 2 ++
      [.run (.waiter i) ⟨∅, if i.val + 1 < n then some (.waiter (i + 1)) else none, none⟩]
    else []

/-- The waker moves all waiters, who wake and finish. -/
def movedByWaker (broadcast lock : Bool) : List (Choice Party) :=
  match broadcast, lock with
  | true, false => Choice.ops .waker 2 ++
      [.run .waker ⟨Finset.univ.image .waiter, some (.waiter 0), none⟩] ++
      Choice.ops .waker 4 ++ wakeInTurn threadMax
  | true, true => Choice.ops .waker 3 ++
      [.run .waker ⟨Finset.univ.image .waiter, none, none⟩] ++ Choice.ops .waker 3 ++
      [.run .waker ⟨∅, some (.waiter 0), none⟩] ++ Choice.ops .waker 1 ++ wakeInTurn threadMax
  | false, false => Choice.ops .waker 1 ++ ((List.finRange threadMax).flatMap fun i =>
      Choice.ops .waker 3 ++ [.run .waker ⟨{.waiter i}, some (.waiter i), none⟩] ++
      Choice.ops .waker 1 ++ Choice.ops (.waiter i) 3) ++ Choice.ops .waker 3
  | false, true => Choice.ops .waker 1 ++ ((List.finRange threadMax).flatMap fun i =>
      Choice.ops .waker 4 ++ [.run .waker ⟨{.waiter i}, none, none⟩] ++ Choice.ops .waker 1 ++
      [.run .waker ⟨∅, some (.waiter i), none⟩] ++ Choice.ops (.waiter i) 3) ++
      Choice.ops .waker 3

/-- All waits are refused, and the waker finds nobody to move. -/
def refusedToAll (broadcast lock : Bool) : List (Choice Party) :=
  waitersDo 8 ++ Choice.ops .waker (match broadcast, lock with
    | true, false => 6
    | true, true => 8
    | false, _ => 5)

/-- The third party comes when waiters and waker have finished. -/
def thirdPartyLate (waitersAndWaker : List (Choice Party)) : List (Choice Party) :=
  Choice.ops .main 14 ++ waitersAndWaker ++ Choice.ops .blocker 4 ++ Choice.ops .main 20

/-- The last waiter comes when nine have been moved and the waker has finished. -/
def lastLate : List (Choice Party) :=
  Choice.ops .main 13 ++ waitersDo 2 ++
    (List.finRange (threadMax - 1)).flatMap (fun i => Choice.ops (.waiter i.castSucc) 1) ++
    Choice.ops .waker 2 ++
    [.run .waker ⟨Finset.univ.image fun i : Fin (threadMax - 1) => .waiter i.castSucc,
      some (.waiter 0), none⟩] ++
    wakeInTurn 9 ++ Choice.ops .waker 4 ++ Choice.ops (.waiter 9) 1 ++ Choice.ops .main 19

/-- Where a run leaves the test to hang: nobody can go on, main has not finished, and the waker
has with a count. -/
def LeftHanging (u : UnitTest) (s : RunState) : Prop :=
  (∀ t, s.idle u.program t = true) ∧ s.finished u.program .main = false ∧
    ∃ count ∈ [0, 9, (threadMax : ℤ)],
      s.loc .waker = .broadcast (.exit count) ∨ s.loc .waker = .signal (.exit count)

instance (u : UnitTest) (s : RunState) : Decidable (LeftHanging u s) :=
  inferInstanceAs (Decidable (_ ∧ _ ∧ _))

theorem mayHang_of_choices (cs : List (Choice Party))
    (check : (System.execAll (exec u.program) u.start cs).any (fun x => LeftHanging u x.2) = true) :
    u.MayHang := by
  obtain ⟨w, s, run, idle, unfinished, count, member, waker⟩ :=
    exists_run u.program u.start cs (fun _ s => LeftHanging u s) check
  refine ⟨w, s, run, stuck_of_idle idle, unfinished, ?_⟩
  have nonneg : ¬ count < 0 := by
    simp only [List.mem_cons, List.not_mem_nil, or_false] at member
    omega
  rcases waker with here | here
  · rw [here]
    exact nonneg
  · rw [here]
    exact nonneg

section Timeout

variable {timeoutNs : ℤ} {clock : TimespecWords 64 64}

/-- Timeout and clock do not matter to the program, only whether there is a timeout and
whether its deadline is accepted. -/
theorem program_timeout (u : UnitTest)
    (timed : { u with timeoutNs := timeoutNs, clock := clock }.timed = u.timed)
    (timeout : { u with timeoutNs := timeoutNs, clock := clock }.timeout = u.timeout) :
    { u with timeoutNs := timeoutNs, clock := clock }.program = u.program := by
  funext t l
  cases t with
  | main =>
    cases l with
    | main pc =>
      cases pc with
      | clock => simp only [UnitTest.program, unitTest, timed]
      | _ => rfl
    | _ => rfl
  | waiter i =>
    cases l with
    | waiter pc =>
      cases pc with
      | wait old => simp only [UnitTest.program, waiterfn, timeout]
      | countWoken result => simp only [UnitTest.program, waiterfn, afterWait, timed]
      | _ => rfl
    | _ => rfl
  | _ => cases l <;> rfl

theorem mayHang_timeout (hangs : u.MayHang)
    (timed : { u with timeoutNs := timeoutNs, clock := clock }.timed = u.timed)
    (timeout : { u with timeoutNs := timeoutNs, clock := clock }.timeout = u.timeout) :
    { u with timeoutNs := timeoutNs, clock := clock }.MayHang := by
  have program := program_timeout u timed timeout
  unfold UnitTest.MayHang machine at hangs ⊢
  rw [program]
  exact hangs

/-- Without a timeout the reading of the clock does not matter. -/
theorem mayHang_untimed (hangs : u.MayHang) (untimed : u.timed = false) :
    { u with clock := clock }.MayHang := by
  have never := u.timeout_eq_never_iff.mpr untimed
  have untimed' : { u with clock := clock }.timed = false := untimed
  exact mayHang_timeout hangs rfl
    ((({ u with clock := clock } : UnitTest).timeout_eq_never_iff.mpr untimed').trans never.symm)

end Timeout

/-- A third party that comes late leaves a test hanging whose waits are accepted. -/
theorem thirdParty_mayHang_accepted (broadcast lock timed : Bool) :
    (unitTestWith broadcast lock true timed.toInt).MayHang := by
  apply mayHang_of_choices (thirdPartyLate (waitersDo 3 ++ movedByWaker broadcast lock))
  revert broadcast lock timed
  decide +kernel

/-- And one whose waits are refused. -/
theorem thirdParty_mayHang_refused (broadcast lock : Bool) :
    (unitTestWith broadcast lock true (-1)).MayHang := by
  apply mayHang_of_choices (thirdPartyLate (refusedToAll broadcast lock))
  revert broadcast lock
  decide +kernel

/-- With a third party that comes late the test hangs in all modes. -/
theorem thirdParty_mayHang (broadcast lock : Bool) (timeoutNs : ℤ) (clock : TimespecWords 64 64) :
    { unitTestWith broadcast lock true timeoutNs with clock := clock }.MayHang := by
  by_cases zero : timeoutNs = 0
  · rw [zero]
    exact mayHang_untimed (thirdParty_mayHang_accepted broadcast lock false) rfl
  · -- one run for each thing that the kernel may make of the timeout
    have timed : ({ unitTestWith broadcast lock true timeoutNs with clock := clock } :
        UnitTest).timed = true := by
      simp [UnitTest.timed, unitTestWith, zero]
    cases timeout : ({ unitTestWith broadcast lock true timeoutNs with clock := clock } :
        UnitTest).timeout with
    | never =>
      rw [UnitTest.timeout_eq_never_iff, timed] at timeout
      cases timeout
    | valid =>
      have one : ∀ broadcast lock, (unitTestWith broadcast lock true 1).timeout = .valid := by
        decide
      exact mayHang_timeout (u := unitTestWith broadcast lock true 1)
        (thirdParty_mayHang_accepted broadcast lock true) timed
        (timeout.trans (one broadcast lock).symm)
    | invalid =>
      exact mayHang_timeout (u := unitTestWith broadcast lock true (-1))
        (thirdParty_mayHang_refused broadcast lock) timed timeout

/-- A broadcast waker without a lock leaves a waiter without a timeout behind. -/
theorem broadcast_mayHang : (unitTestWith true false false 0).MayHang :=
  mayHang_of_choices lastLate (by decide +kernel)

/-! ## Command lines -/

/-- **Which command lines may hang.** If its threads can be created, some run of the test with
these options hangs without an error of the waker exactly if there is an `-o`, or a `-b`
without an `-l` and without a timeout. The reading of the clock does not matter. -/
theorem options_hang_iff (line : List CmdOption) (opts : Options)
    (parsed : parseOptions line = some opts) (clock : TimespecWords 64 64) :
    (∃ clockGettime args, (opts.unitTest clockGettime clock (fun _ => 0) args).MayHang) ↔
      .o ∈ line ∨ .b ∈ line ∧ .l ∉ line ∧ opts.timeoutNs = 0 := by
  have broadcast := broadcast_iff parsed
  have owner := owner_iff parsed
  have locked := locked_iff parsed
  constructor
  · rintro ⟨clockGettime, args, hangs⟩
    -- a mode that may hang is not safe
    rcases unsafe_of_mayHang (fun _ _ => rfl) hangs with third | not_safe
    · exact .inl (owner.mp third)
    by_cases third : .o ∈ line
    · exact .inl third
    refine .inr ⟨?_, ?_, ?_⟩
    · by_contra signal
      exact not_safe (.inl (Bool.eq_false_iff.mpr fun b => signal (broadcast.mp b)))
    · intro lock
      exact not_safe (.inr (.inl (locked.mpr ((lockedLast_iff_of_not_mem third).mpr lock))))
    · by_contra timed
      exact not_safe (.inr (.inr (by simp [UnitTest.timed, Options.unitTest, timed])))
  · intro unsafe_line
    refine ⟨0, fun _ => 0, ?_⟩
    change { unitTestWith opts.broadcast opts.locked opts.owner opts.timeoutNs with
      clock := clock }.MayHang
    -- and each of the others has a run that hangs
    by_cases third : .o ∈ line
    · rw [owner.mpr third]
      exact thirdParty_mayHang opts.broadcast opts.locked opts.timeoutNs clock
    · obtain ⟨b, l, untimed⟩ := unsafe_line.resolve_left third
      have unlocked : opts.locked = false := by
        rw [Bool.eq_false_iff]
        exact fun lock => l ((lockedLast_iff_of_not_mem third).mp (locked.mp lock))
      have two : opts.owner = false := by
        rw [Bool.eq_false_iff]
        exact fun o => third (owner.mp o)
      rw [broadcast.mpr b, unlocked, two, untimed]
      exact mayHang_untimed broadcast_mayHang rfl

/-- The command lines of `functional/run.sh` for this test, on a terminal without colors. -/
def runSh : List (List CmdOption) := [
  -- without timeouts
  [], [.b], [.b, .l], [.b, .o], [.l], [.o],
  -- with timeouts
  [.b, .l, .t 5000], [.l, .t 5000], [.b, .l, .t 500000], [.l, .t 500000],
  [.b, .t 5000], [.t 5000], [.b, .t 500000], [.t 500000],
  [.b, .o, .t 5000], [.l, .t 5000], [.b, .o, .t 500000], [.l, .t 500000],
  -- with long timeout
  [.b, .l, .t 2000000000], [.l, .t 2000000000]]

/-- All lines of the script are accepted, and five of them may hang. -/
theorem options_hang_iff_runSh : runSh.Forall fun line => ∃ opts, parseOptions line = some opts ∧
    ((∃ clockGettime args, (opts.unitTest clockGettime ⟨1000, 0⟩ (fun _ => 0) args).MayHang) ↔
      line ∈ [[.b], [.b, .o], [.o], [.b, .o, .t 5000], [.b, .o, .t 500000]]) := by
  have classified : ∀ line ∈ runSh, ((parseOptions line).any fun opts =>
      decide ((.o ∈ line ∨ .b ∈ line ∧ .l ∉ line ∧ opts.timeoutNs = 0) ↔
        line ∈ [[.b], [.b, .o], [.o], [.b, .o, .t 5000], [.b, .o, .t 500000]])) = true := by
    decide
  rw [List.forall_iff_forall_mem]
  intro line member
  obtain ⟨opts, parsed, same⟩ := (Option.any_eq_true _ _).mp (classified line member)
  exact ⟨opts, parsed, (options_hang_iff line opts parsed ⟨1000, 0⟩).trans (of_decide_eq_true same)⟩

end RequeuePi
