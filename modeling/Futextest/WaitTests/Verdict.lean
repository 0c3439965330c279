import Futextest.FunctionalTest
import Futextest.WaitTests

/-!
# The verdicts of the tests of `futex_wait`

`futex_wait_private_mapped_file` keeps what `pthread_create` returned in `ret`, which a
wake may leave as it is, and nothing of what its waiter has found goes into its verdict.
`futex_wait_uninitialized_heap` reads `child_ret` without joining the child, which may be
about to write it. The other two have one thread and one call.

## Main definitions

* `PrivateMappedFile.test`, `UninitializedHeap.test`, `WaitTimeout.test`,
  `WaitWouldblock.test` — the tests with their diagnostics
* `UninitializedHeap.ReadsEarly` — main reads a result that is still to be written

## Main results

* `documentedWhen` and `heededWhen` of each test — in which runs the verdict is a
  documented one, and in which every diagnostic shows in it
-/

open Syscalls

namespace PrivateMappedFile

/-! ## futex_wait_private_mapped_file.c -/

/-- Whether `error()` or `fail()` is called at a control point. -/
def diagnoses : Loc → Bool
  | .main .wakeFailed | .waiter .failed | .waiter .timedOut => true
  | _ => false

/-- The test, whose verdict main prints. -/
def test (pthreadCreate : ℤ) : FunctionalTest Cell Call Party Loc where
  program := program pthreadCreate
  start := start
  main := .main
  verdict
    | .main (.exit ret) => some ret
    | _ => none
  diagnoses := diagnoses

/-- The results of main's wakes. -/
def wakes (w : List TestEvent) : List SysResult := returns .main (· = .wake) w

/-- The results of the waiter's waits. -/
def waits (w : List TestEvent) : List SysResult := returns .waiter (· = .wait) w

/-- A wait has ended with its timeout. -/
def TimedOut (r : SysResult) : Prop := r.ret ≠ 0 ∧ r.errno = etimedout

/-- What the waiter has of its wait. -/
def WaiterPhase (results : List SysResult) (diagnosed : Prop) : WaiterPc → Prop
  | .wait => results = [] ∧ ¬ diagnosed
  | .failed | .quit => True
  | .timedOut => ∃ r, results = [r] ∧ TimedOut r
  | .exit => ∃ r, results = [r] ∧ (diagnosed ↔ TimedOut r)

/-- What main has found out, with the waiter at `c`. -/
def MainPhase (pthreadCreate : ℤ) (wakes : List SysResult) (diagnosed : Prop) (c : WaiterPc) :
    MainPc → Prop
  | .create => wakes = [] ∧ ¬ diagnosed
  | .store ret | .wake ret => ret = pthreadCreate ∧ wakes = [] ∧ ¬ diagnosed ∧ 0 ≤ pthreadCreate
  | .wakeFailed => ¬ Woken wakes
  | .join ret =>
      ret = retFail ∧ ¬ Woken wakes ∨
        ret = pthreadCreate ∧ Woken wakes ∧ ¬ diagnosed ∧ 0 ≤ pthreadCreate
  | .exit v =>
      (v = retError ∨ v = retFail) ∧ ¬ Woken wakes ∨
        v = pthreadCreate ∧ Woken wakes ∧ ¬ diagnosed ∧ 0 ≤ pthreadCreate ∧
          (pthreadCreate = 0 → c = .exit)

variable {pthreadCreate : ℤ} {results : List SysResult} {diagnosed : Prop}
  {mem mem' : Cell → ℤ} {loc : Party → Loc} {access : Access Cell Call Party} {l' : Loc}
  {w : List TestEvent}

theorem WaiterPhase.next {c : WaiterPc} (phase : WaiterPhase results diagnosed c)
    (next : (thrFutexWait c).Next (program pthreadCreate) mem loc access mem' l') :
    ∃ c', l' = .waiter c' ∧
      WaiterPhase
        (results ++
          (Event.returned .waiter (· = .wait) (⟨.waiter, .waiter c, access⟩ : TestEvent)).toList)
        (diagnosed ∨ diagnoses (.waiter c) = true) c' := by
  cases c with
  | wait =>
    obtain ⟨none, quiet⟩ := phase
    cases next with
    | leave c k r =>
      refine ⟨_, rfl, ?_⟩
      rw [none]
      unfold waited
      -- an error ends the process, a timeout is reported, and all else is fine
      split_ifs with failed late
      · exact trivial
      · exact ⟨r, rfl, late⟩
      · have fine : ¬ TimedOut r := late
        exact ⟨r, rfl, by simp [quiet, fine, diagnoses]⟩
  | failed =>
    cases next
    exact ⟨_, rfl, trivial⟩
  | quit => cases next
  | timedOut =>
    obtain ⟨r, one, late⟩ := phase
    cases next
    exact ⟨_, rfl, r, by simp [Event.returned, one], by simp [diagnoses, late]⟩
  | exit => cases next

theorem MainPhase.next {m : MainPc} {c : WaiterPc} (there : loc .waiter = .waiter c)
    (phase : MainPhase pthreadCreate results diagnosed c m)
    (next : (main pthreadCreate m).Next (program pthreadCreate) mem loc access mem' l') :
    ∃ m', l' = .main m' ∧
      MainPhase pthreadCreate
        (results ++
          (Event.returned .main (· = .wake) (⟨.main, .main m, access⟩ : TestEvent)).toList)
        (diagnosed ∨ diagnoses (.main m) = true) c m' := by
  cases m with
  | create =>
    obtain ⟨none, quiet⟩ := phase
    unfold main at next
    dsimp only at next
    -- `pthread_create` has returned 0, a negative or a positive number
    split_ifs at next with zero negative
    · cases next
      exact ⟨_, rfl, by simp [MainPhase, Event.returned, diagnoses, none, quiet, zero]⟩
    · cases next
      exact ⟨_, rfl, .inl ⟨.inl rfl, by simpa [Event.returned, none] using not_woken_nil⟩⟩
    · cases next
      refine ⟨_, rfl, ?_⟩
      simp [MainPhase, Event.returned, diagnoses, none, quiet, Int.not_lt.mp negative]
  | store ret =>
    cases next
    exact ⟨_, rfl, by simpa [MainPhase, Event.returned, diagnoses] using phase⟩
  | wake ret =>
    obtain ⟨same, none, quiet, created⟩ := phase
    cases next with
    | leave c k r =>
      refine ⟨_, rfl, ?_⟩
      rw [none]
      -- anything but one thread woken is a failure
      split_ifs with other
      · exact fun woken => other (woken_singleton.mp woken)
      · have one := woken_singleton.mpr (not_not.mp other)
        exact .inr ⟨same, one, by simpa [diagnoses] using quiet, created⟩
  | wakeFailed =>
    have nobody : ¬ Woken results := phase
    cases next
    exact ⟨_, rfl, .inl ⟨rfl, by simpa [Event.returned] using nobody⟩⟩
  | join ret =>
    unfold main at next
    dsimp only at next
    split_ifs at next with created
    · cases next with
      | join v k ended =>
        rw [there] at ended
        -- a waiter that was joined has ended
        have done : c = .exit := by
          cases c with
          | exit => rfl
          | _ => cases ended
        refine ⟨_, rfl, ?_⟩
        rcases phase with ⟨fail, nobody⟩ | ⟨same, woken, quiet, some⟩
        · exact .inl ⟨.inr fail, by simpa [Event.returned] using nobody⟩
        · exact .inr ⟨same, by simpa [Event.returned] using woken, by simpa [diagnoses] using quiet,
            some, fun _ => done⟩
    · cases next
      refine ⟨_, rfl, ?_⟩
      rcases phase with ⟨fail, nobody⟩ | ⟨same, woken, quiet, some⟩
      · exact .inl ⟨.inr fail, by simpa [Event.returned] using nobody⟩
      · exact .inr ⟨same, by simpa [Event.returned] using woken, by simpa [diagnoses] using quiet,
          some, fun zero => absurd zero created⟩
  | exit ret => cases next

/-- A waiter that goes on has not finished yet, so that main has not joined it. -/
theorem MainPhase.frame {m : MainPc} {c c' : WaiterPc} (running : c ≠ .exit)
    (phase : MainPhase pthreadCreate results diagnosed c m) :
    MainPhase pthreadCreate results diagnosed c' m := by
  cases m with
  | exit v =>
    rcases phase with error | ⟨same, woken, quiet, some, done⟩
    · exact .inl error
    · exact .inr ⟨same, woken, quiet, some, fun zero => absurd (done zero) running⟩
  | _ => exact phase

theorem diagnoses_of_call {t : Party} {l : Loc} {c : Call} {k : SysResult → Loc}
    (op : program pthreadCreate t l = .call c k) : diagnoses l = false := by
  cases t with
  | main =>
    cases l with
    | main m => cases m <;> first | rfl | cases op
    | waiter c => cases op
  | waiter =>
    cases l with
    | main m => cases op
    | waiter c => cases c <;> first | rfl | cases op

/-- What is known of the two threads together. -/
def Phases (pthreadCreate : ℤ) (w : List TestEvent) (m : MainPc) (c : WaiterPc) : Prop :=
  MainPhase pthreadCreate (wakes w) ((test pthreadCreate).DiagnosedBy w .main) c m ∧
    WaiterPhase (waits w) ((test pthreadCreate).DiagnosedBy w .waiter) c

/-- There is no third thread. -/
theorem pair (t : Party) : t = .main ∨ t = .waiter := by cases t <;> simp

theorem phases {s : State Cell Party Loc Unit} (run : (test pthreadCreate).anyMachine.Run w s) :
    ∃ m c, s.loc .main = .main m ∧ s.loc .waiter = .waiter c ∧ Phases pthreadCreate w m c := by
  refine FunctionalTest.pair_induction (test pthreadCreate) .main .waiter Loc.main Loc.waiter
    (P := fun w _ => Phases pthreadCreate w) pair (by simp)
    .create .wait rfl rfl ?_ ?_ ?_ ?_ run
  · exact ⟨⟨rfl, FunctionalTest.not_diagnosedBy_nil⟩, rfl, FunctionalTest.not_diagnosedBy_nil⟩
  · intro w mem m c t l call k op before
    -- the entry of a call returns nothing and is no diagnostic
    have quiet := diagnoses_of_call op
    unfold Phases wakes waits
    rw [propext (FunctionalTest.diagnosedBy_append_of_false _ quiet),
      propext (FunctionalTest.diagnosedBy_append_of_false _ quiet),
      returns_append_of_none (returned_of_silent (.inr ⟨call, rfl⟩)),
      returns_append_of_none (returned_of_silent (.inr ⟨call, rfl⟩))]
    exact before
  · rintro w mem loc m c access mem' l' there ⟨phase, waiter⟩ next
    obtain ⟨m', goes, after⟩ := phase.next there next
    refine ⟨m', goes, ?_⟩
    unfold Phases wakes waits
    rw [propext FunctionalTest.diagnosedBy_append_self, returns_append,
      propext (FunctionalTest.diagnosedBy_append_of_ne (by simp)),
      returns_append_of_none (returned_of_ne (by simp))]
    exact ⟨after, waiter⟩
  · rintro w mem loc m c access mem' l' here ⟨phase, waiter⟩ next
    obtain ⟨c', goes, after⟩ := waiter.next next
    refine ⟨c', goes, ?_⟩
    unfold Phases wakes waits
    rw [propext (FunctionalTest.diagnosedBy_append_of_ne (by simp)),
      returns_append_of_none (returned_of_ne (by simp)),
      propext FunctionalTest.diagnosedBy_append_self, returns_append]
    -- a waiter that takes a step has not been joined
    refine ⟨phase.frame ?_, after⟩
    rintro rfl
    cases next

/-- Main shows its verdict at its end only. -/
theorem exit_of_verdict (m : MainPc) (v : ℤ)
    (verdict : (test pthreadCreate).verdict (.main m) = some v) : m = .exit v := by
  cases m with
  | exit ret =>
    cases verdict
    rfl
  | _ => cases verdict

theorem phases_of_prints {s : State Cell Party Loc Unit} {v : ℤ}
    (prints : (test pthreadCreate).Prints w s v) :
    ∃ c, s.loc .main = .main (.exit v) ∧ s.loc .waiter = .waiter c ∧
      Phases pthreadCreate w (.exit v) c := by
  exact FunctionalTest.pair_of_prints (P := fun w _ => Phases pthreadCreate w) exit_of_verdict
    (fun w s run => phases run) prints

/-- No thread could be created, and yet the wake has woken one. -/
def WokenWithoutThread (pthreadCreate : ℤ) (w : List TestEvent) : Prop :=
  0 < pthreadCreate ∧ Woken (wakes w)

/-- The wait has ended with its timeout, and yet the wake has woken the waiter. -/
def WokenAfterTimeout (pthreadCreate : ℤ) (w : List TestEvent) : Prop :=
  pthreadCreate = 0 ∧ Woken (wakes w) ∧ ∃ r ∈ waits w, TimedOut r

/-- The verdict is a documented one unless that happens. -/
theorem documentedWhen (pthreadCreate : ℤ) :
    (test pthreadCreate).DocumentedWhen fun w => ¬ WokenWithoutThread pthreadCreate w := by
  intro w s v prints
  obtain ⟨c, -, -, ⟨error, nobody⟩ | ⟨same, woken, -, created, -⟩, -⟩ := phases_of_prints prints
  · refine iff_of_true ?_ fun without => nobody without.2
    rcases error with rfl | rfl
    · exact documented_retError
    · exact documented_retFail
  · -- the verdict is the error number, which is a documented one only if it is zero
    rw [same]
    unfold Documented WokenWithoutThread retPass retError retFail
    constructor
    · rintro documented ⟨positive, -⟩
      omega
    · intro without
      have zero : ¬ 0 < pthreadCreate := fun positive => without ⟨positive, woken⟩
      omega

/-- Every diagnostic shows in the verdict unless this happens. -/
theorem heededWhen (pthreadCreate : ℤ) :
    (test pthreadCreate).HeededWhen fun w => ¬ WokenAfterTimeout pthreadCreate w := by
  intro w s v prints
  obtain ⟨c, here, there, ⟨error, nobody⟩ | ⟨same, woken, quiet, created, joined⟩, waiter⟩ :=
    phases_of_prints prints
  · refine iff_of_true (fun _ => ?_) fun late => nobody late.2.1
    rcases error with rfl | rfl
    · exact retError_ne_retPass
    · exact retFail_ne_retPass
  · by_cases zero : pthreadCreate = 0
    · have done := joined zero
      subst done
      obtain ⟨r, one, diagnosed⟩ := waiter
      -- main has no diagnostic, and the verdict is a pass
      have only : (test pthreadCreate).Diagnosed w s ↔ TimedOut r := by
        rw [← diagnosed, FunctionalTest.diagnosed_pair_iff pair (by rw [here]; rfl)
          (by rw [there]; rfl)]
        exact or_iff_right quiet
      have pass : v = retPass := same.trans zero
      dsimp only
      rw [only, WokenAfterTimeout, one]
      constructor
      · rintro shows ⟨-, -, r', member, late⟩
        rw [List.mem_singleton.mp member] at late
        exact shows late pass
      · intro never late
        exact absurd ⟨zero, woken, r, List.mem_singleton_self r, late⟩ never
    · refine iff_of_true ?_ fun late => zero late.1
      intro _ pass
      exact zero (same.symm.trans pass)

end PrivateMappedFile

namespace UninitializedHeap

/-! ## futex_wait_uninitialized_heap.c -/

/-- Whether `error()` or `fail()` is called at a control point. -/
def diagnoses : Loc → Bool
  | .main .createFailed | .main .blocked | .child .failed => true
  | _ => false

/-- The test, whose verdict main prints. -/
def test (pthreadCreate : ℤ) : FunctionalTest Cell Call Party Loc where
  program := program pthreadCreate
  start := start
  main := .main
  verdict
    | .main (.exit ret) => some ret
    | _ => none
  diagnoses := diagnoses

/-- The child has cleared `child_blocked` after a wait that failed. -/
def Failing (w : List TestEvent) : Prop :=
  ∃ r, Fails r ∧ (⟨.child, .child (.unblock r), .store .childBlocked 0⟩ : TestEvent) ∈ w

/-- Main reads `child_ret` when the child has cleared `child_blocked` after a wait that
failed, and has yet to report that. -/
def ReadsEarly (pthreadCreate : ℤ) (w : List TestEvent) : Prop :=
  HappensWhen (fun early e => e.pc = .main .readRet ∧ Failing early ∧
    ¬ (test pthreadCreate).DiagnosedBy early .child) w

/-- How far the child is with its report. -/
def ChildPhase (failing reported : Prop) (blocked ret : ℤ) : ChildPc → Prop
  | .init | .wait | .unblock _ => ¬ failing ∧ ¬ reported ∧ blocked ≠ 0 ∧ ret = retPass
  | .failed => failing ∧ ¬ reported ∧ ret = retPass
  | .exit => failing ∧ reported ∧ ret = retError ∨ ¬ failing ∧ ¬ reported ∧ ret = retPass

/-- The child has cleared `child_blocked`. -/
def ChildPc.unblocked : ChildPc → Bool
  | .failed | .exit => true
  | _ => false

/-- What main has found out, with the child at `c`. -/
def MainPhase (early failing diagnosed : Prop) (c : ChildPc) : MainPc → Prop
  | .create | .test => ¬ early ∧ ¬ diagnosed
  | .createFailed | .blocked => ¬ early
  | .readRet => ¬ early ∧ ¬ diagnosed ∧ c.unblocked = true
  | .exit v =>
      ¬ early ∧ (v = retError ∨ v = retFail) ∨
        early ∧ v = retPass ∧ failing ∧ c.unblocked = true ∨
        ¬ early ∧ v = retPass ∧ ¬ failing ∧ ¬ diagnosed ∧ c = .exit

variable {pthreadCreate : ℤ} {early failing reported diagnosed : Prop} {mem mem' : Cell → ℤ}
  {loc : Party → Loc} {access : Access Cell Call Party} {l l' : Loc} {w : List TestEvent}
  {e : TestEvent}

theorem failing_append :
    Failing (w ++ [e]) ↔
      Failing w ∨ ∃ r, Fails r ∧ e = ⟨.child, .child (.unblock r), .store .childBlocked 0⟩ := by
  constructor
  · rintro ⟨r, fails, member⟩
    rcases List.mem_append.mp member with before | now
    · exact .inl ⟨r, fails, before⟩
    · exact .inr ⟨r, fails, (List.mem_singleton.mp now).symm⟩
  · rintro (⟨r, fails, before⟩ | ⟨r, fails, rfl⟩)
    · exact ⟨r, fails, List.mem_append_left _ before⟩
    · exact ⟨r, fails, List.mem_append_right _ (List.mem_singleton_self _)⟩

/-- Only the child's report of its return can be that of a failure. -/
theorem failing_append_of_ne (other : ∀ r, e.pc ≠ .child (.unblock r)) :
    Failing (w ++ [e]) ↔ Failing w := by
  rw [failing_append]
  refine or_iff_left ?_
  rintro ⟨r, -, rfl⟩
  exact other r rfl

theorem failing_append_unblock {r : SysResult} :
    Failing (w ++ [⟨.child, .child (.unblock r), .store .childBlocked 0⟩]) ↔
      Failing w ∨ Fails r := by
  rw [failing_append]
  refine or_congr_right ⟨?_, fun fails => ⟨r, fails, rfl⟩⟩
  rintro ⟨r', fails, same⟩
  cases same
  exact fails

theorem readsEarly_append_of_ne (other : e.pc ≠ .main .readRet) :
    ReadsEarly pthreadCreate (w ++ [e]) ↔ ReadsEarly pthreadCreate w := by
  unfold ReadsEarly
  rw [happensWhen_append]
  exact or_iff_left fun now => other now.1

theorem readsEarly_append_read {t : Party} :
    ReadsEarly pthreadCreate (w ++ [⟨t, .main .readRet, access⟩]) ↔
      ReadsEarly pthreadCreate w ∨
        Failing w ∧ ¬ (test pthreadCreate).DiagnosedBy w .child := by
  unfold ReadsEarly
  rw [happensWhen_append]
  exact or_congr_right (and_iff_right rfl)

/-- What is known of the two threads together. -/
def Phases (pthreadCreate : ℤ) (w : List TestEvent) (mem : Cell → ℤ) (m : MainPc) (c : ChildPc) :
    Prop :=
  MainPhase (ReadsEarly pthreadCreate w) (Failing w) ((test pthreadCreate).DiagnosedBy w .main) c
      m ∧
    ChildPhase (Failing w) ((test pthreadCreate).DiagnosedBy w .child) (mem .childBlocked)
      (mem .childRet) c

/-- A child that goes on has not finished yet. -/
theorem MainPhase.frame {m : MainPc} {c c' : ChildPc} {failing' : Prop} (running : c ≠ .exit)
    (further : c.unblocked = true → c'.unblocked = true) (still : failing → failing')
    (phase : MainPhase early failing diagnosed c m) :
    MainPhase early failing' diagnosed c' m := by
  cases m with
  | readRet =>
    obtain ⟨late, quiet, unblocked⟩ := phase
    exact ⟨late, quiet, further unblocked⟩
  | exit v =>
    rcases phase with error | ⟨early, pass, fails, unblocked⟩ | ⟨-, -, -, -, done⟩
    · exact .inl error
    · exact .inr (.inl ⟨early, pass, still fails, further unblocked⟩)
    · exact absurd done running
  | _ => exact phase

/-- The child goes on. -/
theorem ChildPhase.next {c : ChildPc} {failing' : Prop}
    (phase : ChildPhase failing reported (mem .childBlocked) (mem .childRet) c)
    (fails : failing' ↔ failing ∨ ∃ r, c = .unblock r ∧ Fails r)
    (next : (waitThread c).Next (program pthreadCreate) mem loc access mem' l') :
    ∃ c', l' = .child c' ∧ c ≠ .exit ∧ (c.unblocked = true → c'.unblocked = true) ∧
      ChildPhase failing' (reported ∨ diagnoses (.child c) = true) (mem' .childBlocked)
        (mem' .childRet) c' := by
  cases c with
  | init =>
    cases next
    exact ⟨_, rfl, by simp, by simp [ChildPc.unblocked],
      by simpa [ChildPhase, fails, diagnoses] using ⟨phase.1, phase.2.1, phase.2.2.1⟩⟩
  | wait =>
    cases next
    exact ⟨_, rfl, by simp, by simp [ChildPc.unblocked],
      by simpa [ChildPhase, fails, diagnoses] using phase⟩
  | unblock r =>
    obtain ⟨fine, quiet, blocked, zero⟩ := phase
    cases next
    refine ⟨_, rfl, by simp, by simp [ChildPc.unblocked], ?_⟩
    split_ifs with failed
    · simpa [ChildPhase, fails, diagnoses, failed, quiet] using zero
    · simpa [ChildPhase, fails, diagnoses, failed, quiet, fine] using zero
  | failed =>
    obtain ⟨failed, quiet, zero⟩ := phase
    cases next
    exact ⟨_, rfl, by simp, fun _ => rfl, .inl ⟨fails.mpr (.inl failed), .inr rfl,
      Function.update_self _ _ _⟩⟩
  | exit => cases next

theorem Phases.next_child {m : MainPc} {c : ChildPc} (phases : Phases pthreadCreate w mem m c)
    (next : (waitThread c).Next (program pthreadCreate) mem loc access mem' l') :
    ∃ c', l' = .child c' ∧
      Phases pthreadCreate (w ++ [⟨.child, .child c, access⟩]) mem' m c' := by
  obtain ⟨phase, child⟩ := phases
  have fails : Failing (w ++ [⟨.child, .child c, access⟩]) ↔
      Failing w ∨ ∃ r, c = .unblock r ∧ Fails r := by
    -- only the store to `child_blocked` can make the run a failing one
    by_cases unblocks : ∃ r, c = .unblock r
    · obtain ⟨r, rfl⟩ := unblocks
      cases next
      rw [failing_append_unblock]
      simp
    · rw [failing_append_of_ne (by simpa using unblocks)]
      refine (or_iff_left ?_).symm
      rintro ⟨r, same, -⟩
      exact unblocks ⟨r, same⟩
  obtain ⟨c', goes, running, further, after⟩ := child.next fails next
  refine ⟨c', goes, ?_⟩
  unfold Phases
  rw [propext (readsEarly_append_of_ne (by simp)),
    propext (FunctionalTest.diagnosedBy_append_of_ne (by simp)),
    propext FunctionalTest.diagnosedBy_append_self]
  exact ⟨phase.frame running further fun failing => fails.mpr (.inl failing), after⟩

/-- Main writes nothing. -/
theorem main_frame {m : MainPc}
    (next : (main pthreadCreate m).Next (program pthreadCreate) mem loc access mem' l') :
    mem' = mem := by
  funext a
  apply next.frame
  cases m with
  | create =>
    unfold main
    dsimp only
    split_ifs <;> simp [Op.writes]
  | _ => simp [main, Op.writes]

/-- Main goes on; when it reads `child_ret` before the child has reported a failure, it
reads a pass. -/
theorem MainPhase.next {m : MainPc} {c : ChildPc} {early' : Prop}
    (phase : MainPhase early failing diagnosed c m)
    (child : ChildPhase failing reported (mem .childBlocked) (mem .childRet) c)
    (reads : early' ↔ early ∨ m = .readRet ∧ failing ∧ ¬ reported)
    (next : (main pthreadCreate m).Next (program pthreadCreate) mem loc access mem' l') :
    ∃ m', l' = .main m' ∧
      MainPhase early' failing (diagnosed ∨ diagnoses (.main m) = true) c m' := by
  cases m with
  | create =>
    obtain ⟨late, quiet⟩ := phase
    unfold main at next
    dsimp only at next
    split_ifs at next
    · cases next
      exact ⟨_, rfl, by simpa [MainPhase, reads] using late⟩
    · cases next
      exact ⟨_, rfl, by simpa [MainPhase, reads, diagnoses] using ⟨late, quiet⟩⟩
  | createFailed =>
    have late : ¬ early := phase
    cases next
    exact ⟨_, rfl, .inl ⟨by simpa [reads] using late, .inl rfl⟩⟩
  | test =>
    obtain ⟨late, quiet⟩ := phase
    cases next
    refine ⟨_, rfl, ?_⟩
    split_ifs with blocked
    · simpa [MainPhase, reads] using late
    · -- where else the child may be, `child_blocked` is not 0 yet
      have unblocked : c.unblocked = true := by
        cases c with
        | failed | exit => rfl
        | _ => exact absurd child.2.2.1 blocked
      simpa [MainPhase, reads, diagnoses] using ⟨late, quiet, unblocked⟩
  | blocked =>
    have late : ¬ early := phase
    cases next
    exact ⟨_, rfl, .inl ⟨by simpa [reads] using late, .inr rfl⟩⟩
  | readRet =>
    obtain ⟨late, quiet, unblocked⟩ := phase
    cases next
    refine ⟨_, rfl, ?_⟩
    cases c with
    | failed =>
      -- the child has yet to write its result
      obtain ⟨failed, unreported, pass⟩ := child
      exact .inr (.inl ⟨reads.mpr (.inr ⟨rfl, failed, unreported⟩), pass, failed, rfl⟩)
    | exit =>
      -- the child has ended, and what main reads is its last word
      rcases child with ⟨failed, reported, error⟩ | ⟨fine, unreported, pass⟩
      · exact .inl ⟨by simp [reads, late, reported], .inl error⟩
      · exact .inr (.inr ⟨by simp [reads, late, fine], pass, fine,
          by simpa [diagnoses] using quiet, rfl⟩)
    | _ => cases unblocked
  | exit v => cases next

theorem Phases.next_main {m : MainPc} {c : ChildPc} (phases : Phases pthreadCreate w mem m c)
    (next : (main pthreadCreate m).Next (program pthreadCreate) mem loc access mem' l') :
    ∃ m', l' = .main m' ∧
      Phases pthreadCreate (w ++ [⟨.main, .main m, access⟩]) mem' m' c := by
  obtain ⟨phase, child⟩ := phases
  have reads : ReadsEarly pthreadCreate (w ++ [⟨.main, .main m, access⟩]) ↔
      ReadsEarly pthreadCreate w ∨
        m = .readRet ∧ Failing w ∧ ¬ (test pthreadCreate).DiagnosedBy w .child := by
    -- only the read of `child_ret` can come too early
    by_cases now : m = .readRet
    · subst now
      rw [readsEarly_append_read]
      simp
    · rw [readsEarly_append_of_ne (by simpa using now)]
      exact (or_iff_left fun both => now both.1).symm
  obtain ⟨m', goes, after⟩ := phase.next child reads next
  refine ⟨m', goes, ?_⟩
  unfold Phases
  rw [main_frame next, propext (failing_append_of_ne (by simp)),
    propext FunctionalTest.diagnosedBy_append_self,
    propext (FunctionalTest.diagnosedBy_append_of_ne (by simp))]
  exact ⟨after, child⟩

theorem diagnoses_of_call {t : Party} {c : Call} {k : SysResult → Loc}
    (op : program pthreadCreate t l = .call c k) : diagnoses l = false := by
  cases t with
  | main =>
    cases l with
    | main m =>
      cases m with
      | create =>
        change main pthreadCreate .create = _ at op
        unfold main at op
        dsimp only at op
        split_ifs at op
      | _ => cases op
    | child c => cases op
  | child =>
    cases l with
    | main m => cases op
    | child c => cases c <;> first | rfl | cases op

/-- There is no third thread. -/
theorem pair (t : Party) : t = .main ∨ t = .child := by cases t <;> simp

theorem phases {s : State Cell Party Loc Unit} (run : (test pthreadCreate).anyMachine.Run w s) :
    ∃ m c, s.loc .main = .main m ∧ s.loc .child = .child c ∧
      Phases pthreadCreate w s.mem m c := by
  refine FunctionalTest.pair_induction (test pthreadCreate) .main .child Loc.main Loc.child
    (P := Phases pthreadCreate) pair (by simp)
    .create .init rfl rfl ?_ ?_ ?_ ?_ run
  · refine ⟨⟨not_happensWhen_nil, FunctionalTest.not_diagnosedBy_nil⟩, ?_,
      FunctionalTest.not_diagnosedBy_nil, Int.one_ne_zero, rfl⟩
    rintro ⟨r, -, member⟩
    exact List.not_mem_nil member
  · intro w mem m c t l call k op before
    have quiet := diagnoses_of_call op
    have other : l ≠ .main .readRet := by
      rintro rfl
      cases t <;> cases op
    have other' : ∀ r, l ≠ .child (.unblock r) := by
      rintro r rfl
      cases t <;> cases op
    unfold Phases
    rw [propext (FunctionalTest.diagnosedBy_append_of_false _ quiet),
      propext (FunctionalTest.diagnosedBy_append_of_false _ quiet),
      propext (readsEarly_append_of_ne other), propext (failing_append_of_ne other')]
    exact before
  · intro w mem loc m c access mem' l' _ before next
    exact before.next_main next
  · intro w mem loc m c access mem' l' _ before next
    exact before.next_child next

/-- Main shows its verdict at its end only. -/
theorem exit_of_verdict (m : MainPc) (v : ℤ)
    (verdict : (test pthreadCreate).verdict (.main m) = some v) : m = .exit v := by
  cases m with
  | exit ret =>
    cases verdict
    rfl
  | _ => cases verdict

theorem phases_of_prints {s : State Cell Party Loc Unit} {v : ℤ}
    (prints : (test pthreadCreate).Prints w s v) :
    ∃ c, s.loc .main = .main (.exit v) ∧ s.loc .child = .child c ∧
      Phases pthreadCreate w s.mem (.exit v) c := by
  exact FunctionalTest.pair_of_prints exit_of_verdict (fun w s run => phases run) prints

/-- The verdict is always a documented one. -/
theorem documentedWhen (pthreadCreate : ℤ) : (test pthreadCreate).DocumentedWhen fun _ => True := by
  intro w s v prints
  refine iff_true_intro ?_
  obtain ⟨c, -, -, ⟨-, error | fail⟩ | ⟨-, pass, -⟩ | ⟨-, pass, -⟩, -⟩ := phases_of_prints prints
  · exact .inr (.inl error)
  · exact .inr (.inr fail)
  · exact .inl pass
  · exact .inl pass

/-- Every diagnostic shows in the verdict unless main reads `child_ret` too early. -/
theorem heededWhen (pthreadCreate : ℤ) :
    (test pthreadCreate).HeededWhen fun w => ¬ ReadsEarly pthreadCreate w := by
  intro w s v prints
  obtain ⟨c, here, there, phase, child⟩ := phases_of_prints prints
  rcases phase with ⟨late, error⟩ | ⟨early, pass, failed, unblocked⟩ |
    ⟨late, pass, fine, quiet, done⟩
  · refine iff_of_true (fun _ => ?_) late
    rcases error with rfl | rfl
    · exact retError_ne_retPass
    · exact retFail_ne_retPass
  · -- the child has reported by now, or is about to
    refine iff_of_false ?_ (not_not.mpr early)
    intro shows
    -- main has read a pass
    refine shows (FunctionalTest.diagnosed_iff.mpr ⟨.child, ?_⟩) pass
    cases c with
    | failed =>
      rw [there]
      exact .inr rfl
    | exit =>
      rcases child with ⟨-, reported, -⟩ | ⟨fine, -⟩
      · exact .inl reported
      · exact absurd failed fine
    | _ => cases unblocked
  · refine iff_of_true ?_ late
    intro diagnosed _
    subst done
    have unreported : ¬ (test pthreadCreate).DiagnosedBy w .child := by
      rcases child with ⟨failed, -⟩ | ⟨-, unreported, -⟩
      · exact absurd failed fine
      · exact unreported
    rw [FunctionalTest.diagnosed_pair_iff pair (by rw [here]; rfl) (by rw [there]; rfl)]
      at diagnosed
    exact diagnosed.elim quiet unreported

end UninitializedHeap

/-! ## The tests without a second thread -/

/-- A test of one call, whose verdict main prints. -/
def waitTestOf (program : Program Unit WaitCall Unit WaitTestPc) :
    FunctionalTest Unit WaitCall Unit WaitTestPc where
  program := program
  start := waitTestStart
  main := ()
  verdict
    | .exit ret => some ret
    | _ => none
  diagnoses
    | .failed => true
    | _ => false

/-- `futex_wait_timeout`, with the value of its option `-t`. -/
def WaitTimeout.test (timeoutNs : ℤ) : FunctionalTest Unit WaitCall Unit WaitTestPc :=
  waitTestOf (WaitTimeout.program timeoutNs)

/-- `futex_wait_wouldblock`. -/
def WaitWouldblock.test : FunctionalTest Unit WaitCall Unit WaitTestPc :=
  waitTestOf WaitWouldblock.program

/-- The verdict is a pass or a failure. -/
theorem waitTestOf_documentedWhen (off : ℤ) (timeout : Timespec) (errno : ℕ) :
    (waitTestOf (waitTest off timeout errno)).DocumentedWhen fun _ => True := by
  intro w s v prints
  refine iff_true_intro ?_
  obtain ⟨run, -, verdict⟩ := prints
  have ends : ∀ v, s.loc () = .exit v → Documented v := by
    refine FunctionalTest.run_induction (waitTestOf (waitTest off timeout errno))
      (P := fun _ _ loc => ∀ v, loc () = .exit v → Documented v) ?_ ?_ ?_ run
    · intro v ends
      cases ends
    · intro w mem loc t c k _ before
      exact before
    · intro w mem loc t access mem' l _ _ next v ends
      rw [show t = () from rfl, Function.update_self] at ends
      generalize loc t = pc at next
      cases pc with
      | load =>
        cases next
        cases ends
      | wait expected =>
        cases next with
        | leave c k r =>
          dsimp only at ends
          split_ifs at ends
          cases ends
          exact documented_retPass
      | failed =>
        cases next
        cases ends
        exact documented_retFail
      | exit ret => cases next
  change (match s.loc () with | .exit ret => some ret | _ => none) = some v at verdict
  split at verdict
  · rename_i ret here
    rw [← Option.some.inj verdict]
    exact ends ret here
  · cases verdict
