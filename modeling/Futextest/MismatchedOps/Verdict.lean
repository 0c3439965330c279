import Futextest.FunctionalTest
import Futextest.MismatchedOps

/-!
# The verdict of `futex_requeue_pi_mismatched_ops`

If main has woken the child, the verdict is what the child has left in `child_ret`: the
result of its wait as it is, or a negated error number. The verdict is a documented one
only if that happens to be one, and an error of the child shows in it unless its number
is 0. In all other cases main has an error of its own.

## Main definitions

* `MismatchedOps.test` — the test with its diagnostics
* `DocumentedWait`, `NumberedErrors` — the runs in which the verdict is as it should be

## Main results

* `documentedWhen`, `heededWhen` — these are the runs
-/

namespace MismatchedOps

open Syscalls

/-- Whether `error()` or `fail()` is called at a control point. -/
def diagnoses : Loc → Bool
  | .main .createFailed | .main (.report _) | .child (.failed _) => true
  | _ => false

/-- The test, whose verdict main prints. -/
def test (pthreadCreate : ℤ) : FunctionalTest Cell Call Party Loc where
  program := program pthreadCreate
  start := start ()
  main := .main
  verdict
    | .main (.exit ret) => some ret
    | _ => none
  diagnoses := diagnoses

/-- `futex_wake`. -/
def isWake : Call → Bool
  | .wake => true
  | _ => false

/-- `futex_wait`. -/
def isWait : Call → Bool
  | .wait _ => true
  | _ => false

/-- The results of main's wakes. -/
def wakes (w : List TestEvent) : List SysResult := returns .main isWake w

/-- The results of the child's waits. -/
def waits (w : List TestEvent) : List SysResult := returns .child isWait w

/-- What the child leaves in `child_ret` when its wait returns `result`. -/
def childResult (result : SysResult) : ℤ :=
  if result.ret < 0 then -result.errno else result.ret

/-! ## The child -/

/-- What the child has of its wait and leaves in its result. -/
def ChildPhase (results : List SysResult) (diagnosed : Prop) (ret : ℤ) : ChildPc → Prop
  | .load | .wait _ => results = [] ∧ ¬ diagnosed
  | .store r => results = [r] ∧ ¬ diagnosed
  | .failed errno => ∃ r, results = [r] ∧ r.ret < 0 ∧ r.errno = errno ∧ ¬ diagnosed
  | .exit => ∃ r, results = [r] ∧ ret = childResult r ∧ (diagnosed ↔ r.ret < 0)

variable {pthreadCreate : ℤ} {results : List SysResult} {diagnosed : Prop}
  {mem mem' : Cell → ℤ} {loc : Party → Loc} {access : Access Cell Call Party} {l' : Loc}
  {w : List TestEvent}

theorem ChildPhase.next {c : ChildPc} (phase : ChildPhase results diagnosed (mem .childRet) c)
    (next : (blockingChild c).Next (program pthreadCreate) mem loc access mem' l') :
    ∃ c', l' = .child c' ∧
      ChildPhase
        (results ++ (Event.returned .child isWait (⟨.child, .child c, access⟩ : TestEvent)).toList)
        (diagnosed ∨ diagnoses (.child c) = true) (mem' .childRet) c' := by
  cases c with
  | load =>
    cases next
    exact ⟨_, rfl, by simpa [ChildPhase, Event.returned, diagnoses] using phase⟩
  | wait expected =>
    cases next with
    | leave c k r =>
      exact ⟨_, rfl, by simpa [ChildPhase, Event.returned, isWait, diagnoses] using phase⟩
  | store r =>
    obtain ⟨one, quiet⟩ := phase
    cases next
    refine ⟨_, rfl, ?_⟩
    split_ifs with failed
    · simp [ChildPhase, Event.returned, diagnoses, one, failed, quiet]
    · simp [ChildPhase, Event.returned, diagnoses, one, failed, quiet, childResult,
        Int.not_lt.mp failed]
  | failed errno =>
    obtain ⟨r, one, failed, rfl, quiet⟩ := phase
    cases next
    exact ⟨_, rfl, by simp [ChildPhase, Event.returned, diagnoses, one, failed, childResult]⟩
  | exit => cases next

/-! ## Main -/

/-- Main has an error of its own and has not woken the child. -/
def OwnError (wakes : List SysResult) (ret : ℤ) : Prop :=
  (ret = retError ∨ ret = retFail) ∧ ¬ Woken wakes

/-- What main has found out, with the child at `c`. -/
def MainPhase (wakes : List SysResult) (diagnosed : Prop) (c : ChildPc) (childRet : ℤ) :
    MainPc → Prop
  | .create | .load | .requeue _ | .wake => wakes = [] ∧ ¬ diagnosed
  | .createFailed => wakes = []
  | .report ret => OwnError wakes ret
  | .join ret => OwnError wakes ret ∨ ret = retPass ∧ Woken wakes ∧ ¬ diagnosed
  | .out ret => OwnError wakes ret ∨ ret = retPass ∧ Woken wakes ∧ ¬ diagnosed ∧ c = .exit
  | .exit v => OwnError wakes v ∨ v = childRet ∧ Woken wakes ∧ ¬ diagnosed ∧ c = .exit

theorem requeued_phase {c : ChildPc} {ret : ℤ} (r : SysResult) (none : results = [])
    (quiet : ¬ diagnosed) : MainPhase results diagnosed c ret (requeued r) := by
  subst none
  unfold requeued
  -- the refusal with `EINVAL`, another error, a thread that was moved, and nobody to move
  split_ifs
  · exact ⟨rfl, quiet⟩
  · exact ⟨.inl rfl, not_woken_nil⟩
  · exact ⟨.inr rfl, not_woken_nil⟩
  · exact ⟨.inl rfl, not_woken_nil⟩

theorem woken_phase {c : ChildPc} {ret : ℤ} (r : SysResult) (quiet : ¬ diagnosed) :
    MainPhase [r] diagnosed c ret (woken r) := by
  unfold woken
  split_ifs with one
  · exact .inr ⟨rfl, woken_singleton.mpr one, quiet⟩
  · exact ⟨.inl rfl, fun woken => one (woken_singleton.mp woken)⟩

theorem OwnError.ne_pass {ret : ℤ} (error : OwnError results ret) : ret ≠ retPass := by
  rcases error with ⟨rfl | rfl, -⟩
  · exact retError_ne_retPass
  · exact retFail_ne_retPass

theorem MainPhase.next {m : MainPc} {c : ChildPc} (there : loc .child = .child c)
    (phase : MainPhase results diagnosed c (mem .childRet) m)
    (next : (main pthreadCreate m).Next (program pthreadCreate) mem loc access mem' l') :
    ∃ m', l' = .main m' ∧
      MainPhase
        (results ++ (Event.returned .main isWake (⟨.main, .main m, access⟩ : TestEvent)).toList)
        (diagnosed ∨ diagnoses (.main m) = true) c (mem' .childRet) m' := by
  cases m with
  | create =>
    unfold main at next
    dsimp only at next
    split_ifs at next
    · cases next
      exact ⟨_, rfl, by simpa [MainPhase, Event.returned, diagnoses] using phase⟩
    · cases next
      exact ⟨_, rfl, by simpa [MainPhase, Event.returned, diagnoses] using phase.1⟩
  | createFailed =>
    have none : results = [] := phase
    cases next
    exact ⟨_, rfl, .inl ⟨.inl rfl, by simpa [Event.returned, none] using not_woken_nil⟩⟩
  | load =>
    cases next
    exact ⟨_, rfl, by simpa [MainPhase, Event.returned, diagnoses] using phase⟩
  | requeue expected =>
    obtain ⟨none, quiet⟩ := phase
    cases next
    exact ⟨_, rfl, requeued_phase _ (by simp [Event.returned, isWake, none])
      (by simpa [diagnoses] using quiet)⟩
  | wake =>
    obtain ⟨none, quiet⟩ := phase
    cases next with
    | leave c k r =>
      refine ⟨_, rfl, ?_⟩
      rw [none]
      exact woken_phase r (by simpa [diagnoses] using quiet)
  | report ret =>
    have error : OwnError results ret := phase
    cases next
    exact ⟨_, rfl, .inl (by simpa [Event.returned] using error)⟩
  | join ret =>
    cases next with
    | join v k ended =>
      rw [there] at ended
      have done : c = .exit := by
        cases c with
        | exit => rfl
        | _ => cases ended
      exact ⟨_, rfl, by simpa [MainPhase, Event.returned, diagnoses, done] using phase⟩
  | out ret =>
    rcases phase with error | ⟨rfl, woken, quiet, done⟩
    · -- an error of main stays
      have nonzero : ret ≠ 0 := error.ne_pass
      rw [main, if_neg nonzero] at next
      cases next
      exact ⟨_, rfl, .inl (by simpa [Event.returned] using error)⟩
    · cases next
      refine ⟨_, rfl, .inr ⟨rfl, ?_, ?_, done⟩⟩
      · simpa [Event.returned] using woken
      · simpa [diagnoses] using quiet
  | exit ret => cases next

/-- The result belongs to the child. -/
theorem main_frame {m : MainPc}
    (next : (main pthreadCreate m).Next (program pthreadCreate) mem loc access mem' l') :
    mem' .childRet = mem .childRet := by
  apply next.frame
  intro writes
  cases m with
  | create | out ret =>
    unfold main at writes
    dsimp only at writes
    split_ifs at writes <;> cases writes
  | _ => cases writes

/-- A child that goes on has not finished yet, so that main knows nothing of it. -/
theorem MainPhase.frame {m : MainPc} {c c' : ChildPc} {ret ret' : ℤ} (running : c ≠ .exit)
    (phase : MainPhase results diagnosed c ret m) : MainPhase results diagnosed c' ret' m := by
  cases m with
  | out ret | exit v =>
    rcases phase with error | ⟨-, -, -, done⟩
    · exact .inl error
    · exact absurd done running
  | _ => exact phase

theorem diagnoses_of_call {t : Party} {l : Loc} {c : Call} {k : SysResult → Loc}
    (op : program pthreadCreate t l = .call c k) : diagnoses l = false := by
  cases t with
  | main =>
    cases l with
    | main m => cases m <;> first | rfl | cases op
    | child c => cases op
  | child =>
    cases l with
    | main m => cases op
    | child c => cases c <;> first | rfl | cases op

/-! ## Both -/

/-- What is known of the two threads together. -/
def Phases (test : FunctionalTest Cell Call Party Loc) (w : List TestEvent) (mem : Cell → ℤ)
    (m : MainPc) (c : ChildPc) : Prop :=
  MainPhase (wakes w) (test.DiagnosedBy w .main) c (mem .childRet) m ∧
    ChildPhase (waits w) (test.DiagnosedBy w .child) (mem .childRet) c

/-- There is no third thread. -/
theorem pair (t : Party) : t = .main ∨ t = .child := by cases t <;> simp

theorem phases {s : State Cell Party Loc Unit} (run : (test pthreadCreate).anyMachine.Run w s) :
    ∃ m c, s.loc .main = .main m ∧ s.loc .child = .child c ∧
      Phases (test pthreadCreate) w s.mem m c := by
  refine FunctionalTest.pair_induction (test pthreadCreate) .main .child Loc.main Loc.child
    (P := Phases (test pthreadCreate)) pair (by simp)
    .create .load rfl rfl ?_ ?_ ?_ ?_ run
  · exact ⟨⟨rfl, FunctionalTest.not_diagnosedBy_nil⟩, rfl, FunctionalTest.not_diagnosedBy_nil⟩
  · intro w mem m c t l call k op before
    -- the entry of a call returns nothing and is no diagnostic
    have quiet := diagnoses_of_call op
    unfold Phases wakes waits
    rw [propext (FunctionalTest.diagnosedBy_append_of_false _ quiet),
      propext (FunctionalTest.diagnosedBy_append_of_false _ quiet),
      returns_append_of_none (returned_of_silent (.inr ⟨call, rfl⟩)),
      returns_append_of_none (returned_of_silent (.inr ⟨call, rfl⟩))]
    exact before
  · rintro w mem loc m c access mem' l' there ⟨phase, child⟩ next
    obtain ⟨m', goes, after⟩ := phase.next there next
    refine ⟨m', goes, ?_⟩
    unfold Phases wakes waits
    rw [propext FunctionalTest.diagnosedBy_append_self, returns_append,
      propext (FunctionalTest.diagnosedBy_append_of_ne (by simp)),
      returns_append_of_none (returned_of_ne (by simp))]
    -- main leaves the result of the child alone
    refine ⟨after, ?_⟩
    rw [main_frame next]
    exact child
  · rintro w mem loc m c access mem' l' here ⟨phase, child⟩ next
    obtain ⟨c', goes, after⟩ := child.next next
    refine ⟨c', goes, ?_⟩
    unfold Phases wakes waits
    rw [propext (FunctionalTest.diagnosedBy_append_of_ne (by simp)),
      returns_append_of_none (returned_of_ne (by simp)),
      propext FunctionalTest.diagnosedBy_append_self, returns_append]
    -- a child that takes a step has not been joined
    refine ⟨phase.frame ?_, after⟩
    rintro rfl
    cases next

/-! ## The verdict -/

/-- Main shows its verdict at its end only. -/
theorem exit_of_verdict (m : MainPc) (v : ℤ)
    (verdict : (test pthreadCreate).verdict (.main m) = some v) : m = .exit v := by
  cases m with
  | exit ret =>
    cases verdict
    rfl
  | _ => cases verdict

theorem phases_of_prints {s : State Cell Party Loc Unit} {v : ℤ}
    (prints : (test pthreadCreate).Prints w s v) :
    ∃ c, s.loc .main = .main (.exit v) ∧ s.loc .child = .child c ∧
      Phases (test pthreadCreate) w s.mem (.exit v) c := by
  exact FunctionalTest.pair_of_prints exit_of_verdict (fun w s run => phases run) prints

/-- If main has woken the child, its wait has returned 0, or an error with a small number. -/
def DocumentedWait (w : List TestEvent) : Prop :=
  Woken (wakes w) → ∀ r ∈ waits w, r.ret = 0 ∨ r.ret < 0 ∧ r.errno ≤ 2

/-- If main has woken the child, no wait has failed with the error number 0. -/
def NumberedErrors (w : List TestEvent) : Prop :=
  Woken (wakes w) → ∀ r ∈ waits w, r.ret < 0 → r.errno ≠ 0

theorem documented_childResult_iff (r : SysResult) :
    Documented (childResult r) ↔ r.ret = 0 ∨ r.ret < 0 ∧ r.errno ≤ 2 := by
  unfold Documented childResult retPass retError retFail
  split_ifs with failed <;> omega

theorem childResult_eq_retPass_iff {r : SysResult} (failed : r.ret < 0) :
    childResult r = retPass ↔ r.errno = 0 := by
  unfold childResult retPass
  rw [if_pos failed]
  omega

/-- The verdict is a documented one in exactly these runs. -/
theorem documentedWhen (pthreadCreate : ℤ) :
    (test pthreadCreate).DocumentedWhen DocumentedWait := by
  intro w s v prints
  obtain ⟨c, -, -, own | ⟨value, woken, -, done⟩, child⟩ := phases_of_prints prints
  · refine iff_of_true ?_ fun woken => absurd woken own.2
    rcases own.1 with rfl | rfl
    · exact documented_retError
    · exact documented_retFail
  · subst done
    -- the child has ended with one wait behind it, and its result is the verdict
    obtain ⟨r, one, result, -⟩ := child
    rw [value, result, documented_childResult_iff, DocumentedWait, one]
    constructor
    · intro fine _ r' member
      rw [List.mem_singleton.mp member]
      exact fine
    · intro fine
      exact fine woken r (List.mem_singleton_self r)

/-- Every diagnostic shows in the verdict in exactly these runs. -/
theorem heededWhen (pthreadCreate : ℤ) : (test pthreadCreate).HeededWhen NumberedErrors := by
  intro w s v prints
  obtain ⟨c, here, there, own | ⟨value, woken, quiet, done⟩, child⟩ := phases_of_prints prints
  · exact iff_of_true (fun _ => own.ne_pass) fun woken => absurd woken own.2
  · subst done
    obtain ⟨r, one, result, diagnosed⟩ := child
    -- the only diagnostic can be that of the child
    have only : (test pthreadCreate).Diagnosed w s ↔ r.ret < 0 := by
      rw [← diagnosed, FunctionalTest.diagnosed_pair_iff pair (by rw [here]; rfl)
        (by rw [there]; rfl)]
      exact or_iff_right quiet
    rw [only, value, result, NumberedErrors, one]
    constructor
    · intro shows _ r' member failed number
      rw [List.mem_singleton.mp member] at failed number
      exact shows failed ((childResult_eq_retPass_iff failed).mpr number)
    · intro numbered failed pass
      exact numbered woken r (List.mem_singleton_self r) failed
        ((childResult_eq_retPass_iff failed).mp pass)

end MismatchedOps
