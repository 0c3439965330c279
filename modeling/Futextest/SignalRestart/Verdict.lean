import Futextest.FunctionalTest
import Futextest.SignalRestart

/-!
# The verdict of `futex_requeue_pi_signal_restart`

Whatever the calls return, the verdict is a documented one, and every diagnostic shows in
it: main reads the waiter's result only after it has joined the waiter.

## Main definitions

* `SignalRestart.test` — the test with its diagnostics

## Main results

* `documented`, `heeded` — what holds of the verdict in every run
-/

namespace SignalRestart

open Syscalls

/-- Whether `error()` or `fail()` is called at a control point. -/
def diagnoses : Loc → Bool
  | .main .createFailed | .main .requeueFailed | .waiter (.fail _) => true
  | _ => false

/-- The test, whose verdict main prints. -/
def test (pthreadCreate : ℤ) : FunctionalTest Cell Call Party Loc where
  program := program pthreadCreate
  start := start ()
  main := .main
  verdict
    | .main (.exit ret) => some ret
    | _ => none
  diagnoses := diagnoses

/-- What the waiter leaves in its result. -/
def WaiterPhase (diagnosed : Prop) (ret : ℤ) : WaiterPc → Prop
  | .init | .load | .wait _ | .test _ | .fail _ => ret = retPass ∧ ¬ diagnosed
  | .unlock | .setFail => True
  | .exit => ret = retFail ∨ ret = retPass ∧ ¬ diagnosed

/-- What main has found out, with the waiter at `c`. -/
def MainPhase (diagnosed : Prop) (c : WaiterPc) (waiterRet : ℤ) : MainPc → Prop
  | .create | .lock | .kill | .load | .requeue _ | .setRequeued => ¬ diagnosed
  | .createFailed | .requeueFailed => True
  | .killAgain ret | .join ret => ret = retError ∨ ret = retPass ∧ ¬ diagnosed
  | .unlock ret | .out ret =>
      ret = retError ∨ ret = retPass ∧ ¬ diagnosed ∧ c = .exit
  | .exit v =>
      v = retError ∨ v = retFail ∨
        v = retPass ∧ ¬ diagnosed ∧ c = .exit ∧ waiterRet = retPass

variable {pthreadCreate : ℤ} {diagnosed waiterDiagnosed : Prop} {mem mem' : Cell → ℤ}
  {loc : Party → Loc}
  {access : Access Cell Call Party} {l' : Loc} {w : List TestEvent}

theorem WaiterPhase.next {c : WaiterPc} (phase : WaiterPhase diagnosed (mem .waiterRet) c)
    (next : (waiterfn c).Next (program pthreadCreate) mem loc access mem' l') :
    ∃ c', l' = .waiter c' ∧
      WaiterPhase (diagnosed ∨ diagnoses (.waiter c) = true) (mem' .waiterRet) c' := by
  cases c with
  | init =>
    cases next
    exact ⟨_, rfl, by simpa [WaiterPhase, diagnoses] using phase.2⟩
  | load =>
    cases next
    exact ⟨_, rfl, by simpa [WaiterPhase, diagnoses] using phase⟩
  | wait old =>
    cases next
    exact ⟨_, rfl, by simpa [WaiterPhase, diagnoses] using phase⟩
  | test r =>
    cases next
    refine ⟨_, rfl, ?_⟩
    split_ifs
    · simpa [WaiterPhase, diagnoses] using phase
    · simpa [WaiterPhase, diagnoses] using .inr phase
  | fail r =>
    cases next
    refine ⟨_, rfl, ?_⟩
    split_ifs <;> exact trivial
  | unlock =>
    cases next
    exact ⟨_, rfl, trivial⟩
  | setFail =>
    cases next
    exact ⟨_, rfl, .inl (Function.update_self _ _ _)⟩
  | exit => cases next

theorem afterRequeue_phase (res : ℤ) (c : WaiterPc) (ret : ℤ) (quiet : ¬ diagnosed) :
    MainPhase diagnosed c ret (afterRequeue res) := by
  unfold afterRequeue
  split
  · exact quiet
  · exact quiet
  · exact trivial

theorem MainPhase.next {m : MainPc} {c : WaiterPc} (there : loc .waiter = .waiter c)
    (waiter : WaiterPhase waiterDiagnosed (mem .waiterRet) c)
    (phase : MainPhase diagnosed c (mem .waiterRet) m)
    (next : (main pthreadCreate m).Next (program pthreadCreate) mem loc access mem' l') :
    ∃ m', l' = .main m' ∧
      MainPhase (diagnosed ∨ diagnoses (.main m) = true) c (mem' .waiterRet) m' := by
  cases m with
  | create =>
    unfold main at next
    split_ifs at next
    · cases next
      exact ⟨_, rfl, by simpa [MainPhase, diagnoses] using phase⟩
    · cases next
      exact ⟨_, rfl, trivial⟩
  | createFailed | requeueFailed =>
    cases next
    exact ⟨_, rfl, .inl rfl⟩
  | lock | kill | load | killAgain ret | unlock ret =>
    cases next
    exact ⟨_, rfl, by simpa [MainPhase, diagnoses] using phase⟩
  | requeue old =>
    have quiet : ¬ diagnosed := phase
    cases next
    exact ⟨_, rfl, afterRequeue_phase _ _ _ (by simpa [diagnoses] using quiet)⟩
  | setRequeued =>
    have quiet : ¬ diagnosed := phase
    cases next
    exact ⟨_, rfl, .inr ⟨rfl, by simpa [diagnoses] using quiet⟩⟩
  | join ret =>
    cases next with
    | join v k ended =>
      rw [there] at ended
      have done : c = .exit := by
        cases c with
        | exit => rfl
        | _ => cases ended
      exact ⟨_, rfl, by simpa [MainPhase, diagnoses, done] using phase⟩
  | out ret =>
    rcases phase with error | ⟨pass, quiet, done⟩
    · -- an error of main stays
      rw [error] at next
      cases next
      exact ⟨_, rfl, .inl rfl⟩
    · -- the waiter has ended, and its result decides
      subst done
      rw [pass] at next
      cases next
      refine ⟨_, rfl, ?_⟩
      rcases waiter with fail | ⟨zero, -⟩
      · rw [fail]
        exact .inr (.inl rfl)
      · rw [zero]
        exact .inr (.inr ⟨rfl, by simpa [diagnoses] using quiet, rfl, rfl⟩)
  | exit ret => cases next

/-- The result belongs to the waiter. -/
theorem main_frame {m : MainPc}
    (next : (main pthreadCreate m).Next (program pthreadCreate) mem loc access mem' l') :
    mem' .waiterRet = mem .waiterRet := by
  apply next.frame
  intro writes
  cases m with
  | create =>
    unfold main at writes
    dsimp only at writes
    split_ifs at writes <;> cases writes
  | out ret =>
    unfold main at writes
    dsimp only at writes
    split_ifs at writes <;> cases writes
  | _ => cases writes

/-- A waiter that goes on has not finished yet, so that main knows nothing of it. -/
theorem MainPhase.frame {m : MainPc} {c c' : WaiterPc} {ret ret' : ℤ} (running : c ≠ .exit)
    (phase : MainPhase diagnosed c ret m) : MainPhase diagnosed c' ret' m := by
  cases m with
  | unlock ret | out ret =>
    rcases phase with error | ⟨-, -, done⟩
    · exact .inl error
    · exact absurd done running
  | exit v =>
    rcases phase with error | fail | ⟨-, -, done, -⟩
    · exact .inl error
    · exact .inr (.inl fail)
    · exact absurd done running
  | _ => exact phase

theorem diagnoses_of_call {t : Party} {l : Loc} {c : Call} {k : SysResult → Loc}
    (op : program pthreadCreate t l = .call c k) : diagnoses l = false := by
  cases t with
  | main =>
    cases l with
    | main m => cases m <;> first | rfl | cases op
    | waiter c => cases op
  | waiter =>
    cases l with
    | main m => cases op
    | waiter c => cases c <;> first | rfl | cases op

/-- There is no third thread. -/
theorem pair (t : Party) : t = .main ∨ t = .waiter := by cases t <;> simp

/-- What every run has of its two threads. -/
theorem phases {s : State Cell Party Loc Unit} (run : (test pthreadCreate).anyMachine.Run w s) :
    ∃ m c, s.loc .main = .main m ∧ s.loc .waiter = .waiter c ∧
      MainPhase ((test pthreadCreate).DiagnosedBy w .main) c (s.mem .waiterRet) m ∧
      WaiterPhase ((test pthreadCreate).DiagnosedBy w .waiter) (s.mem .waiterRet) c := by
  refine FunctionalTest.pair_induction (test pthreadCreate) .main .waiter Loc.main Loc.waiter
    (P := fun w mem m c =>
      MainPhase ((test pthreadCreate).DiagnosedBy w .main) c (mem .waiterRet) m ∧
        WaiterPhase ((test pthreadCreate).DiagnosedBy w .waiter) (mem .waiterRet) c)
    pair (by simp) .create .init rfl rfl
    ?_ ?_ ?_ ?_ run
  · exact ⟨FunctionalTest.not_diagnosedBy_nil, rfl, FunctionalTest.not_diagnosedBy_nil⟩
  · intro w mem m c t l call k op before
    -- the entry of a call is no diagnostic
    have quiet := diagnoses_of_call op
    rw [propext (FunctionalTest.diagnosedBy_append_of_false _ quiet),
      propext (FunctionalTest.diagnosedBy_append_of_false _ quiet)]
    exact before
  · rintro w mem loc m c access mem' l' there ⟨phase, waiter⟩ next
    obtain ⟨m', goes, after⟩ := phase.next there waiter next
    refine ⟨m', goes, ?_, ?_⟩
    · rw [propext FunctionalTest.diagnosedBy_append_self]
      exact after
    · rw [propext (FunctionalTest.diagnosedBy_append_of_ne (by simp)),
        main_frame next]
      exact waiter
  · rintro w mem loc m c access mem' l' here ⟨phase, waiter⟩ next
    obtain ⟨c', goes, after⟩ := waiter.next next
    refine ⟨c', goes, ?_, ?_⟩
    · rw [propext (FunctionalTest.diagnosedBy_append_of_ne (by simp))]
      -- a waiter that takes a step has not been joined
      refine phase.frame ?_
      rintro rfl
      cases next
    · rw [propext FunctionalTest.diagnosedBy_append_self]
      exact after

/-- Main shows its verdict at its end only. -/
theorem exit_of_verdict (m : MainPc) (v : ℤ)
    (verdict : (test pthreadCreate).verdict (.main m) = some v) : m = .exit v := by
  cases m with
  | exit ret =>
    cases verdict
    rfl
  | _ => cases verdict

/-- A verdict is that of main's phase. -/
theorem phase_of_prints {s : State Cell Party Loc Unit} {v : ℤ}
    (prints : (test pthreadCreate).Prints w s v) :
    ∃ c, s.loc .main = .main (.exit v) ∧ s.loc .waiter = .waiter c ∧
      MainPhase ((test pthreadCreate).DiagnosedBy w .main) c (s.mem .waiterRet) (.exit v) ∧
      WaiterPhase ((test pthreadCreate).DiagnosedBy w .waiter) (s.mem .waiterRet) c := by
  exact FunctionalTest.pair_of_prints (P := fun w mem m c =>
      MainPhase ((test pthreadCreate).DiagnosedBy w .main) c (mem .waiterRet) m ∧
        WaiterPhase ((test pthreadCreate).DiagnosedBy w .waiter) (mem .waiterRet) c)
    exit_of_verdict (fun w s run => phases run) prints

/-- The verdict is always a documented one. -/
theorem documented (pthreadCreate : ℤ) : (test pthreadCreate).DocumentedWhen fun _ => True := by
  intro w s v prints
  refine iff_true_intro ?_
  obtain ⟨c, -, -, error | fail | ⟨pass, -⟩, -⟩ := phase_of_prints prints
  · exact .inr (.inl error)
  · exact .inr (.inr fail)
  · exact .inl pass

/-- Every diagnostic shows in the verdict. -/
theorem heeded (pthreadCreate : ℤ) : (test pthreadCreate).HeededWhen fun _ => True := by
  intro w s v prints
  refine iff_true_intro ?_
  intro diagnosed pass
  subst pass
  obtain ⟨c, here, there, phase, waiter⟩ := phase_of_prints prints
  rcases phase with error | fail | ⟨-, quiet, rfl, zero⟩
  · exact retError_ne_retPass error.symm
  · exact retFail_ne_retPass fail.symm
  · -- the waiter has finished without a diagnostic
    have fine : ¬ (test pthreadCreate).DiagnosedBy w .waiter := by
      rcases waiter with fail | ⟨-, fine⟩
      · exact absurd (fail.symm.trans zero) retFail_ne_retPass
      · exact fine
    rw [FunctionalTest.diagnosed_pair_iff pair (by rw [here]; rfl) (by rw [there]; rfl)]
      at diagnosed
    exact diagnosed.elim quiet fine

end SignalRestart
