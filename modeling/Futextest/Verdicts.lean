import Futextest.MismatchedOps.Verdict
import Futextest.RequeuePi.Verdict
import Futextest.SignalRestart.Verdict
import Futextest.WaitTests.Verdict

/-!
# The verdicts of the functional tests

All tests together: in which runs main's verdict is one of those that the documentation
lists, and in which every diagnostic keeps it from being a pass.

## Main results

* `verdicts_documented` — the seven tests that have a verdict
* `results_unknown` — the result lines that they print for it
* `diagnostics_heeded` — the five of them that have more than one thread
-/

open Syscalls

/-- The verdict is a documented one whatever the calls return, except that main of
`futex_requeue_pi` may return a positive result of a wait, main of
`futex_requeue_pi_mismatched_ops` a result or a negated error number of the child's wait,
and main of `futex_wait_private_mapped_file` the error number of `pthread_create`. -/
theorem verdicts_documented (u : RequeuePi.UnitTest)
    (clock : u.clockGettime = 0 ∨ u.clockGettime = -1) (pthreadCreate timeoutNs : ℤ) :
    u.test.DocumentedWhen (fun w => u.EarlyError ∨ u.ErrorsFirst w) ∧
      (MismatchedOps.test pthreadCreate).DocumentedWhen MismatchedOps.DocumentedWait ∧
      (SignalRestart.test pthreadCreate).DocumentedWhen (fun _ => True) ∧
      (PrivateMappedFile.test pthreadCreate).DocumentedWhen
        (fun w => ¬ PrivateMappedFile.WokenWithoutThread pthreadCreate w) ∧
      (UninitializedHeap.test pthreadCreate).DocumentedWhen (fun _ => True) ∧
      (WaitTimeout.test timeoutNs).DocumentedWhen (fun _ => True) ∧
      WaitWouldblock.test.DocumentedWhen (fun _ => True) :=
  ⟨RequeuePi.UnitTest.documentedWhen u clock, MismatchedOps.documentedWhen pthreadCreate,
    SignalRestart.documented pthreadCreate, PrivateMappedFile.documentedWhen pthreadCreate,
    UninitializedHeap.documentedWhen pthreadCreate, waitTestOf_documentedWhen _ _ _,
    waitTestOf_documentedWhen _ _ _⟩

/-- The hypothesis on the clock can be met. -/
theorem verdicts_documented_untimed :
    (RequeuePi.unitTestWith true false false 0).test.DocumentedWhen (fun w =>
      (RequeuePi.unitTestWith true false false 0).EarlyError ∨
        (RequeuePi.unitTestWith true false false 0).ErrorsFirst w) :=
  (verdicts_documented (RequeuePi.unitTestWith true false false 0) (.inl rfl) 0 0).1

/-- A run of `futex_requeue_pi_mismatched_ops` whose child gets `EINTR` (4): the verdict
is -4. -/
theorem verdict_undocumented :
    ∃ w s, (MismatchedOps.test 0).anyMachine.Run w s ∧
      (MismatchedOps.test 0).verdict (s.loc .main) = some (-4) ∧ ¬ Documented (-4) := by
  refine Syscalls.exists_run Kernel.any (MismatchedOps.test 0).program (MismatchedOps.test 0).start
    (List.flatten [Choice.ops .main 2, Choice.ops .child 2, Choice.calls .main (.error einval),
      Choice.calls .main (.ok 1), [.ret .child (.error 4)], Choice.ops .child 2,
      Choice.ops .main 2])
    (fun _ s => (MismatchedOps.test 0).verdict (s.loc .main) = some (-4) ∧ ¬ Documented (-4)) ?_
  decide +kernel

/-- So a test prints "Unknown return code" for its verdict in these runs of three tests, and
in no run of the four others. -/
theorem results_unknown (u : RequeuePi.UnitTest)
    (clock : u.clockGettime = 0 ∨ u.clockGettime = -1) (pthreadCreate timeoutNs : ℤ) :
    u.test.UnknownWhen (fun w => ¬ u.EarlyError ∧ ¬ u.ErrorsFirst w) ∧
      (MismatchedOps.test pthreadCreate).UnknownWhen (fun w => ¬ MismatchedOps.DocumentedWait w) ∧
      (PrivateMappedFile.test pthreadCreate).UnknownWhen
        (PrivateMappedFile.WokenWithoutThread pthreadCreate) ∧
      (SignalRestart.test pthreadCreate).UnknownWhen (fun _ => False) ∧
      (UninitializedHeap.test pthreadCreate).UnknownWhen (fun _ => False) ∧
      (WaitTimeout.test timeoutNs).UnknownWhen (fun _ => False) ∧
      WaitWouldblock.test.UnknownWhen (fun _ => False) := by
  refine ⟨?_, ?_, ?_, ?_, ?_, ?_, ?_⟩
  · exact (RequeuePi.UnitTest.documentedWhen u clock).unknownWhen fun _ => not_or.symm
  · exact (MismatchedOps.documentedWhen pthreadCreate).unknownWhen fun _ => Iff.rfl
  · exact (PrivateMappedFile.documentedWhen pthreadCreate).unknownWhen fun _ => not_not.symm
  · exact (SignalRestart.documented pthreadCreate).unknownWhen fun _ => not_true.symm
  · exact (UninitializedHeap.documentedWhen pthreadCreate).unknownWhen fun _ => not_true.symm
  · exact (waitTestOf_documentedWhen _ _ _).unknownWhen fun _ => not_true.symm
  · exact (waitTestOf_documentedWhen _ _ _).unknownWhen fun _ => not_true.symm

/-- A diagnostic keeps the verdict from being a pass, except that main of
`futex_requeue_pi_mismatched_ops` may take over the error number 0 of the child's wait,
that main of `futex_wait_private_mapped_file` does not ask its waiter whether it timed
out, and that main of `futex_wait_uninitialized_heap` may read `child_ret` between the two
stores with which the child reports a failure. -/
theorem diagnostics_heeded (u : RequeuePi.UnitTest) (pthreadCreate : ℤ) :
    u.test.HeededWhen (fun _ => True) ∧
      (MismatchedOps.test pthreadCreate).HeededWhen MismatchedOps.NumberedErrors ∧
      (SignalRestart.test pthreadCreate).HeededWhen (fun _ => True) ∧
      (PrivateMappedFile.test pthreadCreate).HeededWhen
        (fun w => ¬ PrivateMappedFile.WokenAfterTimeout pthreadCreate w) ∧
      (UninitializedHeap.test pthreadCreate).HeededWhen
        (fun w => ¬ UninitializedHeap.ReadsEarly pthreadCreate w) :=
  ⟨RequeuePi.UnitTest.heeded u, MismatchedOps.heededWhen pthreadCreate,
    SignalRestart.heeded pthreadCreate, PrivateMappedFile.heededWhen pthreadCreate,
    UninitializedHeap.heededWhen pthreadCreate⟩

/-- A run of `futex_wait_uninitialized_heap` whose wait fails with `EINVAL`, and whose
verdict is a pass. -/
theorem diagnostic_swallowed :
    ∃ w s, (UninitializedHeap.test 0).anyMachine.Run w s ∧
      (UninitializedHeap.test 0).diagnoses (s.loc .child) = true ∧
      (UninitializedHeap.test 0).verdict (s.loc .main) = some retPass := by
  refine Syscalls.exists_run Kernel.any (UninitializedHeap.test 0).program
    (UninitializedHeap.test 0).start
    (List.flatten [Choice.ops .main 1, Choice.ops .child 1, Choice.calls .child (.error einval),
      Choice.ops .child 1, Choice.ops .main 2])
    (fun _ s => (UninitializedHeap.test 0).diagnoses (s.loc .child) = true ∧
      (UninitializedHeap.test 0).verdict (s.loc .main) = some retPass) ?_
  decide +kernel
