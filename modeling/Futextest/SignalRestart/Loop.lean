import Futextest.SignalRestart

/-!
# The signal-and-requeue loop

By its comment the loop of main ends with the first requeue that returns something
other than 0: the waiter was moved, or the requeue failed. The second of its two tests
repeats the first one, however, so that an error is treated like 0 and the loop goes on.

The results are arbitrary here: the kernel lets every call return anything.

## Main definitions

* `requeueResults` — what the requeues of a run have returned
* `EndsAt` — the loop ends with the given pass, and as the comment says

## Main results

* `loop_ends_iff` — the loop ends at the first result other than 0 exactly if that is
  positive
-/

namespace SignalRestart

open Syscalls

/-- States of the test when the kernel has none. -/
abbrev AnyState := State Cell Party Loc Unit

/-- The test with a waiter that can be created, when every call may return anything. -/
abbrev anyMachine : System AnyState TestEvent := Syscalls.machine Kernel.any (program 0) (start ())

/-- What a step shows of a requeue: its result, when it returns. -/
def requeueResult (e : TestEvent) : Option ℤ :=
  match e.access with
  | .leave (.cmpRequeuePi _) result => some result.ret
  | _ => none

/-- What the requeues so far have returned. -/
def requeueResults (w : List TestEvent) : List ℤ := w.filterMap requeueResult

/-- Main has left its loop. -/
def MainPc.left : MainPc → Bool
  | .setRequeued | .requeueFailed | .killAgain _ | .join _ | .unlock _ | .out _ | .exit _ => true
  | _ => false

/-- The loop of main ends with pass `k` when its requeues return `results`: up to there it
goes on, with that result it ends; and after the loop `requeued` is 1 and `ret` is
`RET_PASS` if the result is positive, and they are 0 and `RET_ERROR`, up to the verdict,
if it is negative. -/
structure EndsAt (results : ℕ → ℤ) (k : ℕ) : Prop where
  stays : ∀ w s n m, anyMachine.Run w s → n ≤ k →
    requeueResults w = (List.range n).map results → s.loc .main = .main m → m.left = false
  leaves : ∀ w s m, anyMachine.Run w s →
    requeueResults w = (List.range (k + 1)).map results → s.loc .main = .main m → m.left = true
  moved : ∀ w s ret, anyMachine.Run w s → requeueResults w = (List.range (k + 1)).map results →
    0 < results k → s.loc .main = .main (.killAgain ret) → s.mem .requeued = 1 ∧ ret = retPass
  failed : ∀ w s, anyMachine.Run w s → requeueResults w = (List.range (k + 1)).map results →
    results k < 0 →
    (∀ ret, s.loc .main = .main (.killAgain ret) → s.mem .requeued = 0 ∧ ret = retError) ∧
    ∀ ret, s.loc .main = .main (.exit ret) → ret = retError

/-! ## What the loop does -/

/-- The requeues have returned `results`, the last one of them something positive and the
others not. -/
def EndedBy (results : List ℤ) : Prop :=
  ∃ before last, results = before ++ [last] ∧ 0 < last ∧ ∀ res ∈ before, ¬ 0 < res

/-- In the loop no requeue has returned anything positive; with the first that does main
leaves it. -/
def LoopPhase (results : List ℤ) (mem : Cell → ℤ) : MainPc → Prop
  | .createFailed | .requeueFailed => False
  | .killAgain ret => EndedBy results ∧ mem .requeued = 1 ∧ ret = retPass
  | .setRequeued | .join _ | .unlock _ | .out _ | .exit _ => EndedBy results
  | .create | .lock | .kill | .load | .requeue _ => ∀ res ∈ results, ¬ 0 < res

theorem LoopPhase.inside {results : List ℤ} {mem : Cell → ℤ} {m : MainPc}
    (phase : LoopPhase results mem m) (stays : m.left = false) : ∀ res ∈ results, ¬ 0 < res := by
  cases m with
  | create | lock | kill | load | requeue old => exact phase
  | createFailed => exact phase.elim
  | _ => cases stays

theorem LoopPhase.outside {results : List ℤ} {mem : Cell → ℤ} {m : MainPc}
    (phase : LoopPhase results mem m) (left : m.left = true) : EndedBy results := by
  cases m with
  | createFailed | requeueFailed => exact phase.elim
  | killAgain ret => exact phase.1
  | setRequeued | join ret | unlock ret | out ret | exit ret => exact phase
  | _ => cases left

variable {results : List ℤ} {mem mem' : Cell → ℤ} {loc : Party → Loc} {m : MainPc}
  {access : Access Cell Call Party} {l l' : Loc} {w : List TestEvent} {s : AnyState}

theorem requeueResults_append (w : List TestEvent) (e : TestEvent) :
    requeueResults (w ++ [e]) = requeueResults w ++ (requeueResult e).toList := by
  rw [requeueResults, List.filterMap_append, requeueResults]
  cases h : requeueResult e <;> simp [h]

/-- A requeue that returns something positive ends the loop, and every other one leads
back to its head. -/
theorem afterRequeue_left (res : ℤ) :
    (0 < res ∧ afterRequeue res = .setRequeued) ∨ (¬ 0 < res ∧ afterRequeue res = .kill) := by
  by_cases positive : 0 < res
  · exact .inl ⟨positive, by simp [afterRequeue, loopExit, positive]⟩
  · exact .inr ⟨positive, by simp [afterRequeue, loopExit, positive]⟩

/-- An operation of main leads to the next phase. -/
theorem LoopPhase.main_next (phase : LoopPhase results mem m)
    (next : (SignalRestart.main 0 m).Next (program 0) mem loc access mem' l) (pc : Loc) :
    ∃ m', l = .main m' ∧
      LoopPhase (results ++ (requeueResult ⟨.main, pc, access⟩).toList) mem' m' := by
  cases m with
  | create =>
    have created : createRtThread 0 = 0 := rfl
    rw [SignalRestart.main, if_pos created] at next
    cases next
    exact ⟨.lock, rfl, (List.append_nil results).symm ▸ phase⟩
  | createFailed | requeueFailed => exact phase.elim
  | lock =>
    cases next
    exact ⟨.kill, rfl, (List.append_nil results).symm ▸ phase⟩
  | kill =>
    cases next
    exact ⟨.load, rfl, (List.append_nil results).symm ▸ phase⟩
  | load =>
    cases next
    exact ⟨.requeue _, rfl, (List.append_nil results).symm ▸ phase⟩
  | requeue old =>
    cases next with
    | leave c k r =>
      rcases afterRequeue_left r.ret with ⟨positive, after⟩ | ⟨small, after⟩
      · exact ⟨.setRequeued, congrArg Loc.main after, results, r.ret, rfl, positive, phase⟩
      · refine ⟨.kill, congrArg Loc.main after, ?_⟩
        intro res member
        rcases List.mem_append.mp member with earlier | now
        · exact phase res earlier
        · rw [List.mem_singleton.mp now]
          exact small
  | setRequeued =>
    cases next
    exact ⟨.killAgain retPass, rfl, (List.append_nil results).symm ▸ phase,
      Function.update_self _ _ _, rfl⟩
  | killAgain ret =>
    cases next
    exact ⟨.join ret, rfl, (List.append_nil results).symm ▸ phase.1⟩
  | join ret =>
    cases next
    exact ⟨.unlock ret, rfl, (List.append_nil results).symm ▸ phase⟩
  | unlock ret =>
    cases next
    exact ⟨.out ret, rfl, (List.append_nil results).symm ▸ phase⟩
  | out ret =>
    rw [SignalRestart.main] at next
    split at next <;> cases next
    · exact ⟨.exit _, rfl, (List.append_nil results).symm ▸ phase⟩
    · exact ⟨.exit _, rfl, (List.append_nil results).symm ▸ phase⟩
  | exit ret => cases next

/-- The waiter makes no requeue and leaves `requeued` alone. -/
theorem waiter_next (next : (program 0 .waiter l).Next (program 0) mem loc access mem' l') :
    (∀ pc, requeueResult ⟨.waiter, pc, access⟩ = none) ∧ mem' .requeued = mem .requeued := by
  cases l with
  | main pc => cases next
  | waiter pc =>
    cases pc with
    | init | setFail =>
      cases next
      exact ⟨fun _ => rfl, Function.update_of_ne (by decide) _ _⟩
    | load | wait old | test result | fail result | unlock =>
      cases next
      exact ⟨fun _ => rfl, rfl⟩
    | exit => cases next

/-- The phase of main at the end of a run. -/
theorem exists_loopPhase (run : anyMachine.Run w s) :
    ∃ m, s.loc .main = .main m ∧ LoopPhase (requeueResults w) s.mem m := by
  refine Run.move_induction
    (P := fun w mem loc => ∃ m, loc .main = .main m ∧ LoopPhase (requeueResults w) mem m)
    ?_ ?_ ?_ run
  · refine ⟨.create, rfl, ?_⟩
    intro res member
    cases member
  · rintro w mem loc t access silent ⟨m, here, phase⟩
    have same : requeueResults (w ++ [⟨t, loc t, access⟩]) = requeueResults w := by
      rw [requeueResults_append]
      rcases silent with rfl | ⟨c, rfl⟩ <;> exact List.append_nil _
    rw [same]
    exact ⟨m, here, phase⟩
  · rintro w mem loc t access mem' l ⟨m, here, phase⟩ next
    rw [requeueResults_append]
    cases t with
    | main =>
      have at_main : program 0 .main (loc .main) = SignalRestart.main 0 m := by
        rw [here, program]
      rw [at_main] at next
      obtain ⟨m', there, phase'⟩ := phase.main_next next (loc .main)
      exact ⟨m', (Function.update_self _ _ _).trans there, phase'⟩
    | waiter =>
      obtain ⟨none, same⟩ := waiter_next next
      refine ⟨m, (Function.update_of_ne (by decide) _ _).trans here, ?_⟩
      rw [none, Option.toList, List.append_nil]
      cases m with
      | killAgain ret => exact ⟨phase.1, same.trans phase.2.1, phase.2.2⟩
      | _ => exact phase

/-! ## Where it ends -/

/-- While the requeues return nothing positive main comes back to the head of its loop. -/
theorem exists_loop_run (results : ℕ → ℤ) (n : ℕ) (small : ∀ i < n, ¬ 0 < results i) :
    ∃ w s, anyMachine.Run w s ∧ requeueResults w = (List.range n).map results ∧
      s.thread .main = .ready (.main .kill) := by
  induction n with
  | zero =>
    have created : anyMachine.step (start ()) ⟨.main, .main .create, .create .waiter⟩ _ :=
      .run rfl rfl
    have run := (System.Run.start rfl).next created
    obtain ⟨s, run, ready⟩ := run_call run (t := .main) (l := .main .lock) rfl rfl (.ok 0)
    exact ⟨_, s, run, rfl, ready⟩
  | succ n ih =>
    obtain ⟨w, s, run, returned, ready⟩ := ih fun i less => small i (Nat.lt_succ_of_lt less)
    -- one more pass, in which the requeue returns `results n`
    obtain ⟨s₁, run, ready⟩ := run_call run ready rfl (.ok 0)
    obtain ⟨s₂, run, ready⟩ := run_load run ready rfl
    obtain ⟨s₃, run, ready⟩ := run_call run ready rfl ⟨results n, 0⟩
    refine ⟨_, s₃, run, ?_, ?_⟩
    · rw [List.range_succ, List.map_append, ← returned]
      simp only [requeueResults, List.append_assoc, List.filterMap_append,
        List.append_cancel_left_eq]
      rfl
    · rw [ready]
      simp [afterRequeue, loopExit, small n (Nat.lt_succ_self n)]

/-- **The loop ends at the first result other than 0 exactly if it is positive.** A
negative one does not end it at all. -/
theorem loop_ends_iff (results : ℕ → ℤ) (k : ℕ) (zero : ∀ i < k, results i = 0)
    (nonzero : results k ≠ 0) : EndsAt results k ↔ 0 < results k := by
  constructor
  · intro ends
    by_contra small
    have none_positive : ∀ i < k + 1, ¬ 0 < results i := by
      intro i less
      rcases Nat.lt_succ_iff_lt_or_eq.mp less with before | rfl
      · rw [zero i before]
        exact Int.lt_irrefl 0
      · exact small
    -- main is back at the head of its loop, where it ought to have left it
    obtain ⟨w, s, run, returned, ready⟩ := exists_loop_run results (k + 1) none_positive
    have at_kill : s.loc .main = .main .kill := by simp [State.loc, ready]
    have left := ends.leaves w s .kill run returned at_kill
    cases left
  · intro positive
    have last : results k ∈ (List.range (k + 1)).map results :=
      List.mem_map.mpr ⟨k, List.mem_range.mpr (Nat.lt_succ_self k), rfl⟩
    constructor
    · intro w s n m run few returned here
      obtain ⟨m', here', phase⟩ := exists_loopPhase run
      obtain rfl : m' = m := by simpa [here'] using here
      by_contra left
      obtain ⟨before, res, split, moved, -⟩ := phase.outside (by simpa using left)
      have member : res ∈ (List.range n).map results := by simp [← returned, split]
      obtain ⟨i, less, rfl⟩ := List.mem_map.mp member
      rw [zero i (lt_of_lt_of_le (List.mem_range.mp less) few)] at moved
      exact Int.lt_irrefl 0 moved
    · intro w s m run returned here
      obtain ⟨m', here', phase⟩ := exists_loopPhase run
      obtain rfl : m' = m := by simpa [here'] using here
      by_contra stays
      exact phase.inside (by simpa using stays) _ (returned ▸ last) positive
    · intro w s ret run returned _ here
      obtain ⟨m', here', phase⟩ := exists_loopPhase run
      obtain rfl : m' = .killAgain ret := by simpa [here'] using here
      exact phase.2
    · intro w s run returned negative
      exact absurd positive (Int.lt_asymm negative)

/-- The first two requeues find nobody, the third moves the waiter. -/
theorem loop_ends_iff_third : EndsAt (fun i => if i = 2 then 1 else 0) 2 :=
  (loop_ends_iff (fun i => if i = 2 then 1 else 0) 2 (by decide) (by decide)).mpr (by decide)

/-- A requeue that fails at once does not end the loop. -/
theorem loop_goes_on : ¬ EndsAt (fun _ => -1) 0 := by
  intro ends
  obtain ⟨w, s, run, returned, ready⟩ := exists_loop_run (fun _ => -1) 1
    (fun _ _ => by decide)
  have at_kill : s.loc .main = .main .kill := by simp [State.loc, ready]
  have left := ends.leaves w s .kill run returned at_kill
  cases left

end SignalRestart
