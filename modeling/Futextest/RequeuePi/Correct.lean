import Futextest.RequeuePi.Deadlocks
import Futextest.RequeuePi.Locked

/-!
# Tests that return

Without a third party, a test hangs only after a requeue that has failed, if it signals its
waiters, locks `f2` around its requeues or gives the waiters a timeout: `signal_wakerfn` and a
waker with a lock leave their loop without an error only when no waiter is left on `f1`, and
waiters with a timeout come from there by themselves.

## Main definitions

* `UnitTest.Safe` — such a test

## Main results

* `unitTest_returns` — it passes, if its waker does not fail
-/

namespace RequeuePi

open PiFutex UnitTest

variable {u : UnitTest} {w : List RunEvent} {s : RunState}

/-- No waiter can be left behind by a waker that has not failed. -/
def UnitTest.Safe (u : UnitTest) : Prop :=
  u.broadcast = false ∨ u.lock = true ∨ u.timed = true

/-- A signal waker that has left its loop without an error has left no waiter on `f1`. -/
theorem all_left_of_signal_done (signal : u.broadcast = false) (run : (machine u).Run w s)
    (done : (s.loc .waker).Done) : left s = Finset.univ := by
  have always : ∀ w s (e : RunEvent), (machine u).Run w s → True →
      s.thread .waker = .ready e.pc → e.pc.Exits s.mem → left s = Finset.univ := by
    intro w s e run _ ready exits
    have here : s.loc .waker = e.pc := by simp [State.loc, ready]
    obtain ⟨pc, at_pc⟩ := waker_signal signal run.reachable
    rw [← here, at_pc] at exits
    exact all_left_of_signal_exits run at_pc exits
  exact all_left_of_done (all_left_or_not_done always (run.restrict fun _ _ _ _ _ => trivial)) done

/-- A waker that has finished has failed, or it has left its loop without an error. -/
theorem failed_or_done (reach : (machine u).Reachable s)
    (ended : s.finished u.program .waker = true) :
    (s.loc .waker).Failed ∨ (s.loc .waker).Done := by
  obtain ⟨w, run⟩ := reach
  obtain ⟨l, ready, exits⟩ := State.finished_iff.mp ended
  obtain ⟨p, at_phase, -⟩ := State.loc_of_holds (waker_phase run)
  have here : s.loc .waker = l := by simp [State.loc, ready]
  rw [here] at at_phase ⊢
  cases l with
  | broadcast pc | signal pc =>
    cases pc with
    | exit ret => exact lt_or_ge ret 0
    | _ => cases exits
  | _ => exact at_phase.elim

/-- Without a third party nobody sleeps on `wake_complete`. -/
theorem blocker_awake (two : u.thirdPartyOwner = false) (reach : (machine u).Reachable s) :
    ¬ ∃ l, s.thread .blocker = .asleep .wakeComplete l := by
  rintro ⟨l, asleep⟩
  obtain ⟨l', unborn⟩ := blocker_unborn two reach
  rw [asleep] at unborn
  cases unborn

/-- A safe test without a third party only hangs after its waker has failed. -/
theorem failed_of_hangs (fine : u.NoneFails) (two : u.thirdPartyOwner = false) (safe : u.Safe)
    (run : (machine u).Run w s) (hangs : Hangs u s) : (s.loc .waker).Failed := by
  have reach := run.reachable
  cases hangs with
  | wakeupLost asleep _ => exact absurd asleep (blocker_awake two reach)
  | mutualWait wait => exact absurd wait.2.1 (blocker_awake two reach)
  | stranded free waker waiter =>
    refine (failed_or_done reach waker).resolve_right fun done => ?_
    have untimed : u.timed = false :=
      ((Hangs.stranded free waker waiter).unfinished fine reach).2.resolve_left (by simp [two])
    have all : left s = Finset.univ := by
      rcases safe with signal | lock | timed
      · exact all_left_of_signal_done signal run done
      · exact all_left_of_locked_done lock untimed run done
      · rw [untimed] at timed
        cases timed
    -- the waiter that is left is past `f1` like all others
    obtain ⟨i, l, queued⟩ := waiter
    have past := mem_left.mp (all ▸ Finset.mem_univ i)
    rw [queued] at past
    cases past

/-- **Tests that return.** Without a third party, with signals, a lock or a timeout, and if the
clock can be read and all threads can be created: whatever has happened so far, `unit_test`
goes on, without a wait that returns by itself, until it returns, unless its waker leaves its
loop with an error. It returns `RET_PASS` then, or `RET_ERROR` if the deadline that it has
made of the timeout is malformed. -/
theorem unitTest_returns (u : UnitTest) (two : u.thirdPartyOwner = false) (safe : u.Safe)
    (fine : ¬ u.EarlyError) (run : (machine u).Run w s) :
    ∃ w' t, (machine u).Run (w ++ w') t ∧ (∀ e ∈ w', e.resumes = false) ∧
      (machine u).Stuck (fun e => !e.resumes) t ∧
      (t.thread .main =
          .ready (.main (.exit (if u.timeout = .invalid then retError else retPass))) ∨
        (t.loc .waker).Failed) := by
  have none_fails : u.NoneFails := by
    intro t starts
    by_contra fails
    exact fine (.inr ⟨t, starts, fails⟩)
  obtain ⟨w', t, further, -, quiet, stuck, ends⟩ := exists_last none_fails run
  refine ⟨w', t, further, quiet, stuck, ?_⟩
  have reach := further.reachable
  rcases ends with ended | hangs
  · obtain ⟨v, ready⟩ := exists_exit none_fails reach ended
    rcases exit_value fine reach ready with ⟨rfl, invalid | failed⟩ | ⟨rfl, accepted, -⟩
    · rw [if_pos invalid]
      exact .inl ready
    · exact .inr failed
    · rw [if_neg accepted]
      exact .inl ready
  · exact .inr (failed_of_hangs none_fails two safe further hangs)

/-- With signals and a malformed deadline a test that has just begun can go on to its end. -/
theorem unitTest_returns_malformed : ∃ w t,
    (machine (unitTestWith false false false (-1))).Run w t ∧
    (∀ e ∈ w, e.resumes = false) ∧
    (machine (unitTestWith false false false (-1))).Stuck (fun e => !e.resumes) t ∧
    (t.thread .main = .ready (.main (.exit retError)) ∨ (t.loc .waker).Failed) := by
  have fine : ¬ (unitTestWith false false false (-1)).EarlyError := by
    simp [EarlyError, firstRet, unitTestWith, UnitTest.timed]
  have malformed : (unitTestWith false false false (-1)).timeout = .invalid := by decide
  obtain ⟨w, t, run, quiet, stuck, ends⟩ :=
    unitTest_returns (unitTestWith false false false (-1)) rfl (.inl rfl) fine (.start rfl)
  rw [if_pos malformed] at ends
  exact ⟨w, t, run, quiet, stuck, ends⟩

end RequeuePi
