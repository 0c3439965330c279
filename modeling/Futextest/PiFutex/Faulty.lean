import Futextest.PiFutex

/-!
# PI futexes of a faulty kernel

A kernel may end a wait for a requeue by any error, with or without a timeout: at once, or
while the thread is queued at the word or has been moved to the queue of the PI futex. All
that is left of the wait is that it returns 0 only to a thread that has been given the PI
futex.

## Main definitions

* `FaultyStep` — a step, or a wait that fails
* `faultyMachine` — the machine under such a kernel

## Main results

* `Reachable.faulty` — whatever is reachable without faults is so with them
* `faulty_loc_invariant` — what a program keeps wherever a thread is
-/

namespace PiFutex

variable {A P T L : Type} [DecidableEq A] [DecidableEq P] [DecidableEq T] [Fintype T]

/-- One step under a faulty kernel. A wait that is queued is bound for the error with which
it ends, unless it is given its futex before. -/
inductive FaultyStep (M : Program A P T L) (s : State A P T L) :
    Event A P T L → State A P T L → Prop
  | sound {e : Event A P T L} {s' : State A P T L} (step : Step M s e s') : FaultyStep M s e s'
  | refused {t : T} {l : L} {a : A} {v : ℤ} {p : P} {timeout : Timeout} {k : SysResult → L}
      (errno : ℕ) (running : s.thread t = .ready l) (op : M t l = .waitRequeuePi a v p timeout k) :
      FaultyStep M s ⟨t, l, .waitRequeuePi a p false⟩ (s.put t (.ready (k (.error errno))))
  | bound {t : T} {l : L} {a : A} {v : ℤ} {p : P} {timeout : Timeout} {k : SysResult → L}
      (errno : ℕ) (running : s.thread t = .ready l) (op : M t l = .waitRequeuePi a v p timeout k) :
      FaultyStep M s ⟨t, l, .waitRequeuePi a p true⟩
        (s.put t (.queued (.source a p) (k (.ok 0)) (some (k (.error errno)))))

/-- The machine under a faulty kernel. -/
def faultyMachine (M : Program A P T L) (start : State A P T L) :
    System (State A P T L) (Event A P T L) where
  init s := s = start
  step := FaultyStep M

variable {M : Program A P T L} {start s s' : State A P T L} {e : Event A P T L}

/-- The faults add runs and take none away. -/
theorem Run.faulty {w : List (Event A P T L)} (run : (machine M start).Run w s) :
    (faultyMachine M start).Run w s :=
  run.mono (fun _ first => first) fun _ _ _ => .sound

theorem Reachable.faulty (reach : (machine M start).Reachable s) :
    (faultyMachine M start).Reachable s := by
  obtain ⟨w, run⟩ := reach
  exact (Run.faulty run).reachable

/-- What holds wherever a thread is and of everything its next operation continues at, holds
after a step of a faulty kernel. -/
theorem FaultyStep.holds (step : FaultyStep M s e s') {t : T} {Q : L → Prop}
    (leads : e.thread = t → s.thread t = .ready e.pc → (M t e.pc).Leads s.mem Q)
    (before : (s.thread t).Holds Q) : (s'.thread t).Holds Q := by
  cases step with
  | sound step => exact step.holds leads before
  | @refused u l a v p timeout k errno running op =>
    by_cases hu : t = u
    · subst hu
      have results := leads rfl running
      simp only [op, Op.Leads] at results
      rw [State.put_self]
      exact results _
    · rwa [State.put_of_ne _ hu]
  | @bound u l a v p timeout k errno running op =>
    by_cases hu : t = u
    · subst hu
      have results := leads rfl running
      simp only [op, Op.Leads] at results
      rw [State.put_self]
      refine ⟨results _, ?_⟩
      intro l' ends
      exact Option.some.inj ends ▸ results _
    · rwa [State.put_of_ne _ hu]

/-- A property of control points that holds at the start and that the program of a thread
keeps holds wherever that thread is, whatever fails. -/
theorem faulty_loc_invariant {t : T} {Q : L → Prop} (initial : (start.thread t).Holds Q)
    (leads : ∀ l mem, Q l → (M t l).Leads mem Q) (reach : (faultyMachine M start).Reachable s) :
    (s.thread t).Holds Q := by
  have inv : (faultyMachine M start).Invariant fun s => (s.thread t).Holds Q := by
    constructor
    · rintro s rfl
      exact initial
    · intro s e s' _ before step
      refine FaultyStep.holds step ?_ before
      intro _ ready
      rw [ready] at before
      exact leads e.pc s.mem before
  exact inv.of_reachable reach

end PiFutex
