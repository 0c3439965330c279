import Mathlib.Data.List.DropRight
import Futextest.FutexWait.Wakeup

/-!
# The benchmark lock is released once by each unlock

`futex_cmpxchg_unlock` looks at the word up to three times, and any number of other
threads may come in between. They can do little: while the lock is held the word is 1
or 2, and all that another thread does to it is to mark it. So the unlock knows the word
as far as it has to, and its last compare-and-exchange, whose result nobody looks at,
succeeds.

## Main definitions

* `unlockCall` — the accesses of the latest call of a thread
* `CallSoFar` — what a call has done when its thread is at some control point
* `ReleasesOnce` — what a whole call does to the word

## Main results

* `unlock_releases_once` — after every run, for every thread and each of its calls
-/

open FutexMachine

/-- The control points of `futex_cmpxchg_unlock`. -/
def InUnlock : LockLoc → Bool
  | .inl (.unlock _ _) => true
  | _ => false

/-- The value of the word that an access finds. -/
def FutexMachine.Access.finds {A T : Type} : Access A T → Option UInt32
  | .load _ got => some got
  | .cmpxchg _ _ _ got => some got
  | _ => none

/-- Whether an access brings its word to 0, from another value or not. -/
def FutexMachine.Access.zeroes {A T : Type} : Access A T → Bool
  | .store _ v => v = 0
  | .cmpxchg _ old new got => got = old ∧ new = 0
  | .dec _ result => result = 0
  | _ => false

/-- Whether an access is a call of `futex_wake`. -/
def FutexMachine.Access.isWake {A T : Type} : Access A T → Bool
  | .wake _ _ _ => true
  | _ => false

section Calls

variable {T : Type} [DecidableEq T]

/-- The accesses of the call of `futex_cmpxchg_unlock` that thread `t` is in, or has
returned from by its last step: those of its last steps, back to one elsewhere. -/
def unlockCall (w : List (Event Unit T LockLoc)) (t : T) : List (Access Unit T) :=
  ((w.filter fun e => e.thread = t).rtakeWhile fun e => InUnlock e.pc).map Event.access

variable {w : List (Event Unit T LockLoc)} {e : Event Unit T LockLoc} {t : T}

theorem unlockCall_other (ne : t ≠ e.thread) : unlockCall (w ++ [e]) t = unlockCall w t := by
  simp [unlockCall, Ne.symm ne]

theorem unlockCall_inside (inside : InUnlock e.pc = true) :
    unlockCall (w ++ [e]) e.thread = unlockCall w e.thread ++ [e.access] := by
  simp [unlockCall, List.rtakeWhile_concat_pos, inside]

theorem unlockCall_outside (outside : InUnlock e.pc = false) :
    unlockCall (w ++ [e]) e.thread = [] := by
  simp [unlockCall, List.rtakeWhile_concat_neg, outside]

end Calls

/-! ## One call -/

section Call

variable {T : Type}

/-- A call has brought the word to 0 by one compare-and-exchange and by nothing else. If
the word was 1, it has waked nobody; if it was 2, its last access was to wake one
sleeper, and that was its only one of this kind. -/
def ReleasesOnce (call : List (Access Unit T)) : Prop :=
  ∃ before after v, call = before ++ .cmpxchg () v 0 v :: after ∧
    (∀ a ∈ before ++ after, a.zeroes = false) ∧
    (v = 1 ∧ (∀ a ∈ call, a.isWake = false) ∨
      v = 2 ∧ (∀ a ∈ before, a.isWake = false) ∧ ∃ woken, after = [.wake () 1 woken])

/-- What the call so far has done when its thread is at a control point. At the head of
the loop that is a whole call, and outside of the unlock it is nothing. -/
def CallSoFar (call : List (Access Unit T)) : LockLoc → Prop
  | .inl (.unlock _ (.clear status)) =>
      status = 1 ∧ call = [.load () 1] ∨ status = 2 ∧ call = [.load () 2]
  | .inl (.unlock _ (.clearMarked status)) =>
      status = 1 ∧ call = [.load () 1, .cmpxchg () 1 0 1] ∨
        status = 2 ∧ (call = [.load () 1, .cmpxchg () 1 0 2] ∨ call = [.load () 2, .tau])
  | .inl (.unlock _ .wake) =>
      call = [.load () 1, .cmpxchg () 1 0 2, .cmpxchg () 2 0 2] ∨
        call = [.load () 2, .tau, .cmpxchg () 2 0 2]
  | .inl (.head _) =>
      call = [.load () 1, .cmpxchg () 1 0 1, .tau] ∨
        (∃ woken, call = [.load () 1, .cmpxchg () 1 0 2, .cmpxchg () 2 0 2, .wake () 1 woken]) ∨
        ∃ woken, call = [.load () 2, .tau, .cmpxchg () 2 0 2, .wake () 1 woken]
  | _ => call = []

variable {call : List (Access Unit T)} {mem : Unit → UInt32} {pc : UnlockPc} {n : ℤ}

/-- One statement of the unlock, given what a holder of the lock knows of the word. -/
theorem CallSoFar.unlock (woken : Finset T) (word : mem () = 0 ∨ mem () = 1 ∨ mem () = 2)
    (agrees : StatusAgrees (mem ()) (.inl (.unlock n pc)))
    (held : Holds (.inl (.unlock n pc)) → mem () ≠ 0)
    (sofar : CallSoFar call (.inl (.unlock n pc))) :
    CallSoFar (call ++ [(futexWaitTest (.unlock n pc)).shows mem woken])
      ((futexWaitTest (.unlock n pc)).effect mem).2 := by
  cases pc with
  | read =>
    -- whoever unlocks holds the lock, so that the word is not 0
    have empty : call = [] := sofar
    have nonzero := held trivial
    rcases word with w | w | w
    · exact absurd w nonzero
    · simp [CallSoFar, empty, w]
    · simp [CallSoFar, empty, w]
  | clear status =>
    have nonzero := held trivial
    rcases sofar with ⟨rfl, sofar⟩ | ⟨rfl, sofar⟩
    · -- the read found 1; since then the word may have been marked
      rcases word with w | w | w
      · exact absurd w nonzero
      · simp [CallSoFar, sofar, w]
      · simp [CallSoFar, sofar, w]
    · simp [CallSoFar, sofar]
  | clearMarked status =>
    rcases sofar with ⟨rfl, sofar⟩ | ⟨rfl, sofar⟩
    · simp [CallSoFar, sofar]
    · -- the status is 2, and then the word is
      have two : mem () = 2 := by simpa [StatusAgrees] using agrees
      rcases sofar with sofar | sofar
      · simp [CallSoFar, sofar, two]
      · simp [CallSoFar, sofar, two]
  | wake =>
    rcases sofar with sofar | sofar
    · simp [CallSoFar, sofar]
    · simp [CallSoFar, sofar]

/-- Every other statement leads to the loop of another function, with no call begun. -/
theorem CallSoFar.outside {pc : TestPc} (outside : InUnlock (.inl pc) = false) :
    CallSoFar (T := T) [] ((futexWaitTest pc).effect mem).2 := by
  cases pc with
  | head loops => by_cases zero : loops = 0 <;> simp [CallSoFar, zero]
  | lock loops pc =>
    cases pc with
    | read | reread => simp [CallSoFar]
    | fast status | loop status | sleep status | take status =>
      by_cases zero : status = 0 <;> simp [CallSoFar, zero]
    | mark status => by_cases one : status = 1 <;> simp [CallSoFar, one]
  | unlock loops pc => cases outside

/-- At no control point has the call found the word 0, or its second
compare-and-exchange failed, and it is at most four statements long. -/
theorem CallSoFar.finds {l : LockLoc} (sofar : CallSoFar call l) :
    (∀ a ∈ call, a.finds ≠ some 0) ∧ (∀ got, .cmpxchg () 2 0 got ∈ call → got = 2) ∧
      call.length ≤ 4 := by
  have nothing : call = [] → (∀ a ∈ call, a.finds ≠ some 0) ∧
      (∀ got, .cmpxchg () 2 0 got ∈ call → got = 2) ∧ call.length ≤ 4 := by
    rintro rfl
    simp
  rcases l with (loops | ⟨loops, pc⟩ | ⟨loops, pc⟩) | _
  · rcases sofar with rfl | ⟨woken, rfl⟩ | ⟨woken, rfl⟩
    · simp [Access.finds]
    · simp [Access.finds]
    · simp [Access.finds]
  · exact nothing sofar
  · cases pc with
    | read => exact nothing sofar
    | clear status => rcases sofar with ⟨-, rfl⟩ | ⟨-, rfl⟩ <;> simp [Access.finds]
    | clearMarked status =>
      rcases sofar with ⟨-, rfl⟩ | ⟨-, rfl | rfl⟩ <;> simp [Access.finds]
    | wake => rcases sofar with rfl | rfl <;> simp [Access.finds]
  · exact nothing sofar

/-- Back at the head of the loop a whole call has been made. -/
theorem CallSoFar.releasesOnce (sofar : CallSoFar call (.inl (.head n))) : ReleasesOnce call := by
  rcases sofar with rfl | ⟨woken, rfl⟩ | ⟨woken, rfl⟩
  · refine ⟨[.load () 1], [.tau], 1, rfl, ?_, .inl ⟨rfl, ?_⟩⟩
    · simp [Access.zeroes]
    · simp [Access.isWake]
  · refine ⟨[.load () 1, .cmpxchg () 1 0 2], [.wake () 1 woken], 2, rfl, ?_, .inr ⟨rfl, ?_, ?_⟩⟩
    · simp [Access.zeroes]
    · simp [Access.isWake]
    · exact ⟨woken, rfl⟩
  · refine ⟨[.load () 2, .tau], [.wake () 1 woken], 2, rfl, ?_, .inr ⟨rfl, ?_, ?_⟩⟩
    · simp [Access.zeroes]
    · simp [Access.isWake]
    · exact ⟨woken, rfl⟩

end Call

/-! ## All calls of a run -/

section Machine

variable {T : Type} [DecidableEq T] [Fintype T] {loops : T → ℤ}
variable {w : List (Event Unit T LockLoc)} {s s' : State Unit T LockLoc} {e : Event Unit T LockLoc}

/-- The step of a thread from where its call has come so far. -/
theorem CallSoFar.own (reach : (lockMachine loops).Reachable s)
    (step : Step (lockProgram T) s e s')
    (sofar : InUnlock e.pc = true → CallSoFar (unlockCall w e.thread) e.pc) :
    CallSoFar (unlockCall (w ++ [e]) e.thread) (s'.loc e.thread) := by
  rcases step.effect with ⟨i, woken, hop, ready, shown, -, loc⟩ |
    ⟨-, ⟨-, ⟨a, asleep⟩, loc⟩ | ⟨u, k, hop, -⟩⟩
  · -- a statement of `futex_wait_test`
    rcases hpc : e.pc with pc | _
    swap
    · simp [hpc] at hop
    rw [hpc] at hop ready
    obtain rfl : futexWaitTest pc = i := by simpa using hop
    have self : s'.loc e.thread = ((futexWaitTest pc).effect s.mem).2 := by simp [loc]
    rw [self]
    cases inside : InUnlock e.pc with
    | false =>
      rw [unlockCall_outside inside]
      exact .outside (hpc ▸ inside)
    | true =>
      have before := sofar inside
      rw [unlockCall_inside inside, shown]
      rw [hpc] at inside before
      -- what the word can be is the invariant of the lock
      obtain ⟨owner, inv⟩ := exists_lockInv reach
      have here : s.loc e.thread = .inl pc := by simp [State.loc, ready]
      have agrees := inv.agrees e.thread
      have held : Holds (s.loc e.thread) → s.mem () ≠ 0 := inv.nonzero
      rw [here] at agrees held
      cases pc with
      | head loops => cases inside
      | lock loops pc => cases inside
      | unlock loops pc => exact before.unlock woken inv.word agrees held
  · -- a spurious return, which is only into the lock
    obtain ⟨n, reread⟩ := asleep_at_reread reach asleep
    have outside : InUnlock e.pc = false := by rw [reread]; rfl
    have here : s.loc e.thread = e.pc := by simp [State.loc, asleep]
    rw [unlockCall_outside outside, loc, here, reread]
    rfl
  · rcases hpc : e.pc with pc | _ <;> simp [hpc] at hop

/-- After every run a thread has taken no step yet, or its latest call has come as far
as its control point says. -/
theorem unlockCall_run (run : (lockMachine loops).Run w s) (t : T) :
    (s.loc t = .inl (.head (loops t)) ∧ ∀ e ∈ w, e.thread ≠ t) ∨
      CallSoFar (unlockCall w t) (s.loc t) := by
  refine run.induction (P := fun w s => (s.loc t = .inl (.head (loops t)) ∧
    ∀ e ∈ w, e.thread ≠ t) ∨ CallSoFar (unlockCall w t) (s.loc t)) ?_ ?_
  · intro s initial
    rw [machine_init.mp initial]
    exact .inl ⟨rfl, by simp⟩
  · intro w s e s' before ih step
    by_cases self : t = e.thread
    · subst self
      have here : e.pc = s.loc e.thread := Step.pc_eq step
      refine .inr (CallSoFar.own before.reachable step ?_)
      intro inside
      rcases ih with ⟨first, -⟩ | sofar
      · -- its first step is at the head of the loop
        rw [here, first] at inside
        cases inside
      · rw [here]
        exact sofar
    · rw [Step.loc_other step self, unlockCall_other self]
      rcases ih with ⟨first, none⟩ | sofar
      · refine .inl ⟨first, ?_⟩
        intro e' member
        rcases List.mem_append.mp member with earlier | now
        · exact none e' earlier
        · rw [List.mem_singleton.mp now]
          exact Ne.symm self
      · exact .inr sofar

/-- A thread in the unlock is never blocked. -/
theorem enabled_of_unlock (reach : (lockMachine loops).Reachable s) {t : T} {n : ℤ}
    {pc : UnlockPc} (inside : s.loc t = .inl (.unlock n pc)) : Enabled (lockProgram T) s t := by
  cases ht : s.thread t with
  | unborn l => exact absurd ht (not_unborn (by simp [lockStart]) reach l)
  | asleep a l =>
    obtain ⟨m, rfl⟩ := asleep_at_reread reach ht
    simp [State.loc, ht] at inside
  | ready l =>
    obtain rfl : l = .inl (.unlock n pc) := by simpa [State.loc, ht] using inside
    exact enabled_of_instr ht rfl

/-- **Unlock releases once.** In every run of any number of threads that lock and unlock
one word: a thread in `futex_cmpxchg_unlock` can always take its next step, and takes at
most four; no access of a call finds the word 0, and a `cmpxchg(2, 0)` finds it 2; and
whenever the thread is back at the head of its loop, its last call has released the lock
exactly once, with a wake exactly if the word was marked. -/
theorem unlock_releases_once (loops : T → ℤ) (run : (lockMachine loops).Run w s) (t : T) :
    (∀ n pc, s.loc t = .inl (.unlock n pc) → Enabled (lockProgram T) s t) ∧
    (unlockCall w t).length ≤ 4 ∧
    (∀ a ∈ unlockCall w t, a.finds ≠ some 0) ∧
    (∀ got, .cmpxchg () 2 0 got ∈ unlockCall w t → got = 2) ∧
    ∀ n, s.loc t = .inl (.head n) → (∃ e ∈ w, e.thread = t) → ReleasesOnce (unlockCall w t) := by
  refine ⟨fun n pc inside => enabled_of_unlock run.reachable inside, ?_⟩
  rcases unlockCall_run run t with ⟨-, none⟩ | sofar
  · have empty : unlockCall w t = [] := by
      have own : (w.filter fun e => e.thread = t) = [] := by simpa using none
      simp [unlockCall, own]
    rw [empty]
    refine ⟨by simp, by simp, by simp, ?_⟩
    rintro n - ⟨e, member, same⟩
    exact absurd same (none e member)
  · obtain ⟨finds, marked, short⟩ := sofar.finds
    refine ⟨short, finds, marked, ?_⟩
    intro n back _
    rw [back] at sofar
    exact sofar.releasesOnce

/-- One of two threads reads 1 in its unlock, and then the other marks the word and sleeps. -/
def markedMeanwhile : List (Choice Bool) :=
  List.replicate 5 (.run false ∅) ++ List.replicate 6 (.run true ∅) ++
    [.run false ∅, .run false ∅, .run false {true}]

theorem unlock_releases_once_markedMeanwhile :
    ∃ w s, (lockMachine fun _ : Bool => 1).Run w s ∧ ReleasesOnce (unlockCall w false) ∧
      unlockCall w false =
        [.load () 1, .cmpxchg () 1 0 2, .cmpxchg () 2 0 2, .wake () 1 {true}] := by
  obtain ⟨w, s, run, back, some, call⟩ := exists_run (lockProgram Bool) (lockStart fun _ => 1)
    markedMeanwhile
    (fun w s => s.loc false = .inl (.head 0) ∧ (∃ e ∈ w, e.thread = false) ∧
      unlockCall w false =
        [.load () 1, .cmpxchg () 1 0 2, .cmpxchg () 2 0 2, .wake () 1 {true}])
    (by decide +kernel)
  exact ⟨w, s, run, (unlock_releases_once _ run false).2.2.2.2 0 back some, call⟩

end Machine
