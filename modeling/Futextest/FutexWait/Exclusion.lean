import Futextest.FutexWait

/-!
# The benchmark lock is a mutex

The word and the ownership of the lock are tied together by one invariant, kept
by every access of every thread: the word is 0 exactly when nobody holds the
lock, and a thread that is unlocking knows the word as far as it has to. With it
the lock machine simulates the abstract mutex, and mutual exclusion is what the
mutex says about its owner.

## Main definitions

* `LockInv` — the invariant, with the owner of the abstract mutex
* `Owns` — a thread owns the lock after the accesses of a run

## Main results

* `lock_simulates_mutex` — the lock machine simulates the mutex
* `futexWaitLock_refines_mutex` — word, owner and mutex agree in every run
-/

open FutexMachine

variable {T : Type}

/-- What ties the word and the control points of all threads to the owner of
the abstract mutex. -/
structure LockInv (s : State Unit T LockLoc) (owner : Option T) : Prop where
  word : s.mem () = 0 ∨ s.mem () = 1 ∨ s.mem () = 2
  free : s.mem () = 0 ↔ owner = none
  owner : ∀ t, owner = some t ↔ Holds (s.loc t)
  agrees : ∀ t, StatusAgrees (s.mem ()) (s.loc t)

/-- A thread that does not hold the lock knows nothing that a change of the word
could spoil. -/
theorem StatusAgrees.mono {w w' : UInt32} {l : LockLoc} (agrees : StatusAgrees w l)
    (keeps : Holds l → w = 2 → w' = 2) : StatusAgrees w' l := by
  rcases l with (loops | ⟨loops, pc⟩ | ⟨loops, pc⟩) | _
  · trivial
  · trivial
  · cases pc with
    | read => trivial
    | clear status =>
      rcases agrees with one | ⟨two, word⟩
      · exact .inl one
      · exact .inr ⟨two, keeps trivial word⟩
    | clearMarked status =>
      rcases agrees with one | ⟨two, word⟩
      · exact .inl one
      · exact .inr ⟨two, keeps two word⟩
    | wake => trivial
  · trivial

theorem LockInv.nonzero {s : State Unit T LockLoc} {owner : Option T} (inv : LockInv s owner)
    {t : T} (holds : Holds (s.loc t)) : s.mem () ≠ 0 := by
  intro zero
  have none := inv.free.mp zero
  have some := (inv.owner t).mpr holds
  simp [none] at some

/-- At most one thread holds the lock. -/
theorem LockInv.unique {s : State Unit T LockLoc} {owner : Option T} (inv : LockInv s owner)
    {t u : T} (ht : Holds (s.loc t)) (hu : Holds (s.loc u)) : t = u := by
  have owner := (inv.owner t).mpr ht
  rw [(inv.owner u).mpr hu] at owner
  exact (Option.some.inj owner).symm

variable [DecidableEq T]

/-- The instruction step of the invariant: the word and the control point of one
thread change as `futexWaitTest` says. -/
theorem LockInv.instr {s s' : State Unit T LockLoc} {owner : Option T} (inv : LockInv s owner)
    {t : T} {pc : TestPc} (woken : Finset T) (at_pc : s.loc t = .inl pc)
    (mem : s'.mem = ((futexWaitTest pc).effect s.mem).1)
    (loc : s'.loc = Function.update s.loc t ((futexWaitTest pc).effect s.mem).2) :
    let action := accessAction t ((futexWaitTest pc).shows s.mem woken)
    (action = none ∧ LockInv s' owner) ∨
      ∃ a owner', action = some a ∧ Mutex.Step owner a owner' ∧ LockInv s' owner' := by
  have held : Holds (.inl pc) → s.mem () ≠ 0 := fun h => inv.nonzero (t := t) (at_pc ▸ h)
  have own := inv.agrees t
  rw [at_pc] at own
  obtain ⟨agrees, cases⟩ := futexWaitTest_effect t pc woken inv.word own held
  rw [← mem] at agrees cases
  have self : s'.loc t = ((futexWaitTest pc).effect s.mem).2 := by simp [loc]
  have other : ∀ u, u ≠ t → s'.loc u = s.loc u := fun u hu => by simp [loc, hu]
  rw [← self] at agrees cases
  -- what the other threads know survives, because only the holder relies on the word being 2
  have all_agree : (∀ u, u ≠ t → Holds (s.loc u) → s.mem () = 2 → s'.mem () = 2) →
      ∀ u, StatusAgrees (s'.mem ()) (s'.loc u) := by
    intro keeps u
    by_cases hu : u = t
    · exact hu ▸ agrees
    · rw [other u hu]
      exact (inv.agrees u).mono (keeps u hu)
  rcases cases with ⟨action, zero, not_held, holds, word⟩ | ⟨action, holds, gone, zero⟩ |
    ⟨action, same, word⟩
  · -- an acquisition: the word was 0, so the mutex was free
    have free : owner = none := inv.free.mp zero
    subst free
    refine .inr ⟨_, some t, action, .acquire t, ⟨.inr word, ?_, fun u => ?_, all_agree ?_⟩⟩
    · rcases word with w | w <;> simp [w]
    · by_cases hu : u = t
      · simp [hu, holds]
      · have before := inv.owner u
        simp only [reduceCtorEq, false_iff] at before
        simpa [other u hu, before] using Ne.symm hu
    · intro u _ _ two
      simp [zero] at two
  · -- a release: the thread was the holder, hence the owner
    have owned : owner = some t := (inv.owner t).mpr (by rw [at_pc]; exact holds)
    subst owned
    refine .inr ⟨_, none, action, .release t,
      ⟨.inl zero, by simp [zero], fun u => ?_, all_agree ?_⟩⟩
    · by_cases hu : u = t
      · simp [hu, gone]
      · have before := inv.owner u
        rw [other u hu, ← before]
        simpa using Ne.symm hu
    · intro u hu held_u _
      exact absurd (inv.unique (at_pc ▸ holds) held_u).symm hu
  · -- neither: at most a held word is marked
    have holds_iff : ∀ u, Holds (s'.loc u) ↔ Holds (s.loc u) := by
      intro u
      by_cases hu : u = t
      · rw [hu, same, at_pc]
      · rw [other u hu]
    have zero_iff : s'.mem () = 0 ↔ s.mem () = 0 := by
      rcases word with w | ⟨one, two⟩
      · rw [w]
      · simp [one, two]
    refine .inl ⟨action, ⟨?_, zero_iff.trans inv.free, fun u => ?_, all_agree ?_⟩⟩
    · rcases word with w | ⟨-, two⟩
      · rw [w]
        exact inv.word
      · exact .inr (.inr two)
    · rw [inv.owner u, holds_iff u]
    · intro u _ _ two
      rcases word with w | ⟨-, two'⟩
      · rw [w, two]
      · exact two'

variable [Fintype T]

/-- The lock machine simulates the mutex: each of its steps is an acquisition of
the free mutex, a release by the owner, or no step of the mutex at all. -/
theorem lock_simulates_mutex (loops : T → ℤ) :
    Simulation (lockMachine loops) (Mutex.system T) mutexAction LockInv where
  initial := by
    rintro s rfl
    refine ⟨none, rfl, ⟨.inl rfl, by simp [lockStart], fun t => ?_, fun t => trivial⟩⟩
    simp [lockStart, State.loc, Holds]
  step := by
    intro s e s' owner _ inv step
    rcases Step.effect (machine_step.mp step) with ⟨i, woken, hop, ready, shown, mem, loc⟩ |
      ⟨mem, ⟨resumed, -, loc⟩ | ⟨u, k, hop, -⟩⟩
    · rcases hpc : e.pc with pc | _
      · rw [hpc] at hop ready
        obtain rfl : futexWaitTest pc = i := by simpa using hop
        have at_pc : s.loc e.thread = .inl pc := by simp [State.loc, ready]
        simpa [mutexAction, shown] using inv.instr woken at_pc mem loc
      · simp [hpc] at hop
    · refine .inl ⟨by simp [mutexAction, accessAction, resumed], ?_⟩
      exact ⟨by rw [mem]; exact inv.word, by rw [mem]; exact inv.free,
        by rw [loc]; exact inv.owner, by rw [mem, loc]; exact inv.agrees⟩
    · rcases hpc : e.pc with pc | _ <;> simp [hpc] at hop

/-- The invariant in every reachable state of the lock machine, for the owner
that its accesses so far make. -/
theorem exists_lockInv {loops : T → ℤ} {s : State Unit T LockLoc}
    (reach : (lockMachine loops).Reachable s) : ∃ owner, LockInv s owner := by
  obtain ⟨w, run⟩ := reach
  obtain ⟨owner, -, inv⟩ := (lock_simulates_mutex loops).exists_run run
  exact ⟨owner, inv⟩

/-- Thread `t` owns the lock after the steps `w`: its last successful
compare-and-exchange from 0 or to 0 is one from 0. -/
def Owns (w : List (Event Unit T LockLoc)) (t : T) : Prop :=
  Mutex.Owns (w.filterMap mutexAction) t

instance (w : List (Event Unit T LockLoc)) (t : T) : Decidable (Owns w t) :=
  inferInstanceAs (Decidable (Mutex.Owns _ _))

/-- **Mutual exclusion.** After every run of any number of threads that lock and
unlock one word, the word is 0, 1 or 2, and 0 exactly when no thread owns the
lock; at most one thread owns it; a thread that has just returned from
`futex_wait_lock` is the owner; and the acquisitions and releases so far are a
run of the abstract mutex, which every further step continues or leaves alone. -/
theorem futexWaitLock_refines_mutex (loops : T → ℤ) {w : List (Event Unit T LockLoc)}
    {s : State Unit T LockLoc} (run : (lockMachine loops).Run w s) :
    (s.mem () = 0 ∨ s.mem () = 1 ∨ s.mem () = 2) ∧
    (s.mem () = 0 ↔ ∀ t, ¬ Owns w t) ∧
    (∀ t u, Owns w t → Owns w u → t = u) ∧
    (∀ t n, s.loc t = .inl (.unlock n .read) → Owns w t) ∧
    ∃ owner, (Mutex.system T).Run (w.filterMap mutexAction) owner ∧
      (∀ t, owner = some t ↔ Owns w t) ∧
      ∀ e s', (lockMachine loops).step s e s' →
        mutexAction e = none ∨
          ∃ a owner', mutexAction e = some a ∧ Mutex.Step owner a owner' := by
  obtain ⟨owner, abstract, inv⟩ := (lock_simulates_mutex loops).exists_run run
  have owns : ∀ t, owner = some t ↔ Owns w t := Mutex.owner_iff_owns abstract
  refine ⟨inv.word, ?_, fun t u => Mutex.owns_unique abstract, ?_, owner, abstract, owns, ?_⟩
  · rw [inv.free]
    constructor
    · rintro rfl t ht
      simpa using (owns t).mpr ht
    · intro nobody
      cases owner with
      | none => rfl
      | some t => exact absurd ((owns t).mp rfl) (nobody t)
  · intro t n returned
    have holds : Holds (s.loc t) := by rw [returned]; trivial
    exact (owns t).mp ((inv.owner t).mpr holds)
  · intro e s' step
    rcases (lock_simulates_mutex loops).step s e s' owner run.reachable inv step with
      ⟨none, -⟩ | ⟨a, owner', some, move, -⟩
    · exact .inl none
    · exact .inr ⟨a, owner', some, move⟩

/-- Two threads contend: one has taken the word from 0 to 1, the other has marked
it with 2 and sleeps. -/
def contention : List (Choice (Fin 2)) :=
  [.run 0 ∅, .run 0 ∅, .run 0 ∅, .run 1 ∅, .run 1 ∅, .run 0 ∅, .run 1 ∅, .run 1 ∅, .run 1 ∅,
    .run 1 ∅]

theorem futexWaitLock_refines_mutex_contention :
    ∃ w s, (lockMachine fun _ : Fin 2 => 1).Run w s ∧ s.mem () = 2 ∧
      s.thread 1 = .asleep () (.inl (.lock 0 .reread)) ∧ ∀ t, Owns w t → t = 0 := by
  obtain ⟨w, s, run, word, asleep, owned⟩ := exists_run (lockProgram (Fin 2))
    (lockStart fun _ => 1) contention
    (fun w s => s.mem () = 2 ∧ s.thread 1 = .asleep () (.inl (.lock 0 .reread)) ∧ Owns w 0)
    (by decide)
  have unique := (futexWaitLock_refines_mutex _ run).2.2.1
  exact ⟨w, s, run, word, asleep, fun t ht => unique t 0 ht owned⟩
