import Futextest.FutexWait.Exclusion

/-!
# The benchmark lock loses no wakeup

A release writes 0 before it wakes, so between the two a newcomer may take the
lock from 0 to 1 and release it again without waking anybody. The sleepers are
safe because at every moment somebody answers for them: the word is 2, so that
the owner will wake one, or a release is on its way to its wake, or an awake
thread is still in the loop of `futex_wait_lock` and can leave it only by
setting the word to 2.

## Main definitions

* `InLoop` — the control points inside the loop of `futex_wait_lock`
* `Answered` — somebody answers for the sleepers

## Main results

* `lock_sleepers_answered` — whenever a thread sleeps, somebody answers for it
* `lock_no_lost_wakeup` — and so some thread is awake in the middle of a pass
-/

open FutexMachine

/-- The control points inside the loop of `futex_wait_lock`. At the loop head
that is those at which the loop goes on. -/
def InLoop : LockLoc → Prop
  | .inl (.lock _ (.loop status)) => status ≠ 0
  | .inl (.lock _ (.mark _)) => True
  | .inl (.lock _ (.sleep _)) => True
  | .inl (.lock _ .reread) => True
  | .inl (.lock _ (.take _)) => True
  | _ => False

/-- The control points between the lock and the unlock of one pass. -/
def InPass : LockLoc → Prop
  | .inl (.lock _ _) => True
  | .inl (.unlock _ _) => True
  | _ => False

/-- Somebody answers for the threads that sleep on the word. -/
def Answered {T : Type} (s : State Unit T LockLoc) : Prop :=
  s.mem () = 2 ∨ (∃ t n, s.thread t = .ready (.inl (.unlock n .wake))) ∨
    ∃ t l, s.thread t = .ready l ∧ InLoop l

/-- The word stops being 2 only by the release that then has its wake ahead. -/
theorem futexWaitTest_leaves_two {mem : Unit → UInt32} (pc : TestPc) (two : mem () = 2) :
    ((futexWaitTest pc).effect mem).1 () = 2 ∨
      ∃ n, ((futexWaitTest pc).effect mem).2 = .inl (.unlock n .wake) := by
  rcases pc with loops | ⟨loops, pc⟩ | ⟨loops, pc⟩
  · by_cases h : loops = 0 <;> simp [h, two]
  · cases pc with
    | read | reread => simp [two]
    | fast status | take status | loop status | sleep status =>
      by_cases h : status = 0 <;> simp [h, two]
    | mark status => by_cases h : status = 1 <;> simp [h, two]
  · cases pc with
    | read | wake => simp [two]
    | clear status => by_cases h : status = 1 <;> simp [h, two]
    | clearMarked status => by_cases h : status = 2 <;> simp [h, two]

/-- A thread leaves the loop only by writing 2. -/
theorem futexWaitTest_leaves_loop {mem : Unit → UInt32} (pc : TestPc) (inside : InLoop (.inl pc)) :
    InLoop ((futexWaitTest pc).effect mem).2 ∨ ((futexWaitTest pc).effect mem).1 () = 2 := by
  rcases pc with loops | ⟨loops, pc⟩ | ⟨loops, pc⟩
  · exact inside.elim
  · cases pc with
    | read | fast status => exact inside.elim
    | reread => simp [InLoop]
    | loop status =>
      have h : status ≠ 0 := inside
      simp [h, InLoop]
    | sleep status => by_cases h : status = 0 <;> simp [h, InLoop]
    | mark status => by_cases h : status = 1 <;> simp [h, InLoop]
    | take status =>
      by_cases h : status = 0
      · by_cases w : mem () = 0 <;> simp [h, w, InLoop]
      · simp [h, InLoop]
  · exact inside.elim

section Machine

variable {T : Type} [DecidableEq T] [Fintype T] {loops : T → ℤ} {s s' : State Unit T LockLoc}

omit [DecidableEq T] [Fintype T] in
/-- The program waits only for the value 2, and returns into the loop, to read
the word again. -/
theorem lockProgram_wait {t : T} {pc l : LockLoc} {v : UInt32}
    (wait : lockProgram T t pc = .instr (.wait () v l)) :
    v = 2 ∧ ∃ n, l = .inl (.lock n .reread) := by
  rcases pc with (n | ⟨n, pc⟩ | ⟨n, pc⟩) | _
  · by_cases h : n = 0 <;> simp [h] at wait
  · cases pc with
    | sleep status =>
      by_cases h : status = 0
      · simp [h] at wait
      · simp only [lockProgram, futexWaitTest, futexWaitLock, ne_eq, h, not_false_eq_true,
          ↓reduceIte, Instr.map, Op.instr.injEq, Instr.wait.injEq] at wait
        exact ⟨wait.2.1.symm, n, wait.2.2.symm⟩
    | read | reread => simp at wait
    | fast status | loop status | take status => by_cases h : status = 0 <;> simp [h] at wait
    | mark status => by_cases h : status = 1 <;> simp [h] at wait
  · cases pc with
    | read | wake => simp at wait
    | clear status => by_cases h : status = 1 <;> simp [h] at wait
    | clearMarked status => by_cases h : status = 2 <;> simp [h] at wait
  · simp at wait

/-- A sleeper returns into the loop. -/
theorem asleep_at_reread (reach : (lockMachine loops).Reachable s) {t : T} {l : LockLoc}
    (asleep : s.thread t = .asleep () l) : ∃ n, l = .inl (.lock n .reread) := by
  obtain ⟨pc, v, wait⟩ := asleep_at_wait (by simp [lockStart]) reach asleep
  exact (lockProgram_wait wait).2

/-- A thread that has just moved is awake, unless it fell asleep on the word 2. -/
theorem ready_or_two {e : Event Unit T LockLoc} (step : Step (lockProgram T) s e s') :
    s'.thread e.thread = .ready (s'.loc e.thread) ∨ s'.mem () = 2 := by
  rcases step.self with ready | ⟨a, asleep⟩
  · exact .inl ready
  · obtain ⟨v, wait, value, same⟩ := step.asleep_self asleep
    obtain ⟨rfl, -⟩ := lockProgram_wait wait
    exact .inr (by rw [same]; exact value)

/-- One step keeps somebody answering, if somebody sleeps before it. -/
theorem Answered.step (reach : (lockMachine loops).Reachable s) {e : Event Unit T LockLoc}
    (step : Step (lockProgram T) s e s') (answered : Answered s) {u : T} {l : LockLoc}
    (asleep : s.thread u = .asleep () l) : Answered s' := by
  rcases ready_or_two step with awake | two
  swap
  · exact .inl two
  rcases step.effect with ⟨i, woken, hop, ready, -, mem, loc⟩ |
    ⟨mem, ⟨-, ⟨a, sleeping⟩, loc⟩ | ⟨v, k, hop, -⟩⟩
  · -- an instruction of the loop of `e.thread`
    rcases hpc : e.pc with pc | _
    swap
    · simp [hpc] at hop
    rw [hpc] at hop ready
    obtain rfl : futexWaitTest pc = i := by simpa using hop
    have self : s'.loc e.thread = ((futexWaitTest pc).effect s.mem).2 := by simp [loc]
    rcases answered with two | ⟨v, n, waking⟩ | ⟨v, l', inside, inLoop⟩
    · rcases futexWaitTest_leaves_two pc two with two' | ⟨n, waking⟩
      · exact .inl (by rw [mem, two'])
      · exact .inr (.inl ⟨e.thread, n, by rw [awake, self, waking]⟩)
    · by_cases hv : v = e.thread
      · -- the wake itself hands over to the thread it rouses
        subst hv
        obtain rfl : pc = .unlock n .wake := by simpa [ready] using waking
        obtain ⟨v, l', slept, roused⟩ := step.exists_roused (a := ()) (n := 1)
          (by rw [hpc]; rfl) (by rw [hpc, ready]) one_pos asleep
        obtain ⟨m, rfl⟩ := asleep_at_reread reach slept
        exact .inr (.inr ⟨v, _, roused, trivial⟩)
      · exact .inr (.inl ⟨v, n, step.ready_other hv waking⟩)
    · by_cases hv : v = e.thread
      · subst hv
        obtain rfl : .inl pc = l' := by simpa [ready] using inside
        rcases futexWaitTest_leaves_loop pc inLoop with stays | two'
        · exact .inr (.inr ⟨_, _, awake, by rw [self]; exact stays⟩)
        · exact .inl (by rw [mem, two'])
      · exact .inr (.inr ⟨v, l', step.ready_other hv inside, inLoop⟩)
  · -- a spurious return: the thread is back in the loop
    obtain ⟨m, at_reread⟩ := asleep_at_reread reach sleeping
    have same : s'.loc e.thread = .inl (.lock m .reread) := by
      rw [loc]
      simp [State.loc, sleeping, at_reread]
    exact .inr (.inr ⟨_, _, awake, by rw [same]; trivial⟩)
  · rcases hpc : e.pc with pc | _ <;> simp [hpc] at hop

/-- Whenever a thread sleeps on the word, somebody answers for it. -/
theorem lock_sleepers_answered (reach : (lockMachine loops).Reachable s) {u : T} {l : LockLoc}
    (asleep : s.thread u = .asleep () l) : Answered s := by
  have inv : (lockMachine loops).Invariant fun s =>
      ∀ u l, s.thread u = .asleep () l → Answered s := by
    refine ⟨?_, ?_⟩
    · rintro s rfl u l asleep
      simp [lockStart] at asleep
    · intro s e s' reach answered step u l asleep
      by_cases hu : u = e.thread
      · subst hu
        rcases ready_or_two (machine_step.mp step) with ready | two
        · simp [asleep] at ready
        · exact .inl two
      · have before := Step.asleep_other step hu asleep
        exact Answered.step reach step (answered u l before) before
  exact inv.of_reachable reach u l asleep

/-- Whoever answers for a sleeper is awake between its lock and its unlock. -/
theorem exists_inPass (reach : (lockMachine loops).Reachable s) (answered : Answered s) :
    ∃ t l, s.thread t = .ready l ∧ InPass l := by
  rcases answered with two | ⟨t, n, waking⟩ | ⟨t, l, ready, inside⟩
  · -- a marked word has an owner, who does not sleep
    obtain ⟨owner, inv⟩ := exists_lockInv reach
    have taken : owner ≠ none := by
      intro free
      simp [inv.free.mpr free] at two
    obtain ⟨t, owns⟩ := Option.ne_none_iff_exists'.mp taken
    have holds := (inv.owner t).mp owns
    cases ht : s.thread t with
    | unborn l => exact absurd ht (not_unborn (by simp [lockStart]) reach l)
    | asleep a l =>
      obtain ⟨n, rfl⟩ := asleep_at_reread reach ht
      simp [State.loc, ht, Holds] at holds
    | ready l =>
      rw [State.loc, ht] at holds
      refine ⟨t, l, ht, ?_⟩
      rcases l with (n | ⟨n, pc⟩ | ⟨n, pc⟩) | _ <;> first | exact trivial | exact holds.elim
  · exact ⟨t, _, waking, trivial⟩
  · refine ⟨t, l, ready, ?_⟩
    rcases l with (n | ⟨n, pc⟩ | ⟨n, pc⟩) | _ <;> first | exact trivial | exact inside.elim

/-- **No lost wakeup.** In every reachable state in which a thread sleeps on the
word, the word is 2, or a thread has done its `cmpxchg(2, 0)` and not yet its
`futex_wake`, or an awake thread is in the loop of `futex_wait_lock`; and so
another thread is awake between its lock and its unlock. -/
theorem lock_no_lost_wakeup (loops : T → ℤ) (reach : (lockMachine loops).Reachable s) {u : T}
    (asleep : (s.thread u).sleepsOn () = true) :
    (s.mem () = 2 ∨ (∃ t n, s.thread t = .ready (.inl (.unlock n .wake))) ∨
      ∃ t l, s.thread t = .ready l ∧ InLoop l) ∧
    ∃ t l, t ≠ u ∧ s.thread t = .ready l ∧ InPass l := by
  obtain ⟨l, asleep⟩ := Status.sleepsOn_iff.mp asleep
  have answered := lock_sleepers_answered reach asleep
  have other : ∀ {t l'}, s.thread t = .ready l' → t ≠ u := by
    rintro t l' ready rfl
    simp [asleep] at ready
  refine ⟨answered, ?_⟩
  rcases answered with two | ⟨t, n, waking⟩ | ⟨t, l', inside, inLoop⟩
  · -- the word is 2, so somebody holds the lock; a holder never sleeps
    obtain ⟨owner, inv⟩ := exists_lockInv reach
    cases howner : owner with
    | none => simp [inv.free.mpr howner] at two
    | some t =>
      have holds := (inv.owner t).mp howner
      cases ht : s.thread t with
      | unborn l' => exact absurd ht (not_unborn (by simp [lockStart]) reach l')
      | asleep a l' =>
        obtain ⟨n, rfl⟩ := asleep_at_reread reach ht
        simp [State.loc, ht, Holds] at holds
      | ready l' =>
        refine ⟨t, l', other ht, ht, ?_⟩
        simp only [State.loc, ht, Status.loc] at holds
        rcases l' with (n | ⟨n, pc⟩ | ⟨n, pc⟩) | _
        · exact holds.elim
        · trivial
        · trivial
        · exact holds.elim
  · exact ⟨t, _, other waking, waking, trivial⟩
  · refine ⟨t, l', other inside, inside, ?_⟩
    rcases l' with (n | ⟨n, pc⟩ | ⟨n, pc⟩) | _
    · exact inLoop.elim
    · trivial
    · exact inLoop.elim
    · exact inLoop.elim

theorem lock_no_lost_wakeup_contention :
    ∃ w s, (lockMachine fun _ : Fin 2 => 1).Run w s ∧
      ∃ t l, t ≠ 1 ∧ s.thread t = .ready l ∧ InPass l := by
  obtain ⟨w, s, run, asleep⟩ := exists_run (lockProgram (Fin 2)) (lockStart fun _ => 1) contention
    (fun _ s => (s.thread 1).sleepsOn () = true) (by decide)
  exact ⟨w, s, run, (lock_no_lost_wakeup _ run.reachable asleep).2⟩

end Machine
