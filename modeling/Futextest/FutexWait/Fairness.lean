import Futextest.FutexMachine.Alone
import Futextest.FutexWait.Kernel

/-!
# The lock is not fair

No wakeup is lost, and a sleeper is woken by every unlock that finds one; but a woken thread
only competes for the word again. Here one thread makes any number of passes while another one
waits in a single `futex_wait_lock`: each unlock wakes it, and each time the lock is taken
again before it comes to look. So there is no bound on how often a waiter is overtaken.

## Main definitions

* `Overtaken` — the waiter sleeps, and the other thread holds the lock again

## Main results

* `Overtaken.next` — the lock can be taken once more
* `lock_unfair` — any number of times
-/

open FutexMachine

/-! ## Stretches of one thread -/

/-- There is one word. -/
theorem update_word (v v' : UInt32) : Function.update (fun _ : Unit => v) () v' = fun _ => v' := by
  funext x
  rw [Function.update_self]

section Stretches

variable {T : Type} (t : T)

/-- A thread takes the free lock at once. -/
theorem alone_acquires {l : ℤ} (more : l ≠ 0) :
    alone (lockProgram T) t 4 (fun _ => 0) (.inl (.head l)) =
      some (fun _ => 1, .inl (.unlock (l - 1) .read)) := by
  simp [alone, more, Instr.silent, update_word]

/-- A thread that unlocks the marked word comes to its wake. -/
theorem alone_releases (l : ℤ) :
    alone (lockProgram T) t 3 (fun _ => 2) (.inl (.unlock l .read)) =
      some (fun _ => 0, .inl (.unlock l .wake)) := by
  simp [alone, Instr.silent, update_word]

/-- A thread that comes to a lock that is held marks it before it goes to sleep. -/
theorem alone_marks {l : ℤ} (more : l ≠ 0) :
    alone (lockProgram T) t 5 (fun _ => 1) (.inl (.head l)) =
      some (fun _ => 2, .inl (.lock (l - 1) (.sleep 1))) := by
  simp [alone, more, Instr.silent, update_word]

/-- So does one that was woken. -/
theorem alone_marks_again (l : ℤ) :
    alone (lockProgram T) t 4 (fun _ => 1) (.inl (.lock l .reread)) =
      some (fun _ => 2, .inl (.lock l (.sleep 1))) := by
  simp [alone, Instr.silent, update_word]

end Stretches

section Machine

variable {T : Type} [DecidableEq T] [Fintype T] {loops : T → ℤ} {a b : T}
  {w w' : List (Event Unit T LockLoc)} {s : State Unit T LockLoc} {n : ℕ}

/-! ## Rounds -/

/-- Nobody returns from a wait by itself, and whoever is woken is `b`. -/
def WakesOnly (b : T) (w : List (Event Unit T LockLoc)) : Prop :=
  ∀ e ∈ w, e.access ≠ .resume ∧ (accessWakes e.access = true → e.access = .wake () 1 {b})

omit [DecidableEq T] [Fintype T] in
theorem WakesOnly.append (before : WakesOnly b w) (after : WakesOnly b w') :
    WakesOnly b (w ++ w') := by
  intro e member
  rcases List.mem_append.mp member with early | late
  · exact before e early
  · exact after e late

omit [DecidableEq T] [Fintype T] in
/-- Accesses to the word wake nobody. -/
theorem wakesOnly_of_silent (silent : ∀ e ∈ w, e.access.silent = true) :
    WakesOnly b w ∧ w.countP (fun e => accessWakes e.access) = 0 := by
  have none : ∀ access : Access Unit T, access.silent = true →
      access ≠ .resume ∧ accessWakes access = false := by
    intro access quiet
    cases access with
    | wait a v slept | wake a n woken | create t | join t | resume => cases quiet
    | _ => exact ⟨by simp, rfl⟩
  refine ⟨?_, ?_⟩
  · intro e member
    obtain ⟨no_resume, no_wake⟩ := none e.access (silent e member)
    exact ⟨no_resume, fun wakes => absurd wakes (by simp [no_wake])⟩
  · rw [List.countP_eq_zero]
    intro e member
    simp [(none e.access (silent e member)).2]

/-- A thread that has marked the word goes to sleep. -/
theorem exists_run_asleep (run : (lockMachine loops).Run w s) {l : LockLoc} {m : ℤ} {k : ℕ}
    (ready : s.thread b = .ready l)
    (marks : alone (lockProgram T) b k s.mem l = some (fun _ => 2, .inl (.lock m (.sleep 1)))) :
    ∃ w' s', (lockMachine loops).Run (w ++ w') s' ∧ WakesOnly b w' ∧
      w'.countP (fun e => accessWakes e.access) = 0 ∧ s'.mem = (fun _ => 2) ∧
      s'.thread = Function.update s.thread b (.asleep () (.inl (.lock m .reread))) := by
  obtain ⟨w₁, s₁, run₁, silent, mem, thread⟩ := exists_run_alone run ready marks
  obtain ⟨only, none⟩ := wakesOnly_of_silent (b := b) silent
  have ready₁ : s₁.thread b = .ready (.inl (.lock m (.sleep 1))) := by
    rw [thread, Function.update_self]
  have op : lockProgram T b (.inl (.lock m (.sleep 1))) =
      .instr (.wait () 2 (.inl (.lock m .reread))) := by
    simp
  obtain ⟨s₂, step, mem₂, thread₂⟩ := exists_sleep ready₁ op (by rw [mem])
  refine ⟨w₁ ++ [⟨b, .inl (.lock m (.sleep 1)), .wait () 2 true⟩], s₂, ?_, only.append ?_, ?_,
    mem₂.trans mem, ?_⟩
  · rw [← List.append_assoc]
    exact run₁.next step
  · intro e member
    rw [List.mem_singleton.mp member]
    exact ⟨by simp, by simp [accessWakes]⟩
  · rw [List.countP_append, none]
    rfl
  · rw [thread₂, thread, Function.update_idem]

/-- After `n` rounds `a` holds the lock for the next time, and `b` still waits for its first. -/
structure Overtaken (loops : T → ℤ) (a b : T) (n : ℕ) (w : List (Event Unit T LockLoc))
    (s : State Unit T LockLoc) : Prop where
  run : (lockMachine loops).Run w s
  mem : s.mem = fun _ => 2
  owner : s.thread a = .ready (.inl (.unlock (loops a - 1 - n) .read))
  waiter : s.thread b = .asleep () (.inl (.lock (loops b - 1) .reread))
  wakes : WakesOnly b w
  rounds : w.countP (fun e => accessWakes e.access) = n

/-- `a` takes the lock, and `b` comes and goes to sleep. -/
theorem exists_overtaken (ne : a ≠ b) (more : loops a ≠ 0) (waits : loops b ≠ 0) :
    ∃ w s, Overtaken loops a b 0 w s := by
  have first : (lockMachine loops).Run [] (lockStart loops) := .start rfl
  obtain ⟨w₁, s₁, run₁, silent, mem₁, thread₁⟩ :=
    exists_run_alone first rfl (alone_acquires a more)
  obtain ⟨only₁, none₁⟩ := wakesOnly_of_silent (b := b) silent
  have ready : s₁.thread b = .ready (.inl (.head (loops b))) := by
    rw [thread₁, Function.update_of_ne ne.symm]
    rfl
  obtain ⟨w₂, s₂, run₂, only₂, none₂, mem₂, thread₂⟩ :=
    exists_run_asleep run₁ ready (mem₁ ▸ alone_marks b waits)
  refine ⟨_, s₂, run₂, mem₂, ?_, ?_, only₁.append only₂, ?_⟩
  · rw [thread₂, Function.update_of_ne ne, thread₁, Function.update_self]
    simp
  · rw [thread₂, Function.update_self]
  · rw [List.nil_append, List.countP_append, none₁, none₂]

/-- **A round.** `a` releases the lock, wakes `b` and takes the lock again before `b` has
looked. -/
theorem Overtaken.next (ne : a ≠ b) (overtaken : Overtaken loops a b n w s)
    (more : loops a - 1 - n ≠ 0) : ∃ w' s', Overtaken loops a b (n + 1) w' s' := by
  obtain ⟨run, mem, owner, waiter, wakes, rounds⟩ := overtaken
  -- the unlock, up to its wake
  obtain ⟨w₁, s₁, run₁, silent₁, mem₁, thread₁⟩ :=
    exists_run_alone run owner (mem ▸ alone_releases a _)
  obtain ⟨only₁, none₁⟩ := wakesOnly_of_silent (b := b) silent₁
  have at_wake : s₁.thread a = .ready (.inl (.unlock (loops a - 1 - n) .wake)) := by
    rw [thread₁, Function.update_self]
  have asleep : s₁.thread b = .asleep () (.inl (.lock (loops b - 1) .reread)) := by
    rw [thread₁, Function.update_of_ne ne.symm, waiter]
  have op : lockProgram T a (.inl (.unlock (loops a - 1 - n) .wake)) =
      .instr (.wake () 1 (.inl (.head (loops a - 1 - n)))) := by
    simp
  obtain ⟨s₂, step, mem₂, thread₂⟩ := exists_wake at_wake op asleep
  -- the next lock
  have at_head : s₂.thread a = .ready (.inl (.head (loops a - 1 - n))) := by
    rw [thread₂, Function.update_self]
  obtain ⟨w₃, s₃, run₃, silent₃, mem₃, thread₃⟩ :=
    exists_run_alone (run₁.next step) at_head (by rw [mem₂, mem₁]; exact alone_acquires a more)
  obtain ⟨only₃, none₃⟩ := wakesOnly_of_silent (b := b) silent₃
  -- `b` finds it taken
  have ready : s₃.thread b = .ready (.inl (.lock (loops b - 1) .reread)) := by
    rw [thread₃, Function.update_of_ne ne.symm, thread₂, Function.update_of_ne ne.symm,
      Function.update_self]
  obtain ⟨w₄, s₄, run₄, only₄, none₄, mem₄, thread₄⟩ :=
    exists_run_asleep run₃ ready (mem₃ ▸ alone_marks_again b _)
  refine ⟨_, s₄, run₄, mem₄, ?_, ?_, ?_, ?_⟩
  · rw [thread₄, Function.update_of_ne ne, thread₃, Function.update_self]
    push_cast
    rw [sub_sub _ (n : ℤ) 1]
  · rw [thread₄, Function.update_self]
  · refine (((wakes.append only₁).append ?_).append only₃).append only₄
    intro e member
    rw [List.mem_singleton.mp member]
    exact ⟨by simp, fun _ => rfl⟩
  · simp only [List.countP_append, rounds, none₁, none₃, none₄]
    rfl

/-- `a` can go round as long as it has passes to make. -/
theorem exists_overtaken_of_lt (ne : a ≠ b) (waits : loops b ≠ 0) (many : (n : ℤ) < loops a) :
    ∃ w s, Overtaken loops a b n w s := by
  induction n with
  | zero => exact exists_overtaken ne (by push_cast at many; omega) waits
  | succ n ih =>
    push_cast at many
    obtain ⟨w, s, overtaken⟩ := ih (by omega)
    exact overtaken.next ne (by omega)

/-- **The lock is not fair.** With any number of threads, one that has `loops a` passes to make
can take the lock up to so many times while another one waits for its first: that one is woken
by every unlock in between and by nothing else, and is asleep again each time. -/
theorem lock_unfair (loops : T → ℤ) (nonneg : ∀ t, 0 ≤ loops t) (ne : a ≠ b)
    (waits : loops b ≠ 0) (many : (n : ℤ) < loops a) :
    ∃ w s, (lockMachine loops).Run w s ∧
      (∀ e ∈ w, e.access ≠ .resume ∧
        (accessWakes e.access = true → e.access = .wake () 1 {b})) ∧
      w.countP (fun e => accessWakes e.access) = n ∧
      (w.filterMap mutexAction).count (.acquire a) = n + 1 ∧
      (w.filterMap mutexAction).count (.acquire b) = 0 ∧
      s.thread b = .asleep () (.inl (.lock (loops b - 1) .reread)) := by
  obtain ⟨w, s, run, mem, owner, waiter, wakes, rounds⟩ := exists_overtaken_of_lt ne waits many
  have taken := count_acquire nonneg run a
  have none := count_acquire nonneg run b
  have some := nonneg b
  simp only [State.loc, owner, waiter, Status.loc, passesLeft, reduceCtorEq, if_false]
    at taken none
  exact ⟨w, s, run, wakes, rounds, by omega, by omega, waiter⟩

/-- Two threads, of which one makes a hundred passes before the other one's first. -/
theorem lock_unfair_hundred : ∃ w s, (lockMachine fun _ : Fin 2 => 100).Run w s ∧
    (w.filterMap mutexAction).count (.acquire 0) = 100 ∧
    (w.filterMap mutexAction).count (.acquire 1) = 0 := by
  obtain ⟨w, s, run, -, -, taken, none, -⟩ :=
    lock_unfair (a := (0 : Fin 2)) (b := 1) (n := 99) (fun _ => 100) (fun _ => by decide)
      (by decide) (by decide) (by decide)
  exact ⟨w, s, run, taken, none⟩

end Machine
