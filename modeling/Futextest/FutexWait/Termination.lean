import Futextest.FutexMachine.Potential
import Futextest.Locktest.Iterations

/-!
# The benchmark lock comes to an end

A thread in `futex_wait_lock` may go round its loop many times, but only as often as the
word changes under it. While the word stays as it is, each thread is a few statements
away from changing it or from its sleep. The word itself changes at most three times a
pass: it is taken, it may be marked, and it is released. So the threads take a bounded
number of steps, whoever moves next, and when none can move they have all made their
passes. Only waits that return without a wake come on top, a few steps for each.

## Main definitions

* `lockRank` — how far a thread is from changing the word or from its sleep
* `lockCredit` — how often the word can still change
* `lockPotential` — both together

## Main results

* `lock_potential` — every step takes some of the potential away
* `lock_terminates` — how many steps a run takes, and where it ends
-/

open FutexMachine

/-! ## Ranks -/

/-- The way of a thread through the lock while the word is 0: it takes it. -/
@[simp] def LockPc.rankFree : LockPc → ℕ
  | .read => 7
  | .fast status | .take status => if status = 0 then 1 else 6
  | .loop _ => 5
  | .mark _ => 4
  | .sleep status => if status = 0 then 2 else 3
  | .reread => 2

/-- While the word is 1: it marks it. -/
@[simp] def LockPc.rankHeld : LockPc → ℕ
  | .read => 9
  | .fast status | .take status => if status = 0 ∨ status = 1 then 3 else 8
  | .loop status => if status = 1 then 2 else 7
  | .mark status => if status = 1 then 1 else 6
  | .sleep _ => 5
  | .reread => 4

/-- While the word is 2: it goes to sleep. -/
@[simp] def LockPc.rankMarked : LockPc → ℕ
  | .read | .reread => 5
  | .fast _ | .take _ => 4
  | .loop _ => 3
  | .mark status => if status = 0 then 6 else 2
  | .sleep status => if status = 0 then 5 else 1

/-- How many statements a thread is at most away from changing the word `w` or from its
sleep. One that has acquired the lock goes on into the unlock, and from there to the next
pass. -/
@[simp] def lockRank (w : UInt32) : LockLoc → ℕ
  | .inl (.head _) => 10
  | .inl (.lock _ pc) =>
      if pc = .loop 0 then 20
      else if w = 0 then pc.rankFree
      else if w = 1 then pc.rankHeld
      else pc.rankMarked
  | .inl (.unlock _ .read) => 19
  | .inl (.unlock _ (.clear _)) => 18
  | .inl (.unlock _ (.clearMarked _)) => 17
  -- the wake pays for the thread that it rouses
  | .inl (.unlock _ .wake) => 16
  | .inr () => 0

/-- A thread that sleeps has nothing to do until it is roused. -/
@[simp] def lockStatusRank (w : UInt32) : Status Unit LockLoc → ℕ
  | .asleep _ _ => 0
  | status => lockRank w status.loc

theorem LockPc.ranks_le (pc : LockPc) :
    pc.rankFree ≤ 9 ∧ pc.rankHeld ≤ 9 ∧ pc.rankMarked ≤ 9 := by
  cases pc with
  | read | reread | loop status | mark status | sleep status | fast status | take status =>
    simp only [rankFree, rankHeld, rankMarked]
    grind

theorem lockRank_le (w : UInt32) (l : LockLoc) : lockRank w l ≤ 20 := by
  rcases l with (n | ⟨n, pc⟩ | ⟨n, pc⟩) | _
  · simp [lockRank]
  · have small := pc.ranks_le
    simp only [lockRank]
    split_ifs <;> omega
  · cases pc <;> simp [lockRank]
  · simp [lockRank]

theorem lockStatusRank_le (w : UInt32) (x : Status Unit LockLoc) : lockStatusRank w x ≤ 20 := by
  cases x with
  | asleep a l => exact Nat.zero_le 20
  | unborn l | ready l => exact lockRank_le w l

/-- A thread that is roused reads the word again. -/
theorem lockRank_reread_le (w : UInt32) (n : ℤ) : lockRank w (.inl (.lock n .reread)) ≤ 5 := by
  simp only [lockRank, LockPc.rankFree, LockPc.rankHeld, LockPc.rankMarked, reduceCtorEq,
    if_false]
  split_ifs <;> omega

/-! ## Credit -/

/-- How many passes a thread has still to take the lock for. -/
@[simp] def passesLeft : LockLoc → ℕ
  | .inl (.head n) => n.toNat
  | .inl (.lock n pc) => if pc = .loop 0 then n.toNat else n.toNat + 1
  | .inl (.unlock n _) => n.toNat
  | .inr () => 0

/-- How often the word can change before it is taken again: the release is to come, and
before that the mark, if the word does not have it. -/
@[simp] def owed (w : UInt32) : ℕ :=
  if w = 0 then 0 else if w = 1 then 2 else 1

/-- What one statement of `futex_wait_test` costs. It changes the word and with it uses up
some credit; or it goes to sleep, where the word is 2; or it comes nearer to that, and the
wake by more. -/
theorem futexWaitTest_pays {mem : Unit → UInt32} (pc : TestPc)
    (word : mem () = 0 ∨ mem () = 1 ∨ mem () = 2)
    (agrees : StatusAgrees (mem ()) (.inl pc)) (held : Holds (.inl pc) → mem () ≠ 0)
    (nonneg : 0 ≤ pc.loops) :
    let next := (futexWaitTest pc).effect mem
    (3 * passesLeft next.2 + owed (next.1 ()) < 3 * passesLeft (.inl pc) + owed (mem ())) ∨
    (next.1 = mem ∧ passesLeft next.2 = passesLeft (.inl pc) ∧
      ((∃ n status, pc = .lock n (.sleep status) ∧ status ≠ 0 ∧ mem () = 2) ∨
        ((∀ n, pc ≠ .unlock n .wake) ∧ lockRank (mem ()) next.2 < lockRank (mem ()) (.inl pc)) ∨
        ∃ n, pc = .unlock n .wake ∧
          lockRank (mem ()) next.2 + 5 < lockRank (mem ()) (.inl pc))) := by
  cases pc with
  | head n =>
    right
    by_cases zero : n = 0
    · simp [zero]
    · have positive : 0 < n := lt_of_le_of_ne nonneg (Ne.symm zero)
      have count : n.toNat - 1 + 1 = n.toNat := by omega
      rcases word with w | w | w <;> simp [zero, w, count]
  | lock n pc =>
    cases pc with
    | read | reread => rcases word with w | w | w <;> simp [w]
    | fast status | take status =>
      by_cases zero : status = 0
      · -- if the word is 0 the thread takes it now
        rcases word with w | w | w
        · simp [w, zero]
          omega
        · simp [w, zero]
        · simp [w, zero]
      · by_cases one : status = 1
        · rcases word with w | w | w <;> simp [w, one]
        · rcases word with w | w | w <;> simp [w, zero, one]
    | loop status | mark status | sleep status =>
      by_cases zero : status = 0
      · rcases word with w | w | w <;> simp [w, zero]
      · by_cases one : status = 1
        · rcases word with w | w | w <;> simp [w, one]
        · rcases word with w | w | w <;> simp [w, zero, one]
  | unlock n pc =>
    cases pc with
    | read | wake => simp
    | clear status =>
      have nonzero := held trivial
      rcases agrees with rfl | ⟨rfl, two⟩
      · rcases word with w | w | w
        · exact absurd w nonzero
        · simp [w]
        · simp [w]
      · simp [two]
    | clearMarked status =>
      rcases agrees with rfl | ⟨rfl, two⟩
      · simp
      · simp [two]

section Machine

variable {T : Type} [DecidableEq T] [Fintype T] {loops : T → ℤ}
variable {w : List (Event Unit T LockLoc)} {s s' : State Unit T LockLoc} {e : Event Unit T LockLoc}

/-- How often the word can still change. -/
def lockCredit (s : State Unit T LockLoc) : ℕ :=
  3 * s.total (fun _ x => passesLeft x.loc) + owed (s.mem ())

/-- Credit is worth more than all ranks together, so that the ranks may be anything after
the word has changed. -/
def lockPotential (s : State Unit T LockLoc) : ℕ :=
  (20 * Fintype.card T + 1) * lockCredit s + s.total fun _ => lockStatusRank (s.mem ())

/-- A thread that is to make a number of passes never counts below 0. -/
theorem lock_loops_nonneg (nonneg : ∀ t, 0 ≤ loops t) (reach : (lockMachine loops).Reachable s)
    {t : T} {pc : TestPc} (here : s.loc t = .inl pc) : 0 ≤ pc.loops := by
  have inv : (lockMachine loops).Invariant fun s =>
      ∀ t pc, s.loc t = .inl pc → 0 ≤ pc.loops := by
    refine ⟨?_, ?_⟩
    · intro s start t pc here
      rw [machine_init.mp start] at here
      cases here
      exact nonneg t
    · intro s e s' _ held step t pc here
      by_cases self : t = e.thread
      · subst self
        rcases Step.effect step with ⟨i, woken, hop, ready, -, -, loc⟩ |
          ⟨-, ⟨-, -, loc⟩ | ⟨u, k, hop, -⟩⟩
        · rcases hpc : e.pc with p | _
          · rw [hpc] at hop ready
            obtain rfl : futexWaitTest p = i := by simpa using hop
            have before := held e.thread p (by simp [State.loc, ready])
            rw [loc, Function.update_self] at here
            exact TestPc.loops_nonneg before here
          · simp [hpc] at hop
        · rw [loc] at here
          exact held _ _ here
        · rcases hpc : e.pc with p | _ <;> simp [hpc] at hop
      · rw [Step.loc_other step self] at here
        exact held _ _ here
  exact inv.of_reachable reach t pc here

/-- A step of the lock machine: one statement of `futex_wait_test`, or the return of a
wait. -/
theorem lock_step_cases (reach : (lockMachine loops).Reachable s)
    (step : Step (lockProgram T) s e s') :
    (∃ pc woken, s.thread e.thread = .ready (.inl pc) ∧
      e.access = (futexWaitTest pc).shows s.mem woken ∧
      s'.mem = ((futexWaitTest pc).effect s.mem).1 ∧
      s'.loc e.thread = ((futexWaitTest pc).effect s.mem).2) ∨
    ∃ n, s.thread e.thread = .asleep () (.inl (.lock n .reread)) ∧ e.access = .resume ∧
      s'.mem = s.mem ∧ s'.thread e.thread = .ready (.inl (.lock n .reread)) := by
  rcases step.view with ⟨i, woken, hop, ready, performed⟩ | ⟨u, l, k, hop, -⟩ | ⟨u, k, hop, -⟩ |
    ⟨a, asleep, shown, rfl⟩
  · rcases hpc : e.pc with pc | _
    · rw [hpc] at hop ready
      obtain rfl : futexWaitTest pc = i := by simpa using hop
      obtain ⟨mem, loc⟩ := Instr.effect_of_perform performed
      exact .inl ⟨pc, woken, ready, Instr.shows_of_perform performed, mem, loc⟩
    · simp [hpc] at hop
  · rcases hpc : e.pc with p | _ <;> simp [hpc] at hop
  · rcases hpc : e.pc with p | _ <;> simp [hpc] at hop
  · obtain ⟨n, here⟩ := asleep_at_reread reach asleep
    rw [here] at asleep ⊢
    exact .inr ⟨n, asleep, shown, rfl, by simp⟩

omit [DecidableEq T] [Fintype T] in
/-- Only the unlock rouses anybody. -/
theorem futexWaitTest_woken (mem : Unit → UInt32) (woken : Finset T) (pc : TestPc) :
    (∃ n, pc = .unlock n .wake) ∨ ((futexWaitTest pc).shows mem woken).woken = ∅ := by
  cases pc with
  | head n => by_cases zero : n = 0 <;> simp [zero, Access.woken]
  | lock n pc =>
    cases pc with
    | read | reread => simp [Access.woken]
    | fast status | loop status | sleep status | take status =>
      by_cases zero : status = 0 <;> simp [zero, Access.woken]
    | mark status => by_cases one : status = 1 <;> simp [one, Access.woken]
  | unlock n pc =>
    cases pc with
    | read | wake => simp [Access.woken]
    | clear status => by_cases one : status = 1 <;> simp [one, Access.woken]
    | clearMarked status => by_cases two : status = 2 <;> simp [two, Access.woken]

/-- **Every step takes some of the potential away**, but for a wait that returns by
itself. -/
theorem lock_potential (nonneg : ∀ t, 0 ≤ loops t) :
    System.Potential (lockMachine loops) lockPotential (fun e => if !e.resumes then 1 else 0)
      fun e => if !e.resumes then 0 else 5 := by
  refine ⟨fun s e s' reach step => ?_⟩
  -- the passes of the other threads stay as they are
  have passes := Step.total_le step (fun _ x => passesLeft x.loc) (fun _ x => passesLeft x.loc) 0
    (fun _ => 0) (fun _ _ => le_rfl) (fun _ _ _ _ _ => le_rfl) (fun _ _ _ => le_rfl)
  have ranks (same : s'.mem = s.mem) := Step.total_le step
    (fun _ => lockStatusRank (s.mem ())) (fun _ => lockStatusRank (s'.mem ())) 5 (fun _ => 0)
    (by intro u _; rw [same]; exact le_rfl)
    (by
      intro u _ a l asleep
      obtain ⟨n, rfl⟩ := asleep_at_reread reach asleep
      have low := lockRank_reread_le (s'.mem ()) n
      simpa using low)
    (fun _ _ _ => le_rfl)
  simp only [Finset.sum_const_zero, zero_mul, add_zero] at passes ranks
  -- a thread that has just moved is awake or asleep
  have self : lockStatusRank (s'.mem ()) (s'.thread e.thread) ≤
      lockRank (s'.mem ()) (s'.loc e.thread) := by
    rcases Step.self step with ready | ⟨a, asleep⟩
    · rw [ready]
      exact le_rfl
    · rw [asleep]
      exact Nat.zero_le _
  rcases lock_step_cases reach step with ⟨pc, woken, ready, shown, mem, loc⟩ |
    ⟨n, asleep, shown, mem, awake⟩
  · obtain ⟨owner, inv⟩ := exists_lockInv reach
    have here : s.loc e.thread = .inl pc := by simp [State.loc, ready]
    have agrees := inv.agrees e.thread
    have held : Holds (s.loc e.thread) → s.mem () ≠ 0 := inv.nonzero
    rw [here] at agrees held
    have running : e.resumes = false := by
      rw [Bool.eq_false_iff, Ne, Event.resumes_iff, shown]
      cases futexWaitTest pc <;> simp
    simp only [running, Bool.not_false, if_true, add_zero]
    have before : (s.thread e.thread).loc = .inl pc := by rw [ready, Status.loc]
    have after : (s'.thread e.thread).loc = ((futexWaitTest pc).effect s.mem).2 := loc
    rw [before, after] at passes
    rw [ready] at ranks
    rw [loc] at self
    have rank : lockStatusRank (s.mem ()) (.ready (.inl pc)) = lockRank (s.mem ()) (.inl pc) := rfl
    rw [rank] at ranks
    unfold lockPotential lockCredit
    rcases futexWaitTest_pays pc inv.word agrees held (lock_loops_nonneg nonneg reach here) with
      paid | ⟨same, kept, cases⟩
    · -- the word has changed: the credit that is used up covers all ranks
      rw [← mem] at paid
      have full := State.total_le (fun _ x => lockStatusRank_le (s'.mem ()) x) s'
      have used := Nat.mul_le_mul_left (20 * Fintype.card T + 1)
        (show 3 * s'.total (fun _ x => passesLeft x.loc) + owed (s'.mem ()) + 1 ≤
          3 * s.total (fun _ x => passesLeft x.loc) + owed (s.mem ()) by omega)
      rw [Nat.mul_succ] at used
      omega
    · have word : s'.mem = s.mem := mem.trans same
      have ranks := ranks word
      rw [word] at ranks self ⊢
      have credit := Nat.mul_le_mul_left (20 * Fintype.card T + 1)
        (show 3 * s'.total (fun _ x => passesLeft x.loc) + owed (s.mem ()) ≤
          3 * s.total (fun _ x => passesLeft x.loc) + owed (s.mem ()) by omega)
      rcases cases with ⟨n, status, rfl, nonzero, two⟩ | ⟨quiet, nearer⟩ | ⟨n, rfl, nearer⟩
      · -- the thread goes to sleep
        have at_sleep : e.pc = .inl (.lock n (.sleep status)) := (Step.pc_eq step).trans here
        have wait : lockProgram T e.thread e.pc = .instr (.wait () 2 (.inl (.lock n .reread))) := by
          simp [at_sleep, nonzero]
        have asleep := Step.sleeps step (by rw [ready, at_sleep]) wait two
        have nobody : e.access.woken = ∅ := by
          rw [shown]
          exact (futexWaitTest_woken s.mem woken _).resolve_left (by simp)
        have zero : lockStatusRank (s.mem ()) (s'.thread e.thread) = 0 := by rw [asleep]; rfl
        have one : lockRank (s.mem ()) (.inl (.lock n (.sleep status))) = 1 := by
          simp [two, nonzero]
        rw [nobody, Finset.card_empty] at ranks
        omega
      · -- a statement on the way
        have nobody : e.access.woken = ∅ := by
          rw [shown]
          rcases futexWaitTest_woken s.mem woken pc with ⟨n, wake⟩ | nobody
          · exact absurd wake (quiet n)
          · exact nobody
        rw [nobody, Finset.card_empty] at ranks
        omega
      · -- the wake, for at most one thread
        have few : e.access.woken.card ≤ 1 := by
          have wake : e.access = .wake () 1 woken := by simpa using shown
          rw [wake]
          exact (Step.woken_le step wake).1
        omega
  · -- the return of a wait without a wake
    have resumed : e.resumes = true := Event.resumes_iff.mpr shown
    have nobody : e.access.woken = ∅ := by rw [shown]; rfl
    have low := lockRank_reread_le (s.mem ()) n
    have ranks := ranks mem
    have before : (s.thread e.thread).loc = .inl (.lock n .reread) := by rw [asleep, Status.loc]
    have after : (s'.thread e.thread).loc = .inl (.lock n .reread) := by rw [awake, Status.loc]
    have zero : lockStatusRank (s.mem ()) (s.thread e.thread) = 0 := by rw [asleep]; rfl
    have rank : lockStatusRank (s.mem ()) (s'.thread e.thread) =
        lockRank (s.mem ()) (.inl (.lock n .reread)) := by rw [awake]; rfl
    rw [before, after] at passes
    rw [nobody, Finset.card_empty, mem, zero, rank] at ranks
    have credit := Nat.mul_le_mul_left (20 * Fintype.card T + 1)
      (show lockCredit s' ≤ lockCredit s by
        unfold lockCredit
        rw [mem]
        omega)
    unfold lockPotential
    rw [mem]
    simp only [resumed, Bool.not_true, Bool.false_eq_true, if_false]
    omega

/-- When no thread can move all have made their passes, and the lock is free. -/
theorem lock_done_of_stuck (reach : (lockMachine loops).Reachable s)
    (stuck : ∀ t, ¬ Enabled (lockProgram T) s t) :
    s.mem () = 0 ∧ ∀ t, s.thread t = .ready (.inr ()) := by
  have done : ∀ t l, s.thread t = .ready l → l = .inr () := by
    intro t l ready
    rcases l with pc | _
    · exact absurd (enabled_of_instr ready rfl) (stuck t)
    · rfl
  have all : ∀ t, s.thread t = .ready (.inr ()) := by
    intro t
    cases ht : s.thread t with
    | unborn l => exact absurd ht (not_unborn (by simp [lockStart]) reach l)
    | ready l => rw [done t l ht]
    | asleep a l =>
      -- somebody answers for a sleeper, and can move
      obtain ⟨u, l', ready, inside⟩ := exists_inPass reach (lock_sleepers_answered reach ht)
      rw [done u l' ready] at inside
      exact inside.elim
  refine ⟨?_, all⟩
  obtain ⟨owner, inv⟩ := exists_lockInv reach
  rw [inv.free]
  cases howner : owner with
  | none => rfl
  | some t =>
    have holds := (inv.owner t).mp howner
    rw [State.loc, all t] at holds
    exact holds.elim

/-- How many steps a run of the lock has. -/
theorem lock_bounded (nonneg : ∀ t, 0 ≤ loops t) :
    (lockMachine loops).Bounded (fun e => !e.resumes)
      ((20 * Fintype.card T + 1) * (3 * ∑ t, (loops t).toNat) + 10 * Fintype.card T) 5 := by
  refine (lock_potential nonneg).bounded fun s first => ?_
  rw [machine_init.mp first]
  simp [lockPotential, lockCredit, State.total, lockStart, mul_comm]

/-- **The lock terminates.** However the threads are interleaved, they take at most a
number of steps that is fixed by how many they are and how many passes they make, and
five more for every wait that returns without a wake. When no thread can move, all have
made their passes and the lock is free; and every run can be continued to that point. -/
theorem lock_terminates (loops : T → ℤ) (nonneg : ∀ t, 0 ≤ loops t)
    (run : (lockMachine loops).Run w s) :
    w.countP (fun e => !e.resumes) ≤ (20 * Fintype.card T + 1) * (3 * ∑ t, (loops t).toNat) +
      10 * Fintype.card T + 5 * w.countP Event.resumes ∧
    ((∀ t, ¬ Enabled (lockProgram T) s t) → s.mem () = 0 ∧ ∀ t, s.thread t = .ready (.inr ())) ∧
    ∃ w' s', (lockMachine loops).Run (w ++ w') s' ∧ (∀ e ∈ w', e.resumes = false) ∧
      s'.mem () = 0 ∧ ∀ t, s'.thread t = .ready (.inr ()) := by
  have bounded := lock_bounded nonneg
  refine ⟨bounded.count_le run, lock_done_of_stuck run.reachable, ?_⟩
  obtain ⟨w', s', further, quiet, stuck⟩ := bounded.exists_stuck run
  refine ⟨w', s', further, fun e member => by simpa using quiet e member, ?_⟩
  exact lock_done_of_stuck further.reachable (not_enabled_of_stuck stuck)

theorem lock_terminates_contention :
    ∃ w s, (lockMachine fun _ : Fin 2 => 1).Run w s ∧ s.mem () = 0 ∧
      ∀ t, s.thread t = .ready (.inr ()) := by
  obtain ⟨w, s, run, -⟩ := exists_run (lockProgram (Fin 2)) (lockStart fun _ => 1) contention
    (fun _ s => (s.thread 1).sleepsOn () = true) (by decide)
  obtain ⟨-, -, w', s', further, -, done⟩ := lock_terminates (fun _ => 1) (by simp) run
  exact ⟨_, s', further, done⟩

end Machine
