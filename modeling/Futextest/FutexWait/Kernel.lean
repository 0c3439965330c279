import Futextest.FutexWait.Termination

/-!
# When the benchmark lock calls the kernel

A lock of this kind is for the case in which nobody has to wait, where it should not call
the kernel at all. As long as each pass begins after the last one has ended, a pass is a
load and a compare-and-exchange, to lock, and the same to unlock. Otherwise the calls are
paid for by marks: the word becomes 2, and for that some unlock makes its one wake.

## Main definitions

* `NoOverlap` — a pass begins only while nobody else is in one
* `FastAt` — what the word is at the control points of the fast path

## Main results

* `lock_uncontended` — without overlap the kernel is never called
* `lock_accounts` — passes, acquisitions, releases, marks and wakes of any run
-/

open FutexMachine

/-! ## Without overlap -/

instance : DecidablePred InPass
  | .inl (.lock _ _) => .isTrue trivial
  | .inl (.unlock _ _) => .isTrue trivial
  | .inl (.head _) => .isFalse id
  | .inr () => .isFalse id

/-- The control point goes on into a pass. -/
def Begins (l : LockLoc) : Prop := ∃ n, n ≠ 0 ∧ l = .inl (.head n)

instance : DecidablePred Begins
  | .inl (.head n) =>
      if zero : n = 0 then .isFalse fun ⟨_, nonzero, same⟩ => nonzero (by cases same; exact zero)
      else .isTrue ⟨n, zero, rfl⟩
  | .inl (.lock _ _) => .isFalse fun ⟨_, _, same⟩ => nomatch same
  | .inl (.unlock _ _) => .isFalse fun ⟨_, _, same⟩ => nomatch same
  | .inr () => .isFalse fun ⟨_, _, same⟩ => nomatch same

/-- A pass begins only while nobody is in one. -/
def NoOverlap {T : Type} (s : State Unit T LockLoc) (e : Event Unit T LockLoc) : Prop :=
  Begins e.pc → ∀ t, ¬ InPass (s.loc t)

instance {T : Type} [Fintype T] (s : State Unit T LockLoc) (e : Event Unit T LockLoc) :
    Decidable (NoOverlap s e) :=
  inferInstanceAs (Decidable (_ → _))

/-- What the word is at the control points that a thread comes by when it does not have to
wait. It is never at any other. -/
def FastAt (w : UInt32) : LockLoc → Prop
  | .inl (.head _) => True
  | .inl (.lock _ .read) => w = 0
  | .inl (.lock _ (.fast status)) => status = 0 ∧ w = 0
  | .inl (.lock _ (.loop status)) => status = 0 ∧ w = 1
  | .inl (.lock _ _) => False
  | .inl (.unlock _ .read) => w = 1
  | .inl (.unlock _ (.clear status)) => status = 1 ∧ w = 1
  | .inl (.unlock _ (.clearMarked status)) => status = 1 ∧ w = 0
  | .inl (.unlock _ .wake) => False
  | .inr () => True

/-- The accesses of the fast path: each of them is one of these. -/
def accessFast {T : Type} : Access Unit T → Prop
  | .tau => True
  | .load _ _ => True
  | .cmpxchg _ old new got => got = old ∧ (old = 0 ∧ new = 1 ∨ old = 1 ∧ new = 0)
  | _ => False

theorem FastAt.of_not_inPass {w : UInt32} {l : LockLoc} (outside : ¬ InPass l) : FastAt w l := by
  rcases l with (n | ⟨n, pc⟩ | ⟨n, pc⟩) | _
  · trivial
  · exact absurd trivial outside
  · exact absurd trivial outside
  · trivial

theorem FastAt.word {w : UInt32} {l : LockLoc} (fast : FastAt w l) (inside : InPass l) :
    w = 0 ∨ w = 1 := by
  rcases l with (n | ⟨n, pc⟩ | ⟨n, pc⟩) | _
  · exact inside.elim
  · cases pc with
    | read => exact .inl fast
    | fast status => exact .inl fast.2
    | loop status => exact .inr fast.2
    | mark status | sleep status | reread | take status => exact fast.elim
  · cases pc with
    | read => exact .inr fast
    | clear status => exact .inr fast.2
    | clearMarked status => exact .inl fast.2
    | wake => exact fast.elim
  · exact inside.elim

/-- One statement of the fast path. It stays on it, and it comes out of the pass only with
the word 0. -/
theorem futexWaitTest_fast {T : Type} {mem : Unit → UInt32} (pc : TestPc) (woken : Finset T)
    (fast : FastAt (mem ()) (.inl pc)) (begins : Begins (.inl pc) → mem () = 0) :
    let next := (futexWaitTest pc).effect mem
    accessFast ((futexWaitTest pc).shows mem woken) ∧ FastAt (next.1 ()) next.2 ∧
    (InPass next.2 → InPass (.inl pc) ∨ Begins (.inl pc)) ∧
    (¬ InPass next.2 → InPass (.inl pc) → next.1 () = 0) ∧
    (¬ InPass (.inl pc) → next.1 = mem) ∧ ∀ v l, futexWaitTest pc ≠ .wait () v l := by
  cases pc with
  | head n =>
    by_cases zero : n = 0
    · simp [zero, FastAt, accessFast, InPass]
    · have free : mem () = 0 := begins ⟨n, zero, rfl⟩
      simp [zero, FastAt, accessFast, InPass, Begins, free]
  | lock n pc =>
    cases pc with
    | read =>
      have free : mem () = 0 := fast
      simp [FastAt, accessFast, InPass, free]
    | fast status =>
      obtain ⟨rfl, free⟩ := fast
      simp [FastAt, accessFast, InPass, free]
    | loop status =>
      obtain ⟨rfl, taken⟩ := fast
      simp [FastAt, accessFast, InPass, taken]
    | mark status | sleep status | reread | take status => exact fast.elim
  | unlock n pc =>
    cases pc with
    | read =>
      have taken : mem () = 1 := fast
      simp [FastAt, accessFast, InPass, taken]
    | clear status =>
      obtain ⟨rfl, taken⟩ := fast
      simp [FastAt, accessFast, InPass, taken]
    | clearMarked status =>
      obtain ⟨rfl, free⟩ := fast
      simp [FastAt, accessFast, InPass, free]
    | wake => exact fast.elim

section Machine

variable {T : Type} [DecidableEq T] [Fintype T] {loops : T → ℤ}
variable {w : List (Event Unit T LockLoc)} {s s' : State Unit T LockLoc} {e : Event Unit T LockLoc}

/-- The state of a run without overlap: at most one thread is in a pass, it is on the fast
path, and nobody sleeps. -/
structure Uncontended (s : State Unit T LockLoc) : Prop where
  alone : ∀ t u, InPass (s.loc t) → InPass (s.loc u) → t = u
  fast : ∀ t, FastAt (s.mem ()) (s.loc t)
  free : (∀ t, ¬ InPass (s.loc t)) → s.mem () = 0
  awake : ∀ t, s.thread t = .ready (s.loc t)

/-- A step without overlap is one of the fast path and leaves its thread there. -/
theorem Uncontended.step (held : Uncontended s) (step : Step (lockProgram T) s e s')
    (apart : NoOverlap s e) : accessFast e.access ∧ Uncontended s' := by
  have ready := held.awake e.thread
  rw [← Step.pc_eq step] at ready
  rcases hpc : e.pc with pc | _
  swap
  · have ended := Step.not_finished_self step
    rw [hpc] at ready
    simp [State.finished, ready, Op.isExit] at ended
  rw [hpc] at ready
  have here : s.loc e.thread = .inl pc := by simp [State.loc, ready]
  rcases Step.effect step with ⟨i, woken, hop, -, shown, mem, loc⟩ |
    ⟨-, ⟨-, ⟨a, asleep⟩, -⟩ | ⟨u, k, hop, -⟩⟩
  rotate_left
  · simp [ready] at asleep
  · simp [hpc] at hop
  rw [hpc] at hop
  obtain rfl : futexWaitTest pc = i := by simpa using hop
  have begins : Begins (.inl pc) → s.mem () = 0 := by
    intro first
    rw [← hpc] at first
    exact held.free (apart first)
  have path := held.fast e.thread
  rw [here] at path
  obtain ⟨fast, next, inPass, leaves, outside, noWait⟩ := futexWaitTest_fast pc woken path begins
  have self : s'.loc e.thread = ((futexWaitTest pc).effect s.mem).2 := by
    rw [loc, Function.update_self]
  have other : ∀ u, u ≠ e.thread → s'.loc u = s.loc u := fun u ne => Step.loc_other step ne
  -- where one thread is in a pass, or begins one, no other is
  have others : InPass (s.loc e.thread) ∨ Begins (.inl pc) → ∀ u, u ≠ e.thread →
      ¬ InPass (s.loc u) := by
    intro busy u ne inside
    rcases busy with also | first
    · exact ne (held.alone u e.thread inside also)
    · rw [← hpc] at first
      exact apart first u inside
  rw [← here] at inPass leaves outside
  rw [← self] at next inPass leaves
  rw [← mem] at next leaves outside
  refine ⟨shown ▸ fast, ⟨?_, ?_, ?_, ?_⟩⟩
  · intro t u ht hu
    by_cases tself : t = e.thread
    · subst tself
      by_contra ne
      rw [other u (Ne.symm ne)] at hu
      exact others (here ▸ inPass ht) u (Ne.symm ne) hu
    · by_cases uself : u = e.thread
      · subst uself
        rw [other t tself] at ht
        exact absurd ht (others (here ▸ inPass hu) t tself)
      · rw [other t tself] at ht
        rw [other u uself] at hu
        exact held.alone t u ht hu
  · intro t
    by_cases tself : t = e.thread
    · rw [tself]
      exact next
    · rw [other t tself]
      by_cases inside : InPass (s.loc t)
      · have free : ¬ InPass (s.loc e.thread) := fun busy => others (.inl busy) t tself inside
        rw [outside free]
        exact held.fast t
      · exact .of_not_inPass inside
  · intro nobody
    by_cases inside : InPass (s.loc e.thread)
    · exact leaves (nobody e.thread) inside
    · rw [outside inside]
      apply held.free
      intro t
      by_cases tself : t = e.thread
      · rw [tself]
        exact inside
      · rw [← other t tself]
        exact nobody t
  · intro t
    by_cases tself : t = e.thread
    · subst tself
      rcases Step.self step with ready' | ⟨a, asleep⟩
      · exact ready'
      · obtain ⟨v, wait, -, -⟩ := Step.asleep_self step asleep
        rw [hpc] at wait
        exact absurd (Op.instr.inj wait) (noWait v _)
    · rw [Step.ready_other step tself (held.awake t), other t tself]

/-- **The fast path.** As long as no pass begins while another thread is in one, the lock
never calls the kernel: nobody waits, wakes anybody or sleeps, and each access is a load
or one of the two compare-and-exchanges between 0 and 1, which succeeds. -/
theorem lock_uncontended (loops : T → ℤ) (run : ((lockMachine loops).restrict NoOverlap).Run w s) :
    (∀ e ∈ w, accessFast e.access) ∧ (s.mem () = 0 ∨ s.mem () = 1) ∧
    ∀ t, s.thread t = .ready (s.loc t) := by
  have sound : (∀ e ∈ w, accessFast e.access) ∧ Uncontended s := by
    induction run with
    | start first =>
      obtain rfl : _ = lockStart loops := first
      refine ⟨by simp, ⟨?_, fun t => trivial, fun _ => rfl, fun t => rfl⟩⟩
      intro t u inside
      exact inside.elim
    | next before move ih =>
      obtain ⟨move, apart⟩ := System.restrict_step.mp move
      obtain ⟨fast, next⟩ := ih.2.step move apart
      refine ⟨?_, next⟩
      intro e member
      rcases List.mem_append.mp member with earlier | last
      · exact ih.1 e earlier
      · rw [List.mem_singleton.mp last]
        exact fast
  refine ⟨sound.1, ?_, sound.2.awake⟩
  by_cases busy : ∃ t, InPass (s.loc t)
  · obtain ⟨t, inside⟩ := busy
    exact (sound.2.fast t).word inside
  · exact .inl (sound.2.free fun t inside => busy ⟨t, inside⟩)

/-- Two threads make a pass each, one after the other. -/
theorem lock_uncontended_turns :
    ∃ w s, ((lockMachine fun _ : Fin 2 => 1).restrict NoOverlap).Run w s ∧
      s.loc 0 = .inl (.head 0) ∧ s.loc 1 = .inl (.head 0) ∧ ∀ e ∈ w, accessFast e.access := by
  obtain ⟨w, s, run, done⟩ := exists_run_restrict (lockProgram (Fin 2)) (lockStart fun _ => 1) NoOverlap
    (List.replicate 7 (.run 0 ∅) ++ List.replicate 7 (.run 1 ∅))
    (fun _ s => s.loc 0 = .inl (.head 0) ∧ s.loc 1 = .inl (.head 0)) (by decide)
  exact ⟨w, s, run, done.1, done.2, (lock_uncontended _ run).1⟩

/-! ## The accounts of any run -/

/-- Whether the access sets the word to 2. -/
def accessMarks : Access Unit T → Bool
  | .cmpxchg _ old new got => got = old && new = 2
  | _ => false

/-- One mark if the word is marked. -/
def marked (v : UInt32) : ℕ := if v = 2 then 1 else 0

/-- Whether the access is a wake. -/
def accessWakes : Access Unit T → Bool
  | .wake _ _ _ => true
  | _ => false

/-- Whether the thread has released a marked word and has its wake ahead. -/
@[simp] def atWake : LockLoc → Bool
  | .inl (.unlock _ .wake) => true
  | _ => false

omit [Fintype T] in
/-- What one statement of `futex_wait_test` does to the accounts. An acquisition is one of
the passes that were left; and a mark goes over into the word, from there to the thread
that releases it, and from there into a wake. -/
theorem futexWaitTest_accounts {mem : Unit → UInt32} (t : T) (pc : TestPc) (woken : Finset T)
    (word : mem () = 0 ∨ mem () = 1 ∨ mem () = 2) (agrees : StatusAgrees (mem ()) (.inl pc))
    (held : Holds (.inl pc) → mem () ≠ 0) (nonneg : 0 ≤ pc.loops) :
    let next := (futexWaitTest pc).effect mem
    let access := (futexWaitTest pc).shows mem woken
    passesLeft next.2 + (if accessAction t access = some (.acquire t) then 1 else 0) =
      passesLeft (.inl pc) ∧
    marked (next.1 ()) + (atWake next.2).toNat + (accessWakes access).toNat =
      marked (mem ()) + (atWake (.inl pc)).toNat + (accessMarks access).toNat := by
  cases pc with
  | head n =>
    by_cases zero : n = 0
    · simp [zero, accessAction, accessMarks, accessWakes]
    · have positive : 0 < n := lt_of_le_of_ne nonneg (Ne.symm zero)
      have count : n.toNat - 1 + 1 = n.toNat := by omega
      simp [zero, accessAction, accessMarks, accessWakes, count]
  | lock n pc =>
    cases pc with
    | read | reread => simp [accessAction, accessMarks, accessWakes]
    | fast status | take status =>
      by_cases zero : status = 0
      · rcases word with w | w | w <;>
          simp [w, zero, accessAction, accessMarks, accessWakes, marked]
      · simp [zero, accessAction, accessMarks, accessWakes]
    | loop status | sleep status =>
      by_cases zero : status = 0 <;> simp [zero, accessAction, accessMarks, accessWakes]
    | mark status =>
      by_cases one : status = 1
      · rcases word with w | w | w <;>
          simp [w, one, accessAction, accessMarks, accessWakes, marked]
      · simp [one, accessAction, accessMarks, accessWakes]
  | unlock n pc =>
    cases pc with
    | read | wake => simp [accessAction, accessMarks, accessWakes]
    | clear status =>
      have nonzero := held trivial
      rcases agrees with rfl | ⟨rfl, two⟩
      · rcases word with w | w | w
        · exact absurd w nonzero
        · simp [w, accessAction, accessMarks, accessWakes, marked]
        · simp [w, accessAction, accessMarks, accessWakes, marked]
      · simp [two, accessAction, accessMarks, accessWakes, marked]
    | clearMarked status =>
      rcases agrees with rfl | ⟨rfl, two⟩
      · simp [accessAction, accessMarks, accessWakes]
      · simp [two, accessAction, accessMarks, accessWakes, marked]

/-- What one step does to the accounts. -/
theorem lock_account_step (nonneg : ∀ t, 0 ≤ loops t) (reach : (lockMachine loops).Reachable s)
    (step : Step (lockProgram T) s e s') :
    (∀ t, passesLeft (s'.loc t) + (if mutexAction e = some (.acquire t) then 1 else 0) =
      passesLeft (s.loc t)) ∧
    marked (s'.mem ()) + (atWake (s'.loc e.thread)).toNat + (accessWakes e.access).toNat =
      marked (s.mem ()) + (atWake (s.loc e.thread)).toNat + (accessMarks e.access).toNat := by
  rcases lock_step_cases reach step with ⟨pc, woken, ready, shown, mem, loc⟩ |
    ⟨n, asleep, shown, mem, awake⟩
  · obtain ⟨owner, inv⟩ := exists_lockInv reach
    have here : s.loc e.thread = .inl pc := by simp [State.loc, ready]
    have agrees := inv.agrees e.thread
    have held : Holds (s.loc e.thread) → s.mem () ≠ 0 := inv.nonzero
    rw [here] at agrees held
    obtain ⟨passes, marks⟩ := futexWaitTest_accounts e.thread pc woken inv.word agrees held
      (lock_loops_nonneg nonneg reach here)
    rw [← shown, ← here, ← loc] at passes
    rw [← shown, ← here, ← loc, ← mem] at marks
    refine ⟨?_, marks⟩
    intro t
    by_cases self : t = e.thread
    · rw [self]
      exact passes
    · -- a thread acquires only by its own step
      have other : mutexAction e ≠ some (.acquire t) := by
        intro acquires
        exact self (mutexAction_actor acquires)
      rw [if_neg other, Step.loc_other step self, add_zero]
  · have none : mutexAction e = none := by simp [mutexAction, accessAction, shown]
    have here : s.loc e.thread = .inl (.lock n .reread) := by simp [State.loc, asleep]
    have there : s'.loc e.thread = .inl (.lock n .reread) := by simp [State.loc, awake]
    refine ⟨?_, by simp [mem, here, there, shown, accessWakes, accessMarks]⟩
    intro t
    by_cases self : t = e.thread
    · simp [self, none, here, there]
    · simp [none, Step.loc_other step self]

/-- A thread has acquired the lock once for each pass that it has no longer to make. -/
theorem count_acquire (nonneg : ∀ t, 0 ≤ loops t) (run : (lockMachine loops).Run w s) (t : T) :
    (w.filterMap mutexAction).count (.acquire t) + passesLeft (s.loc t) = (loops t).toNat := by
  have bal : System.Balance (lockMachine loops) (fun s => passesLeft (s.loc t))
      (fun e => if decide (mutexAction e = some (.acquire t)) then 1 else 0)
      (fun _ => if false then 1 else 0) := by
    refine ⟨fun s e s' reach step => ?_⟩
    simpa using (lock_account_step nonneg reach step).1 t
  have passes := bal.count_eq (loops t).toNat
    (fun s first => by rw [machine_init.mp first]; rfl) run
  have same : (w.filterMap mutexAction).count (.acquire t) =
      w.countP fun e => decide (mutexAction e = some (.acquire t)) := by
    rw [List.count, List.countP_filterMap]
    congr 1
    funext e
    cases mutexAction e with
    | none => simp
    | some a => simp [beq_eq_decide]
  rw [same]
  simpa using passes

/-- For each mark there has been a wake, or it is in the word or with a thread that has its
wake ahead. -/
theorem count_wakes (nonneg : ∀ t, 0 ≤ loops t) (run : (lockMachine loops).Run w s) :
    w.countP (fun e => accessWakes e.access) + marked (s.mem ()) +
        (Finset.univ.filter fun t => atWake (s.loc t)).card =
      w.countP fun e => accessMarks e.access := by
  have bal : System.Balance (lockMachine loops)
      (fun s => marked (s.mem ()) + s.total fun _ x => (atWake x.loc).toNat)
      (fun e => if accessWakes e.access then 1 else 0)
      (fun e => if accessMarks e.access then 1 else 0) := by
    refine ⟨fun s e s' reach step => ?_⟩
    have marks := (lock_account_step nonneg reach step).2
    have waking := Step.total_loc step fun l => (atWake l).toNat
    simp only [Bool.toNat, Bool.cond_eq_ite] at marks waking ⊢
    omega
  have counted := bal.count_eq 0 (fun s first => ?_) run
  · have waking : (Finset.univ.filter fun t => atWake (s.loc t)).card =
        s.total fun _ x => (atWake x.loc).toNat := by
      rw [Finset.card_filter]
      refine Finset.sum_congr rfl fun t _ => ?_
      exact (Bool.cond_eq_ite _ _ _).symm
    omega
  · rw [machine_init.mp first]
    simp [lockStart, State.total, marked]

/-- **The accounts.** After every run, each thread has acquired the lock once for each
pass that it has no longer to make, and released it as often, but for the owner; and for
every time that the word has become 2 there has been one wake, but for the mark that is in
the word and the wakes that are on their way. -/
theorem lock_accounts (loops : T → ℤ) (nonneg : ∀ t, 0 ≤ loops t)
    (run : (lockMachine loops).Run w s) :
    (∀ t, (w.filterMap mutexAction).count (.acquire t) + passesLeft (s.loc t) =
        (loops t).toNat ∧
      (w.filterMap mutexAction).count (.release t) + (if Owns w t then 1 else 0) =
        (w.filterMap mutexAction).count (.acquire t)) ∧
    w.countP (fun e => accessWakes e.access) + marked (s.mem ()) +
        (Finset.univ.filter fun t => atWake (s.loc t)).card =
      w.countP fun e => accessMarks e.access := by
  obtain ⟨owner, abstract, -⟩ := (lock_simulates_mutex loops).exists_run run
  refine ⟨fun t => ⟨count_acquire nonneg run t, ?_⟩, count_wakes nonneg run⟩
  exact Mutex.count_release abstract t

theorem lock_accounts_contention :
    ∃ w s, (lockMachine fun _ : Fin 2 => 1).Run w s ∧ s.mem () = 2 ∧
      w.countP (fun e => accessWakes e.access) < w.countP fun e => accessMarks e.access := by
  obtain ⟨w, s, run, two⟩ := exists_run (lockProgram (Fin 2)) (lockStart fun _ => 1) contention
    (fun _ s => s.mem () = 2) (by decide)
  have counted := (lock_accounts (fun _ => 1) (by simp) run).2
  have one : marked (s.mem ()) = 1 := by rw [two]; rfl
  exact ⟨w, s, run, two, by omega⟩

end Machine
