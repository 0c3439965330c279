import Futextest.RequeuePi.Wakers

/-!
# Waiters left behind

A waker that has left its loop without an error should leave no waiter on `f1`, and
none on its way there. `signal_wakerfn` does so: it stops when it has moved all
waiters or when all have woken. `broadcast_wakerfn` compares the moved waiters with
those that have not woken. A waiter that was moved and woke counts on both sides, and
one that is late may be left behind.

## Main definitions

* `Loc.Done`, `Loc.Failed` — a waker has left its loop without an error, or with one
* `TestsApart` — the condition under which the test of `broadcast_wakerfn` is right

## Main results

* `signalWakerfn_strands_no_waiter` — a signal waker leaves nobody behind
* `broadcastWakerfn_strands_no_waiter` — neither does a broadcast waker whose tests
  all meet the condition
* `testsApart_of_nobody_woke` — they do if nobody has woken at a test that finds a
  waiter not past `f1`
* `broadcastWakerfn_strands_waiter` — one whose test does not, leaves a waiter behind;
  that every such test does so is `broadcast_test_strands`, in the module on runs
  without a timeout
-/

namespace RequeuePi

open PiFutex UnitTest

variable {u : UnitTest} {w : List RunEvent} {s s' : RunState} {e : RunEvent}

/-! ## The end of a loop -/

/-- `broadcast_wakerfn` has left its loop without an error. -/
def BroadcastPc.Done : BroadcastPc → Prop
  | .wake _ ret | .unlock _ ret | .exit ret => 0 ≤ ret
  | .total _ => True
  | _ => False

/-- `signal_wakerfn` has left its loop without an error. -/
def SignalPc.Done : SignalPc → Prop
  | .wake _ ret | .exit ret => 0 ≤ ret
  | .total _ => True
  | _ => False

/-- The waker has left its loop without an error. -/
def Loc.Done : Loc → Prop
  | .broadcast pc => pc.Done
  | .signal pc => pc.Done
  | _ => False

/-- Then so has the loop. -/
theorem done_of_in {p : Phase} {l : Loc} (at_phase : l.In p) (done : l.Done) : p.Done := by
  cases p with
  | looping n | givingUp =>
    cases l with
    | broadcast pc | signal pc =>
      cases pc <;> first | exact at_phase.elim | exact done.elim
    | _ => exact at_phase.elim
  | waking count | gone count =>
    cases count with
    | some n => trivial
    | none =>
      cases l with
      | broadcast pc | signal pc =>
        cases pc <;> first | exact at_phase.elim | exact absurd done (Int.not_le.mpr at_phase)
      | _ => exact at_phase.elim

/-- `broadcast_wakerfn` has left its loop with an error. -/
def BroadcastPc.Failed : BroadcastPc → Prop
  | .wake _ ret | .unlock _ ret | .exit ret => ret < 0
  | _ => False

/-- `signal_wakerfn` has left its loop with an error. -/
def SignalPc.Failed : SignalPc → Prop
  | .wake _ ret | .exit ret => ret < 0
  | _ => False

/-- The waker has left its loop with an error. -/
def Loc.Failed : Loc → Prop
  | .broadcast pc => pc.Failed
  | .signal pc => pc.Failed
  | _ => False

/-- Then so has the loop. -/
theorem failed_of_in {p : Phase} {l : Loc} (at_phase : l.In p) (failed : l.Failed) : p.Failed := by
  cases p with
  | looping n | givingUp =>
    cases l with
    | broadcast pc | signal pc =>
      cases pc <;> first | exact at_phase.elim | exact failed.elim
    | _ => exact at_phase.elim
  | waking count | gone count =>
    cases count with
    | none => trivial
    | some n =>
      cases l with
      | broadcast pc | signal pc =>
        cases pc <;> first
          | exact at_phase.elim
          | exact failed.elim
          | exact absurd failed (Int.not_lt.mpr at_phase)
          | exact absurd failed (Int.not_lt.mpr at_phase.2)
      | _ => exact at_phase.elim

/-! ## Nobody is left -/

/-- If all waiters are past `f1` they stay so. -/
theorem all_left_of_step (reach : (machine u).Reachable s) (step : Step u.program s e s')
    (all : left s = Finset.univ) : left s' = Finset.univ := by
  rw [Finset.eq_univ_iff_forall] at all ⊢
  intro i
  exact left_of_step reach step (all i)

/-- Then nobody is queued at `f1`. -/
theorem queue_empty_of_all_left (reach : (machine u).Reachable s) (all : left s = Finset.univ) :
    s.queue (.source .f1 .f2) = ∅ := by
  rw [Finset.eq_empty_iff_forall_notMem]
  intro t member
  obtain ⟨l, x, queued⟩ := s.mem_queue.mp member
  obtain ⟨⟨i, rfl⟩, -⟩ := queued_source reach queued
  have past := mem_left.mp (all ▸ Finset.mem_univ i)
  simp [queued, RequeuePi.past] at past

/-- If the loop ends only with all waiters past `f1`, they are so whenever the waker
is done. -/
theorem all_left_or_not_done {P : RunState → RunEvent → Prop}
    (exits : ∀ w s e, (machine u).Run w s → P s e → s.thread .waker = .ready e.pc →
      e.pc.Exits s.mem → left s = Finset.univ)
    (run : ((machine u).restrict P).Run w s) :
    left s = Finset.univ ∨ WakerIn s fun p => ¬ p.Done := by
  refine wakerIn_until (fun n => id) (fun s e s' => all_left_of_step) ?_ run
  intro w s e s' p p' before step met _ ready _ not_done move
  cases move with
  | exit n ended =>
    have all := exits w s e before met ready ended
    exact .inr (all_left_of_step before.reachable step all)
  | wake count =>
    left
    cases count <;> exact not_done
  | error | giveUp n => exact .inl id
  | loop n | rest count => exact .inl not_done

/-- What it comes to for a waker that is done. -/
theorem all_left_of_done (inv : left s = Finset.univ ∨ WakerIn s fun p => ¬ p.Done)
    (done : (s.loc .waker).Done) : left s = Finset.univ := by
  rcases inv with all | not_done
  · exact all
  · obtain ⟨p, at_phase, not_done⟩ := State.loc_of_holds not_done
    exact absurd (done_of_in at_phase done) not_done

/-- All waiters at once are all there are. -/
theorem eq_univ_of_card {x : Finset (Fin threadMax)} (many : (threadMax : ℤ) ≤ x.card) :
    x = Finset.univ := by
  apply Finset.eq_univ_of_card
  have most := x.card_le_univ
  simp only [Fintype.card_fin] at most ⊢
  omega

theorem all_left_of_moved (run : (machine u).Run w s) (many : (threadMax : ℤ) ≤ (moved w).card) :
    left s = Finset.univ := by
  have subset := moved_subset_left run
  rw [eq_univ_of_card many] at subset
  exact Finset.univ_subset_iff.mp subset

theorem all_left_of_woken (reach : (machine u).Reachable s)
    (many : (threadMax : ℤ) ≤ s.mem .waitersWoken) : left s = Finset.univ := by
  have subset : woke s ⊆ left s := fun i => left_of_woke reach
  rw [waitersWoken_eq reach] at many
  rw [eq_univ_of_card many] at subset
  exact Finset.univ_subset_iff.mp subset

/-! ## The signal waker -/

theorem signal_leads_signal (pc : SignalPc) (mem : Cell → ℤ) :
    (u.signalWakerfn pc).Leads mem fun l => ∃ pc, l = .signal pc := by
  cases pc with
  | poll | guardWoken taskCount i ret =>
    simp only [signalWakerfn, Op.Leads]
    split <;> exact ⟨_, rfl⟩
  | lock taskCount i | requeue taskCount i old | unlock taskCount i ret => exact fun _ => ⟨_, rfl⟩
  | exit ret => trivial
  | _ => exact ⟨_, rfl⟩

/-- Without `broadcast` the waker runs `signal_wakerfn`. -/
theorem waker_signal (signal : u.broadcast = false) (reach : (machine u).Reachable s) :
    ∃ pc, s.loc .waker = .signal pc := by
  have initial : (u.start.thread .waker).Holds fun l => ∃ pc, l = .signal pc := by
    simp only [UnitTest.start, signal]
    exact ⟨_, rfl⟩
  refine State.loc_of_holds (loc_invariant initial ?_ reach)
  intro l mem role
  obtain ⟨pc, rfl⟩ := role
  exact signal_leads_signal pc mem

/-- At the guard of its loop the `task_count` of `signal_wakerfn` is the number of
moved waiters. -/
theorem signal_taskCount (run : (machine u).Run w s) {taskCount ret : ℤ} {i : ℕ}
    (at_guard : s.loc .waker = .signal (.guard taskCount i ret) ∨
      s.loc .waker = .signal (.guardWoken taskCount i ret)) : taskCount = (moved w).card := by
  obtain ⟨p, at_phase, counts⟩ := State.loc_of_holds (waker_phase run)
  rcases at_guard with here | here <;> rw [here] at at_phase <;>
    cases p with
    | looping n => exact at_phase.1.trans (congrArg Nat.cast counts)
    | waking count | gone count => cases count <;> exact at_phase.elim
    | givingUp => exact at_phase.elim

/-- When the loop of `signal_wakerfn` ends, all waiters are past `f1`. -/
theorem all_left_of_signal_exits (run : (machine u).Run w s) {pc : SignalPc}
    (at_pc : s.loc .waker = .signal pc) (exits : (Loc.signal pc).Exits s.mem) :
    left s = Finset.univ := by
  cases pc with
  | guard taskCount i ret =>
    change (threadMax : ℤ) ≤ taskCount at exits
    rw [signal_taskCount run (.inl at_pc)] at exits
    exact all_left_of_moved run exits
  | guardWoken taskCount i ret => exact all_left_of_woken run.reachable exits
  | _ => exact exits.elim

/-- A signal waker strands no waiter. At the guard of its loop `task_count` is the
number of waiters that requeues have moved, and both exit conditions mean that all
are past `f1`. Once it has left the loop without an error nobody is queued at `f1`
any more. -/
theorem signalWakerfn_strands_no_waiter (signal : u.broadcast = false)
    (run : (machine u).Run w s) :
    (∀ taskCount i ret, s.loc .waker = .signal (.guard taskCount i ret) ∨
        s.loc .waker = .signal (.guardWoken taskCount i ret) →
      taskCount = (moved w).card ∧
      (taskCount = threadMax ∨ s.mem .waitersWoken = threadMax → left s = Finset.univ)) ∧
    ∀ pc, s.loc .waker = .signal pc → pc.Done →
      ∀ s', (machine u).Later s s' → s'.queue (.source .f1 .f2) = ∅ := by
  refine ⟨?_, ?_⟩
  · intro taskCount i ret at_guard
    have count := signal_taskCount run at_guard
    refine ⟨count, ?_⟩
    rintro (all_moved | all_woken)
    · exact all_left_of_moved run (by omega)
    · exact all_left_of_woken run.reachable (by omega)
  · intro pc at_pc done s' later
    have always : ∀ w s (e : RunEvent), (machine u).Run w s → True →
        s.thread .waker = .ready e.pc → e.pc.Exits s.mem → left s = Finset.univ := by
      intro w s e run _ ready exits
      have here : s.loc .waker = e.pc := by simp [State.loc, ready]
      obtain ⟨pc, at_pc⟩ := waker_signal signal run.reachable
      rw [← here, at_pc] at exits
      exact all_left_of_signal_exits run at_pc exits
    have inv := all_left_or_not_done always (run.restrict fun _ _ _ _ _ => trivial)
    have all := all_left_of_done inv (by rw [at_pc]; exact done)
    obtain ⟨reach', all'⟩ := later.keeps run.reachable
      (fun _ _ _ reach all step => all_left_of_step reach step all) all
    exact queue_empty_of_all_left reach' all'

/-- Signals that move all waiters one by one, the first of which gets `f2`. -/
def oneBySignal : List (Choice Party) :=
  Choice.ops .main 13 ++ waitersDo 3 ++ Choice.ops .waker 4 ++
    [.run .waker ⟨{.waiter 0}, some (.waiter 0), none⟩] ++ Choice.ops .waker 4 ++
    (List.finRange (threadMax - 1)).flatMap (fun i =>
      .run .waker ⟨{.waiter i.succ}, none, none⟩ :: Choice.ops .waker 4)

theorem signalWakerfn_strands_no_waiter_oneBySignal : ∃ w s,
    (machine (unitTestWith false false false 0)).Run w s ∧
    s.loc .waker = .signal (.exit threadMax) ∧
    ∀ s', (machine (unitTestWith false false false 0)).Later s s' →
      s'.queue (.source .f1 .f2) = ∅ := by
  obtain ⟨w, s, run, done⟩ := exists_run (unitTestWith false false false 0).program
    (unitTestWith false false false 0).start oneBySignal
    (fun _ s => s.loc .waker = .signal (.exit threadMax)) (by decide +kernel)
  have nonneg : (SignalPc.exit threadMax).Done := Int.natCast_nonneg threadMax
  exact ⟨w, s, run, done, (signalWakerfn_strands_no_waiter rfl run).2 _ done nonneg⟩

/-! ## The broadcast waker -/

/-- At the exit test of `broadcast_wakerfn`. -/
def Loc.testing : Loc → Bool
  | .broadcast (.test _ _ _) => true
  | _ => false

/-- The condition under which the exit test of `broadcast_wakerfn` is right: while
some waiter is not past `f1`, the waiters that are and those that woke are together
fewer than `THREAD_MAX`. Every waiter that woke is also past `f1` and counts twice. -/
def TestsApart (s : RunState) (e : RunEvent) : Prop :=
  e.pc.testing → left s ≠ Finset.univ → (left s).card + (woke s).card < threadMax

instance (s : RunState) (e : RunEvent) : Decidable (TestsApart s e) :=
  inferInstanceAs (Decidable (_ → _ → _))

/-- A test that finds a waiter not past `f1` meets the condition if nobody has woken
yet. -/
theorem testsApart_of_woke_eq_empty (nobody : woke s = ∅) : TestsApart s e := by
  intro _ some_left
  rw [nobody, Finset.card_empty]
  have fewer := (Finset.card_lt_iff_ne_univ (left s)).mpr some_left
  rwa [Fintype.card_fin] at fewer

/-- So the schedules that let nobody wake before all waiters are past `f1` meet it at
all tests. -/
theorem testsApart_of_nobody_woke (run : ((machine u).restrict fun s e =>
      e.pc.testing → left s ≠ Finset.univ → woke s = ∅).Run w s) :
    ((machine u).restrict TestsApart).Run w s := by
  refine run.mono (fun _ initial => initial) ?_
  intro s e s' move
  obtain ⟨step, plain⟩ := System.restrict_step.mp move
  refine System.restrict_step.mpr ⟨step, fun testing some_left => ?_⟩
  exact testsApart_of_woke_eq_empty (plain testing some_left) testing some_left

/-- Under the condition, when the loop of `broadcast_wakerfn` ends all waiters are
past `f1`. -/
theorem all_left_of_broadcast_exits (run : (machine u).Run w s) (apart : TestsApart s e)
    {pc : BroadcastPc} (at_pc : s.loc .waker = .broadcast pc) (here : e.pc = .broadcast pc)
    (exits : (Loc.broadcast pc).Exits s.mem) : left s = Finset.univ := by
  cases pc with
  | test taskCount i ret =>
    change (threadMax : ℤ) ≤ taskCount + s.mem .waitersWoken at exits
    have count : taskCount = (moved w).card := by
      obtain ⟨p, at_phase, counts⟩ := State.loc_of_holds (waker_phase run)
      rw [at_pc] at at_phase
      cases p with
      | looping n => exact at_phase.1.trans (congrArg Nat.cast counts)
      | waking count | gone count => cases count <;> exact at_phase.elim
      | givingUp => exact at_phase.elim
    by_contra some_left
    have few := apart (by rw [here]; rfl) some_left
    have moved_le := Finset.card_le_card (moved_subset_left run)
    rw [count, waitersWoken_eq run.reachable] at exits
    omega
  | _ => exact exits.elim

/-- A broadcast waker strands no waiter in a run whose exit tests meet the condition:
once it has left its loop without an error all waiters are past `f1`, and nobody is
queued there. -/
theorem broadcastWakerfn_strands_no_waiter (run : ((machine u).restrict TestsApart).Run w s)
    {pc : BroadcastPc} (at_pc : s.loc .waker = .broadcast pc) (done : pc.Done) :
    left s = Finset.univ ∧ s.queue (.source .f1 .f2) = ∅ := by
  have always : ∀ w s e, (machine u).Run w s → TestsApart s e → s.thread .waker = .ready e.pc →
      e.pc.Exits s.mem → left s = Finset.univ := by
    intro w s e run apart ready exits
    have here : s.loc .waker = e.pc := by simp [State.loc, ready]
    cases hpc : e.pc with
    | signal pc =>
      rw [hpc] at here exits
      exact all_left_of_signal_exits run here exits
    | broadcast pc =>
      rw [hpc] at here exits
      exact all_left_of_broadcast_exits run apart here hpc exits
    | main pc | blocker pc | waiter pc =>
      rw [hpc] at exits
      exact exits.elim
  have all := all_left_of_done (all_left_or_not_done always run) (by rw [at_pc]; exact done)
  exact ⟨all, queue_empty_of_all_left run.of_restrict.reachable all⟩

/-- Nine waiters queue, while the last has only counted itself in `waiters_blocked`,
and the waker requeues them. -/
def nineRequeued : List (Choice Party) :=
  Choice.ops .main 13 ++ waitersDo 2 ++
    (List.finRange (threadMax - 1)).flatMap (fun i => Choice.ops (.waiter i.castSucc) 1) ++
    Choice.ops .waker 2 ++
    [.run .waker ⟨Finset.univ.image fun i : Fin (threadMax - 1) => .waiter i.castSucc,
      some (.waiter 0), none⟩]

/-- The last waiter is in time for a second requeue. -/
theorem broadcastWakerfn_strands_no_waiter_twice : ∃ w s,
    ((machine (unitTestWith true false false 0)).restrict TestsApart).Run w s ∧
    s.loc .waker = .broadcast (.exit threadMax) ∧ left s = Finset.univ ∧
    s.queue (.source .f1 .f2) = ∅ := by
  obtain ⟨w, s, run, done⟩ := exists_run_restrict (unitTestWith true false false 0).program
    (unitTestWith true false false 0).start TestsApart
    (nineRequeued ++ Choice.ops .waker 2 ++ Choice.ops (.waiter 9) 1 ++ Choice.ops .waker 1 ++
      [.run .waker ⟨{.waiter 9}, none, none⟩] ++ Choice.ops .waker 4)
    (fun _ s => s.loc .waker = .broadcast (.exit threadMax)) (by decide +kernel)
  have nonneg : (BroadcastPc.exit threadMax).Done := Int.natCast_nonneg threadMax
  exact ⟨w, s, run, done, broadcastWakerfn_strands_no_waiter run done nonneg⟩

/-- The first of nine requeued waiters wakes before the test, and the waker leaves
although the last is still on its way to `f1`, where it stays. -/
theorem broadcastWakerfn_strands_waiter : ∃ s,
    (machine (unitTestWith true false false 0)).Reachable s ∧
    s.thread .waker = .ready (.broadcast (.exit 9)) ∧
    s.thread (.waiter 9) = .queued (.source .f1 .f2) (.waiter (.store (.ok 0))) none := by
  obtain ⟨w, s, run, done⟩ := exists_run (unitTestWith true false false 0).program
    (unitTestWith true false false 0).start
    (nineRequeued ++ Choice.ops (.waiter 0) 2 ++ Choice.ops .waker 4 ++ Choice.ops (.waiter 9) 1)
    (fun _ s => s.thread .waker = .ready (.broadcast (.exit 9)) ∧
      s.thread (.waiter 9) = .queued (.source .f1 .f2) (.waiter (.store (.ok 0))) none)
    (by decide +kernel)
  exact ⟨s, run.reachable, done⟩

end RequeuePi
