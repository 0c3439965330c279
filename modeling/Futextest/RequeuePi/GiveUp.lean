import Futextest.RequeuePi.Correct

/-!
# A waker that gives up

When a requeue fails, or has been tried too often, the waker sets `RET_ERROR` and
exits. Main looks at its result only after it has joined the waiters, so the error
gets to the verdict only if no waiter is left for the requeue that does not come, and
if the third party, where there is one, does not sleep on.

A negative result always leaves a waiter behind. Only the cap on the passes can be
reached together with the requeue that takes the last one.

## Main definitions

* `Loc.finalCount` — how many waiters the waker knows to be moved when it gives up
* `ErrorHeeded` — the condition under which its error gets to the verdict

## Main results

* `finalCount_le` — it does not overestimate them
* `waker_error_reaches_verdict` — under the condition main can always go on to return
  the error of a waker that has given up
* `waker_error_blocks_main` — a waker that gives up with waiters on `f1` leaves main
  waiting for them
-/

namespace RequeuePi

open PiFutex UnitTest

variable {u : UnitTest} {w : List RunEvent} {s s' : RunState} {e : RunEvent}

/-! ## What the waker knows -/

/-- How many waiters have been moved, as far as a waker knows that gives up with this
result of its last requeue. `broadcast_wakerfn` has not added that to its count. -/
def Loc.finalCount (ret : ℤ) : Loc → Option ℤ
  | .broadcast (.setError taskCount) => some (taskCount + ret)
  | .signal (.setError taskCount) => some taskCount
  | _ => none

/-- A waker that gives up knows of some number. -/
theorem exists_finalCount {l : Loc} (at_phase : l.In .givingUp) (ret : ℤ) :
    ∃ n, l.finalCount ret = some n := by
  cases l with
  | broadcast pc | signal pc =>
    cases pc <;> first | exact at_phase.elim | exact ⟨_, rfl⟩
  | _ => exact at_phase.elim

/-- The waker does not know of more than `n` moved waiters. -/
def KnowsAtMost (n : ℕ) (ret : ℤ) (l : Loc) : Prop := ∀ m ∈ l.finalCount ret, m ≤ n

/-- Nor does it in its loop, where it does not give up. -/
theorem knowsAtMost_of_none {n : ℕ} {ret : ℤ} {l : Loc} (none : l.finalCount ret = none) :
    KnowsAtMost n ret l := by
  intro m known
  rw [none] at known
  cases known

theorem finalCount_eq_none {p : Phase} {l : Loc} (at_phase : l.In p) (other : p ≠ .givingUp)
    (ret : ℤ) : l.finalCount ret = none := by
  cases l with
  | broadcast pc | signal pc =>
    cases pc with
    | setError taskCount =>
      cases p with
      | givingUp => exact absurd rfl other
      | looping n => exact at_phase.elim
      | waking count | gone count => cases count <;> exact at_phase.elim
    | _ => rfl
  | _ => rfl

theorem requeuedAll_knowsAtMost {taskCount ret : ℤ} {n : ℕ} (i : ℕ)
    (count : taskCount + max ret 0 = n) :
    KnowsAtMost n ret (.broadcast (requeuedAll taskCount i ret)) := by
  have most : taskCount + ret ≤ n := by omega
  unfold requeuedAll
  split_ifs
  · rintro m ⟨⟩
    exact most
  · exact knowsAtMost_of_none rfl
  · rintro m ⟨⟩
    exact most

theorem requeuedOne_knowsAtMost {taskCount ret : ℤ} {n : ℕ} (i : ℕ) (ret' : ℤ)
    (count : taskCount + max ret 0 = n) :
    KnowsAtMost n ret' (.signal (requeuedOne taskCount i ret)) := by
  unfold requeuedOne
  split_ifs
  · rintro m ⟨⟩
    omega
  · rintro m ⟨⟩
    omega
  · exact knowsAtMost_of_none rfl

theorem release_knowsAtMost {taskCount ret : ℤ} {n : ℕ} (i : ℕ) (ret' : ℤ)
    (count : taskCount + max ret 0 = n) :
    KnowsAtMost n ret' (.signal (u.release taskCount i ret)) := by
  unfold release
  split_ifs
  · exact knowsAtMost_of_none rfl
  · exact requeuedOne_knowsAtMost i ret' count

theorem broadcast_knowsAtMost {n : ℕ} {pc : BroadcastPc} (looping : pc.In (.looping n))
    (mem : Cell → ℤ) : (u.broadcastWakerfn pc).Leads mem
      (KnowsAtMost n ((u.broadcastWakerfn pc).cells mem .wakerRet)) := by
  cases pc with
  | poll | test taskCount i ret =>
    simp only [broadcastWakerfn, Op.Leads]
    split_ifs <;> exact knowsAtMost_of_none rfl
  | lock | requeue taskCount i old => exact fun _ => knowsAtMost_of_none rfl
  | load taskCount i => exact knowsAtMost_of_none rfl
  | store taskCount i result =>
    change KnowsAtMost n (Function.update mem .wakerRet result.ret .wakerRet) _
    rw [Function.update_self]
    exact requeuedAll_knowsAtMost i looping
  | _ => exact looping.elim

theorem signal_knowsAtMost {n : ℕ} {pc : SignalPc} (looping : pc.In (.looping n))
    (mem : Cell → ℤ) : (u.signalWakerfn pc).Leads mem
      (KnowsAtMost n ((u.signalWakerfn pc).cells mem .wakerRet)) := by
  cases pc with
  | poll | guard taskCount i ret | guardWoken taskCount i ret =>
    simp only [signalWakerfn, Op.Leads]
    split_ifs <;> exact knowsAtMost_of_none rfl
  | lock taskCount i | requeue taskCount i old => exact fun _ => knowsAtMost_of_none rfl
  | load taskCount i => exact knowsAtMost_of_none rfl
  | store taskCount i result =>
    simp only [signalWakerfn, Op.Leads]
    split_ifs
    · exact knowsAtMost_of_none rfl
    · exact release_knowsAtMost i _ looping
  | negate taskCount i errno =>
    have count : taskCount + max (-errno : ℤ) 0 = n := by
      rw [max_eq_right (by omega), Int.add_zero]
      exact looping
    exact release_knowsAtMost i _ count
  | unlock taskCount i ret => exact fun _ => requeuedOne_knowsAtMost i _ looping
  | _ => exact looping.elim

/-- The next statement of a waker that has moved `n` waiters. -/
theorem leads_knowsAtMost {p : Phase} {n : ℕ} {l : Loc} (at_phase : l.In p) (counts : p.Counts n)
    (no_requeue : ∀ a v p nrWake nrRequeue k,
      u.program .waker l ≠ .cmpRequeuePi a v p nrWake nrRequeue k) (mem : Cell → ℤ) :
    (u.program .waker l).Leads mem
      (KnowsAtMost n ((u.program .waker l).cells mem .wakerRet)) := by
  cases p with
  | looping m =>
    obtain rfl : m = n := counts
    cases l with
    | broadcast pc => exact broadcast_knowsAtMost at_phase mem
    | signal pc => exact signal_knowsAtMost at_phase mem
    | _ => exact at_phase.elim
  | _ =>
    -- only the loop leads to where the waker gives up
    refine (waker_leads at_phase no_requeue mem).mono ?_
    rintro l' ⟨p', move, at_phase'⟩
    refine knowsAtMost_of_none (finalCount_eq_none at_phase' ?_ _)
    rintro rfl
    cases move

/-- A waker that gives up knows of no more moved waiters than there are. -/
theorem finalCount_le (run : (machine u).Run w s) :
    (s.thread .waker).Holds (KnowsAtMost (moved w).card (s.mem .wakerRet)) := by
  -- the count is kept along the run, together with what the waker has stored
  refine own_run_invariant (t := .waker) (Q := fun w => KnowsAtMost (moved w).card) (by simp)
    ?_ ?_ ?_ run
  · simp only [UnitTest.start]
    split_ifs <;> exact knowsAtMost_of_none rfl
  · intro w s e s' before step other ret l knows
    have none_taken := step.taken_eq_empty fun ready a v p nrWake nrRequeue k op => by
      obtain ⟨waker, -⟩ := program_cmpRequeuePi op
      exact other ⟨waker, waker ▸ ready⟩
    -- a step of another thread moves nobody
    rwa [card_moved_append before step, none_taken, Finset.card_empty, Nat.add_zero]
  · intro w s e s' before step own ready leaves _
    have phase := waker_phase before
    unfold WakerIn at phase
    rw [ready] at phase
    obtain ⟨p, at_phase, counts⟩ := phase
    by_cases requeue : ∃ a v p nrWake nrRequeue k,
        u.program .waker e.pc = .cmpRequeuePi a v p nrWake nrRequeue k
    · -- after a requeue the waker is in its loop
      obtain ⟨a, v, p, nrWake, nrRequeue, k, op⟩ := requeue
      rw [← own] at ready op
      obtain ⟨n, l, -, after, looping⟩ := waker_requeues step ready op at_phase
      rw [after]
      exact knowsAtMost_of_none (finalCount_eq_none looping (by simp) _)
    · have no_requeue : ∀ a v p nrWake nrRequeue k,
          u.program .waker e.pc ≠ .cmpRequeuePi a v p nrWake nrRequeue k :=
        fun a v p nrWake nrRequeue k op => requeue ⟨a, v, p, nrWake, nrRequeue, k, op⟩
      have none_taken := step.taken_eq_empty fun _ a v p nrWake nrRequeue k op =>
        no_requeue a v p nrWake nrRequeue k (own ▸ op)
      rw [card_moved_append before step, none_taken, Finset.card_empty, Nat.add_zero]
      exact (leads_knowsAtMost at_phase counts no_requeue s.mem).of_leaves leaves

/-! ## Who is left when the waker gives up -/

/-- Whether a waker that has given up is about to wake the third party. -/
def Loc.wakesInError : Loc → Bool
  | .broadcast (.wake _ ret) | .signal (.wake _ ret) => ret < 0
  | _ => false

theorem wakesInError_of_in {l : Loc} (at_phase : l.In (.waking none)) : l.wakesInError := by
  cases l with
  | broadcast pc | signal pc =>
    cases pc <;> first | exact decide_eq_true at_phase | exact at_phase.elim
  | _ => exact at_phase.elim

/-- The condition under which the error of a waker gets to the verdict. It gives up only
when it knows of `THREAD_MAX` moved waiters, and then its wake reaches the third party. -/
def ErrorHeeded (u : UnitTest) (s : RunState) (e : RunEvent) : Prop :=
  (∀ count ∈ e.pc.finalCount (s.mem .wakerRet), count = threadMax) ∧
    (u.thirdPartyOwner = true → e.pc.wakesInError → (s.loc .blocker).waited)

instance (u : UnitTest) (s : RunState) (e : RunEvent) : Decidable (ErrorHeeded u s e) :=
  inferInstanceAs (Decidable (_ ∧ (_ → _)))

/-- Under the condition all waiters are past `f1` when the waker carries an error. -/
theorem all_left_or_not_failed (run : ((machine u).restrict (ErrorHeeded u)).Run w s) :
    left s = Finset.univ ∨ WakerIn s fun p => ¬ p.Failed := by
  refine wakerIn_until (fun n => id) (fun s e s' => all_left_of_step) ?_ run
  intro w s e s' p p' before step heeded _ ready at_phase not_failed move
  cases move with
  | error =>
    have knows := finalCount_le before
    rw [ready] at knows
    obtain ⟨count, known⟩ := exists_finalCount at_phase (s.mem .wakerRet)
    -- it knows of `THREAD_MAX`, and does not overestimate
    have all_moved : (threadMax : ℤ) ≤ (moved w).card := by
      rw [← heeded.1 count known]
      exact knows count known
    exact .inr (all_left_of_step before.reachable step (all_left_of_moved before all_moved))
  | wake count =>
    left
    cases count <;> exact not_failed
  | exit n ended | giveUp n => exact .inl id
  | loop n | rest count => exact .inl not_failed

/-- When main comes to create the waker it has created all the others. -/
theorem createdBelow_waker (reach : (machine u).Reachable s) {ret : ℤ}
    (here : s.thread .main = .ready (.main (.createWaker ret))) :
    u.CreatedBelow (threadMax + 2) := by
  obtain ⟨w, any, run, -, awake⟩ := exists_anyRun (start_fresh u) reach
  have there : any.loc .main = .main (.createWaker ret) := by
    rw [Syscalls.State.loc, awake .main _ here]
    rfl
  exact ((Inv.run run).main _ there).2

/-- So no creation has failed once the waker runs. -/
theorem noneFails_of_waker (reach : (machine u).Reachable s)
    (born : ∀ l, s.thread .waker ≠ .unborn l) : u.NoneFails := by
  have inv : (machine u).Invariant fun s => (∃ l, s.thread .waker = .unborn l) ∨ u.NoneFails := by
    constructor
    · rintro s rfl
      exact .inl ⟨_, rfl⟩
    · rintro s e s' reach (⟨l, unborn⟩ | fine) step
      · rcases step.unborn_or_created unborn with still | ⟨ready, k, op⟩
        · exact .inl ⟨l, still⟩
        · obtain ⟨main, ⟨blocker, -⟩ | ⟨i, ret, waiter, -⟩ | ⟨-, ret, here, -⟩⟩ := program_create op
          · cases blocker
          · cases waiter
          · rw [main, here] at ready op
            have done : u.createRtThread .waker = 0 := by
              by_contra fails
              have gives_up : u.program .main (.main (.createWaker ret)) =
                  .tau (.main (.exit retError)) := create_of_fails fails
              rw [gives_up] at op
              cases op
            have all := CreatedBelow.next (t := .waker) (createdBelow_waker reach ready) done
            exact .inr fun t starts => all t starts t.order_lt
      · exact .inr fine
  rcases inv.of_reachable reach with ⟨l, unborn⟩ | fine
  · exact absurd unborn (born l)
  · exact fine

/-! ## The way of the error -/

/-- What stays once the waker has finished with an error: all waiters are past `f1`, and the
third party is past its wait. -/
structure GaveUp (u : UnitTest) (l : Loc) (s : RunState) : Prop where
  waker : s.thread .waker = .ready l
  past : left s = Finset.univ
  blocker : u.thirdPartyOwner = true → BlockerUp s

theorem GaveUp.step {l : Loc} (gave_up : GaveUp u l s) (exits : u.program .waker l = .exit)
    (reach : (machine u).Reachable s) (step : Step u.program s e s') : GaveUp u l s' where
  waker := step.at_exit gave_up.waker exits
  past := all_left_of_step reach step gave_up.past
  blocker third := blockerUp_of_step step (gave_up.blocker third)

/-- Then the test does not hang. -/
theorem GaveUp.not_hangs {l : Loc} (gave_up : GaveUp u l s) (reach : (machine u).Reachable s) :
    ¬ Hangs u s := by
  have awake : ¬ ∃ l, s.thread .blocker = .asleep .wakeComplete l := by
    by_cases third : u.thirdPartyOwner = true
    · obtain ⟨pc, ready, -⟩ := gave_up.blocker third
      simp [ready]
    · exact blocker_awake (Bool.eq_false_iff.mpr third) reach
  intro hangs
  -- each way to hang needs a sleeper or a waiter on `f1`
  cases hangs with
  | wakeupLost asleep _ => exact awake asleep
  | mutualWait wait => exact awake wait.2.1
  | stranded _ _ waiter =>
    obtain ⟨i, l, queued⟩ := waiter
    have past := mem_left.mp (gave_up.past ▸ Finset.mem_univ i)
    rw [queued] at past
    cases past

/-- **The error of the waker.** Without a timeout, and if the waker gives up only when it
knows of `THREAD_MAX` moved waiters and its wake reaches the third party: once it has
finished with `RET_ERROR` no waiter is queued at `f1`, so that main waits for none there,
and main can go on, without a wait that returns by itself, until it returns that error. -/
theorem waker_error_reaches_verdict (u : UnitTest) (untimed : u.timeoutNs = 0)
    (run : ((machine u).restrict (ErrorHeeded u)).Run w s)
    (finished : s.thread .waker = .ready (.broadcast (.exit retError)) ∨
      s.thread .waker = .ready (.signal (.exit retError))) :
    s.queue (.source .f1 .f2) = ∅ ∧
    ∃ w' t, (machine u).Run (w ++ w') t ∧ (machine u).Later s t ∧
      (∀ e ∈ w', e.resumes = false) ∧ t.thread .main = .ready (.main (.exit retError)) := by
  have reach := run.of_restrict.reachable
  obtain ⟨l, waker, failed, past, exits⟩ : ∃ l : Loc, s.thread .waker = .ready l ∧ l.Failed ∧
      l.pastWake ∧ u.program .waker l = .exit := by
    have negative : retError < 0 := by decide
    rcases finished with finished | finished
    · exact ⟨_, finished, negative, rfl, rfl⟩
    · exact ⟨_, finished, negative, rfl, rfl⟩
  have here : s.loc .waker = l := by simp [State.loc, waker]
  have all : left s = Finset.univ := by
    rcases all_left_or_not_failed run with all | not_failed
    · exact all
    · obtain ⟨p, at_phase, not_failed⟩ := State.loc_of_holds not_failed
      rw [here] at at_phase
      exact absurd (failed_of_in at_phase failed) not_failed
  have blocker : u.thirdPartyOwner = true → BlockerUp s := by
    intro third
    have reaches : ∀ s e count, ErrorHeeded u s e → count = none → e.pc.In (.waking count) →
        (s.loc .blocker).waited := by
      rintro s e - heeded rfl at_phase
      exact heeded.2 third (wakesInError_of_in at_phase)
    rcases blockerUp_or_not_gone reaches run with up | not_gone
    · exact up
    · obtain ⟨p, at_phase, not_gone⟩ := State.loc_of_holds not_gone
      rw [here] at at_phase
      obtain ⟨count, rfl⟩ := gone_of_in at_phase past
      have errs := failed_of_in at_phase failed
      cases count with
      | none => exact absurd rfl (not_gone none rfl)
      | some n => exact errs.elim
  refine ⟨queue_empty_of_all_left reach all, ?_⟩
  -- the waker was the last thread to be created
  have fine := noneFails_of_waker reach (by simp [waker])
  obtain ⟨w', t, further, later, quiet, -, ends⟩ := exists_last fine run.of_restrict
  obtain ⟨reach', gave_up⟩ := later.keeps reach
    (fun s e s' reach gave_up step => GaveUp.step gave_up exits reach step) ⟨waker, all, blocker⟩
  obtain ⟨v, returned⟩ := exists_exit fine reach'
    (ends.resolve_right (gave_up.not_hangs reach'))
  refine ⟨w', t, further, later, quiet, ?_⟩
  -- there was neither a clock to read nor a creation that failed
  have no_early : ¬ u.EarlyError := by
    rintro (clock | ⟨t, starts, fails⟩)
    · exact clock (by simp [firstRet, UnitTest.timed, untimed, retPass])
    · exact fails (fine t starts)
  have here' : t.loc .waker = l := by simp [State.loc, gave_up.waker]
  rcases exit_value no_early reach' returned with ⟨rfl, -⟩ | ⟨-, -, not_failed⟩
  · exact returned
  · exact absurd (here' ▸ failed) not_failed

/-! ## The cap -/

/-- `unit_test(1, 0, 0, 0)`. -/
abbrev plainBroadcast : UnitTest := unitTestWith true false false 0

/-- All waiters are on their way to their waits, and the waker has moved nobody. -/
def emptyHanded (pc : BroadcastPc) : RunState where
  mem
    | .waitersBlocked => threadMax
    | _ => 0
  owner _ := none
  thread
    | .main => .ready (.main (.readRet 0 0 0))
    | .blocker => .unborn (.blocker .lock)
    | .waker => .ready (.broadcast pc)
    | .waiter _ => .ready (.waiter (.wait 0))

theorem emptyHanded_put (pc pc' : BroadcastPc) :
    (emptyHanded pc).put .waker (.ready (.broadcast pc')) = emptyHanded pc' := by
  refine congrArg (State.mk _ _) ?_
  funext t
  cases t <;> rfl

/-- Its result was 0 before. -/
theorem emptyHanded_stored (pc pc' : BroadcastPc) :
    ((emptyHanded pc).write .wakerRet 0).put .waker (.ready (.broadcast pc')) =
      emptyHanded pc' := by
  have same : (emptyHanded pc).write .wakerRet 0 = emptyHanded pc :=
    congrArg (State.mk · _ _) (Function.update_eq_self Cell.wakerRet _)
  rw [same, emptyHanded_put]

theorem emptyHanded_queue (pc : BroadcastPc) (q : Queue Cell PiWord) :
    (emptyHanded pc).queue q = ∅ := by
  ext t
  rw [State.mem_queue]
  cases t <;> simp [emptyHanded]

/-- One statement of a waker that moves nobody. -/
theorem emptyHanded_step (pc pc' : BroadcastPc) {access : Access Cell PiWord Party} {s : RunState}
    (quiet : ∀ ret, (Loc.broadcast pc).finalCount ret = none)
    (performed : (plainBroadcast.broadcastWakerfn pc).perform plainBroadcast.program
      (emptyHanded pc) .waker ⟨∅, none, none⟩ = some (access, s))
    (same : s = emptyHanded pc') :
    ((machine plainBroadcast).restrict (ErrorHeeded plainBroadcast)).Later (emptyHanded pc)
      (emptyHanded pc') := by
  refine .single ⟨⟨.waker, .broadcast pc, access⟩, ?_, ?_, ?_⟩
  · rw [← same]
    exact Step.run rfl performed
  · intro count known
    rw [quiet] at known
    cases known
  · intro third
    cases third

/-- A pass of the loop that comes before the waiters. -/
theorem emptyHanded_pass {i : ℕ} (more : i + 1 < maxWakeIters) :
    ((machine plainBroadcast).restrict (ErrorHeeded plainBroadcast)).Later
      (emptyHanded (.load 0 i)) (emptyHanded (.load 0 (i + 1))) := by
  have load := emptyHanded_step (.load 0 i) (.requeue 0 i 0) (fun _ => rfl) rfl
    (emptyHanded_put _ _)
  have nobody : (emptyHanded (.requeue 0 i 0)).requeue .f2 ∅ = emptyHanded (.requeue 0 i 0) := by
    simp [State.requeue]
  have performed : (plainBroadcast.broadcastWakerfn (.requeue 0 i 0)).perform
      plainBroadcast.program (emptyHanded (.requeue 0 i 0)) .waker ⟨∅, none, none⟩ =
      some (.cmpRequeuePi .f1 .f2 ∅ none, ((emptyHanded (.requeue 0 i 0)).requeue .f2 ∅).put .waker
        (.ready (.broadcast (.store 0 i (.ok 0))))) := by
    rw [broadcastWakerfn, Op.perform]
    exact if_pos ⟨rfl, Finset.empty_subset _, Nat.zero_le _, .inl (emptyHanded_queue _ _).symm, rfl⟩
  have requeue := emptyHanded_step _ (.store 0 i (.ok 0)) (fun _ => rfl) performed
    (by rw [nobody, emptyHanded_put])
  have goes_on : requeuedAll 0 i (SysResult.ok 0).ret = .test 0 (i + 1) 0 := by
    simp [requeuedAll, more]
  have store := emptyHanded_step (.store 0 i (.ok 0)) (.test 0 (i + 1) 0) (fun _ => rfl) rfl
    (by rw [goes_on]; exact emptyHanded_stored _ _)
  have test := emptyHanded_step (.test 0 (i + 1) 0) (.load 0 (i + 1)) (fun _ => rfl) rfl
    (emptyHanded_put _ _)
  exact load.trans (requeue.trans (store.trans test))

/-- Any number of passes below the cap. -/
theorem emptyHanded_passes {n : ℕ} (few : n < maxWakeIters) :
    ((machine plainBroadcast).restrict (ErrorHeeded plainBroadcast)).Later
      (emptyHanded (.load 0 0)) (emptyHanded (.load 0 n)) := by
  induction n with
  | zero => exact .refl
  | succ n ih => exact (ih (Nat.lt_of_succ_lt few)).trans (emptyHanded_pass few)

/-- All threads are created, and the waker comes before the waiters to their futex. -/
theorem exists_emptyHanded : ∃ w, ((machine plainBroadcast).restrict
    (ErrorHeeded plainBroadcast)).Run w (emptyHanded (.load 0 0)) := by
  obtain ⟨w, s, run, cells, owner, threads⟩ := exists_run_restrict plainBroadcast.program
    plainBroadcast.start (ErrorHeeded plainBroadcast)
    (Choice.ops .main 13 ++ waitersDo 2 ++ Choice.ops .waker 1)
    (fun _ s => (∀ a, s.mem a = (emptyHanded (.load 0 0)).mem a) ∧ s.owner .f2 = none ∧
      ∀ t, s.thread t = (emptyHanded (.load 0 0)).thread t) (by decide +kernel)
  have owners : s.owner = fun _ => none := by
    funext p
    cases p
    exact owner
  have same : s = emptyHanded (.load 0 0) :=
    congr (congr (congrArg State.mk (funext cells)) owners) (funext threads)
  exact ⟨w, same ▸ run⟩

/-- The waiters come before the last pass, whose requeue takes them all. -/
def takenAtTheCap : List (Choice Party) :=
  waitersDo 1 ++ Choice.ops .waker 1 ++
    [.run .waker ⟨Finset.univ.image .waiter, some (.waiter 0), none⟩] ++ Choice.ops .waker 3

/-- The waker gives up at the cap, and its error gets to the verdict. -/
theorem waker_error_reaches_verdict_cap : ∃ w s,
    ((machine plainBroadcast).restrict (ErrorHeeded plainBroadcast)).Run w s ∧
    s.thread .waker = .ready (.broadcast (.exit retError)) ∧
    s.queue (.source .f1 .f2) = ∅ ∧
    ∃ w' t, (machine plainBroadcast).Run (w ++ w') t ∧ (machine plainBroadcast).Later s t ∧
      (∀ e ∈ w', e.resumes = false) ∧ t.thread .main = .ready (.main (.exit retError)) := by
  obtain ⟨w, run⟩ := exists_emptyHanded
  obtain ⟨w₁, run⟩ := run.exists_append (emptyHanded_passes (n := 999) (by decide))
  have sound : ∀ s c e s', exec plainBroadcast.program s c = some (e, s') →
      (machine plainBroadcast).step s e s' := fun _ _ _ _ => step_of_exec
  obtain ⟨w₂, s, run, finished⟩ := run.exists_execAll
    (System.restrict_sound sound (ErrorHeeded plainBroadcast)) takenAtTheCap
    (fun s => s.thread .waker = .ready (.broadcast (.exit retError))) (by decide +kernel)
  exact ⟨_, s, run, finished, waker_error_reaches_verdict plainBroadcast rfl run (.inl finished)⟩

/-- All waiters are queued at `f1`, and the first requeue fails. -/
def requeueFails : List (Choice Party) :=
  Choice.ops .main 13 ++ waitersDo 3 ++ Choice.ops .waker 2 ++
    [.run .waker ⟨∅, none, some einval⟩]

/-- The waker gives up, and main joins the first waiter, which nobody moves any
more. -/
theorem waker_error_blocks_main : ∃ s,
    (machine (unitTestWith true false false 0)).Reachable s ∧
    s.thread .waker = .ready (.broadcast (.exit retError)) ∧
    s.thread .main = .ready (.main (.join 0 0 0 false)) ∧
    ∀ i, .waiter i ∈ s.queue (.source .f1 .f2) := by
  obtain ⟨w, s, run, done⟩ := exists_run (unitTestWith true false false 0).program
    (unitTestWith true false false 0).start
    (requeueFails ++ Choice.ops .waker 3 ++ Choice.ops .main 1)
    (fun _ s => s.thread .waker = .ready (.broadcast (.exit retError)) ∧
      s.thread .main = .ready (.main (.join 0 0 0 false)) ∧
      ∀ i, .waiter i ∈ s.queue (.source .f1 .f2)) (by decide +kernel)
  exact ⟨s, run.reachable, done⟩

end RequeuePi
