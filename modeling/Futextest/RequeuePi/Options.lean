import Futextest.RequeuePi.Ownership
import Futextest.RequeuePi.ThirdParty
import Futextest.RequeuePi.Verdict

/-!
# The options of `futex_requeue_pi`

The loop of `main` over its options, one assignment after the other. `-o` sets `owner`
and clears `locked`, and `-l` sets `locked` whatever `owner` is: it is cancelled by a
later `-o` only. With both set, the blocker may hold `f2` and wait for the waker to wake
it while the waker waits for `f2`.

The options that only concern messages, `-c` and `-v`, change nothing here; `-h` and
what `getopt` rejects end the program.

## Main definitions

* `parseOptions` — the loop, and the arguments for `unit_test` that it leaves
* `MutualWait` — waker and blocker wait for each other
* `LockedLater` — an `-l` that no `-o` follows, but some `-o` precedes

## Main results

* `options_respected_iff` — the arguments are those that the options ask for exactly if
  there is no such `-l`
* `locked_and_owner` — with `-o -l`, waker and blocker come to wait for each other
-/

namespace RequeuePi

open PiFutex UnitTest

/-! ## The loop of main -/

/-- What `getopt` returns, with the value of `atoi(optarg)` where there is one. -/
inductive CmdOption
  | b
  | c
  | h
  | l
  | o
  | t (optarg : ℤ)
  | v (optarg : ℤ)
  | unknown
  deriving DecidableEq

/-- `broadcast`, `owner`, `locked` and `timeout_ns`. -/
structure Options where
  broadcast : Bool
  owner : Bool
  locked : Bool
  timeoutNs : ℤ
  deriving DecidableEq

/-- Test option defaults. -/
def Options.default : Options := ⟨false, false, false, 0⟩

/-- One pass of the loop, which ends the program with some options. -/
def Options.set (opts : Options) : CmdOption → Option Options
  | .b => some { opts with broadcast := true }
  | .c => some opts
  | .h => none
  -- `owner` is not looked at, so that this undoes what `-o` cancelled
  | .l => some { opts with locked := true }
  | .o => some { opts with owner := true, locked := false }
  | .t optarg => some { opts with timeoutNs := optarg }
  | .v _ => some opts
  | .unknown => none

/-- The loop over all options. -/
def parseOptions (line : List CmdOption) : Option Options := line.foldlM Options.set .default

/-- `unit_test(broadcast, locked, owner, timeout_ns)`, with what its environment answers. -/
def Options.unitTest (opts : Options) (clockGettime : ℤ) (clock : TimespecWords 64 64)
    (createRtThread : Party → ℤ) (args : Fin threadMax → ℤ) : UnitTest where
  broadcast := opts.broadcast
  lock := opts.locked
  thirdPartyOwner := opts.owner
  timeoutNs := opts.timeoutNs
  clockGettime := clockGettime
  clock := clock
  createRtThread := createRtThread
  args := args

/-! ## What the loop leaves -/

variable {line : List CmdOption} {x : CmdOption} {opts : Options}

theorem parseOptions_append (line : List CmdOption) (x : CmdOption) :
    parseOptions (line ++ [x]) = (parseOptions line).bind (Options.set · x) := by
  simp [parseOptions, List.foldlM_append]

/-- The last option was processed on what the others left. -/
theorem set_of_append (parsed : parseOptions (line ++ [x]) = some opts) :
    ∃ before, parseOptions line = some before ∧ before.set x = some opts := by
  rw [parseOptions_append] at parsed
  exact Option.bind_eq_some_iff.mp parsed

/-- What holds of the defaults, and is kept by each option that is processed, holds in the
end. -/
theorem parse_induction {P : List CmdOption → Options → Prop} (start : P [] .default)
    (next : ∀ line x before opts, P line before → before.set x = some opts → P (line ++ [x]) opts)
    (parsed : parseOptions line = some opts) : P line opts := by
  induction line using List.reverseRecOn generalizing opts with
  | nil =>
    cases parsed
    exact start
  | append_singleton line x ih =>
    obtain ⟨before, earlier, now⟩ := set_of_append parsed
    exact next line x before opts (ih earlier) now

theorem broadcast_iff (parsed : parseOptions line = some opts) :
    opts.broadcast = true ↔ .b ∈ line := by
  refine parse_induction (P := fun line opts => opts.broadcast = true ↔ .b ∈ line) ?_ ?_ parsed
  · simp [Options.default]
  · intro line x before opts sofar now
    cases x <;> cases now <;> simp [sofar]

theorem owner_iff (parsed : parseOptions line = some opts) : opts.owner = true ↔ .o ∈ line := by
  refine parse_induction (P := fun line opts => opts.owner = true ↔ .o ∈ line) ?_ ?_ parsed
  · simp [Options.default]
  · intro line x before opts sofar now
    cases x <;> cases now <;> simp [sofar]

/-- An `-l` that no `-o` follows. -/
def LockedLast (line : List CmdOption) : Prop := ∃ p q, line = p ++ .l :: q ∧ .o ∉ q

theorem lockedLast_append :
    LockedLast (line ++ [x]) ↔ x = .l ∨ x ≠ .o ∧ LockedLast line := by
  constructor
  · rintro ⟨p, q, split, later⟩
    -- the last option is that `-l`, or comes after it
    rcases List.eq_nil_or_concat q with rfl | ⟨q, y, rfl⟩
    · obtain ⟨-, last⟩ := List.append_inj' split rfl
      cases last
      exact .inl rfl
    · rw [List.concat_eq_append] at split later
      have same : line ++ [x] = (p ++ .l :: q) ++ [y] := by rw [split]; simp
      obtain ⟨rfl, last⟩ := List.append_inj' same rfl
      cases last
      refine .inr ⟨?_, p, q, rfl, ?_⟩
      · rintro rfl
        simp at later
      · intro member
        exact later (List.mem_append_left _ member)
  · rintro (rfl | ⟨other, p, q, rfl, later⟩)
    · exact ⟨line, [], rfl, by simp⟩
    · refine ⟨p, q ++ [x], by simp, ?_⟩
      intro member
      rcases List.mem_append.mp member with before | now
      · exact later before
      · exact other (List.mem_singleton.mp now).symm

theorem locked_iff (parsed : parseOptions line = some opts) :
    opts.locked = true ↔ LockedLast line := by
  refine parse_induction (P := fun line opts => opts.locked = true ↔ LockedLast line) ?_ ?_ parsed
  · simp [Options.default, LockedLast]
  · intro line x before opts sofar now
    rw [lockedLast_append]
    cases x <;> cases now <;> simp [sofar]

/-- An `-l` that no `-o` follows, but some `-o` precedes. -/
def LockedLater (line : List CmdOption) : Prop := .o ∈ line ∧ LockedLast line

/-- Without `-o` every `-l` counts. -/
theorem lockedLast_iff_of_not_mem (never : .o ∉ line) : LockedLast line ↔ .l ∈ line := by
  constructor
  · rintro ⟨p, q, rfl, -⟩
    simp
  · intro member
    obtain ⟨p, q, split⟩ := List.append_of_mem member
    refine ⟨p, q, split, ?_⟩
    intro later
    rw [split] at never
    exact never (List.mem_append_right _ (List.mem_cons_of_mem _ later))

/-! ## Waker and blocker -/

variable {u : UnitTest} {s : RunState}

/-- The blocker owns `f2` and sleeps until the waker wakes it, and the waker waits for
`f2`. -/
def MutualWait (s : RunState) : Prop :=
  s.owner .f2 = some .blocker ∧ (∃ l, s.thread .blocker = .asleep .wakeComplete l) ∧
    ∃ l x, s.thread .waker = .queued (.pi .f2) l x

theorem start_ne_queued (u : UnitTest) (t : Party) (q : Queue Cell PiWord) (l : Loc)
    (x : Option Loc) : u.start.thread t ≠ .queued q l x := by
  cases t <;> simp [UnitTest.start]

/-- The waker comes to a lock only if it is to lock. -/
theorem lock_of_program {l : Loc} {p : PiWord} {k : SysResult → Loc}
    (op : u.program .waker l = .lockPi p k) (proper : u.proper .waker l) : u.lock = true := by
  cases l with
  | broadcast pc =>
    cases pc with
    | lock => exact proper
    | _ => cases op
  | signal pc =>
    cases pc with
    | lock taskCount i => exact proper
    | _ => cases op
  | _ => cases op

/-- A waker that does not lock `f2` never queues. -/
theorem waker_not_queued (unlocked : u.lock = false) (reach : (machine u).Reachable s) :
    ∀ q l x, s.thread .waker ≠ .queued q l x := by
  have inv : (machine u).Invariant fun s => ∀ q l x, s.thread .waker ≠ .queued q l x := by
    constructor
    · intro s initial
      rw [show s = u.start from initial]
      exact start_ne_queued u .waker
    · intro s e s' reach before step q l x queued
      by_cases self : e.thread = .waker
      · rcases step.active with ⟨ready, leaves⟩ | ⟨a, -, awake⟩ | ⟨q, x, -, awake⟩
        · rw [self] at ready leaves
          rw [queued] at leaves
          -- it could only queue by its lock, which it does not reach
          have proper : (s.thread .waker).Holds (u.proper .waker) :=
            loc_invariant (start_proper u .waker) (fun l mem _ => proper_leads .waker l mem) reach
          rw [ready] at proper
          generalize hop : u.program .waker e.pc = op at leaves
          cases leaves with
          | blocked p k => exact absurd (lock_of_program hop proper) (by simp [unlocked])
          | queued a v p timed k =>
            obtain ⟨⟨i, waiter⟩, -⟩ := program_waitRequeuePi hop
            cases waiter
        · rw [self, queued] at awake
          cases awake
        · rw [self, queued] at awake
          cases awake
      · -- another thread can only move a waker that was queued already
        have passive := step.passive (Ne.symm self)
        rw [queued] at passive
        generalize hx : s.thread .waker = y at passive
        cases passive with
        | same _ _ => exact before q l x hx
        | moved a p _ _ _ => exact before _ _ _ hx
  exact inv.of_reachable reach

/-- Without `-o` main passes the creation of a blocker by. -/
theorem main_passes_blocker (two : u.thirdPartyOwner = false) (l : Loc) (mem : Cell → ℤ) :
    (u.program .main l).Leads mem fun l' => ∀ ret, l' ≠ .main (.createBlocker ret) := by
  -- a loop over the waiters leads to its next pass or past its end
  have past : ∀ (i : Fin threadMax) (pass : Fin threadMax → MainPc) (last : MainPc),
      (∀ j ret, pass j ≠ .createBlocker ret) → (∀ ret, last ≠ .createBlocker ret) →
      ∀ ret, Loc.main (nextWaiter i pass last) ≠ .main (.createBlocker ret) := by
    intro i pass last one another ret same
    rcases nextWaiter_cases i pass last with ⟨more, there⟩ | ⟨-, there⟩
    · rw [there] at same
      exact one _ ret (Loc.main.inj same)
    · rw [there] at same
      exact another ret (Loc.main.inj same)
  cases l with
  | main pc =>
    cases pc with
    | clock => simp [UnitTest.program, unitTest, Op.Leads, two]
    | createBlocker ret | createWaker ret =>
      simp only [UnitTest.program, unitTest, UnitTest.create]
      split_ifs <;> simp [Op.Leads]
    | createWaiter ret i =>
      simp only [UnitTest.program, unitTest, UnitTest.create]
      split_ifs
      · exact past i _ _ (by simp) (by simp)
      · simp [Op.Leads]
    | join ret i waiterRet null => exact past i _ _ (by simp) (by simp [two])
    | joinWaker ret waiterRet =>
      simp only [UnitTest.program, unitTest, Op.Leads, out]
      split_ifs <;> simp
    | readWaiter waiterRet | readWaker | readBlocker =>
      simp only [UnitTest.program, unitTest, Op.Leads]
      split_ifs <;> simp
    | reset ret | readRet ret i waiterRet | joinBlocker ret waiterRet =>
      simp [UnitTest.program, unitTest, Op.Leads]
    | exit ret => trivial
  | _ => trivial

/-- Main only comes to the creation of a blocker with `-o`. -/
theorem third_of_createBlocker (reach : (machine u).Reachable s) {ret : ℤ}
    (ready : s.thread .main = .ready (.main (.createBlocker ret))) : u.thirdPartyOwner = true := by
  by_contra two
  have initial : (u.start.thread .main).Holds fun l => ∀ ret, l ≠ .main (.createBlocker ret) := by
    simp [UnitTest.start, Status.Holds]
  have elsewhere := loc_invariant initial
    (fun l mem _ => main_passes_blocker (Bool.eq_false_iff.mpr two) l mem) reach
  rw [ready] at elsewhere
  exact elsewhere ret rfl

/-- Without `-o` there is no blocker. -/
theorem blocker_unborn (two : u.thirdPartyOwner = false) (reach : (machine u).Reachable s) :
    ∃ l, s.thread .blocker = .unborn l := by
  have inv : (machine u).Invariant fun s => ∃ l, s.thread .blocker = .unborn l := by
    constructor
    · intro s initial
      rw [show s = u.start from initial]
      exact ⟨_, rfl⟩
    · rintro s e s' reach ⟨l, unborn⟩ step
      rcases step.unborn_or_created unborn with still | ⟨ready, k, op⟩
      · exact ⟨l, still⟩
      · -- main would have to be where it creates the blocker
        obtain ⟨main, ⟨-, ret, here⟩ | ⟨i, ret, waiter, -⟩ | ⟨waker, -⟩⟩ := program_create op
        · rw [main, here] at ready
          exact absurd (third_of_createBlocker reach ready) (by simp [two])
        · cases waiter
        · cases waker
  exact inv.of_reachable reach

/-- The two wait for each other only if both options are set. -/
theorem both_of_mutualWait (reach : (machine u).Reachable s) (wait : MutualWait s) :
    u.lock = true ∧ u.thirdPartyOwner = true := by
  obtain ⟨-, ⟨l, asleep⟩, l', x, queued⟩ := wait
  constructor
  · by_contra unlocked
    exact waker_not_queued (Bool.eq_false_iff.mpr unlocked) reach _ _ _ queued
  · by_contra two
    obtain ⟨l'', unborn⟩ := blocker_unborn (Bool.eq_false_iff.mpr two) reach
    rw [asleep] at unborn
    cases unborn

/-! ## What the options ask for -/

/-- The arguments for `unit_test` are those that the options ask for, by the description
in `usage` where `-o` cancels `-l`; and waker and blocker never wait for each other. -/
structure Respected (line : List CmdOption) (opts : Options) : Prop where
  broadcast : opts.broadcast = true ↔ .b ∈ line
  owner : opts.owner = true ↔ .o ∈ line
  locked : opts.locked = true ↔ .l ∈ line ∧ .o ∉ line
  apart : ∀ clockGettime clock createRtThread args s,
    (machine (opts.unitTest clockGettime clock createRtThread args)).Reachable s → ¬ MutualWait s

/-- **The options.** For every sequence of options that `main` accepts: it respects them
exactly if no `-l` comes after the last `-o`. -/
theorem options_respected_iff (line : List CmdOption) (opts : Options)
    (parsed : parseOptions line = some opts) : Respected line opts ↔ ¬ LockedLater line := by
  have locked := locked_iff parsed
  have owner := owner_iff parsed
  constructor
  · rintro respected ⟨third, last⟩
    exact (respected.locked.mp (locked.mpr last)).2 third
  · intro never
    -- only `locked` depends on the order of the options
    refine ⟨broadcast_iff parsed, owner, ?_, ?_⟩
    · rw [locked]
      by_cases third : .o ∈ line
      · refine iff_of_false (fun last => never ⟨third, last⟩) fun both => both.2 third
      · rw [lockedLast_iff_of_not_mem third]
        exact (and_iff_left third).symm
    · intro clockGettime clock createRtThread args s reach wait
      obtain ⟨lock, third⟩ := both_of_mutualWait reach wait
      exact never ⟨owner.mp third, locked.mp lock⟩

/-- `-l -b -o` leaves `-b -o`. -/
theorem options_respected_cancelled : Respected [.l, .b, .o] ⟨true, true, false, 0⟩ := by
  refine (options_respected_iff [.l, .b, .o] ⟨true, true, false, 0⟩ rfl).mpr ?_
  rintro ⟨-, last⟩
  have parsed : parseOptions [.l, .b, .o] = some ⟨true, true, false, 0⟩ := rfl
  cases (locked_iff parsed).mpr last

/-- The first operations of all threads: the blocker owns `f2` and sleeps, and the waker
comes to its lock. -/
def blockerFirst : List (Choice Party) :=
  Choice.ops .main 14 ++ Choice.ops .blocker 4 ++ waitersDo 3 ++ Choice.ops .waker 4

/-- With `-o -l` waker and blocker come to wait for each other. -/
theorem locked_and_owner : parseOptions [.o, .l] = some ⟨false, true, true, 0⟩ ∧
    ∃ s, (machine (Options.unitTest ⟨false, true, true, 0⟩ 0 ⟨0, 0⟩ (fun _ => 0)
      fun _ => 0)).Reachable s ∧ MutualWait s := by
  refine ⟨rfl, ?_⟩
  obtain ⟨w, s, run, owner, asleep, queued⟩ := exists_run
    (Options.unitTest ⟨false, true, true, 0⟩ 0 ⟨0, 0⟩ (fun _ => 0) fun _ => 0).program
    (Options.unitTest ⟨false, true, true, 0⟩ 0 ⟨0, 0⟩ (fun _ => 0) fun _ => 0).start blockerFirst
    (fun _ s => s.owner .f2 = some .blocker ∧
      s.thread .blocker = .asleep .wakeComplete (.blocker (.storeWait (.ok 0))) ∧
      s.thread .waker = .queued (.pi .f2) (.signal (.load 0 0)) none) (by decide +kernel)
  exact ⟨s, run.reachable, owner, ⟨_, asleep⟩, _, _, queued⟩

end RequeuePi
