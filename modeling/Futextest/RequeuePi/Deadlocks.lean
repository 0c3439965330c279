import Futextest.RequeuePi.Bounded

/-!
# How the test can hang

Every run of `unit_test` can be continued until nobody can move any more, except by a wait
that returns without a wake. If all its threads could be created it has then returned, or
it hangs in one of three ways: the third party sleeps although the waker has finished, it
sleeps and the waker waits for the futex that it owns, or the waker has left a waiter
without a timeout behind on `f1`.

## Main definitions

* `Hangs` — the three ways

## Main results

* `waitersBlocked_eq` — `waiters_blocked` counts the waiters that have come
* `unitTest_ends_or_hangs` — there are no other ways
-/

namespace RequeuePi

open PiFutex UnitTest

variable {u : UnitTest} {w : List RunEvent} {s s' : RunState} {e : RunEvent}

/-! ## The count of waiters that have come -/

/-- Whether a waiter at this control point has counted itself in `waiters_blocked`. -/
def Loc.blocked : Loc → Bool
  | .waiter .load | .waiter (.count _) => false
  | .waiter _ => true
  | _ => false

/-- What a thread contributes to `waiters_blocked`. -/
def blockedBy (l : Loc) : ℤ := if l.blocked then 1 else 0

theorem blockedBy_nonneg (l : Loc) : 0 ≤ blockedBy l := by
  unfold blockedBy
  split_ifs
  · exact zero_le_one
  · exact le_rfl

theorem keeps_blocked (t : Party) (l : Loc) (mem : Cell → ℤ) :
    (u.program t l).Leads mem fun l' =>
      (u.program t l).cells mem .waitersBlocked + blockedBy l =
        mem .waitersBlocked + blockedBy l' := by
  refine program_cases u (P := fun _ l op => op.Leads mem fun l' =>
    op.cells mem .waitersBlocked + blockedBy l = mem .waitersBlocked + blockedBy l')
    ?_ ?_ ?_ ?_ ?_ (fun _ _ => trivial) t l
  · intro m
    cases m with
    | createBlocker ret | createWaiter ret i | createWaker ret =>
      rw [unitTest]
      rcases create_cases u _ _ with op | op <;> rw [op] <;> rfl
    | exit ret => trivial
    | _ => rfl
  · intro pc
    cases pc with
    | lock | wait expected | unlock ret => exact fun r => rfl
    | exit => trivial
    | _ => rfl
  · intro pc
    refine (broadcast_leads_broadcast pc mem).mono ?_
    rintro l' ⟨pc', rfl⟩
    cases pc <;> rfl
  · intro pc
    refine (signal_leads_signal pc mem).mono ?_
    rintro l' ⟨pc', rfl⟩
    cases pc <;> rfl
  · intro i pc
    cases pc with
    | count old => simp [waiterfn, Op.Leads, blockedBy, Loc.blocked]
    | countWoken r =>
      have same : blockedBy (.waiter (u.afterWait r)) = 1 := by
        unfold UnitTest.afterWait
        split_ifs <;> rfl
      exact congrArg (mem .waitersBlocked + ·) same.symm
    | wait old | lock | unlock => exact fun r => rfl
    | exit => trivial
    | _ => rfl

theorem waitersBlocked_eq (reach : (machine u).Reachable s) :
    s.mem .waitersBlocked = s.counted blockedBy := by
  refine counter_eq (start_ne_queued u) (fun t l mem => keeps_blocked t l mem) ?_ reach
  have none : ∀ t, blockedBy (u.start.loc t) = 0 := by
    intro t
    cases t with
    | waker =>
      change blockedBy (if _ then _ else _) = 0
      split_ifs <;> rfl
    | _ => rfl
  rw [State.counted, Finset.sum_eq_zero fun t _ => none t]
  rfl

/-- If the count is below `THREAD_MAX` some waiter has not come yet. -/
theorem exists_not_blocked (reach : (machine u).Reachable s)
    (few : s.mem .waitersBlocked < threadMax) : ∃ i, (s.loc (.waiter i)).blocked = false := by
  by_contra all
  have come : ∀ i, blockedBy (s.loc (.waiter i)) = 1 := by
    intro i
    have here := (Bool.not_eq_false _).mp fun out => all ⟨i, out⟩
    simp [blockedBy, here]
  have waiters : ∑ i, blockedBy (s.loc (.waiter i)) = threadMax := by simp [come]
  have main := blockedBy_nonneg (s.loc .main)
  have blocker := blockedBy_nonneg (s.loc .blocker)
  have waker := blockedBy_nonneg (s.loc .waker)
  rw [waitersBlocked_eq reach, State.counted, sum_party, waiters] at few
  omega

/-! ## The order of creation -/

/-- The threads before this place are created, when main is at the control point, and the
others are not. -/
def MainPc.place : MainPc → ℕ
  | .clock | .createBlocker _ => 1
  | .reset _ => 2
  | .createWaiter _ i => i + 2
  | .createWaker _ => threadMax + 2
  | _ => threadMax + 3

theorem Party.order_lt (t : Party) : t.order < threadMax + 3 := by
  cases t <;> simp only [Party.order] <;> omega

/-- What main's place says of the other threads. -/
structure Placed (u : UnitTest) (s : RunState) (m : MainPc) : Prop where
  ready : s.thread .main = .ready (.main m)
  born : ∀ t, u.Starts t → t.order < m.place → ∀ l, s.thread t ≠ .unborn l
  unborn : ∀ t ≠ .main, m.place ≤ t.order → ∃ l, s.thread t = .unborn l
  third : ∀ ret p, m = .joinBlocker ret p → u.thirdPartyOwner = true

/-- Main creates the thread of its place, or it comes to no new place but past the blocker
that it does not create. It joins that only if it has created it. -/
structure Advances (u : UnitTest) (m m' : MainPc) : Prop where
  place : (∃ t k, u.unitTest m = .create t k ∧ t ≠ .main ∧ t.order = m.place ∧
      m'.place = m.place + 1) ∨
    (∀ t k, u.unitTest m ≠ .create t k) ∧ m.place ≤ m'.place ∧
      ∀ t, u.Starts t → t.order < m'.place → t.order < m.place
  third : ∀ ret p, m' = .joinBlocker ret p → u.thirdPartyOwner = true

/-- Past the last creation there is no new place. -/
theorem advances_of_last {m m' : MainPc} (none : ∀ t k, u.unitTest m ≠ .create t k)
    (here : m.place = threadMax + 3) (there : m'.place = threadMax + 3)
    (third : ∀ ret p, m' = .joinBlocker ret p → u.thirdPartyOwner = true) : Advances u m m' := by
  refine ⟨.inr ⟨none, (here.trans there.symm).le, ?_⟩, third⟩
  intro t _ _
  rw [here]
  exact t.order_lt

/-- Where main goes without a failure. -/
theorem main_advances {m : MainPc} {mem : Cell → ℤ} {x : Status Cell PiWord Loc}
    (fine : u.NoneFails) (third : ∀ ret, m = .createBlocker ret → u.thirdPartyOwner = true)
    (leaves : (u.unitTest m).Leaves mem x) : ∃ m', x = .ready (.main m') ∧ Advances u m m' := by
  have creates : ∀ t m', u.createRtThread t = 0 → u.unitTest m = u.create t m' → t ≠ .main →
      t.order = m.place → m'.place = m.place + 1 → (∀ ret p, m' ≠ .joinBlocker ret p) →
      ∃ m', x = .ready (.main m') ∧ Advances u m m' := by
    intro t m' done op other order next elsewhere
    rw [op] at leaves
    have calls : u.unitTest m = .create t (.main m') := op.trans (if_pos done)
    exact ⟨m', leaves_create done leaves, .inl ⟨t, _, calls, other, order, next⟩,
      fun ret p same => absurd same (elsewhere ret p)⟩
  cases m with
  | createBlocker ret =>
    exact creates .blocker _ (fine .blocker (third ret rfl)) rfl (by simp) rfl rfl (by simp)
  | createWaiter ret i =>
    rcases nextWaiter_cases i (fun j => MainPc.createWaiter ret j) (.createWaker ret) with
      ⟨more, there⟩ | ⟨last, there⟩
    · refine creates (.waiter i) _ (fine (.waiter i) trivial) rfl (by simp) rfl ?_ ?_
      · rw [there]
        simp only [MainPc.place]
      · rw [there]
        simp
    · refine creates (.waiter i) _ (fine (.waiter i) trivial) rfl (by simp) rfl ?_ ?_
      · rw [there]
        simp only [MainPc.place]
        omega
      · rw [there]
        simp
  | createWaker ret =>
    exact creates .waker _ (fine .waker trivial) rfl (by simp) rfl rfl (by simp)
  | clock =>
    cases leaves
    refine ⟨_, rfl, .inr ⟨by simp [unitTest], ?_, ?_⟩, ?_⟩
    · cases u.thirdPartyOwner <;> simp [MainPc.place]
    · intro t starts below
      cases owner : u.thirdPartyOwner with
      | true => simpa [owner, MainPc.place] using below
      | false =>
        -- without `-o` there is no blocker
        cases t with
        | blocker => exact absurd starts (by simp [UnitTest.Starts, owner])
        | main => exact starts.elim
        | waker | waiter i =>
          simp only [owner, Party.order, MainPc.place] at below
          simp at below
    · cases u.thirdPartyOwner <;> simp
  | reset ret =>
    cases leaves
    exact ⟨_, rfl, .inr ⟨by simp [unitTest], le_rfl, fun _ _ below => below⟩, by simp⟩
  | join ret i p null =>
    cases leaves
    rcases nextWaiter_cases i (fun j => MainPc.readRet ret j (if null then p else i))
      (if u.thirdPartyOwner then .joinBlocker ret (if null then p else i)
        else .joinWaker ret (if null then p else i)) with ⟨more, there⟩ | ⟨last, there⟩
    · refine ⟨_, rfl, advances_of_last (by simp [unitTest]) rfl ?_ ?_⟩
      · rw [there]
        rfl
      · rw [there]
        simp
    · refine ⟨_, rfl, advances_of_last (by simp [unitTest]) rfl ?_ ?_⟩
      · rw [there]
        split_ifs <;> rfl
      · rw [there]
        intro ret' p' same
        by_contra two
        rw [if_neg two] at same
        cases same
  | joinWaker ret p =>
    cases leaves
    refine ⟨_, rfl, advances_of_last (by simp [unitTest]) rfl ?_ ?_⟩
    · unfold UnitTest.out
      split_ifs <;> rfl
    · unfold UnitTest.out
      split_ifs <;> simp
  | readRet ret i p | joinBlocker ret p =>
    cases leaves
    exact ⟨_, rfl, advances_of_last (by simp [unitTest]) rfl rfl (by simp)⟩
  | readWaiter p | readWaker | readBlocker =>
    cases leaves
    refine ⟨_, rfl, advances_of_last (by simp [unitTest]) rfl ?_ ?_⟩
    · split_ifs <;> rfl
    · split_ifs <;> simp
  | exit ret => cases leaves

theorem Placed.step {m : MainPc} (reach : (machine u).Reachable s) (placed : Placed u s m)
    (fine : u.NoneFails) (step : Step u.program s e s') : ∃ m', Placed u s' m' := by
  by_cases main : e.thread = .main
  · have here : s.thread e.thread = .ready (.main m) := main ▸ placed.ready
    rcases step.active with ⟨ready, leaves⟩ | ⟨a, asleep, -⟩ | ⟨q, x, queued, -⟩
    · have pc : e.pc = .main m := Status.ready.inj (ready.symm.trans here)
      rw [main, pc] at leaves
      have third : ∀ ret, m = .createBlocker ret → u.thirdPartyOwner = true := by
        rintro ret rfl
        exact third_of_createBlocker reach placed.ready
      obtain ⟨m', goes, advances⟩ := main_advances fine third leaves
      refine ⟨m', goes, ?_, ?_, advances.third⟩
      · intro t starts below l unborn
        rcases advances.place with ⟨v, k, op, -, order, next⟩ | ⟨-, -, same⟩
        · by_cases new : t = v
          · have creates : u.program e.thread e.pc = .create t k := by
              rw [main, pc, new]
              exact op
            obtain ⟨l', -, runs⟩ := step.of_create ready creates
            rw [unborn] at runs
            cases runs
          · have distinct : t.order ≠ v.order := fun same => new (Party.order_injective same)
            exact placed.born t starts (by omega) l (step.unborn_before unborn)
        · exact placed.born t starts (same t starts below) l (step.unborn_before unborn)
      · intro t other above
        have le : m.place ≤ m'.place := by
          rcases advances.place with ⟨v, k, -, -, -, next⟩ | ⟨-, le, -⟩ <;> omega
        obtain ⟨l, unborn⟩ := placed.unborn t other (le.trans above)
        rcases step.unborn_or_created unborn with still | ⟨-, k, creates⟩
        · exact ⟨l, still⟩
        · -- it is not the thread that main creates here
          rw [main, pc] at creates
          rcases advances.place with ⟨v, k', op, -, order, next⟩ | ⟨none, -⟩
          · obtain ⟨rfl, -⟩ := Op.create.inj (op.symm.trans creates)
            omega
          · exact absurd creates (none t k)
    · rw [here] at asleep
      cases asleep
    · rw [here] at queued
      cases queued
  · have passive := step.passive (Ne.symm main)
    rw [placed.ready] at passive
    refine ⟨m, ?_, ?_, ?_, placed.third⟩
    · generalize s'.thread .main = y at passive
      cases passive with
      | same _ _ => rfl
    · intro t starts below l unborn
      exact placed.born t starts below l (step.unborn_before unborn)
    · intro t other above
      obtain ⟨l, unborn⟩ := placed.unborn t other above
      rcases step.unborn_or_created unborn with still | ⟨-, k, creates⟩
      · exact ⟨l, still⟩
      · exact absurd (program_create creates).1 main

theorem exists_placed (fine : u.NoneFails) (reach : (machine u).Reachable s) :
    ∃ m, Placed u s m := by
  have inv : (machine u).Invariant fun s => ∃ m, Placed u s m := by
    constructor
    · rintro s rfl
      refine ⟨.clock, rfl, ?_, ?_, by simp⟩
      · intro t starts below
        exact absurd starts (by cases t <;> simp [UnitTest.Starts, Party.order, MainPc.place] at *)
      · intro t other _
        cases t with
        | main => exact absurd rfl other
        | _ => exact ⟨_, rfl⟩
    · rintro s e s' reach ⟨m, placed⟩ step
      exact placed.step reach fine step
  exact inv.of_reachable reach

/-! ## Who can still move -/

/-- Whether a step counts: it is no early poll, and no return of a wait that nobody woke. -/
def counts (e : RunEvent) : Bool := !polls e && !e.resumes

/-- Only an early poll does not count. -/
theorem early_of_not_counts {t : Party} {l : Loc} {mem : Cell → ℤ} {access : Access Cell PiWord Party}
    (shows : (u.program t l).Shows mem access) (idle : counts ⟨t, l, access⟩ = false) :
    (∃ k, u.program t l = .load .waitersBlocked k) ∧ mem .waitersBlocked < threadMax := by
  generalize u.program t l = op at shows ⊢
  cases shows with
  | load a k =>
    cases a with
    | waitersBlocked => exact ⟨⟨k, rfl⟩, by simpa [counts, polls, Event.resumes] using idle⟩
    | _ => cases idle
  | _ => cases idle

theorem main_of_join {t v : Party} {l k : Loc} (op : u.program t l = .join v k) : t = .main := by
  revert op
  refine program_cases u (P := fun t _ op => op = .join v k → t = .main) ?_ ?_ ?_ ?_ ?_ ?_ t l
  · intro pc _
    rfl
  · intro pc op
    cases pc <;> cases op
  · intro pc op
    cases pc <;> cases op
  · intro pc op
    cases pc <;> cases op
  · intro i pc op
    cases pc <;> cases op
  · rintro t l ⟨⟩

/-- A waiter stays in its function. -/
theorem waiter_role (reach : (machine u).Reachable s) (i : Fin threadMax) :
    ∃ pc, s.loc (.waiter i) = .waiter pc := by
  have initial : (u.start.thread (.waiter i)).Holds fun l => ∃ pc, l = .waiter pc := ⟨.load, rfl⟩
  refine State.loc_of_holds (loc_invariant initial ?_ reach)
  rintro l mem ⟨pc, rfl⟩
  change (u.waiterfn i pc).Leads mem _
  cases pc with
  | wait old | lock | unlock => exact fun r => ⟨_, rfl⟩
  | exit => trivial
  | _ => exact ⟨_, rfl⟩

/-- A waiter that has not come to its wait is not asleep and not queued. -/
theorem ready_of_not_blocked (reach : (machine u).Reachable s) {i : Fin threadMax}
    (out : (s.loc (.waiter i)).blocked = false) (born : ∀ l, s.thread (.waiter i) ≠ .unborn l) :
    ∃ l, s.thread (.waiter i) = .ready l ∧ (u.program (.waiter i) l).immediate = true ∧
      ∀ k, u.program (.waiter i) l ≠ .load .waitersBlocked k := by
  obtain ⟨pc, here⟩ := waiter_role reach i
  rw [here] at out
  cases there : s.thread (.waiter i) with
  | unborn l => exact absurd there (born l)
  | asleep a l => cases (sleeper_waited reach there).1
  | queued q l x =>
    have same : l = .waiter pc := by simpa [State.loc, there] using here
    rcases queued_waiter reach there with ⟨at_store, -⟩ | ⟨at_unlock, -⟩
    · rw [at_store] at same
      cases same
      cases out
    · rw [at_unlock] at same
      cases same
      cases out
  | ready l =>
    obtain rfl : l = .waiter pc := by simpa [State.loc, there] using here
    refine ⟨_, rfl, ?_, ?_⟩
    · cases pc <;> first | rfl | cases out
    · intro k op
      cases pc <;> cases op

section Stuck

variable (fine : u.NoneFails) (reach : (machine u).Reachable s)
  (stuck : (machine u).Stuck counts s)

include fine reach stuck

/-- A thread that is awake waits for another one or has finished: an early poll shows a
waiter that can go on. -/
theorem waits_of_stuck {t : Party} {l : Loc} (ready : s.thread t = .ready l) :
    (u.program t l).immediate = false := by
  rcases ready_of_stuck stuck ready with waits | ⟨access, shows, idle⟩
  · exact waits
  · obtain ⟨⟨k, op⟩, few⟩ := early_of_not_counts shows idle
    obtain ⟨m, placed⟩ := exists_placed fine reach
    have waker : t = .waker := by
      rcases (program_load_blocked op).1 with rfl | rfl <;> cases t <;> first | rfl | cases op
    subst waker
    -- main creates the waker last
    have last : Party.waker.order < m.place := by
      by_contra early
      obtain ⟨l', unborn⟩ := placed.unborn .waker (by simp) (not_lt.mp early)
      rw [ready] at unborn
      cases unborn
    obtain ⟨i, out⟩ := exists_not_blocked reach few
    have before : (Party.waiter i).order < Party.waker.order := by
      simp only [Party.order]
      omega
    obtain ⟨l', awake, goes, other⟩ :=
      ready_of_not_blocked reach out (placed.born (.waiter i) trivial (before.trans last))
    rcases ready_of_stuck stuck awake with waits | ⟨access', shows', idle'⟩
    · rw [goes] at waits
      cases waits
    · obtain ⟨⟨k', op'⟩, -⟩ := early_of_not_counts shows' idle'
      exact absurd op' (other k')

/-- Every thread but main that is awake has finished. -/
theorem finished_of_ready {t : Party} {l : Loc} (other : t ≠ .main)
    (ready : s.thread t = .ready l) : s.finished u.program t = true := by
  refine State.finished_iff.mpr ⟨l, ready, ?_⟩
  have waits := waits_of_stuck fine reach stuck ready
  generalize op : u.program t l = o at waits ⊢
  cases o with
  | exit => rfl
  | create v k => exact absurd (program_create op).1 other
  | join v k => exact absurd (main_of_join op) other
  | _ => cases waits

omit fine reach in
/-- Whoever is queued has no timeout. -/
theorem untimed_of_stuck {t : Party} {q : Queue Cell PiWord} {l : Loc} {x : Option Loc}
    (queued : s.thread t = .queued q l x) : x = none := by
  cases x with
  | none => rfl
  | some l' => cases stuck _ _ (.expire queued)

omit fine reach stuck in
/-- A thread that owns `f2` has something to do before it ends. -/
theorem immediate_of_has {t : Party} {l : Loc} (has : u.has t l) :
    (u.program t l).immediate = true := by
  cases t with
  | main => exact has.elim
  | blocker =>
    cases l with
    | blocker pc => cases pc <;> first | rfl | exact has.elim
    | _ => exact has.elim
  | waker =>
    cases l with
    | broadcast pc | signal pc => cases pc <;> first | rfl | exact has.elim
    | _ => exact has.elim
  | waiter i =>
    cases l with
    | waiter pc => cases pc <;> first | rfl | exact has.elim
    | _ => exact has.elim

/-- If anybody owns `f2` it is the third party, asleep. -/
theorem owner_of_stuck {t : Party} (owner : s.owner .f2 = some t) :
    t = .blocker ∧ ∃ l, s.thread .blocker = .asleep .wakeComplete l := by
  have owned := (f2_discipline u).owned (start_owned u) (start_proper u) reach
  have has := (owned.owner t).mp owner
  cases there : s.thread t with
  | unborn l =>
    rw [there] at has
    exact has.elim
  | ready l =>
    rw [there] at has
    have waits := waits_of_stuck fine reach stuck there
    rw [immediate_of_has has] at waits
    cases waits
  | asleep a l =>
    obtain ⟨rfl, rfl⟩ := sleeper_waited reach there
    exact ⟨rfl, l, there⟩
  | queued q l x =>
    rw [there] at has
    cases q <;> exact absurd rfl has.1

/-- Main has returned, or it joins a thread that has not finished, with all threads
created. -/
theorem main_of_stuck : s.finished u.program .main = true ∨
    ∃ v, u.Starts v ∧ s.finished u.program v = false ∧
      ∀ t, u.Starts t → ∀ l, s.thread t ≠ .unborn l := by
  obtain ⟨m, placed⟩ := exists_placed fine reach
  have waits : (u.unitTest m).immediate = false := waits_of_stuck fine reach stuck placed.ready
  have creates : ∀ t m', u.unitTest m = u.create t m' → t ≠ .main → m.place ≤ t.order → False := by
    intro t m' op other place
    rcases create_cases u t m' with calls | fails
    · obtain ⟨l, unborn⟩ := placed.unborn t other place
      have here : u.program .main (.main m) = .create t (.main m') := op.trans calls
      obtain ⟨s', step⟩ := exists_create placed.ready here unborn
      cases stuck _ _ step
    · rw [op, fails] at waits
      cases waits
  have joins : ∀ v k, u.unitTest m = .join v k → u.Starts v → m.place = threadMax + 3 →
      ∃ v, u.Starts v ∧ s.finished u.program v = false ∧
        ∀ t, u.Starts t → ∀ l, s.thread t ≠ .unborn l := by
    intro v k op starts place
    refine ⟨v, starts, ?_, fun t begins => placed.born t begins (place ▸ t.order_lt)⟩
    rw [Bool.eq_false_iff]
    intro ended
    obtain ⟨s', step⟩ := exists_join placed.ready op ended
    cases stuck _ _ step
  cases m with
  | createBlocker ret => exact (creates .blocker _ rfl (by simp) le_rfl).elim
  | createWaiter ret i => exact (creates (.waiter i) _ rfl (by simp) le_rfl).elim
  | createWaker ret => exact (creates .waker _ rfl (by simp) le_rfl).elim
  | join ret i p null => exact .inr (joins _ _ rfl trivial rfl)
  | joinBlocker ret p => exact .inr (joins _ _ rfl (placed.third ret p rfl) rfl)
  | joinWaker ret p => exact .inr (joins _ _ rfl trivial rfl)
  | exit ret => exact .inl (State.finished_iff.mpr ⟨_, placed.ready, rfl⟩)
  | _ => cases waits

end Stuck

/-! ## The three ways -/

/-- The ways in which the test hangs. -/
inductive Hangs (u : UnitTest) (s : RunState) : Prop
  /-- The waker has finished, and the third party sleeps until it is woken. -/
  | wakeupLost (blocker : ∃ l, s.thread .blocker = .asleep .wakeComplete l)
      (waker : s.finished u.program .waker = true)
  /-- The third party sleeps until the waker wakes it, and owns what the waker waits for. -/
  | mutualWait (wait : MutualWait s)
  /-- The waker has finished, and a waiter without a timeout is left on `f1`. -/
  | stranded (free : s.owner .f2 = none) (waker : s.finished u.program .waker = true)
      (waiter : ∃ i l, s.thread (.waiter i) = .queued (.source .f1 .f2) l none)

/-- The third party sleeps with `f2`. -/
theorem owner_of_asleep (reach : (machine u).Reachable s) {l : Loc}
    (asleep : s.thread .blocker = .asleep .wakeComplete l) : s.owner .f2 = some .blocker := by
  have owned := (f2_discipline u).owned (start_owned u) (start_proper u) reach
  refine (owned.owner .blocker).mpr ?_
  rw [asleep]
  obtain ⟨pc, v, k, op, rfl⟩ := asleep_at_wait (fun t => (start_awake t).1) reach asleep
  cases pc with
  | blocker pc =>
    cases pc <;> cases op
    exact trivial
  | _ => cases op

theorem hangs_of_stuck (fine : u.NoneFails) (reach : (machine u).Reachable s)
    (stuck : (machine u).Stuck counts s) : s.finished u.program .main = true ∨ Hangs u s := by
  rcases main_of_stuck fine reach stuck with ended | ⟨v, starts, unfinished, born⟩
  · exact .inl ended
  right
  have waker_born := born .waker trivial
  by_cases sleeps : ∃ l, s.thread .blocker = .asleep .wakeComplete l
  · obtain ⟨l, asleep⟩ := sleeps
    cases there : s.thread .waker with
    | unborn l' => exact absurd there (waker_born l')
    | ready l' => exact .wakeupLost ⟨l, asleep⟩ (finished_of_ready fine reach stuck (by simp) there)
    | asleep a l' => cases (sleeper_waited reach there).1
    | queued q l' x =>
      cases q with
      | source a p =>
        obtain ⟨⟨i, waiter⟩, -⟩ := queued_source reach there
        cases waiter
      | pi p => exact .mutualWait ⟨owner_of_asleep reach asleep, ⟨l, asleep⟩, l', x, there⟩
  · -- nobody owns `f2`, so that nobody queues for it
    have free : s.owner .f2 = none := by
      cases owner : s.owner .f2 with
      | none => rfl
      | some t => exact absurd (owner_of_stuck fine reach stuck owner).2 sleeps
    have attended : s.Attended := attended_of_reachable
      (fun t p l x queued => absurd queued (start_ne_queued u t _ l x)) reach
    have settled : ∀ t, u.Starts t → s.finished u.program t = true ∨
        ∃ i l, s.thread (.waiter i) = .queued (.source .f1 .f2) l none ∧ t = .waiter i := by
      intro t begins
      have other : t ≠ .main := by
        rintro rfl
        exact begins
      cases there : s.thread t with
      | unborn l => exact absurd there (born t begins l)
      | ready l => exact .inl (finished_of_ready fine reach stuck other there)
      | asleep a l =>
        obtain ⟨rfl, rfl⟩ := sleeper_waited reach there
        exact absurd ⟨l, there⟩ sleeps
      | queued q l x =>
        obtain rfl := untimed_of_stuck stuck there
        cases q with
        | pi p => exact absurd free (attended t p l none there)
        | source a p =>
          obtain ⟨⟨i, rfl⟩, rfl⟩ := queued_source reach there
          exact .inr ⟨i, l, there, rfl⟩
    have waker : s.finished u.program .waker = true := by
      rcases settled .waker trivial with ended | ⟨i, l, -, waiter⟩
      · exact ended
      · cases waiter
    rcases settled v starts with ended | ⟨i, l, queued, -⟩
    · rw [ended] at unfinished
      cases unfinished
    · exact .stranded free waker ⟨i, l, queued⟩

/-- Main has returned where its program ends. -/
theorem exit_of_exits {m : MainPc} (exits : u.unitTest m = .exit) : ∃ v, m = .exit v := by
  cases m with
  | exit v => exact ⟨v, rfl⟩
  | createBlocker ret | createWaiter ret i | createWaker ret =>
    change u.create _ _ = .exit at exits
    unfold UnitTest.create at exits
    split_ifs at exits
  | _ => cases exits

/-- Main has finished where it has returned a value. -/
theorem exists_exit (fine : u.NoneFails) (reach : (machine u).Reachable s)
    (ended : s.finished u.program .main = true) :
    ∃ v, s.thread .main = .ready (.main (.exit v)) := by
  obtain ⟨m, placed⟩ := exists_placed fine reach
  obtain ⟨l, ready, exits⟩ := State.finished_iff.mp ended
  obtain rfl := Status.ready.inj (placed.ready.symm.trans ready)
  obtain ⟨v, rfl⟩ := exit_of_exits exits
  exact ⟨v, ready⟩

/-- While it hangs, main has not returned, and it takes a third party or waiters without a
timeout. -/
theorem Hangs.unfinished (fine : u.NoneFails) (reach : (machine u).Reachable s)
    (hangs : Hangs u s) : s.finished u.program .main = false ∧
      (u.thirdPartyOwner = true ∨ u.timed = false) := by
  -- a thread that waits has not finished, and main would have joined it
  have waits : ∀ t, u.Starts t → s.finished u.program t = false →
      s.finished u.program .main = false := by
    intro t starts unfinished
    obtain ⟨m, inv⟩ := exists_mainInv fine reach
    by_contra ended
    obtain ⟨l, ready, exits⟩ := State.finished_iff.mp ((Bool.not_eq_false _).mp ended)
    obtain rfl := Status.ready.inj (inv.ready.symm.trans ready)
    obtain ⟨v, rfl⟩ := exit_of_exits exits
    rw [inv.joined t starts rfl] at unfinished
    cases unfinished
  have blocker : (∃ l, s.thread .blocker = .asleep .wakeComplete l) →
      s.finished u.program .main = false ∧ (u.thirdPartyOwner = true ∨ u.timed = false) := by
    rintro ⟨l, asleep⟩
    have starts : u.Starts .blocker := starts_of_born reach (by simp) (by simp [asleep])
    exact ⟨waits .blocker starts (by simp [State.finished, asleep]), .inl starts⟩
  cases hangs with
  | wakeupLost asleep _ => exact blocker asleep
  | mutualWait wait => exact blocker wait.2.1
  | stranded _ _ left =>
    obtain ⟨i, l, queued⟩ := left
    refine ⟨waits (.waiter i) trivial (by simp [State.finished, queued]), .inr ?_⟩
    have waiting := queuedBy (start_ne_queued u) reach queued
    generalize expires : (none : Option Loc) = x at waiting
    cases waiting with
    | wait pc a v p timeout k op accepted =>
      rw [← u.timeout_eq_never_iff, ← (program_waitRequeuePi op).2.2.1]
      cases timeout with
      | never => rfl
      | valid => cases expires
      | invalid => exact absurd rfl accepted

/-- Whatever has happened so far, a run can be continued until nobody can move except by a
wait that returns by itself. -/
theorem exists_last (fine : u.NoneFails) (run : (machine u).Run w s) :
    ∃ w' t, (machine u).Run (w ++ w') t ∧ (machine u).Later s t ∧ (∀ e ∈ w', e.resumes = false) ∧
      (machine u).Stuck (fun e => !e.resumes) t ∧
      (t.finished u.program .main = true ∨ Hangs u t) := by
  have bounded : (machine u).Bounded counts (2 * (maxOps + 127)) 0 :=
    (unitTest_bounded u).mono (fun e counted => (Bool.and_eq_true_iff.mp counted).1) le_rfl
  obtain ⟨w', t, further, later, counted, stuck⟩ := bounded.exists_later_stuck run
  refine ⟨w', t, further, later, ?_, ?_, hangs_of_stuck fine further.reachable stuck⟩
  · intro e member
    simpa using (Bool.and_eq_true_iff.mp (counted e member)).2
  · intro e t' step
    have idle := stuck e t' step
    cases resumed : e.resumes with
    | true => simp [resumed]
    | false =>
      -- a poll would be left to a waker that is awake
      have poll : polls e = true := by simpa [counts, resumed] using idle
      obtain ⟨blocked, access, -⟩ := load_of_polls poll
      obtain ⟨ready, -, k, op⟩ := Step.loads step access
      have waits := waits_of_stuck fine further.reachable stuck ready
      rw [op] at waits
      cases waits

/-- **How the test ends.** If its threads can be created, a run of `unit_test` has a bounded
number of steps besides early polls, and whatever has happened so far, it can be continued
without a wait that returns by itself until nobody can move except so. Then it has returned,
or it hangs in one of three ways, for which it needs a third party or waiters without a
timeout. -/
theorem unitTest_ends_or_hangs (u : UnitTest) (fine : u.NoneFails) :
    (machine u).Bounded (fun e => !polls e) (2 * (maxOps + 127)) 0 ∧
    (∀ w s, (machine u).Run w s → ∃ w' t, (machine u).Run (w ++ w') t ∧
      (∀ e ∈ w', e.resumes = false) ∧ (machine u).Stuck (fun e => !e.resumes) t ∧
      (t.finished u.program .main = true ∨ Hangs u t)) ∧
    ∀ s, (machine u).Reachable s → Hangs u s → s.finished u.program .main = false ∧
      (u.thirdPartyOwner = true ∨ u.timed = false) := by
  refine ⟨unitTest_bounded u, ?_, fun _ reach hangs => hangs.unfinished fine reach⟩
  intro w s run
  obtain ⟨w', t, further, -, rest⟩ := exists_last fine run
  exact ⟨w', t, further, rest⟩

/-- With a timeout and without a third party nothing is left but to return. -/
theorem unitTest_ends_timed : ∃ w t, (machine (unitTestWith true true false 5000)).Run w t ∧
    t.finished (unitTestWith true true false 5000).program .main = true := by
  obtain ⟨-, ends, hanging⟩ :=
    unitTest_ends_or_hangs (unitTestWith true true false 5000) fun _ _ => rfl
  obtain ⟨w, t, run, -, -, ended | hangs⟩ := ends [] _ (.start rfl)
  · exact ⟨w, t, run, ended⟩
  · obtain ⟨-, third | untimed⟩ := hanging t run.reachable hangs
    · cases third
    · cases untimed

end RequeuePi
