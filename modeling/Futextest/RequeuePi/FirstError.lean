import Futextest.RequeuePi.Verdict

/-!
# The first error is the verdict

The last part of `unit_test`, for any number of waiters: it joins them one by one, keeps
`waiter_ret` at the first nonzero result, and combines that with the results of the waker
and of the blocker. While main does so the other threads may write anything to their
`ret` at any moment, until they have finished.

Main's first reading, of `args[0].ret`, may come before anybody has written it. It does
not matter: whatever it is, `waiter_ret` points to `args[0].ret` after the first join.

## Main definitions

* `Collect`, `Collect.system` — main and its threads, as a transition system
* `Collect.verdict` — the first of the results that counts
* `collectOf` — a state of the test, seen as one of this system

## Main results

* `Collect.collects`, `Collect.returns` — main finds the first error, and it returns once
  the threads have finished
* `reachable_of_run` — in every run of the test in which all threads are created main and
  the threads take steps of this system
* `verdict_is_first_error` — so that the verdict of the test is the first error
-/

namespace RequeuePi

/-- The threads that main joins, with `n` waiters. -/
inductive Worker (n : ℕ)
  | waiter (i : Fin n)
  | blocker
  | waker
  deriving DecidableEq

/-- Where main is in `unit_test`, from its first `*waiter_ret`. `waiterRet` is the index
that `waiter_ret` points to. -/
inductive CollectPc (n : ℕ)
  /-- The argument `*waiter_ret ? NULL : (void **)&waiter_ret` of `pthread_join`. -/
  | readRet (i waiterRet : Fin n)
  /-- `pthread_join(waiter[i], …);` -/
  | join (i waiterRet : Fin n) (null : Bool)
  /-- `pthread_join(blocker, NULL);` -/
  | joinBlocker (waiterRet : Fin n)
  /-- `pthread_join(waker, NULL);` -/
  | joinWaker (waiterRet : Fin n)
  /-- `if (*waiter_ret) ret = *waiter_ret;` -/
  | readWaiter (waiterRet : Fin n)
  /-- `else if (waker_arg.ret < 0) ret = waker_arg.ret;` -/
  | readWaker
  /-- `else if (blocker_arg.ret) ret = blocker_arg.ret;` -/
  | readBlocker
  | exit (ret : ℤ)

/-- Main, the `ret` of each thread, and which threads have finished. -/
structure Collect (n : ℕ) where
  pc : CollectPc n
  ret : Worker n → ℤ
  done : Worker n → Bool

namespace Collect

variable {n : ℕ} {third : Bool} {s s' : Collect n}

/-- Where main goes next; a join waits until its thread has finished. With a third party
there is a blocker. -/
def next (third : Bool) (s : Collect n) : Option (CollectPc n) :=
  match s.pc with
  | .readRet i waiterRet => some (.join i waiterRet (s.ret (.waiter waiterRet) ≠ 0))
  | .join i waiterRet null =>
      -- unless it is given `NULL`, the join stores `&args[i].ret` in `waiter_ret`
      let first := if null then waiterRet else i
      if s.done (.waiter i) then
        some (if more : i.val + 1 < n then .readRet ⟨i + 1, more⟩ first
          else if third then .joinBlocker first else .joinWaker first)
      else none
  | .joinBlocker waiterRet => if s.done .blocker then some (.joinWaker waiterRet) else none
  | .joinWaker waiterRet => if s.done .waker then some (.readWaiter waiterRet) else none
  | .readWaiter waiterRet =>
      let value := s.ret (.waiter waiterRet)
      some (if value ≠ 0 then .exit value else .readWaker)
  | .readWaker => some (if s.ret .waker < 0 then .exit (s.ret .waker) else .readBlocker)
  | .readBlocker => some (if s.ret .blocker ≠ 0 then .exit (s.ret .blocker) else .exit retPass)
  | .exit _ => none

/-- The next operation of main, or one of a thread that has not finished: it writes
anything to its `ret`, and may finish. Without a third party there is no blocker. -/
inductive Step (third : Bool) (s : Collect n) : Option (Worker n) → Collect n → Prop
  | main {pc : CollectPc n} (goes : s.next third = some pc) : Step third s none { s with pc := pc }
  | work (w : Worker n) (v : ℤ) (last : Bool) (runs : s.done w = false)
      (created : w = .blocker → third = true) :
      Step third s (some w)
        { s with ret := Function.update s.ret w v, done := Function.update s.done w last }

/-- Main is about to read `args[0].ret`, and the `ret` of a thread can be anything. That of
a blocker which is not created is 0. -/
def system (n : ℕ) [NeZero n] (third : Bool) : System (Collect n) (Option (Worker n)) where
  init s := s.pc = .readRet 0 0 ∧ (third = false → s.ret .blocker = 0)
  step := Step third

/-- The results of the waiters, in index order. -/
def waiterRets (s : Collect n) : List ℤ := List.ofFn fun i => s.ret (.waiter i)

/-- The first of the results that counts: that of the first waiter which is not 0, a
negative one of the waker, or that of the blocker. -/
def verdict (s : Collect n) : ℤ :=
  if firstNonzero s.waiterRets ≠ 0 then firstNonzero s.waiterRets
  else if s.ret .waker < 0 then s.ret .waker
  else if s.ret .blocker ≠ 0 then s.ret .blocker
  else retPass

/-- All threads that main has created have finished. -/
def AllDone (third : Bool) (s : Collect n) : Prop :=
  ∀ w, (w = .blocker → third = true) → s.done w = true

/-- The index that `waiter_ret` points to after the loop over the waiters. -/
def pointer (s : Collect n) : Option (Fin n) :=
  match s.pc with
  | .joinBlocker waiterRet | .joinWaker waiterRet | .readWaiter waiterRet => some waiterRet
  | _ => none

/-- What main has found out: after the loop `*waiter_ret` is the first nonzero result of a
waiter, or 0, and the verdict is the first of all results that counts. It is a pass if
no result counts. -/
structure Collects (third : Bool) (s : Collect n) : Prop where
  pointer : ∀ p, s.pointer = some p → s.ret (.waiter p) = firstNonzero s.waiterRets
  verdict : ∀ v, s.pc = .exit v → s.AllDone third ∧ v = s.verdict
  passes : s.pc = .exit retPass ↔ (∃ v, s.pc = .exit v) ∧ (∀ i, s.ret (.waiter i) = 0) ∧
    0 ≤ s.ret .waker ∧ (third = true → s.ret .blocker = 0)

/-! ## What main has found out -/

/-- The first `k` waiters have finished, and `waiter_ret` has scanned their results. -/
structure Joined (s : Collect n) (k : ℕ) (p : Fin n) : Prop where
  done : ∀ j : Fin n, j.val < k → s.done (.waiter j) = true
  scan : Scan (fun x => x ≠ 0) (fun i => s.ret (.waiter i)) k p

/-- What main has of the threads at each control point. -/
def Phase (third : Bool) (s : Collect n) : CollectPc n → Prop
  | .readRet i p => s.Joined i p
  | .join i p null => s.Joined i p ∧ (0 < i.val → (null = true ↔ s.ret (.waiter p) ≠ 0))
  | .joinBlocker p => third = true ∧ s.Joined n p
  | .joinWaker p => s.Joined n p ∧ (third = true → s.done .blocker = true)
  | .readWaiter p => s.AllDone third ∧ s.Joined n p
  | .readWaker => s.AllDone third ∧ firstNonzero s.waiterRets = 0
  | .readBlocker =>
      s.AllDone third ∧ firstNonzero s.waiterRets = 0 ∧ ¬ s.ret .waker < 0
  | .exit v => s.AllDone third ∧ v = s.verdict

/-- Threads that have finished stay so and keep their results. -/
structure Keeps (third : Bool) (s s' : Collect n) : Prop where
  done : ∀ w, s.done w = true → s'.done w = true
  ret : ∀ w, s.done w = true → s'.ret w = s.ret w
  blocker : third = false → s'.ret .blocker = s.ret .blocker

theorem Joined.keep {k : ℕ} {p : Fin n} (keeps : Keeps third s s') (joined : s.Joined k p) :
    s'.Joined k p where
  done j below := keeps.done _ (joined.done j below)
  scan := joined.scan.congr fun j below => keeps.ret _ (joined.done j below)

theorem AllDone.keep (keeps : Keeps third s s') (all : s.AllDone third) : s'.AllDone third :=
  fun w created => keeps.done w (all w created)

theorem AllDone.waiterRets (keeps : Keeps third s s') (all : s.AllDone third) :
    s'.waiterRets = s.waiterRets := by
  unfold Collect.waiterRets
  congr 1
  funext i
  exact keeps.ret _ (all _ nofun)

theorem AllDone.blocker (keeps : Keeps third s s') (all : s.AllDone third) :
    s'.ret .blocker = s.ret .blocker := by
  cases third with
  | false => exact keeps.blocker rfl
  | true => exact keeps.ret _ (all _ fun _ => rfl)

/-- The steps of the threads keep what main knows. -/
theorem Phase.keep {pc : CollectPc n} (keeps : Keeps third s s') (phase : s.Phase third pc) :
    s'.Phase third pc := by
  cases pc with
  | readRet i p => exact Joined.keep keeps phase
  | join i p null =>
    obtain ⟨joined, seen⟩ := phase
    refine ⟨joined.keep keeps, ?_⟩
    intro later
    have le := joined.scan.le
    rw [keeps.ret _ (joined.done p (by omega))]
    exact seen later
  | joinBlocker p =>
    obtain ⟨created, joined⟩ := phase
    exact ⟨created, joined.keep keeps⟩
  | joinWaker p =>
    obtain ⟨joined, blocker⟩ := phase
    exact ⟨joined.keep keeps, fun created => keeps.done _ (blocker created)⟩
  | readWaiter p =>
    obtain ⟨all, joined⟩ := phase
    exact ⟨all.keep keeps, joined.keep keeps⟩
  | readWaker =>
    obtain ⟨all, zero⟩ := phase
    exact ⟨all.keep keeps, (congrArg _ (all.waiterRets keeps)).trans zero⟩
  | readBlocker =>
    obtain ⟨all, zero, waker⟩ := phase
    refine ⟨all.keep keeps, (congrArg _ (all.waiterRets keeps)).trans zero, ?_⟩
    rw [keeps.ret _ (all .waker nofun)]
    exact waker
  | exit v =>
    obtain ⟨all, value⟩ := phase
    refine ⟨all.keep keeps, ?_⟩
    rw [value, verdict, verdict, all.waiterRets keeps, all.blocker keeps,
      keeps.ret _ (all .waker nofun)]

theorem keeps_of_work (w : Worker n) (v : ℤ) (last : Bool) (runs : s.done w = false)
    (created : w = .blocker → third = true) :
    Keeps third s
      { s with ret := Function.update s.ret w v, done := Function.update s.done w last } := by
  have other : ∀ w', s.done w' = true → w' ≠ w := by
    rintro w' done rfl
    rw [runs] at done
    cases done
  refine ⟨?_, ?_, ?_⟩
  · intro w' done
    exact (Function.update_of_ne (other w' done) _ _).trans done
  · intro w' done
    exact Function.update_of_ne (other w' done) _ _
  · intro two
    refine Function.update_of_ne ?_ _ _
    rintro rfl
    rw [created rfl] at two
    cases two

theorem keeps_of_main (pc : CollectPc n) : Keeps third s { s with pc := pc } :=
  ⟨fun _ done => done, fun _ _ => rfl, fun _ => rfl⟩

/-- A join adds one thread to those that have finished. -/
theorem Joined.next {i p : Fin n} {null : Bool} (joined : s.Joined i p)
    (seen : 0 < i.val → (null = true ↔ s.ret (.waiter p) ≠ 0))
    (ended : s.done (.waiter i) = true) : s.Joined (i + 1) (if null then p else i) where
  done j below := by
    rcases Nat.lt_or_eq_of_le (Nat.le_of_lt_succ below) with before | now
    · exact joined.done j before
    · rw [Fin.ext now]
      exact ended
  scan := joined.scan.next seen

/-- After the last join all threads have finished. -/
theorem Joined.allDone {p : Fin n} (joined : s.Joined n p)
    (blocker : third = true → s.done .blocker = true) (waker : s.done .waker = true) :
    s.AllDone third := by
  intro w created
  cases w with
  | waiter i => exact joined.done i i.isLt
  | blocker => exact blocker (created rfl)
  | waker => exact waker

theorem Joined.eq_firstNonzero {p : Fin n} (joined : s.Joined n p) :
    s.ret (.waiter p) = firstNonzero s.waiterRets :=
  joined.scan.eq_firstNonzero

/-- Main goes on to what its phase allows. -/
theorem Phase.next {pc : CollectPc n} (phase : s.Phase third s.pc)
    (goes : s.next third = some pc) : s.Phase third pc := by
  unfold Collect.next at goes
  generalize s.pc = here at phase goes
  cases here with
  | readRet i p =>
    cases goes
    exact ⟨phase, fun _ => decide_eq_true_iff⟩
  | join i p null =>
    obtain ⟨joined, seen⟩ := phase
    dsimp only at goes
    split at goes
    · rename_i ended
      have further := joined.next seen ended
      generalize (if null = true then p else i) = first at goes further
      by_cases more : i.val + 1 < n
      · rw [dif_pos more] at goes
        cases goes
        exact further
      · -- the last pass has joined all waiters
        rw [dif_neg more] at goes
        rw [show i.val + 1 = n by omega] at further
        cases goes
        split_ifs with created
        · exact ⟨created, further⟩
        · exact ⟨further, fun third => absurd third created⟩
    · cases goes
  | joinBlocker p =>
    obtain ⟨created, joined⟩ := phase
    obtain ⟨ended, goes⟩ := Option.ite_none_right_eq_some.mp goes
    cases goes
    exact ⟨joined, fun _ => ended⟩
  | joinWaker p =>
    obtain ⟨joined, blocker⟩ := phase
    obtain ⟨ended, goes⟩ := Option.ite_none_right_eq_some.mp goes
    cases goes
    exact ⟨joined.allDone blocker ended, joined⟩
  | readWaiter p =>
    obtain ⟨all, joined⟩ := phase
    have found := joined.eq_firstNonzero
    cases goes
    split_ifs with nonzero
    · refine ⟨all, ?_⟩
      rw [verdict, ← found, if_pos nonzero]
    · exact ⟨all, found.symm.trans (not_not.mp nonzero)⟩
  | readWaker =>
    obtain ⟨all, zero⟩ := phase
    cases goes
    split_ifs with negative
    · refine ⟨all, ?_⟩
      rw [verdict, if_neg (not_not.mpr zero), if_pos negative]
    · exact ⟨all, zero, negative⟩
  | readBlocker =>
    obtain ⟨all, zero, positive⟩ := phase
    cases goes
    split_ifs with nonzero <;> refine ⟨all, ?_⟩
    · rw [verdict, if_neg (not_not.mpr zero), if_neg positive, if_pos nonzero]
    · rw [verdict, if_neg (not_not.mpr zero), if_neg positive, if_neg nonzero]
  | exit v => cases goes

/-- What every run has of main and of a blocker that is not created. -/
structure Inv (third : Bool) (s : Collect n) : Prop where
  phase : s.Phase third s.pc
  blocker : third = false → s.ret .blocker = 0

theorem invariant [NeZero n] : (system n third).Invariant (Inv third) where
  initial := by
    rintro s ⟨first, blocker⟩
    refine ⟨?_, blocker⟩
    rw [first]
    exact ⟨nofun, Scan.start rfl⟩
  step := by
    intro s a s' _ inv step
    cases step with
    | main goes => exact ⟨(inv.phase.next goes).keep (keeps_of_main _), inv.blocker⟩
    | work w v last runs created =>
      have keeps : Keeps third s _ := keeps_of_work w v last runs created
      exact ⟨inv.phase.keep keeps, fun two => (keeps.blocker two).trans (inv.blocker two)⟩

/-! ## The verdict -/

theorem verdict_eq_retPass_iff : s.verdict = retPass ↔
    (∀ i, s.ret (.waiter i) = 0) ∧ 0 ≤ s.ret .waker ∧ s.ret .blocker = 0 := by
  have waiters : firstNonzero s.waiterRets = 0 ↔ ∀ i, s.ret (.waiter i) = 0 := by
    rw [firstNonzero_eq_zero_iff, waiterRets, List.forall_mem_ofFn_iff]
  rw [← waiters]
  unfold verdict retPass
  split_ifs with nonzero negative some
  · exact iff_of_false nonzero fun all => nonzero all.1
  · exact iff_of_false (by omega) fun all => absurd all.2.1 (not_le.mpr negative)
  · exact iff_of_false some fun all => some all.2.2
  · exact iff_of_true rfl ⟨not_not.mp nonzero, not_lt.mp negative, not_not.mp some⟩

theorem Inv.collects (inv : Inv third s) : s.Collects third := by
  have phase := inv.phase
  refine ⟨?_, ?_, ?_⟩
  · intro p points
    unfold Collect.pointer at points
    generalize s.pc = here at points phase
    cases here with
    | joinBlocker q =>
      cases points
      exact phase.2.eq_firstNonzero
    | joinWaker q =>
      cases points
      exact phase.1.eq_firstNonzero
    | readWaiter q =>
      cases points
      exact phase.2.eq_firstNonzero
    | _ => cases points
  · intro v here
    rw [here] at phase
    exact phase
  · constructor
    · intro here
      rw [here] at phase
      obtain ⟨waiters, waker, blocker⟩ := verdict_eq_retPass_iff.mp phase.2.symm
      exact ⟨⟨_, here⟩, waiters, waker, fun _ => blocker⟩
    · rintro ⟨⟨v, here⟩, waiters, waker, blocker⟩
      rw [here] at phase
      have none : s.ret .blocker = 0 := by
        cases third with
        | false => exact inv.blocker rfl
        | true => exact blocker rfl
      rw [here, phase.2, verdict_eq_retPass_iff.mpr ⟨waiters, waker, none⟩]

/-- Main finds the first error, whatever it reads at first. -/
theorem collects [NeZero n] (reach : (system n third).Reachable s) : s.Collects third :=
  (invariant.of_reachable reach).collects

/-! ## Main returns -/

/-- How many steps main takes at most. -/
def rank : CollectPc n → ℕ
  | .readRet i _ => 2 * (n - i) + 5
  | .join i _ _ => 2 * (n - i) + 4
  | .joinBlocker _ => 5
  | .joinWaker _ => 4
  | .readWaiter _ => 3
  | .readWaker => 2
  | .readBlocker => 1
  | .exit _ => 0

/-- Unless main has returned it can go on, if all threads have finished. -/
theorem Phase.exists_next (phase : s.Phase third s.pc) (all : s.AllDone third) :
    (∃ v, s.pc = .exit v) ∨ ∃ pc, s.next third = some pc ∧ rank pc < rank s.pc := by
  unfold Collect.next
  generalize s.pc = here at phase
  cases here with
  | readRet i p => exact .inr ⟨_, rfl, by simp only [rank]; omega⟩
  | join i p null =>
    refine .inr ⟨_, if_pos (all (.waiter i) nofun), ?_⟩
    have bound := i.isLt
    split_ifs <;> simp only [rank] <;> omega
  | joinBlocker p => exact .inr ⟨_, if_pos (all .blocker fun _ => phase.1), Nat.lt_succ_self 4⟩
  | joinWaker p => exact .inr ⟨_, if_pos (all .waker nofun), Nat.lt_succ_self 3⟩
  | readWaiter p =>
    refine .inr ⟨_, rfl, ?_⟩
    split_ifs <;> simp only [rank] <;> omega
  | readWaker =>
    refine .inr ⟨_, rfl, ?_⟩
    split_ifs <;> simp only [rank] <;> omega
  | readBlocker =>
    refine .inr ⟨_, rfl, ?_⟩
    split_ifs <;> simp only [rank] <;> omega
  | exit v => exact .inl ⟨v, rfl⟩

/-- What holds once main has returned, and is carried back over its steps, holds as soon as
all threads have finished. -/
theorem Inv.finish {Q : Collect n → Prop} (exit : ∀ s v, s.pc = .exit v → Q s)
    (back : ∀ s pc, Inv third s → s.AllDone third → s.next third = some pc →
      Q { s with pc := pc } → Q s) (inv : Inv third s) (all : s.AllDone third) : Q s := by
  -- by induction on the number of steps that are left
  induction left : rank s.pc using Nat.strong_induction_on generalizing s with
  | _ k ih =>
    rcases inv.phase.exists_next all with ⟨v, here⟩ | ⟨pc, goes, less⟩
    · exact exit s v here
    · refine back s pc inv all goes (ih _ (left ▸ less) ?_ all rfl)
      exact ⟨(inv.phase.next goes).keep (keeps_of_main pc), inv.blocker⟩

/-- Main returns once all threads have finished. -/
theorem returns [NeZero n] (reach : (system n third).Reachable s) (all : s.AllDone third) :
    ∃ s' v, (system n third).Later s s' ∧ s'.pc = .exit v ∧ s'.ret = s.ret := by
  refine (invariant.of_reachable reach).finish (Q := fun s => ∃ s' v,
    (system n third).Later s s' ∧ s'.pc = .exit v ∧ s'.ret = s.ret) ?_ ?_ all
  · intro s v here
    exact ⟨s, v, .refl, here, rfl⟩
  · rintro s pc - - goes ⟨s', v, later, here, same⟩
    exact ⟨s', v, .head ⟨none, .main goes⟩ later, here, same⟩

end Collect

/-! ## The runs of the test -/

open Syscalls UnitTest

/-- Where main is, once it has created all threads. -/
def MainPc.collect : MainPc → Option (CollectPc threadMax)
  | .readRet _ i waiterRet => some (.readRet i waiterRet)
  | .join _ i waiterRet null => some (.join i waiterRet null)
  | .joinBlocker _ waiterRet => some (.joinBlocker waiterRet)
  | .joinWaker _ waiterRet => some (.joinWaker waiterRet)
  | .readWaiter waiterRet => some (.readWaiter waiterRet)
  | .readWaker => some .readWaker
  | .readBlocker => some .readBlocker
  | .exit ret => some (.exit ret)
  | .clock | .createBlocker _ | .reset _ | .createWaiter _ _ | .createWaker _ => none

/-- The thread of the test. -/
def Worker.party : Worker threadMax → Party
  | .waiter i => .waiter i
  | .blocker => .blocker
  | .waker => .waker

variable {u : UnitTest} {w : List AnyEvent} {mem mem' : Cell → ℤ} {loc : Party → Loc}
  {access : Syscalls.Access Cell FutexCall Party} {l l' : Loc} {m : MainPc}
  {s : Syscalls.State Cell Party Loc Unit}

variable (u) in
/-- A state of the test. While main creates threads it has not collected anything. -/
def collectOf (mem : Cell → ℤ) (loc : Party → Loc) : Collect threadMax where
  pc :=
    match loc .main with
    | .main m => m.collect.getD (.readRet 0 0)
    | _ => .readRet 0 0
  ret t := mem t.party.retCell
  done t := (u.test.program t.party (loc t.party)).isExit

theorem Worker.party_ne_main (t : Worker threadMax) : t.party ≠ .main := by
  cases t <;> nofun

theorem Worker.party_injective : Function.Injective Worker.party := by
  intro t v same
  cases t <;> cases v <;> cases same <;> rfl

/-- Every thread but main is one that main may join. -/
theorem exists_worker {t : Party} (other : t ≠ .main) : ∃ v : Worker threadMax, v.party = t := by
  cases t with
  | main => exact absurd rfl other
  | blocker => exact ⟨.blocker, rfl⟩
  | waker => exact ⟨.waker, rfl⟩
  | waiter i => exact ⟨.waiter i, rfl⟩

theorem collectOf_pc (here : loc .main = .main m) :
    (collectOf u mem loc).pc = m.collect.getD (.readRet 0 0) := by
  unfold collectOf
  rw [here]

/-- Main moves on, and the threads stay as they are. -/
theorem collectOf_main (next : (u.test.program .main (loc .main)).Next u.test.program mem loc
    access mem' (.main m)) :
    collectOf u mem' (Function.update loc .main (.main m)) =
      { collectOf u mem loc with pc := m.collect.getD (.readRet 0 0) } := by
  have ret : ∀ t : Worker threadMax, mem' t.party.retCell = mem t.party.retCell :=
    fun t => retCell_frame t.party_ne_main t.party_ne_main next
  simp [collectOf, ret, Worker.party_ne_main]

/-- A thread moves on, and main and the other threads stay as they are. -/
theorem collectOf_work {t : Worker threadMax} (next : (u.test.program t.party
    (loc t.party)).Next u.test.program mem loc access mem' l') :
    collectOf u mem' (Function.update loc t.party l') =
      { collectOf u mem loc with
        ret := Function.update (collectOf u mem loc).ret t (mem' t.party.retCell)
        done := Function.update (collectOf u mem loc).done t
          (u.test.program t.party l').isExit } := by
  unfold collectOf
  congr 1
  · rw [Function.update_of_ne t.party_ne_main.symm]
  · funext v
    by_cases same : v = t
    · rw [same, Function.update_self]
    · rw [Function.update_of_ne same]
      exact retCell_frame v.party_ne_main (Worker.party_injective.ne same) next
  · funext v
    by_cases same : v = t
    · rw [same, Function.update_self, Function.update_self]
    · rw [Function.update_of_ne same, Function.update_of_ne (Worker.party_injective.ne same)]

theorem firstRet_eq_zero (fine : ¬ u.EarlyError) : u.firstRet = 0 :=
  not_not.mp fun clock => fine (.inl clock)

/-- Without an error main collects nothing before it has created all threads. -/
theorem main_creates (fine : ¬ u.EarlyError) (phase : u.MainPhase mem loc m)
    (early : m.collect = none)
    (next : (u.unitTest m).toSyscalls.Next u.test.program mem loc access mem' l') :
    ∃ m', l' = .main m' ∧ m'.collect.getD (.readRet 0 0) = .readRet 0 0 := by
  cases m with
  | clock =>
    cases next
    refine ⟨_, rfl, ?_⟩
    split_ifs <;> rfl
  | createBlocker ret =>
    obtain ⟨-, ⟨-, -, there⟩ | ⟨error, -⟩⟩ := create_next (t := .blocker) phase.2 next
    · exact ⟨_, there, rfl⟩
    · exact absurd error fine
  | reset ret =>
    cases next
    exact ⟨_, rfl, rfl⟩
  | createWaiter ret i =>
    obtain ⟨-, ⟨-, -, there⟩ | ⟨error, -⟩⟩ := create_next (t := .waiter i) trivial next
    · refine ⟨_, there, ?_⟩
      rcases nextWaiter_cases i (fun j => .createWaiter ret j) (.createWaker ret) with
        ⟨more, pass⟩ | ⟨last, past⟩
      · rw [pass]
        rfl
      · rw [past]
        rfl
    · exact absurd error fine
  | createWaker ret =>
    obtain ⟨-, ⟨-, -, there⟩ | ⟨error, -⟩⟩ := create_next (t := .waker) trivial next
    · exact ⟨_, there, rfl⟩
    · exact absurd error fine
  | _ => cases early

/-- After that it takes the steps of `Collect`. -/
theorem main_collects (fine : ¬ u.EarlyError) (here : loc .main = .main m)
    (phase : u.MainPhase mem loc m) {pc : CollectPc threadMax} (late : m.collect = some pc)
    (next : (u.unitTest m).toSyscalls.Next u.test.program mem loc access mem' l') :
    ∃ m' pc', l' = .main m' ∧ m'.collect = some pc' ∧
      (collectOf u mem loc).next u.thirdPartyOwner = some pc' := by
  have at_pc : (collectOf u mem loc).pc = pc := by
    rw [collectOf_pc here, late]
    rfl
  unfold Collect.next
  rw [at_pc]
  cases m with
  | readRet ret i p =>
    cases late
    cases next
    exact ⟨_, _, rfl, rfl, rfl⟩
  | join ret i p null =>
    cases late
    cases next with
    | join v k ended =>
      refine ⟨_, _, rfl, ?_, if_pos (Op.isExit_iff.mpr ended)⟩
      unfold nextWaiter
      split_ifs <;> rfl
  | joinBlocker ret p =>
    cases late
    cases next with
    | join v k ended => exact ⟨_, _, rfl, rfl, if_pos (Op.isExit_iff.mpr ended)⟩
  | joinWaker ret p =>
    cases late
    obtain ⟨first, -⟩ := phase
    cases next with
    | join v k ended =>
      refine ⟨_, _, rfl, ?_, if_pos (Op.isExit_iff.mpr ended)⟩
      rw [UnitTest.out, if_pos (first.trans (firstRet_eq_zero fine))]
      rfl
  | readWaiter p =>
    cases late
    cases next
    exact ⟨_, _, rfl, (apply_ite MainPc.collect _ _ _).trans (apply_ite some _ _ _).symm, rfl⟩
  | readWaker =>
    cases late
    cases next
    exact ⟨_, _, rfl, (apply_ite MainPc.collect _ _ _).trans (apply_ite some _ _ _).symm, rfl⟩
  | readBlocker =>
    cases late
    cases next
    exact ⟨_, _, rfl, (apply_ite MainPc.collect _ _ _).trans (apply_ite some _ _ _).symm, rfl⟩
  | exit v => cases next
  | _ => cases late

/-- Every run of the test in which all threads are created is one of `Collect.system`. -/
theorem reachable_of_run (fine : ¬ u.EarlyError) (run : u.test.anyMachine.Run w s) :
    (Collect.system threadMax u.thirdPartyOwner).Reachable (collectOf u s.mem s.loc) := by
  refine (FunctionalTest.run_induction u.test (P := fun w mem loc => u.Inv w mem loc ∧
    (Collect.system threadMax u.thirdPartyOwner).Reachable (collectOf u mem loc)) ?_ ?_ ?_ run).2
  · exact ⟨.start, [], .start ⟨rfl, fun _ => rfl⟩⟩
  · rintro w mem loc t c k op ⟨inv, reach⟩
    exact ⟨inv.enter op, reach⟩
  · rintro w mem loc t access mem' l born ⟨inv, reach⟩ next
    refine ⟨inv.next born next, ?_⟩
    by_cases main : t = .main
    · subst main
      obtain ⟨m, here⟩ := inv.main_loc
      have phase := inv.main m here
      have own := main_next here next
      cases at_pc : m.collect with
      | none =>
        -- main is where it was, for those who look at what it has collected
        obtain ⟨m', rfl, still⟩ := main_creates fine phase at_pc own
        have first : (collectOf u mem loc).pc = .readRet 0 0 := by
          rw [collectOf_pc here, at_pc]
          rfl
        rw [collectOf_main next, still, ← first]
        exact reach
      | some pc =>
        obtain ⟨m', pc', rfl, there, goes⟩ := main_collects fine here phase at_pc own
        rw [collectOf_main next, there]
        exact reach.next (.main goes)
    · obtain ⟨v, rfl⟩ := exists_worker main
      rw [collectOf_work next]
      refine reach.next (.work v _ _ ?_ ?_)
      · -- the thread goes on, so that it has not finished
        refine Bool.eq_false_iff.mpr fun ended => ?_
        have finished : u.Finished loc v.party := Op.isExit_iff.mp ended
        exact finished.ne next rfl
      · rintro rfl
        exact inv.live born rfl

/-! ## The test returns -/

/-- All threads that main creates have finished. -/
def AllFinished (u : UnitTest) (s : Syscalls.State Cell Party Loc Unit) : Prop :=
  ∀ t, u.Starts t → s.finished u.test.program t = true

theorem main_ready (run : u.test.anyMachine.Run w s) :
    ∃ m, s.thread .main = .ready (.main m) := by
  refine run.induction (P := fun _ s => ∃ m, s.thread .main = .ready (.main m)) ?_ ?_
  · rintro s rfl
    exact ⟨_, rfl⟩
  · rintro w s e s' before ⟨m, ready⟩ step
    obtain ⟨m', there⟩ := (Inv.run (before.next step)).main_loc
    by_cases own : e.thread = .main
    · rcases Step.own step with ⟨-, same, -⟩ | ⟨c, k, op, -, -, running, -⟩ | ⟨l, -, -, after⟩
      · exact ⟨m, (congrFun same _).trans ready⟩
      · rw [own, ready] at running
        rw [own, ← Status.ready.inj running] at op
        exact absurd op unitTest_ne_call
      · rw [own] at after
        refine ⟨m', after.trans (congrArg _ ?_)⟩
        simpa [State.loc, after] using there
    · rcases Step.other step (Ne.symm own) with ⟨-, same⟩ | ⟨-, l, unborn, -⟩
      · exact ⟨m, same.trans ready⟩
      · rw [ready] at unborn
        cases unborn

/-- When the waker has been created main has created all threads. -/
theorem collect_of_waker (fine : ¬ u.EarlyError) (run : u.test.anyMachine.Run w s)
    (created : ∃ e ∈ w, e.access = .create .waker) (here : s.loc .main = .main m) :
    ∃ pc, m.collect = some pc := by
  have late := (FunctionalTest.run_induction u.test (P := fun w mem loc => u.Inv w mem loc ∧
    ((∃ e ∈ w, e.access = .create .waker) →
      ∃ m pc, loc .main = .main m ∧ m.collect = some pc)) ?_ ?_ ?_ run).2 created
  · obtain ⟨m', pc, there, late⟩ := late
    rw [here] at there
    cases there
    exact ⟨pc, late⟩
  · exact ⟨.start, fun ⟨e, member, _⟩ => absurd member List.not_mem_nil⟩
  · rintro w mem loc t c k op ⟨inv, late⟩
    refine ⟨inv.enter op, ?_⟩
    rintro ⟨e, member, creates⟩
    rcases List.mem_append.mp member with before | now
    · exact late ⟨e, before, creates⟩
    · rw [List.mem_singleton.mp now] at creates
      cases creates
  · rintro w mem loc t access mem' l born ⟨inv, late⟩ next
    refine ⟨inv.next born next, ?_⟩
    rintro ⟨e, member, creates⟩
    rcases List.mem_append.mp member with before | now
    · obtain ⟨m, pc, here, late⟩ := late ⟨e, before, creates⟩
      by_cases main : t = .main
      · subst main
        obtain ⟨m', pc', goes, there, -⟩ :=
          main_collects fine here (inv.main m here) late (main_next here next)
        exact ⟨m', pc', by rw [Function.update_self, goes], there⟩
      · exact ⟨m, pc, (Function.update_of_ne (Ne.symm main) _ _).trans here, late⟩
    · rw [List.mem_singleton.mp now] at creates
      have made : access = .create .waker := creates
      subst made
      obtain ⟨k, op⟩ := next.create_op
      rw [op] at next
      cases next
      obtain ⟨rfl, ⟨other, -⟩ | ⟨i, ret, other, -⟩ | ⟨-, ret, -, rfl⟩⟩ :=
        program_create (PiFutex.Op.toSyscalls_eq_create.mp op)
      · cases other
      · cases other
      · exact ⟨_, _, Function.update_self _ _ _, rfl⟩

/-- Once all threads have finished main can go on until it returns. -/
theorem exists_main_step (ready : s.thread .main = .ready (.main m)) {pc : CollectPc threadMax}
    (late : m.collect = some pc) (finished : AllFinished u s)
    (third : ∀ p, pc = .joinBlocker p → u.thirdPartyOwner = true) :
    (∃ v, pc = .exit v) ∨ ∃ access l s',
      Step Kernel.any u.test.program s ⟨.main, .main m, access⟩ s' ∧
        s'.thread = Function.update s.thread .main (.ready l) ∧
        (u.unitTest m).toSyscalls.Next u.test.program s.mem s.loc access s'.mem l := by
  have runs : ∀ access mem' l, (u.unitTest m).toSyscalls.isLocal = true →
      (u.unitTest m).toSyscalls.Next u.test.program s.mem s.loc access mem' l →
      ∃ access l s', Step Kernel.any u.test.program s ⟨.main, .main m, access⟩ s' ∧
        s'.thread = Function.update s.thread .main (.ready l) ∧
        (u.unitTest m).toSyscalls.Next u.test.program s.mem s.loc access s'.mem l := by
    intro access mem' l loc next
    obtain ⟨s', step, mem, -, thread⟩ := exists_step (Q := Kernel.any) ready loc next
    exact ⟨access, l, s', step, thread, mem ▸ next⟩
  have joins : ∀ t l, (u.unitTest m).toSyscalls = .join t l → u.Starts t →
      ∃ access l s', Step Kernel.any u.test.program s ⟨.main, .main m, access⟩ s' ∧
        s'.thread = Function.update s.thread .main (.ready l) ∧
        (u.unitTest m).toSyscalls.Next u.test.program s.mem s.loc access s'.mem l := by
    intro t l op starts
    obtain ⟨s', step, mem, -, thread⟩ :=
      exists_join (Q := Kernel.any) ready op (finished t starts)
    refine ⟨_, l, s', step, thread, ?_⟩
    rw [op, mem]
    exact .join t l (State.exit_of_finished (finished t starts))
  cases m with
  | readRet ret i p => exact .inr (runs _ _ _ rfl (.load _ _))
  | join ret i p null => exact .inr (joins _ _ rfl trivial)
  | joinBlocker ret p => exact .inr (joins .blocker _ rfl (third p (Option.some.inj late).symm))
  | joinWaker ret p => exact .inr (joins .waker _ rfl trivial)
  | readWaiter p => exact .inr (runs _ _ _ rfl (.load _ _))
  | readWaker => exact .inr (runs _ _ _ rfl (.load _ _))
  | readBlocker => exact .inr (runs _ _ _ rfl (.load _ _))
  | exit v => exact .inl ⟨v, (Option.some.inj late).symm⟩
  | _ => cases late

theorem collect_eq_exit {v : ℤ} (here : m.collect.getD (.readRet 0 0) = .exit v) : m = .exit v := by
  cases m <;> cases here
  rfl

theorem created_of_finished (run : u.test.anyMachine.Run w s)
    (finished : s.finished u.test.program .waker = true) :
    ∃ e ∈ w, e.access = .create .waker := by
  have started : ∀ l, s.thread .waker ≠ .unborn l := by
    intro l unborn
    simp [State.finished, unborn] at finished
  rcases Run.born run .waker started with outset | created
  · exact absurd rfl (outset _)
  · exact created

/-- The next step of main, from where all threads have finished. -/
theorem main_goes (fine : ¬ u.EarlyError) (run : u.test.anyMachine.Run w s)
    (finished : AllFinished u s) {pc : CollectPc threadMax}
    (goes : (collectOf u s.mem s.loc).next u.thirdPartyOwner = some pc) :
    ∃ e s', Step Kernel.any u.test.program s e s' ∧ AllFinished u s' ∧
      collectOf u s'.mem s'.loc = { collectOf u s.mem s.loc with pc := pc } := by
  obtain ⟨m, ready⟩ := main_ready run
  have here : s.loc .main = .main m := by simp [State.loc, ready]
  obtain ⟨pc₀, late⟩ :=
    collect_of_waker fine run (created_of_finished run (finished .waker trivial)) here
  have at_pc : (collectOf u s.mem s.loc).pc = pc₀ := by
    rw [collectOf_pc here, late]
    rfl
  have phase := (Collect.invariant.of_reachable (reachable_of_run fine run)).phase
  rw [at_pc] at phase
  have third : ∀ p, pc₀ = .joinBlocker p → u.thirdPartyOwner = true := by
    rintro p rfl
    exact phase.1
  rcases exists_main_step ready late finished third with
    ⟨v, rfl⟩ | ⟨access, l, s', step, thread, next⟩
  · rw [Collect.next, at_pc] at goes
    cases goes
  · obtain ⟨m', pc', rfl, there, goes'⟩ :=
      main_collects fine here ((Inv.run run).main m here) late next
    cases goes.symm.trans goes'
    have loc : s'.loc = Function.update s.loc .main (.main m') := by
      have moved := State.put_loc s .main (.ready (.main m'))
      rw [Status.loc] at moved
      rw [← moved]
      unfold State.loc State.put
      rw [thread]
    refine ⟨_, s', step, ?_, ?_⟩
    · intro t starts
      have other : t ≠ .main := by
        rintro rfl
        exact starts
      have same : s'.thread t = s.thread t := by rw [thread, Function.update_of_ne other]
      have before := finished t starts
      unfold State.finished at before ⊢
      rw [same]
      exact before
    · have own : (u.test.program .main (s.loc .main)).Next u.test.program s.mem s.loc access
          s'.mem (.main m') := by
        rw [here]
        exact next
      rw [loc, collectOf_main own, there]
      rfl

/-- Main returns once all threads have finished. -/
theorem test_returns (fine : ¬ u.EarlyError) (run : u.test.anyMachine.Run w s)
    (finished : AllFinished u s) :
    ∃ s' v, u.test.anyMachine.Later s s' ∧ s'.loc .main = .main (.exit v) := by
  have inv := Collect.invariant.of_reachable (reachable_of_run fine run)
  have all : (collectOf u s.mem s.loc).AllDone u.thirdPartyOwner := by
    intro t created
    refine Op.isExit_iff.mpr (State.exit_of_finished (finished t.party ?_))
    cases t with
    | waiter i | waker => exact trivial
    | blocker => exact created rfl
  -- carried back over the steps of main, for all runs that end in the same state
  refine inv.finish (Q := fun c => ∀ w s, u.test.anyMachine.Run w s →
    c = collectOf u s.mem s.loc → AllFinished u s →
      ∃ s' v, u.test.anyMachine.Later s s' ∧ s'.loc .main = .main (.exit v)) ?_ ?_ all w s run rfl
    finished
  · rintro c v here w s run rfl -
    obtain ⟨m, at_m⟩ := (Inv.run run).main_loc
    rw [collectOf_pc at_m] at here
    exact ⟨s, v, .refl, by rw [at_m, collect_eq_exit here]⟩
  · rintro c pc - - goes later w s run rfl finished
    obtain ⟨e, s', step, still, same⟩ := main_goes fine run finished goes
    obtain ⟨s'', v, further, here⟩ := later _ s' (run.next step) same.symm still
    exact ⟨s'', v, .head ⟨e, step⟩ further, here⟩

/-- Main's verdict is the first error, whatever it reads at first and whatever the threads
write meanwhile: for any number of waiters, and in every run of the test in which all
threads are created. It comes to one once all threads have finished. -/
theorem verdict_is_first_error :
    (∀ (n : ℕ) [NeZero n] (third : Bool) (s : Collect n),
      (Collect.system n third).Reachable s → s.Collects third ∧
        (s.AllDone third →
          ∃ s' v, (Collect.system n third).Later s s' ∧ s'.pc = .exit v ∧ s'.ret = s.ret)) ∧
    ∀ u : UnitTest, ¬ u.EarlyError → ∀ w s, u.test.anyMachine.Run w s →
      (collectOf u s.mem s.loc).Collects u.thirdPartyOwner ∧
        (AllFinished u s → ∃ s' v, u.test.anyMachine.Later s s' ∧
          s'.loc .main = .main (.exit v)) := by
  refine ⟨?_, ?_⟩
  · intro n _ third s reach
    exact ⟨Collect.collects reach, Collect.returns reach⟩
  · intro u fine w s run
    exact ⟨Collect.collects (reachable_of_run fine run), test_returns fine run⟩

/-- A broadcast without a third party, where `args` holds garbage at first. -/
def garbageFirst : UnitTest := { unitTestWith true false false 0 with args := fun _ => 7 }

/-- Main reads the garbage, and then the wait of waiter 3 fails. -/
def fourthFails : List (Syscalls.Choice Party) :=
  let waits (i : Fin threadMax) : List (Syscalls.Choice Party) :=
    if i.val = 3 then
      List.flatten [Choice.calls (.waiter i) (.error ewouldblock), Choice.ops (.waiter i) 3,
        Choice.calls (.waiter i) (.ok 0), Choice.calls (.waiter i) (.ok 0)]
    else
      List.flatten [Choice.calls (.waiter i) (.ok 0), Choice.ops (.waiter i) 2,
        Choice.calls (.waiter i) (.ok 0)]
  List.flatten [Choice.ops .main 14,
    (List.finRange threadMax).flatMap fun i => Choice.ops (.waiter i) 2,
    Choice.ops .waker 2, Choice.calls .waker (.ok 9), (List.finRange threadMax).flatMap waits,
    Choice.ops .waker 2, Choice.calls .waker (.ok 1), Choice.ops .waker 1]

/-- Waiter 3 has an error when everybody has finished, and main goes on to its verdict. -/
theorem verdict_is_first_error_fourth :
    (∃ s' v, (Collect.system 1 true).Later ⟨.readRet 0 0, fun _ => 7, fun _ => true⟩ s' ∧
      s'.pc = .exit v ∧ s'.ret = fun _ => 7) ∧
    ∃ w s, garbageFirst.test.anyMachine.Run w s ∧ s.mem (.waiterRet 3) = retError ∧
      (collectOf garbageFirst s.mem s.loc).Collects false ∧
      ∃ s' v, garbageFirst.test.anyMachine.Later s s' ∧ s'.loc .main = .main (.exit v) := by
  refine ⟨?_, ?_⟩
  · exact (verdict_is_first_error.1 1 true _ ⟨[], .start ⟨rfl, nofun⟩⟩).2 fun _ _ => rfl
  · obtain ⟨w, s, run, error, waker, waiters⟩ := Syscalls.exists_run Kernel.any
      garbageFirst.test.program garbageFirst.test.start fourthFails
      (fun _ s => s.mem (.waiterRet 3) = retError ∧
        s.finished garbageFirst.test.program .waker = true ∧
        ∀ i, s.finished garbageFirst.test.program (.waiter i) = true)
      (by decide +kernel)
    have fine : ¬ garbageFirst.EarlyError := by
      rintro (clock | ⟨t, -, fails⟩)
      · exact clock rfl
      · exact fails rfl
    obtain ⟨collects, returns⟩ := verdict_is_first_error.2 garbageFirst fine w s run
    refine ⟨w, s, run, error, collects, returns ?_⟩
    intro t starts
    cases t with
    | main => exact starts.elim
    | blocker => cases starts
    | waker => exact waker
    | waiter i => exact waiters i

end RequeuePi
