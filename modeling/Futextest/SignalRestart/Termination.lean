import Futextest.SignalRestart.Signals
import Futextest.Syscalls.Pair
import Futextest.Syscalls.Potential

/-!
# How the signal-restart test ends

Under its kernel the test has a bounded number of steps besides requeues that move nobody,
and whatever has happened so far, it can go on until main has printed its verdict: the waiter
stays on `f1` until it is moved, however often a signal interrupts it, and the last signal
finds it on `f2` or already back. The verdict is a failure exactly if the waiter has read
`requeued` before main set it.

## Main definitions

* `movesNobody` — a requeue fails or finds nobody
* `ReadsEarly` — the waiter has read that it was not requeued
* `Scene` — the cells, the waiter and the kernel, by where main is

## Main results

* `descends` — every other step leads nearer to the end
* `test_ends` — the test ends, and with which verdict
-/

namespace SignalRestart

open Syscalls

instance : Fintype Party := ⟨{.main, .waiter}, fun t => by cases t <;> simp⟩

/-! ## The length of a run -/

/-- How many steps main still takes, if each of its requeues moves the waiter. A signal costs
two more: the waiter handles it and goes back to its call. -/
def MainPc.rank : MainPc → ℕ
  | .create => 19
  | .lock => 18
  | .kill => 16
  | .load => 12
  | .requeue _ => 11
  | .setRequeued | .requeueFailed => 9
  | .killAgain _ => 8
  | .join _ => 4
  | .unlock _ => 3
  | .createFailed => 2
  | .out _ => 1
  | .exit _ => 0

/-- How many steps the waiter still takes. -/
def WaiterPc.rank : WaiterPc → ℕ
  | .init => 9
  | .load => 8
  | .wait _ => 7
  | .test _ => 5
  | .fail _ => 4
  | .unlock => 3
  | .setFail => 1
  | .exit => 0

/-- The ranks of both. -/
def Loc.rank : Loc → ℕ
  | .main pc => pc.rank
  | .waiter pc => pc.rank

/-- The entry of a call is one step. -/
def Loc.rankInside (l : Loc) : ℕ := l.rank - 1

/-- How often the kernel can still act on the waiter. -/
def KernelState.rank (κ : KernelState) : ℕ :=
  (if κ.pending then 2 else 0) + if κ.place = .handler then 1 else 0

/-- A requeue that fails or finds nobody. -/
def movesNobody (e : TestEvent) : Bool :=
  match e.access with
  | .leave (.cmpRequeuePi _) r => r.ret ≤ 0
  | _ => false

variable {κ κ' : KernelState} {t : Party} {r : SysResult}

theorem afterRequeue_rank (res : ℤ) :
    (afterRequeue res).rank = if res ≤ 0 then 16 else 9 := by
  rcases afterRequeue_cases res with ⟨after, small⟩ | ⟨after, positive⟩
  · rw [after, if_pos (not_lt.mp small)]
    rfl
  · rw [after, if_neg (not_le.mpr positive)]
    rfl

/-- The kernel can act as often as before if no signal was sent and no handler entered. -/
theorem KernelState.rank_le (pending : κ'.pending = true → κ.pending = true)
    (place : κ'.place = .handler → κ.place = .handler) : κ'.rank ≤ κ.rank := by
  refine Nat.add_le_add ?_ ?_
  · by_cases sent : κ'.pending = true
    · rw [if_pos sent, if_pos (pending sent)]
    · rw [if_neg sent]
      exact Nat.zero_le _
  · by_cases handles : κ'.place = .handler
    · rw [if_pos handles, if_pos (place handles)]
    · rw [if_neg handles]
      exact Nat.zero_le _

/-- Only a signal gives the kernel more to do. -/
theorem rank_leave {c : Call} (leaves : leaveCall κ t r c = some κ') :
    κ'.rank ≤ κ.rank + if c = .kill then 2 else 0 := by
  cases c with
  | lockPi =>
    simp only [leaveCall, Option.ite_none_right_eq_some] at leaves
    obtain ⟨-, same⟩ := leaves
    cases same
    exact KernelState.rank_le id id
  | unlockPi =>
    simp only [leaveCall] at leaves
    split_ifs at leaves <;> cases leaves
    · exact KernelState.rank_le id (by simp)
    · exact KernelState.rank_le id id
    · exact le_rfl
  | kill =>
    simp only [leaveCall, Option.ite_none_right_eq_some] at leaves
    obtain ⟨-, same⟩ := leaves
    cases same
    simp only [KernelState.rank, if_true]
    omega
  | cmpRequeuePi old =>
    simp only [leaveCall] at leaves
    split_ifs at leaves <;> cases leaves
    · exact le_rfl
    · exact KernelState.rank_le id (by simp)
    · exact KernelState.rank_le id (by simp)
    · exact le_rfl
  | waitRequeuePi old =>
    simp only [leaveCall] at leaves
    split at leaves
    · split_ifs at leaves
      cases leaves
      exact le_rfl
    · cases leaves
    · cases leaves
    · split_ifs at leaves
      cases leaves
      exact KernelState.rank_le (by simp) (by simp)
    · split_ifs at leaves
      cases leaves
      exact KernelState.rank_le id (by simp)

/-- Each act of the kernel is one of those it had left. -/
theorem rank_act (acts : handleSignal κ t = some κ') : κ'.rank < κ.rank := by
  cases t with
  | main => cases acts
  | waiter =>
    simp only [handleSignal] at acts
    split at acts
    · rename_i place
      rw [Option.ite_none_right_eq_some] at acts
      obtain ⟨sent, same⟩ := acts
      cases same
      simp [KernelState.rank, place, sent]
    · rename_i place
      rw [Option.ite_none_right_eq_some] at acts
      obtain ⟨sent, same⟩ := acts
      cases same
      simp [KernelState.rank, place, sent]
    · rename_i place
      cases acts
      simp [KernelState.rank, place]
    · cases acts
    · cases acts

theorem rank_enter (mem : Cell → ℤ) (c : Call) : (enterCall mem κ t c).rank ≤ κ.rank := by
  unfold enterCall
  split
  · split_ifs
    · exact KernelState.rank_le id (by simp)
    · exact le_rfl
  · exact le_rfl

/-- **The test descends.** Every step leads nearer to its end, but for a requeue that moves
nobody, which takes main back by one pass of its loop. -/
theorem descends : Descends kernel (program 0) Loc.rank Loc.rankInside KernelState.rank
    (fun e => !movesNobody e) 6 := by
  constructor
  · intro e no_leave
    unfold movesNobody
    split
    · rename_i old r access
      exact absurd access (no_leave _ r)
    · rfl
  · intro t κ κ' acts
    exact rank_act acts
  · intro mem κ t l c k κ' op enters
    obtain rfl : enterCall mem κ t c = κ' := Option.some.inj enters
    have positive : 0 < l.rank := by
      cases t with
      | main =>
        cases l with
        | main m => cases m <;> first | exact Nat.succ_pos _ | cases op
        | waiter p => cases op
      | waiter =>
        cases l with
        | main m => cases op
        | waiter p => cases p <;> first | exact Nat.succ_pos _ | cases op
    have least := rank_enter (κ := κ) (t := t) mem c
    unfold Loc.rankInside
    omega
  · intro κ t l c k r κ' op leaves
    have least := rank_leave leaves
    cases t with
    | main =>
      cases l with
      | main m =>
        cases m with
        | requeue old =>
          cases op
          have after := afterRequeue_rank r.ret
          simp only [movesNobody, Loc.rankInside, Loc.rank, reduceCtorEq, if_false] at least ⊢
          rw [after, MainPc.rank]
          by_cases small : r.ret ≤ 0
          · simp only [small, decide_true, Bool.not_true, Bool.false_eq_true, if_true, if_false]
            omega
          · simp only [small, decide_false, Bool.not_false, if_true, if_false]
            omega
        | lock | kill | killAgain ret | unlock ret =>
          cases op
          simp [movesNobody, Loc.rankInside, Loc.rank, MainPc.rank] at least ⊢
          omega
        | create =>
          unfold program main at op
          split_ifs at op
        | out ret =>
          unfold program main at op
          dsimp only at op
          split_ifs at op
        | _ => cases op
      | waiter p => cases op
    | waiter =>
      cases l with
      | main m => cases op
      | waiter p =>
        cases p <;> cases op
        all_goals
          simp [movesNobody, Loc.rankInside, Loc.rank, WaiterPc.rank] at least ⊢
          omega
  · intro t l mem loc access mem' l' next quiet
    cases t with
    | main =>
      cases l with
      | main m =>
        cases m with
        | create =>
          have created : createRtThread 0 = 0 := rfl
          rw [program, main, if_pos created] at next
          cases next
          exact Nat.lt_succ_self _
        | out ret =>
          rw [program, main] at next
          split_ifs at next <;> cases next <;> exact Nat.lt_succ_self _
        | lock | kill | requeue old | killAgain ret | unlock ret => exact absurd rfl (quiet _ _)
        | exit ret => cases next
        | _ =>
          cases next
          exact Nat.lt_succ_self _
      | waiter p => cases next
    | waiter =>
      cases l with
      | main m => cases next
      | waiter p =>
        cases p with
        | test result =>
          cases next
          simp only [Loc.rank]
          split_ifs <;> simp [WaiterPc.rank]
        | fail result =>
          cases next
          simp only [Loc.rank]
          split_ifs <;> simp [WaiterPc.rank]
        | wait old | unlock => exact absurd rfl (quiet _ _)
        | exit => cases next
        | _ =>
          cases next
          exact Nat.lt_succ_self _

/-! ## Where everybody is -/

/-- The waiter has read that it was not requeued. -/
def ReadsEarly (w : List TestEvent) : Prop :=
  ∃ e ∈ w, e.pc.tests = true ∧ e.access = .load .requeued 0

/-- What the waiter has found out, and what it has left in its result. -/
def WaiterPc.Has (early : Prop) (ret : ℤ) : WaiterPc → Prop
  | .init | .load => ¬ early ∧ ret = retPass
  | .wait old => old = 0 ∧ ¬ early ∧ ret = retPass
  | .test result => result = .error ewouldblock ∧ ¬ early ∧ ret = retPass
  | .fail result => result = .error ewouldblock ∧ early
  | .unlock => False
  | .setFail => early
  | .exit => early ∧ ret = retFail ∨ ¬ early ∧ ret = retPass

/-- Where the waiter is, for itself and for the kernel. -/
def WaiterAt (early : Prop) (ret : ℤ) (place : Place) : Status Loc → Prop
  | .unborn l => l = .waiter .init ∧ place = .away ∧ ¬ early ∧ ret = retPass
  | .ready (.waiter p) => place = .away ∧ p.Has early ret
  | .calling l =>
      l = .waiter (.wait 0) ∧ (place = .f1 ∨ place = .handler ∨ place = .f2) ∧ ¬ early ∧
        ret = retPass
  | _ => False

/-- Whether `waiterfn` is past its call. -/
def WaiterPc.returned : WaiterPc → Bool
  | .init | .load | .wait _ => false
  | _ => true

/-- Whether the waiter has been requeued: it waits on `f2`, or is past its call. -/
def moved (place : Place) : Status Loc → Bool
  | .ready (.waiter p) => p.returned
  | .calling _ => place = .f2
  | _ => false

/-- What main knows of the waiter. -/
def MainPc.Knows (ret : ℤ) (κ : KernelState) (x : Status Loc) : MainPc → Prop
  | .create => x = .unborn (.waiter .init)
  | .lock | .kill | .load | .requeue _ => moved κ.place x = false ∧ ∀ l, x ≠ .unborn l
  | .setRequeued => moved κ.place x = true
  | .killAgain value => value = retPass ∧ moved κ.place x = true
  -- the last signal is pending until the waiter comes back from `f2`
  | .join value =>
      value = retPass ∧ moved κ.place x = true ∧ (κ.place = .f2 → κ.pending = true)
  | .unlock value | .out value => value = retPass ∧ x = .ready (.waiter .exit)
  | .exit value => value = ret ∧ x = .ready (.waiter .exit)
  | .createFailed | .requeueFailed => False

/-- What ties the cells, the waiter and the kernel together, with main at `m`. -/
structure Scene (early : Prop) (mem : Cell → ℤ) (x : Status Loc) (κ : KernelState) (m : MainPc) :
    Prop where
  f1 : mem .f1 = 0
  requeued : mem .requeued = if m.published then 1 else 0
  owner : κ.owner = if m.owns then some .main else none
  waiter : WaiterAt early (mem .waiterRet) κ.place x
  knows : m.Knows (mem .waiterRet) κ x

variable {early : Prop} {mem mem' : Cell → ℤ} {loc : Party → Loc} {x x' : Status Loc}
  {m : MainPc} {p : WaiterPc} {access : Access Cell Call Party} {l l' : Loc}

/-- A waiter that the kernel has somewhere is in its call. -/
theorem WaiterAt.calling {ret : ℤ} {place : Place} (waiter : WaiterAt early ret place x)
    (busy : place ≠ .away) : x = .calling (.waiter (.wait 0)) ∧ ¬ early ∧ ret = retPass := by
  unfold WaiterAt at waiter
  split at waiter
  · exact absurd waiter.2.1 busy
  · exact absurd waiter.1 busy
  · obtain ⟨rfl, -, quiet⟩ := waiter
    exact ⟨rfl, quiet⟩
  · exact waiter.elim

/-- A waiter that has finished is not in its call. -/
theorem WaiterAt.of_exit {ret : ℤ} {place : Place} (waiter : WaiterAt early ret place x)
    (ended : program 0 .waiter x.loc = .exit) : x = .ready (.waiter .exit) := by
  unfold WaiterAt at waiter
  split at waiter
  · rw [waiter.1] at ended
    cases ended
  · rename_i p
    cases p with
    | exit => rfl
    | _ => cases ended
  · rw [waiter.1] at ended
    cases ended
  · exact waiter.elim

/-- A requeue by main moves the waiter from `f1`, or moves nobody. -/
theorem requeue_leaves (old : ℤ) (owner : κ.owner = some .main)
    (leaves : leaveCall κ .main r (.cmpRequeuePi old) = some κ') :
    (κ' = κ ∧ afterRequeue r.ret = .kill) ∨
      κ.place = .f1 ∧ κ' = { κ with place := .f2 } ∧ afterRequeue r.ret = .setRequeued := by
  simp only [leaveCall, owner, reduceCtorEq, if_false] at leaves
  split_ifs at leaves with failed place result result <;> cases leaves
  · refine .inl ⟨rfl, ?_⟩
    exact ((afterRequeue_cases r.ret).resolve_right fun moved => absurd moved.2 (by omega)).1
  · subst result
    exact .inr ⟨place, by rw [owner], rfl⟩
  · subst result
    exact .inl ⟨rfl, rfl⟩

/-- An operation of main. -/
theorem Scene.main_next (scene : Scene early mem x κ m) (there : loc .waiter = x.loc)
    (next : (SignalRestart.main 0 m).Next (program 0) mem loc access mem' l)
    (changes : kernel.Changes mem κ .main access κ')
    (keeps : Keeps .waiter access x x') : ∃ m', l = .main m' ∧ Scene early mem' x' κ' m' := by
  obtain ⟨f1, requeued, owner, waiter, knows⟩ := scene
  cases m with
  | create =>
    have created : createRtThread 0 = 0 := rfl
    rw [SignalRestart.main, if_pos created] at next
    cases next
    obtain rfl : κ' = κ := changes
    obtain ⟨l, rfl, rfl⟩ : ∃ l, x = .unborn l ∧ x' = .ready l := by
      rcases keeps with ⟨no_create, -⟩ | ⟨-, started⟩
      · exact absurd rfl no_create
      · exact started
    obtain ⟨rfl, away, quiet⟩ := waiter
    exact ⟨.lock, rfl, f1, requeued, owner, ⟨away, quiet⟩, rfl, by simp⟩
  | createFailed | requeueFailed => exact knows.elim
  | lock =>
    cases next with
    | leave c k r =>
      obtain rfl := keeps.same (by simp)
      have left : leaveCall κ .main r .lockPi = some κ' := changes
      simp only [leaveCall, Option.ite_none_right_eq_some] at left
      obtain ⟨-, kept⟩ := left
      cases kept
      exact ⟨.kill, rfl, f1, requeued, rfl, waiter, knows⟩
  | kill =>
    cases next with
    | leave c k r =>
      obtain rfl := keeps.same (by simp)
      have left : leaveCall κ .main r .kill = some κ' := changes
      simp only [leaveCall, Option.ite_none_right_eq_some] at left
      obtain ⟨-, kept⟩ := left
      cases kept
      exact ⟨.load, rfl, f1, requeued, owner, waiter, knows⟩
  | load =>
    cases next with
    | load a k =>
      obtain rfl := keeps.same (by simp)
      obtain rfl : κ' = κ := changes
      exact ⟨.requeue _, rfl, f1, requeued, owner, waiter, knows⟩
  | requeue old =>
    cases next with
    | leave c k r =>
      obtain rfl := keeps.same (by simp)
      rcases requeue_leaves old owner changes with ⟨rfl, after⟩ | ⟨place, rfl, after⟩
      · exact ⟨.kill, congrArg Loc.main after, f1, requeued, owner, waiter, knows⟩
      · rw [place] at waiter
        obtain ⟨rfl, quiet⟩ := waiter.calling (by simp)
        exact ⟨.setRequeued, congrArg Loc.main after, f1, requeued, owner,
          ⟨rfl, .inr (.inr rfl), quiet⟩, rfl⟩
  | setRequeued =>
    cases next with
    | store a v k =>
      obtain rfl := keeps.same (by simp)
      obtain rfl : κ' = κ := changes
      exact ⟨.killAgain retPass, rfl, f1, rfl, owner, waiter, rfl, knows⟩
  | killAgain value =>
    cases next with
    | leave c k r =>
      obtain rfl := keeps.same (by simp)
      have left : leaveCall κ .main r .kill = some κ' := changes
      simp only [leaveCall, Option.ite_none_right_eq_some] at left
      obtain ⟨-, kept⟩ := left
      cases kept
      exact ⟨.join value, rfl, f1, requeued, owner, waiter, knows.1, knows.2, fun _ => rfl⟩
  | join value =>
    cases next with
    | join u k ended =>
      obtain rfl := keeps.same (by simp)
      obtain rfl : κ' = κ := changes
      rw [there] at ended
      exact ⟨.unlock value, rfl, f1, requeued, owner, waiter, knows.1, waiter.of_exit ended⟩
  | unlock value =>
    cases next with
    | leave c k r =>
      obtain rfl := keeps.same (by simp)
      obtain ⟨pass, rfl⟩ := knows
      have left : leaveCall κ .main r .unlockPi = some κ' := changes
      have mine : κ.owner = some .main := owner
      have away : κ.place = .away := waiter.1
      simp only [leaveCall, mine, away, reduceCtorEq, if_true, if_false,
        Option.ite_none_right_eq_some] at left
      obtain ⟨-, kept⟩ := left
      cases kept
      exact ⟨.out value, rfl, f1, requeued, rfl, away ▸ waiter, pass, rfl⟩
  | out value =>
    obtain ⟨pass, rfl⟩ := knows
    rw [SignalRestart.main, if_pos pass] at next
    cases next with
    | load a k =>
      obtain rfl := keeps.same (by simp)
      obtain rfl : κ' = κ := changes
      refine ⟨_, rfl, f1, requeued, owner, waiter, ?_, rfl⟩
      by_cases zero : mem .waiterRet = 0
      · rw [if_neg (by simp [zero]), zero]
        exact pass
      · rw [if_pos zero]
  | exit value => cases next

/-- The kernel acts on the waiter: it stays where it is for itself. -/
theorem Scene.waiter_act (scene : Scene early mem x κ m)
    (acts : handleSignal κ .waiter = some κ') : Scene early mem x κ' m := by
  obtain ⟨f1, requeued, owner, waiter, knows⟩ := scene
  -- the waiter is back on `f1` or in its handler, unless it was away before
  have kept : κ'.owner = κ.owner ∧ (κ'.place = .away ∧ κ.place = .away ∨
      (κ'.place = .f1 ∨ κ'.place = .handler) ∧ (κ.place = .f1 ∨ κ.place = .handler)) := by
    simp only [handleSignal] at acts
    split at acts
    · rename_i place
      rw [Option.ite_none_right_eq_some] at acts
      obtain ⟨-, same⟩ := acts
      cases same
      exact ⟨rfl, .inl ⟨place, place⟩⟩
    · rename_i place
      rw [Option.ite_none_right_eq_some] at acts
      obtain ⟨-, same⟩ := acts
      cases same
      exact ⟨rfl, .inr ⟨.inr rfl, .inl place⟩⟩
    · rename_i place
      cases acts
      exact ⟨rfl, .inr ⟨.inl rfl, .inr place⟩⟩
    · cases acts
    · cases acts
  obtain ⟨same, places⟩ := kept
  have waiter' : WaiterAt early (mem .waiterRet) κ'.place x := by
    rcases places with ⟨away', away⟩ | ⟨busy', busy⟩
    · rw [away']
      rwa [away] at waiter
    · obtain ⟨rfl, quiet⟩ := waiter.calling (by rcases busy with busy | busy <;> simp [busy])
      refine ⟨rfl, ?_, quiet⟩
      rcases busy' with busy' | busy'
      · exact .inl busy'
      · exact .inr (.inl busy')
  have moved_eq : moved κ'.place x = moved κ.place x := by
    unfold moved
    rcases places with ⟨away', away⟩ | ⟨busy' | busy', busy | busy⟩ <;> simp [*]
  refine ⟨f1, requeued, same.trans owner, waiter', ?_⟩
  unfold MainPc.Knows at knows ⊢
  rw [moved_eq]
  split at knows <;> try exact knows
  refine ⟨knows.1, knows.2.1, fun on_f2 => ?_⟩
  rcases places with ⟨away', -⟩ | ⟨busy' | busy', -⟩ <;> simp [*] at on_f2

/-- A waiter that goes on tells main nothing but that it goes on. -/
theorem MainPc.Knows.frame {ret ret' : ℤ} (knows : m.Knows ret κ x)
    (same : moved κ'.place x' = moved κ.place x) (born : ∀ l, x ≠ .unborn l)
    (born' : ∀ l, x' ≠ .unborn l) (running : x ≠ .ready (.waiter .exit))
    (not_f2 : κ'.place ≠ .f2) : m.Knows ret' κ' x' := by
  cases m with
  | create => exact absurd knows (born _)
  | lock | kill | load | requeue old => exact ⟨same.trans knows.1, born'⟩
  | setRequeued => exact same.trans knows
  | killAgain value => exact ⟨knows.1, same.trans knows.2⟩
  | join value => exact ⟨knows.1, same.trans knows.2.1, fun on_f2 => absurd on_f2 not_f2⟩
  | unlock value | out value | exit value => exact absurd knows.2 running
  | createFailed | requeueFailed => exact knows.elim

/-- The waiter enters its call. -/
theorem Scene.waiter_enter (scene : Scene early mem x κ m) {c : Call} {k : SysResult → Loc}
    (op : program 0 .waiter l = .call c k) (ready : x = .ready l) :
    Scene early mem (.calling l) (enterCall mem κ .waiter c) m := by
  obtain ⟨f1, requeued, owner, waiter, knows⟩ := scene
  subst ready
  cases l with
  | main m => cases op
  | waiter p =>
    cases p with
    | wait old =>
      cases op
      obtain ⟨away, rfl, quiet⟩ := waiter
      have entered : enterCall mem κ .waiter (.waitRequeuePi 0) = { κ with place := .f1 } := by
        rw [enterCall, if_pos f1]
      rw [entered]
      exact ⟨f1, requeued, owner, ⟨rfl, .inl rfl, quiet⟩,
        knows.frame rfl (by simp) (by simp) (by simp) (by simp)⟩
    | unlock => exact waiter.2.elim
    | _ => cases op

/-- An operation of the waiter. -/
theorem Scene.waiter_next (scene : Scene early mem x κ m)
    (next : (program 0 .waiter l).Next (program 0) mem loc access mem' l')
    (changes : kernel.Changes mem κ .waiter access κ')
    (status : x = .ready l ∧ (∀ c k, program 0 .waiter l ≠ .call c k) ∨ x = .calling l) :
    Scene (early ∨ l.tests = true ∧ access = .load .requeued 0) mem' (.ready l') κ' m := by
  obtain ⟨f1, requeued, owner, waiter, knows⟩ := scene
  rcases status with ⟨rfl, quiet⟩ | rfl
  · -- the waiter is awake, so that the kernel has it nowhere
    cases l with
    | main m => cases next
    | waiter p =>
      obtain ⟨away, has⟩ := waiter
      have not_f2 : κ.place ≠ .f2 := by simp [away]
      cases p with
      | init =>
        cases next
        obtain rfl : κ' = κ := changes
        refine ⟨f1, requeued, owner, ⟨away, ?_⟩,
          knows.frame rfl (by simp) (by simp) (by simp) not_f2⟩
        exact ⟨by simpa [Loc.tests] using has.1, Function.update_self _ _ _⟩
      | load =>
        cases next
        obtain rfl : κ' = κ := changes
        refine ⟨f1, requeued, owner, ⟨away, ?_⟩,
          knows.frame rfl (by simp) (by simp) (by simp) not_f2⟩
        exact ⟨f1, by simpa [Loc.tests, WaiterPc.Has] using has⟩
      | wait old | unlock => exact absurd rfl (quiet _ _)
      | test result =>
        obtain ⟨rfl, fine, pass⟩ := has
        cases next
        obtain rfl : κ' = κ := changes
        refine ⟨f1, requeued, owner, ⟨away, ?_⟩,
          knows.frame ?_ (by simp) (by simp) (by simp) not_f2⟩
        · by_cases zero : mem .requeued = 0
          · rw [if_pos (.inl zero), zero]
            exact ⟨rfl, .inr ⟨rfl, rfl⟩⟩
          · rw [if_neg (by simp [zero, SysResult.error])]
            refine .inr ⟨?_, pass⟩
            rintro (before | ⟨-, now⟩)
            · exact fine before
            · exact zero (Access.load.inj now).2
        · simp only [moved]
          split_ifs <;> rfl
      | fail result =>
        obtain ⟨rfl, before⟩ := has
        cases next
        obtain rfl : κ' = κ := changes
        exact ⟨f1, requeued, owner, ⟨away, .inl before⟩,
          knows.frame rfl (by simp) (by simp) (by simp) not_f2⟩
      | setFail =>
        cases next
        obtain rfl : κ' = κ := changes
        exact ⟨f1, requeued, owner, ⟨away, .inl ⟨.inl has, Function.update_self _ _ _⟩⟩,
          knows.frame rfl (by simp) (by simp) (by simp) not_f2⟩
      | exit => cases next
  · -- its call returns, and only from `f2`
    obtain ⟨rfl, places, fine, pass⟩ := waiter
    cases next with
    | leave c k r =>
      have left : leaveCall κ .waiter r (.waitRequeuePi 0) = some κ' := changes
      simp only [leaveCall] at left
      rcases places with place | place | place <;> rw [place] at left
      · cases left
      · cases left
      · simp only [Option.ite_none_right_eq_some] at left
        obtain ⟨⟨-, rfl⟩, same⟩ := left
        cases same
        refine ⟨f1, requeued, owner, ⟨rfl, rfl, ?_, pass⟩,
          knows.frame ?_ (by simp) (by simp) (by simp) (by simp)⟩
        · simpa [Loc.tests] using fine
        · simp [moved, place, WaiterPc.returned]

/-! ## Runs -/

variable {w : List TestEvent} {s s' : TestState} {e : TestEvent}

theorem readsEarly_append :
    ReadsEarly (w ++ [e]) ↔
      ReadsEarly w ∨ e.pc.tests = true ∧ e.access = .load .requeued 0 := by
  simp [ReadsEarly, or_and_right, exists_or]

/-- Every run ends in a scene. -/
theorem exists_scene (run : machine.Run w s) :
    ∃ m, (s.thread .main).At (.main m) ∧
      Scene (ReadsEarly w) s.mem (s.thread .waiter) s.kernel m := by
  have kept : ∀ {w : List TestEvent} {e : TestEvent} {mem x κ m}, e.access ≠ .load .requeued 0 →
      Scene (ReadsEarly w) mem x κ m → Scene (ReadsEarly (w ++ [e])) mem x κ m := by
    intro w e mem x κ m other scene
    rw [propext readsEarly_append]
    simpa [other] using scene
  refine Run.pair_invariant (t := .main) (u := .waiter)
    (P := fun w mem x y κ => ∃ m, x.At (.main m) ∧ Scene (ReadsEarly w) mem y κ m)
    (fun v => by cases v <;> simp) (by simp) (by simp [start]) ?_ ?_ ?_ ?_ ?_ ?_ run
  · refine ⟨.create, rfl, rfl, rfl, rfl, ⟨rfl, rfl, ?_, rfl⟩, rfl⟩
    simp [ReadsEarly]
  · rintro w mem x y κ v l κ' ⟨m, here, scene⟩ acts
    cases v with
    | main => cases acts
    | waiter => exact ⟨m, here, kept (by simp) (scene.waiter_act acts)⟩
  · rintro w mem y κ l c k κ' ⟨m, here, scene⟩ - enters
    -- the kernel does nothing when main enters a call
    obtain rfl : κ = κ' := Option.some.inj enters
    exact ⟨m, here, kept (by simp) scene⟩
  · rintro w mem x κ l c k κ' ⟨m, here, scene⟩ op enters
    obtain rfl : enterCall mem κ .waiter c = κ' := Option.some.inj enters
    exact ⟨m, here, kept (by simp) (scene.waiter_enter op rfl)⟩
  · rintro w mem loc x y y' κ l access mem' l' κ' ⟨m, here, scene⟩ runs there next changes keeps
    obtain rfl := runs.at_eq here
    obtain ⟨m', rfl, scene'⟩ := scene.main_next there next changes keeps
    refine ⟨m', rfl, ?_⟩
    rw [propext readsEarly_append]
    simpa [Loc.tests] using scene'
  · rintro w mem loc x y κ l access mem' l' κ' ⟨m, here, scene⟩ runs next changes
    refine ⟨m, here, ?_⟩
    rw [propext readsEarly_append]
    exact scene.waiter_next next changes (runs.imp_right fun calling => calling.1)

/-! ## The end -/

/-- Nobody can move but main by a requeue that moves nobody. -/
abbrev Over (s : TestState) : Prop := machine.Stuck (fun e => !movesNobody e) s

theorem kernel_enters (mem : Cell → ℤ) (κ : KernelState) (t : Party) (c : Call) :
    kernel.enter mem κ t c ≠ none := by
  simp [kernel]

/-- Where nobody can move, a thread that is awake creates or joins, or has finished. -/
theorem op_of_over (quiet : Over s) {t : Party} {l : Loc} (ready : s.thread t = .ready l) :
    (program 0 t l).isLocal = false ∧ ∀ c k, program 0 t l ≠ .call c k := by
  obtain ⟨idle, calls⟩ := waits_of_stuck descends quiet ready
  exact ⟨idle, fun c k op => kernel_enters _ _ _ _ (calls c k op)⟩

/-- No call can return then. -/
theorem refuses_of_over (quiet : Over s) {t : Party} {l : Loc} {c : Call} {k : SysResult → Loc}
    (calling : s.thread t = .calling l) (op : program 0 t l = .call c k) (r : SysResult)
    (counted : movesNobody ⟨t, l, .leave c r⟩ = false) : leaveCall s.kernel t r c = none := by
  by_contra returns
  obtain ⟨κ, leaves⟩ := Option.ne_none_iff_exists'.mp returns
  have idle := quiet _ _ (.leave calling op leaves)
  simp [counted] at idle

/-- The waiter has finished, or it waits to be moved. -/
theorem waiter_of_over (quiet : Over s) (scene : Scene early s.mem (s.thread .waiter) s.kernel m)
    (born : ∀ l, s.thread .waiter ≠ .unborn l) :
    s.thread .waiter = .ready (.waiter .exit) ∨
      s.thread .waiter = .calling (.waiter (.wait 0)) ∧ s.kernel.place = .f1 ∨
      s.thread .waiter = .calling (.waiter (.wait 0)) ∧ s.kernel.place = .f2 ∧
        s.kernel.pending = false := by
  have waiter := scene.waiter
  generalize at_waiter : s.thread .waiter = x at waiter
  unfold WaiterAt at waiter
  split at waiter
  · exact absurd at_waiter (born _)
  · rename_i p
    obtain ⟨idle, no_call⟩ := op_of_over quiet at_waiter
    cases p with
    | exit => exact .inl rfl
    | wait old | unlock => exact absurd rfl (no_call _ _)
    | _ => cases idle
  · obtain ⟨rfl, place | place | place, -⟩ := waiter
    · exact .inr (.inl ⟨rfl, place⟩)
    · -- the handler returns
      have acts : kernel.act s.kernel .waiter = some { s.kernel with place := .f1 } := by
        simp only [kernel, handleSignal, place]
      cases quiet _ _ (.act acts)
    · refine .inr (.inr ⟨rfl, place, ?_⟩)
      by_contra pending
      have refused := refuses_of_over quiet at_waiter rfl (.error ewouldblock) rfl
      simp [leaveCall, place, pending] at refused
  · exact waiter.elim

/-- Where nobody can move main has printed its verdict. -/
theorem exit_of_over (run : machine.Run w s) (quiet : Over s) :
    ∃ v, s.thread .main = .ready (.main (.exit v)) := by
  obtain ⟨m, at_main, scene⟩ := exists_scene run
  cases there : s.thread .main with
  | unborn l =>
    rw [there] at at_main
    exact at_main.elim
  | ready l =>
    rw [there] at at_main
    obtain rfl : l = .main m := at_main
    obtain ⟨idle, no_call⟩ := op_of_over quiet there
    have knows := scene.knows
    cases m with
    | create =>
      have performed : (program 0 .main (.main .create)).perform (program 0) s .main =
          some (.create .waiter, (s.put .waiter (.ready (.waiter .init))).put .main
            (.ready (.main .lock))) := by
        have created : createRtThread 0 = 0 := rfl
        rw [program, main, if_pos created, Op.perform, knows]
      cases quiet _ _ (.run there performed)
    | join value =>
      obtain ⟨-, moved, last⟩ := knows
      have born : ∀ l, s.thread .waiter ≠ .unborn l := by
        intro l unborn
        rw [unborn] at moved
        cases moved
      rcases waiter_of_over quiet scene born with ended | ⟨calling, place⟩ | ⟨-, place, none⟩
      · have finished : s.finished (program 0) .waiter = true := by
          rw [State.finished, ended]
          rfl
        have joins : program 0 .main (.main (.join value)) =
            .join .waiter (.main (.unlock value)) := rfl
        obtain ⟨s', step, -⟩ := exists_join (Q := kernel) there joins finished
        cases quiet _ _ step
      · rw [calling] at moved
        simp [SignalRestart.moved, place] at moved
      · rw [last place] at none
        cases none
    | exit value => exact ⟨value, rfl⟩
    | out value =>
      rw [program, main] at idle
      split_ifs at idle <;> cases idle
    | lock | kill | requeue old | killAgain value | unlock value => exact absurd rfl (no_call _ _)
    | createFailed | requeueFailed => exact knows.elim
    | _ => cases idle
  | calling l =>
    rw [there] at at_main
    obtain rfl : l = .main m := at_main
    obtain ⟨c, k, op⟩ := calling_at_call (fun t l => by cases t <;> simp [start]) run.reachable there
    have owner := scene.owner
    cases m with
    | lock =>
      have refused := refuses_of_over quiet there rfl (.ok 0) rfl
      simp [leaveCall, owner, MainPc.owns] at refused
    | kill | killAgain value =>
      have refused := refuses_of_over quiet there rfl (.ok 0) rfl
      simp [leaveCall] at refused
    | requeue old =>
      obtain ⟨not_moved, born⟩ := scene.knows
      rcases waiter_of_over quiet scene born with ended | ⟨-, place⟩ | ⟨calling, place, -⟩
      · rw [ended] at not_moved
        cases not_moved
      · -- the requeue finds the waiter
        have refused := refuses_of_over quiet there rfl (.ok 1) rfl
        simp [leaveCall, place, SysResult.ok] at refused
      · rw [calling, place] at not_moved
        cases not_moved
    | unlock value =>
      have refused := refuses_of_over quiet there rfl (.ok 0) rfl
      simp [leaveCall, owner, MainPc.owns] at refused
    | create =>
      unfold program main at op
      split_ifs at op
    | out value =>
      unfold program main at op
      dsimp only at op
      split_ifs at op
    | _ => cases op

/-- **How the test ends.** Under its kernel a run has at most 28 steps, and six more for every
requeue that moves nobody; whatever has happened so far, it can go on without one until main
has printed its verdict; and that is a pass, or a failure exactly if the waiter has read
`requeued` before main has set it. -/
theorem test_ends :
    machine.Bounded (fun e => !movesNobody e) 28 6 ∧
    (∀ w s, machine.Run w s → ∃ w' t v, machine.Run (w ++ w') t ∧
      (∀ e ∈ w', movesNobody e = false) ∧ t.thread .main = .ready (.main (.exit v))) ∧
    ∀ w s v, machine.Run w s → s.loc .main = .main (.exit v) →
      (v = retPass ∨ v = retFail) ∧ (v = retFail ↔ ReadsEarly w) := by
  have ranks : (start boot).total Loc.rank Loc.rankInside KernelState.rank = 28 := rfl
  have bounded : machine.Bounded (fun e => !movesNobody e) 28 6 := ranks ▸ descends.bounded
  refine ⟨bounded, ?_, ?_⟩
  · intro w s run
    obtain ⟨w', t, further, counted, quiet⟩ := bounded.exists_stuck run
    obtain ⟨v, ended⟩ := exit_of_over further quiet
    exact ⟨w', t, v, further, fun e member => by simpa using counted e member, ended⟩
  · intro w s v run ended
    obtain ⟨m, at_main, scene⟩ := exists_scene run
    obtain rfl : m = .exit v := Loc.main.inj (at_main.loc_eq.symm.trans ended)
    obtain ⟨value, at_exit⟩ := scene.knows
    have waiter := scene.waiter
    rw [at_exit] at waiter
    -- what the waiter has found decides
    rcases waiter.2 with ⟨early, fail⟩ | ⟨fine, pass⟩
    · rw [value, fail]
      exact ⟨.inr rfl, iff_of_true rfl early⟩
    · rw [value, pass]
      exact ⟨.inl rfl, iff_of_false (by decide) fine⟩

end SignalRestart
