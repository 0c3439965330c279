import Futextest.SignalRestart

/-!
# Signals before and after the requeue

The kernel of the test as its description has it: a signal that the waiter handles
while it is queued on `f1` restarts its call, and one that it handles after it was
requeued ends the call with `EWOULDBLOCK`. A signal stays pending until the waiter
handles it, at any moment. The requeue moves the waiter to `f2` if it is queued on `f1`,
which it is not while the handler runs, and may fail.

A signal from the loop of main may still be pending when the requeue has moved the
waiter. If the waiter then returns before main has set `requeued`, it takes the return
for a failure of the kernel. This is the only way for the test to fail.

## Main definitions

* `kernel` — the kernel, with the place where the waiter waits and a pending signal
* `SetBeforeTest` — the waiter tests `requeued` only after main has set it

## Main results

* `signal_restart_passes` — under this condition the test passes
* `signal_restart_fails` — without it the waiter may report a failure
-/

namespace SignalRestart

open Syscalls

/-! ## The kernel -/

/-- Where the waiter is for the kernel: not in its call, queued on `f1`, handling a
signal that found it there, queued on `f2`, or about to return with `f2`. -/
inductive Place
  | away
  | f1
  | handler
  | f2
  | granted
  deriving DecidableEq

/-- The owner of `f2`, the place of the waiter, and whether a signal is pending. -/
structure KernelState where
  owner : Option Party
  place : Place
  pending : Bool
  deriving DecidableEq

/-- A thread enters a call: the waiter is queued on `f1` if that has the value it
expects. -/
def enterCall (mem : Cell → ℤ) (κ : KernelState) : Party → Call → KernelState
  | .waiter, .waitRequeuePi old => if mem .f1 = old then { κ with place := .f1 } else κ
  | _, _ => κ

/-- A call returns. The owner of `f2` hands it to the waiter if that is queued for it; a
requeue that does not fail returns how many threads it moved. -/
def leaveCall (κ : KernelState) (t : Party) (r : SysResult) : Call → Option KernelState
  | .lockPi => if κ.owner = none ∧ r = .ok 0 then some { κ with owner := some t } else none
  | .unlockPi =>
      if κ.owner = some t then
        if r = .ok 0 then
          some (if κ.place = .f2 then { κ with owner := some .waiter, place := .granted }
            else { κ with owner := none })
        else none
      else if r = .error eperm then some κ else none
  | .kill => if r = .ok 0 then some { κ with pending := true } else none
  | .cmpRequeuePi _ =>
      if r.ret < 0 then some κ
      else if κ.place = .f1 then
        if r = .ok 1 then
          some (if κ.owner = none then { κ with owner := some .waiter, place := .granted }
            else { κ with place := .f2 })
        else none
      else if r = .ok 0 then some κ else none
  | .waitRequeuePi _ =>
      match κ.place with
      | .away => if r = .error ewouldblock then some κ else none
      | .f1 | .handler => none
      | .f2 =>
          if κ.pending ∧ r = .error ewouldblock then
            some { κ with place := .away, pending := false }
          else none
      | .granted => if r = .ok 0 then some { κ with place := .away } else none

/-- The waiter handles a signal outside its call or on `f1`, where the call is then
restarted. -/
def handleSignal (κ : KernelState) : Party → Option KernelState
  | .main => none
  | .waiter =>
      match κ.place with
      | .away => if κ.pending then some { κ with pending := false } else none
      | .f1 => if κ.pending then some { κ with place := .handler, pending := false } else none
      | .handler => some { κ with place := .f1 }
      | .f2 | .granted => none

/-- The kernel of the test. -/
def kernel : Kernel Cell Call Party KernelState where
  enter mem κ t c := some (enterCall mem κ t c)
  leave κ t c r := leaveCall κ t r c
  act κ t := handleSignal κ t

/-- Nobody owns `f2`, and no signal is pending. -/
def boot : KernelState := ⟨none, .away, false⟩

/-- States of the test under this kernel. -/
abbrev TestState := State Cell Party Loc KernelState

/-- The test under this kernel, with a waiter that can be created. -/
abbrev machine : System TestState TestEvent := Syscalls.machine kernel (program 0) (start boot)

/-! ## What holds under the condition -/

/-- Main is past its `atomic_set`. -/
def MainPc.published : MainPc → Bool
  | .killAgain _ | .join _ | .unlock _ | .out _ | .exit _ => true
  | _ => false

/-- Main owns `f2`. -/
def MainPc.owns : MainPc → Bool
  | .kill | .load | .requeue _ | .setRequeued | .killAgain _ | .join _ | .unlock _ => true
  | _ => false

/-- Main has joined the waiter. -/
def MainPc.joined : MainPc → Bool
  | .unlock _ | .out _ | .exit _ => true
  | _ => false

/-- Main has seen no error. -/
def MainPc.Passes : MainPc → Prop
  | .createFailed | .requeueFailed => False
  | .killAgain ret | .join ret | .unlock ret | .out ret | .exit ret => ret = retPass
  | _ => True

/-- The waiter has seen no failure, and its call can only have returned with
`EWOULDBLOCK`. -/
def WaiterPc.Passes : WaiterPc → Prop
  | .fail _ | .unlock | .setFail => False
  | .test result => result.errno = ewouldblock
  | _ => True

/-- A thread at this control point has published the requeue. -/
def Loc.published : Loc → Bool
  | .main m => m.published
  | .waiter _ => false

/-- A thread at this control point tests `requeued`. -/
def Loc.tests : Loc → Bool
  | .waiter (.test _) => true
  | _ => false

/-- The waiter tests `requeued` only after main has set it. -/
def SetBeforeTest (s : TestState) (e : TestEvent) : Prop :=
  e.pc.tests → (s.loc .main).published

instance (s : TestState) (e : TestEvent) : Decidable (SetBeforeTest s e) :=
  inferInstanceAs (Decidable (_ → _))

/-- What ties cells, control points and kernel together under the condition. -/
structure Inv (mem : Cell → ℤ) (loc : Party → Loc) (κ : KernelState) (m : MainPc) (p : WaiterPc) :
    Prop where
  atMain : loc .main = .main m
  atWaiter : loc .waiter = .waiter p
  clean : mem .waiterRet = retPass
  published : m.published → mem .requeued = 1
  mainPasses : m.Passes
  waiterPasses : p.Passes
  owner : m.owns → κ.owner = some .main
  joined : m.joined → p = .exit
  place : κ.place ≠ .away → ∃ old, p = .wait old
  granted : κ.place ≠ .granted

variable {mem mem' : Cell → ℤ} {loc : Party → Loc} {κ κ' : KernelState} {m : MainPc} {p : WaiterPc}
  {access : Access Cell Call Party} {l : Loc} {t : Party} {r : SysResult}

/-- The result of a requeue sends main to its head or to its `atomic_set`. -/
theorem afterRequeue_cases (res : ℤ) :
    (afterRequeue res = .kill ∧ ¬ 0 < res) ∨ (afterRequeue res = .setRequeued ∧ 0 < res) := by
  unfold afterRequeue loopExit
  by_cases positive : 0 < res
  · exact .inr ⟨by simp [positive], positive⟩
  · exact .inl ⟨by simp [positive], positive⟩

/-! ## What the calls do to the kernel -/

/-- A signal is pending after it was sent. -/
theorem leaveCall_kill (left : leaveCall κ t r .kill = some κ') :
    κ' = { κ with pending := true } := by
  have sent : (if r = .ok 0 then some { κ with pending := true } else none) = some κ' := left
  rw [Option.ite_none_right_eq_some] at sent
  exact (Option.some.inj sent.2).symm

/-- Whoever locks `f2` owns it afterwards, and that is all. -/
theorem leaveCall_lockPi (left : leaveCall κ t r .lockPi = some κ') :
    κ' = { κ with owner := some t } := by
  have locked : (if κ.owner = none ∧ r = .ok 0 then some { κ with owner := some t } else none) =
      some κ' := left
  rw [Option.ite_none_right_eq_some] at locked
  exact (Option.some.inj locked.2).symm

/-- While `f2` has an owner, a requeue gives it to nobody: it moves the waiter from `f1`,
or changes nothing. -/
theorem leaveCall_cmpRequeuePi {old : ℤ} (owned : κ.owner ≠ none)
    (left : leaveCall κ t r (.cmpRequeuePi old) = some κ') :
    κ' = κ ∨ κ.place = .f1 ∧ κ' = { κ with place := .f2 } := by
  simp only [leaveCall, if_neg owned] at left
  split at left
  · exact .inl (Option.some.inj left).symm
  · split at left
    · rename_i queued
      rw [Option.ite_none_right_eq_some] at left
      exact .inr ⟨queued, (Option.some.inj left.2).symm⟩
    · rw [Option.ite_none_right_eq_some] at left
      exact .inl (Option.some.inj left.2).symm

/-- An unlock hands `f2` to nobody that is not queued for it. -/
theorem leaveCall_unlockPi (away : κ.place = .away)
    (left : leaveCall κ t r .unlockPi = some κ') : κ'.place = .away := by
  simp only [leaveCall, away] at left
  split at left
  · rw [Option.ite_none_right_eq_some] at left
    obtain ⟨-, same⟩ := left
    rw [← Option.some.inj same, if_neg (by decide)]
  · rw [Option.ite_none_right_eq_some] at left
    rw [← Option.some.inj left.2]
    exact away

/-- A waiter that is not given `f2` returns only with `EWOULDBLOCK`. -/
theorem leaveCall_waitRequeuePi {old : ℤ} (given : κ.place ≠ .granted)
    (left : leaveCall κ t r (.waitRequeuePi old) = some κ') :
    r.errno = ewouldblock ∧ κ'.place = .away ∧ κ'.owner = κ.owner := by
  simp only [leaveCall] at left
  split at left
  · rename_i place
    rw [Option.ite_none_right_eq_some] at left
    obtain ⟨rfl, same⟩ := left
    rw [← Option.some.inj same]
    exact ⟨rfl, place, rfl⟩
  · cases left
  · cases left
  · rw [Option.ite_none_right_eq_some] at left
    obtain ⟨⟨-, rfl⟩, same⟩ := left
    rw [← Option.some.inj same]
    exact ⟨rfl, rfl, rfl⟩
  · rename_i place
    -- nobody has handed `f2` on
    exact absurd place given

/-- The handler takes the waiter off `f1` and puts it back, and `f2` keeps its
owner. -/
theorem handleSignal_keeps (given : κ.place ≠ .granted)
    (acted : handleSignal κ .waiter = some κ') :
    κ'.owner = κ.owner ∧ κ'.place ≠ .granted ∧ (κ'.place ≠ .away → κ.place ≠ .away) := by
  simp only [handleSignal] at acted
  split at acted
  · rw [Option.ite_none_right_eq_some] at acted
    rw [← Option.some.inj acted.2]
    exact ⟨rfl, given, id⟩
  · rename_i place
    rw [Option.ite_none_right_eq_some] at acted
    rw [← Option.some.inj acted.2]
    exact ⟨rfl, nofun, fun _ => by simp [place]⟩
  · rename_i place
    rw [← Option.some.inj acted]
    exact ⟨rfl, nofun, fun _ => by simp [place]⟩
  · cases acted
  · cases acted

/-! ## The steps -/

/-- After a requeue main still owns `f2`, and the waiter is still in its call. -/
theorem Inv.requeued {old : ℤ} (inv : Inv mem loc κ (.requeue old) p)
    (left : leaveCall κ .main r (.cmpRequeuePi old) = some κ') :
    κ'.owner = some .main ∧ (κ'.place ≠ .away → ∃ old, p = .wait old) ∧ κ'.place ≠ .granted := by
  have owner : κ.owner = some .main := inv.owner rfl
  rcases leaveCall_cmpRequeuePi (by simp [owner]) left with rfl | ⟨queued, rfl⟩
  · exact ⟨owner, inv.place, inv.granted⟩
  · exact ⟨owner, fun _ => inv.place (by simp [queued]), nofun⟩

/-- Main unlocks `f2` when the waiter has finished. -/
theorem Inv.unlocked {ret : ℤ} (inv : Inv mem loc κ (.unlock ret) p)
    (left : leaveCall κ .main r .unlockPi = some κ') : κ'.place = .away := by
  apply leaveCall_unlockPi ?_ left
  by_contra busy
  obtain ⟨old, waits⟩ := inv.place busy
  rw [inv.joined rfl] at waits
  cases waits

/-- An operation of main keeps the invariant. -/
theorem Inv.main_next (inv : Inv mem loc κ m p)
    (next : (SignalRestart.main 0 m).Next (program 0) mem loc access mem' l)
    (changes : kernel.Changes mem κ .main access κ') :
    ∃ m', Inv mem' (Function.update loc .main l) κ' m' p := by
  have elsewhere : ∀ l, Function.update loc Party.main l .waiter = .waiter p := by
    intro l
    rw [Function.update_of_ne (by decide)]
    exact inv.atWaiter
  have here : ∀ m', Function.update loc Party.main (Loc.main m') .main = .main m' :=
    fun m' => Function.update_self _ _ _
  cases m with
  | create =>
    -- here the waiter can be created
    have created : createRtThread 0 = 0 := rfl
    rw [SignalRestart.main, if_pos created] at next
    cases next
    obtain rfl : κ' = κ := changes
    exact ⟨.lock, here _, elsewhere _, inv.clean, nofun, trivial, inv.waiterPasses, nofun, nofun,
      inv.place, inv.granted⟩
  | createFailed | requeueFailed => exact inv.mainPasses.elim
  | lock =>
    cases next with
    | leave c k r =>
      have left : leaveCall κ .main r .lockPi = some κ' := changes
      obtain rfl := leaveCall_lockPi left
      exact ⟨.kill, here _, elsewhere _, inv.clean, nofun, trivial, inv.waiterPasses, fun _ => rfl,
        nofun, inv.place, inv.granted⟩
  | kill =>
    cases next with
    | leave c k r =>
      have left : leaveCall κ .main r .kill = some κ' := changes
      obtain rfl := leaveCall_kill left
      exact ⟨.load, here _, elsewhere _, inv.clean, nofun, trivial, inv.waiterPasses, inv.owner,
        nofun, inv.place, inv.granted⟩
  | load =>
    cases next with
    | load a k =>
      obtain rfl : κ' = κ := changes
      exact ⟨.requeue _, here _, elsewhere _, inv.clean, nofun, trivial, inv.waiterPasses,
        inv.owner, nofun, inv.place, inv.granted⟩
  | requeue old =>
    cases next with
    | leave c k r =>
      have left : leaveCall κ .main r (.cmpRequeuePi old) = some κ' := changes
      obtain ⟨kept, place, granted⟩ := inv.requeued left
      dsimp only
      -- nothing was moved, or one waiter was
      rcases afterRequeue_cases r.ret with ⟨after, -⟩ | ⟨after, -⟩
      · rw [after]
        exact ⟨.kill, here _, elsewhere _, inv.clean, nofun, trivial, inv.waiterPasses,
          fun _ => kept, nofun, place, granted⟩
      · rw [after]
        exact ⟨.setRequeued, here _, elsewhere _, inv.clean, nofun, trivial, inv.waiterPasses,
          fun _ => kept, nofun, place, granted⟩
  | setRequeued =>
    cases next with
    | store a v k =>
      obtain rfl : κ' = κ := changes
      exact ⟨.killAgain retPass, here _, elsewhere _, inv.clean, fun _ => rfl, rfl,
        inv.waiterPasses, inv.owner, nofun, inv.place, inv.granted⟩
  | killAgain ret =>
    cases next with
    | leave c k r =>
      have left : leaveCall κ .main r .kill = some κ' := changes
      obtain rfl := leaveCall_kill left
      exact ⟨.join ret, here _, elsewhere _, inv.clean, inv.published, inv.mainPasses,
        inv.waiterPasses, inv.owner, nofun, inv.place, inv.granted⟩
  | join ret =>
    cases next with
    | join u k ended =>
      obtain rfl : κ' = κ := changes
      -- the join returns when the waiter has finished
      have finished : p = .exit := by
        rw [inv.atWaiter] at ended
        cases p with
        | exit => rfl
        | _ => cases ended
      exact ⟨.unlock ret, here _, elsewhere _, inv.clean, inv.published, inv.mainPasses,
        inv.waiterPasses, inv.owner, fun _ => finished, inv.place, inv.granted⟩
  | unlock ret =>
    cases next with
    | leave c k r =>
      have left : leaveCall κ .main r .unlockPi = some κ' := changes
      have kept := inv.unlocked left
      exact ⟨.out ret, here _, elsewhere _, inv.clean, inv.published, inv.mainPasses,
        inv.waiterPasses, nofun, fun _ => inv.joined rfl, fun busy => absurd kept busy,
        by simp [kept]⟩
  | out ret =>
    have pass : ret = retPass := inv.mainPasses
    rw [SignalRestart.main, if_pos pass] at next
    cases next with
    | load a k =>
      obtain rfl : κ' = κ := changes
      -- the waiter has not stored a failure
      have verdict : (if mem .waiterRet ≠ 0 then mem .waiterRet else ret) = retPass := by
        rw [inv.clean, pass]
        rfl
      dsimp only
      rw [verdict]
      exact ⟨.exit retPass, here _, elsewhere _, inv.clean, inv.published, rfl, inv.waiterPasses,
        nofun, inv.joined, inv.place, inv.granted⟩
  | exit ret => cases next

/-- An operation of the waiter keeps the invariant, if main has set `requeued` when the
waiter tests it. -/
theorem Inv.waiter_next (inv : Inv mem loc κ m p) (set : ∀ result, p = .test result → m.published)
    (next : (waiterfn p).Next (program 0) mem loc access mem' l)
    (changes : kernel.Changes mem κ .waiter access κ') :
    ∃ p', Inv mem' (Function.update loc .waiter l) κ' m p' := by
  have elsewhere : ∀ l, Function.update loc Party.waiter l .main = .main m := by
    intro l
    rw [Function.update_of_ne (by decide)]
    exact inv.atMain
  have here : ∀ p', Function.update loc Party.waiter (Loc.waiter p') .waiter = .waiter p' :=
    fun p' => Function.update_self _ _ _
  have alive : p ≠ .exit → m.joined = true → False := fun running gone => running (inv.joined gone)
  have away : (∀ old, p ≠ .wait old) → κ.place = .away := by
    intro elsewhere
    by_contra busy
    obtain ⟨old, waits⟩ := inv.place busy
    exact elsewhere old waits
  cases p with
  | init =>
    cases next with
    | store a v k =>
      obtain rfl : κ' = κ := changes
      exact ⟨.load, elsewhere _, here _, rfl, inv.published, inv.mainPasses, trivial, inv.owner,
        fun gone => (alive nofun gone).elim, fun busy => absurd (away nofun) busy, inv.granted⟩
  | load =>
    cases next with
    | load a k =>
      obtain rfl : κ' = κ := changes
      exact ⟨.wait _, elsewhere _, here _, inv.clean, inv.published, inv.mainPasses, trivial,
        inv.owner, fun gone => (alive nofun gone).elim, fun busy => absurd (away nofun) busy,
        inv.granted⟩
  | wait old =>
    cases next with
    | leave c k r =>
      have left : leaveCall κ .waiter r (.waitRequeuePi old) = some κ' := changes
      -- nobody has given the waiter `f2`
      obtain ⟨errno, place, owner⟩ := leaveCall_waitRequeuePi inv.granted left
      exact ⟨.test r, elsewhere _, here _, inv.clean, inv.published, inv.mainPasses, errno,
        fun owns => owner.trans (inv.owner owns), fun gone => (alive nofun gone).elim,
        fun busy => absurd place busy, by simp [place]⟩
  | test result =>
    cases next with
    | load a k =>
      obtain rfl : κ' = κ := changes
      -- this is where the condition is used
      have requeued : mem .requeued = 1 := inv.published (set result rfl)
      have errno : result.errno = ewouldblock := inv.waiterPasses
      dsimp only
      rw [requeued, errno, if_neg (by decide)]
      exact ⟨.exit, elsewhere _, here _, inv.clean, inv.published, inv.mainPasses, trivial,
        inv.owner, fun _ => rfl, fun busy => absurd (away nofun) busy, inv.granted⟩
  | fail result | unlock | setFail => exact inv.waiterPasses.elim
  | exit => cases next

/-- A step under the condition keeps the invariant. -/
theorem Inv.step {s s' : TestState} {e : TestEvent} (inv : Inv s.mem s.loc s.kernel m p)
    (set : SetBeforeTest s e) (step : Step kernel (program 0) s e s') :
    ∃ m' p', Inv s'.mem s'.loc s'.kernel m' p' := by
  have move := Step.move step
  have changes := Step.changes step
  generalize s'.mem = mem', s'.loc = loc', s'.kernel = κ' at move changes ⊢
  cases move with
  | enter t c k op =>
    obtain same : enterCall s.mem s.kernel t c = κ' := Option.some.inj changes
    cases t with
    | main =>
      obtain rfl : s.kernel = κ' := same
      exact ⟨m, p, inv⟩
    | waiter =>
      rw [inv.atWaiter] at op
      cases p with
      | wait old =>
        cases op
        -- the call queues the waiter, or finds another value and returns
        have entered : κ'.owner = s.kernel.owner ∧ κ'.place ≠ .granted := by
          rw [← same, enterCall]
          split
          · exact ⟨rfl, nofun⟩
          · exact ⟨rfl, inv.granted⟩
        refine ⟨m, .wait old, ?_⟩
        exact { inv with
          owner := fun owns => entered.1.trans (inv.owner owns)
          place := fun _ => ⟨old, rfl⟩
          granted := entered.2 }
      | unlock => exact inv.waiterPasses.elim
      | init | load | test result | fail result | setFail | exit => cases op
  | act t =>
    cases t with
    | main => cases changes
    | waiter =>
      obtain ⟨owner, granted, place⟩ := handleSignal_keeps inv.granted changes
      refine ⟨m, p, ?_⟩
      exact { inv with
        owner := fun owns => owner.trans (inv.owner owns)
        place := fun busy => inv.place (place busy)
        granted := granted }
  | next t next =>
    cases t with
    | main =>
      have at_main : program 0 .main (s.loc .main) = SignalRestart.main 0 m := by
        rw [inv.atMain, program]
      rw [at_main] at next
      obtain ⟨m', inv'⟩ := inv.main_next next changes
      exact ⟨m', p, inv'⟩
    | waiter =>
      have at_waiter : program 0 .waiter (s.loc .waiter) = waiterfn p := by
        rw [inv.atWaiter, program]
      rw [at_waiter] at next
      have tested : ∀ result, p = .test result → m.published := by
        rintro result rfl
        have here : (s.loc .waiter).tests := by rw [inv.atWaiter]; rfl
        have there := set here
        rwa [inv.atMain] at there
      obtain ⟨p', inv'⟩ := inv.waiter_next tested next changes
      exact ⟨m, p', inv'⟩

theorem exists_inv {s : TestState} (reach : (machine.restrict SetBeforeTest).Reachable s) :
    ∃ m p, Inv s.mem s.loc s.kernel m p := by
  have inv : (machine.restrict SetBeforeTest).Invariant
      fun s => ∃ m p, Inv s.mem s.loc s.kernel m p := by
    constructor
    · rintro s rfl
      exact ⟨.create, .init, rfl, rfl, rfl, nofun, trivial, trivial, nofun, nofun,
        fun busy => absurd rfl busy, nofun⟩
    · rintro s e s' - ⟨m, p, inv⟩ ⟨step, set⟩
      exact inv.step set step
  exact inv.of_reachable reach

/-- **The signal-restart test under its kernel.** In every run in which the waiter tests
`requeued` only after main has set it: the waiter never sees a failure, `waiter_ret`
stays `RET_PASS`, and main can only report `RET_PASS`. -/
theorem signal_restart_passes {s : TestState}
    (reach : (machine.restrict SetBeforeTest).Reachable s) :
    s.mem .waiterRet ≠ retFail ∧ (∀ result, s.loc .waiter ≠ .waiter (.fail result)) ∧
    s.loc .waiter ≠ .waiter .setFail ∧ ∀ ret, s.loc .main = .main (.exit ret) → ret = retPass := by
  obtain ⟨m, p, inv⟩ := exists_inv reach
  refine ⟨?_, ?_, ?_, ?_⟩
  · rw [inv.clean]
    decide
  · intro result failed
    have passes := inv.waiterPasses
    rw [inv.atWaiter] at failed
    cases failed
    exact passes
  · intro failed
    have passes := inv.waiterPasses
    rw [inv.atWaiter] at failed
    cases failed
    exact passes
  · intro ret done
    have passes := inv.mainPasses
    rw [inv.atMain] at done
    cases done
    exact passes

/-- The first signal finds the waiter on `f1` and restarts its call, so that the requeue
moves nobody. The second is still pending after the next requeue; the waiter handles it
once `requeued` is set. -/
def handledInTime : List (Choice Party) :=
  List.flatten [
    [.run .main], Choice.calls .main (.ok 0), Choice.ops .waiter 3,
    Choice.calls .main (.ok 0), [.act .waiter, .run .main], Choice.calls .main (.ok 0),
    [.act .waiter], Choice.calls .main (.ok 0), [.run .main], Choice.calls .main (.ok 1),
    [.run .main, .ret .waiter (.error ewouldblock), .run .waiter],
    Choice.calls .main (.ok 0), [.run .main], Choice.calls .main (.ok 0), [.run .main]]

theorem signal_restart_passes_handledInTime :
    ∃ s, (machine.restrict SetBeforeTest).Reachable s ∧ s.loc .waiter = .waiter .exit ∧
      s.loc .main = .main (.exit 0) ∧ s.mem .waiterRet ≠ retFail := by
  obtain ⟨w, s, run, waiter, done⟩ := exists_run_restrict kernel (program 0) (start boot)
    SetBeforeTest handledInTime
    (fun _ s => s.loc .waiter = .waiter .exit ∧ s.loc .main = .main (.exit 0)) (by decide +kernel)
  exact ⟨s, run.reachable, waiter, done, (signal_restart_passes run.reachable).1⟩

/-- The signal of the loop is pending when the requeue has moved the waiter, which
returns before main has set `requeued`. -/
def handledTooEarly : List (Choice Party) :=
  List.flatten [
    [.run .main], Choice.calls .main (.ok 0), Choice.ops .waiter 3,
    Choice.calls .main (.ok 0), [.run .main], Choice.calls .main (.ok 1),
    [.ret .waiter (.error ewouldblock)], Choice.ops .waiter 3, [.run .main],
    Choice.calls .main (.ok 0), [.run .main], Choice.calls .main (.ok 0), [.run .main]]

/-- The waiter takes a correct kernel for a wrong one, and the test reports it. -/
theorem signal_restart_fails :
    ∃ s, machine.Reachable s ∧ s.mem .waiterRet = retFail ∧
      s.loc .main = .main (.exit retFail) := by
  obtain ⟨w, s, run, failed, done⟩ := exists_run kernel (program 0) (start boot) handledTooEarly
    (fun _ s => s.mem .waiterRet = retFail ∧ s.loc .main = .main (.exit retFail))
    (by decide +kernel)
  exact ⟨s, run.reachable, failed, done⟩

end SignalRestart
