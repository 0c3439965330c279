import Futextest.MismatchedOps

/-!
# The join of `futex_requeue_pi_mismatched_ops`

The test under a kernel that puts the child to sleep in its `futex_wait` if `f1` has the
value it read, and lets it go only when main is in `futex_wake`. The calls of main may
return anything, and whether the wake finds the child is up to the kernel.

Main wakes the child in one case only, when its requeue is refused with `EINVAL`. In all
other cases it goes to `pthread_join` all the same, and there it stays: nobody else wakes
the child. The test ends in exactly the runs in which main's wake reaches the child.

## Main definitions

* `kernel` — the kernel, with the place of the child
* `Stuck` — main joins a child that is asleep
* `WakesChild` — main only goes to its join over a wake that has reached the child

## Main results

* `join_ends_iff` — under this condition main is never stuck, and every step against it
  leads to a state in which it is
* `join_stuck` — a run in which the child is late
-/

namespace MismatchedOps

open Syscalls

/-! ## The kernel -/

/-- Where the child is for the kernel: not yet in its call, asleep on `f1`, or free to
return. -/
inductive Place
  | away
  | asleep
  | awake
  deriving DecidableEq

/-- The place of the child, and whether main is in `futex_wake`. -/
structure KernelState where
  child : Place
  waking : Bool
  deriving DecidableEq

/-- A thread enters a call: the child goes to sleep if `f1` has the value it expects. -/
def enterCall (mem : Cell → ℤ) (κ : KernelState) : Call → KernelState
  | .wait expected => { κ with child := if mem .f1 = expected then .asleep else .awake }
  | .cmpRequeuePi _ => κ
  | .wake => { κ with waking := true }

/-- A call returns, with any result. A child that is asleep stays in its call. -/
def leaveCall (κ : KernelState) : Call → Option KernelState
  | .wait _ => if κ.child = .asleep then none else some κ
  | .cmpRequeuePi _ => some κ
  | .wake => some { κ with waking := false }

/-- The wake reaches the child. -/
def wakeChild (κ : KernelState) : Option KernelState :=
  if κ.waking ∧ κ.child = .asleep then some { κ with child := .awake } else none

/-- The kernel of the test. -/
def kernel : Kernel Cell Call Party KernelState where
  enter mem κ _ c := some (enterCall mem κ c)
  leave κ _ c _ := leaveCall κ c
  act κ _ := wakeChild κ

/-- The child has not come, and nobody is woken. -/
def boot : KernelState := ⟨.away, false⟩

/-- States of the test under this kernel. -/
abbrev TestState := State Cell Party Loc KernelState

/-- The test under this kernel. -/
abbrev machine (pthreadCreate : ℤ) : System TestState TestEvent :=
  Syscalls.machine kernel (program pthreadCreate) (start boot)

/-- Main joins a child that is asleep on `f1`. -/
def Stuck (s : TestState) : Prop :=
  (∃ ret, s.loc .main = .main (.join ret)) ∧ s.kernel.child = .asleep

/-- A requeue is refused with `EINVAL`, and the wake that follows returns when it has
reached the child. -/
def Wakes (κ : KernelState) : Access Cell Call Party → Prop
  | .leave (.cmpRequeuePi _) r => r.ret < 0 ∧ r.errno = einval
  | .leave .wake _ => κ.child = .awake
  | _ => True

instance (κ : KernelState) (access : Access Cell Call Party) : Decidable (Wakes κ access) := by
  unfold Wakes
  split <;> infer_instance

/-- Main goes to its join only after it has woken the child. -/
def WakesChild (s : TestState) (e : TestEvent) : Prop := Wakes s.kernel e.access

instance (s : TestState) (e : TestEvent) : Decidable (WakesChild s e) :=
  inferInstanceAs (Decidable (Wakes _ _))

/-! ## Where the threads are -/

/-- The child has returned from its wait. -/
def ChildPc.returned : ChildPc → Bool
  | .load | .wait _ => false
  | .store _ | .failed _ | .exit => true

/-- Where the child is, by its place for the kernel. -/
def ChildAt : Place → Status Loc → Prop
  | .away, .unborn l | .away, .ready l => l = .child .load ∨ l = .child (.wait 0)
  | .asleep, .calling l | .awake, .calling l => l = .child (.wait 0)
  | .awake, .ready l => ∃ c, l = .child c ∧ c.returned = true
  | _, _ => False

/-- What main has done for the child. Before its wake nobody has woken it. -/
def MainAt (born : Prop) (κ : KernelState) : MainPc → Prop
  | .create => κ.child ≠ .awake ∧ κ.waking = false
  | .load | .requeue _ => born ∧ κ.child ≠ .awake ∧ κ.waking = false
  | .wake | .report _ | .join _ => born
  | .createFailed | .out _ | .exit _ => True

/-- Main is on its way to the join only if the child is awake. -/
def Reached (κ : KernelState) : MainPc → Prop
  | .report _ | .join _ => κ.child = .awake
  | _ => True

/-- The child has been created. -/
def ChildBorn (s : TestState) : Prop := ∀ l, s.thread .child ≠ .unborn l

variable {pthreadCreate : ℤ} {s s' : TestState} {e : TestEvent} {mem mem' : Cell → ℤ}
  {loc : Party → Loc} {access : Access Cell Call Party} {l' : Loc} {κ κ' : KernelState}
  {born : Prop} {m : MainPc}

/-- The calls of main. -/
theorem main_call {c : Call} {k : SysResult → Loc} (op : main pthreadCreate m = .call c k) :
    (∃ expected, m = .requeue expected ∧ c = .cmpRequeuePi expected ∧
        k = fun r => .main (requeued r)) ∨
      m = .wake ∧ c = .wake ∧ k = fun r => .main (woken r) := by
  cases m with
  | requeue expected =>
    cases op
    exact .inl ⟨expected, rfl, rfl, rfl⟩
  | wake =>
    cases op
    exact .inr ⟨rfl, rfl, rfl⟩
  | create | out ret =>
    unfold main at op
    dsimp only at op
    split_ifs at op
  | _ => cases op

/-- The entry of a call of main leaves the child where it is. -/
theorem MainAt.enter {c : Call} {k : SysResult → Loc} (phase : MainAt born κ m)
    (mem : Cell → ℤ) (op : main pthreadCreate m = .call c k) :
    (enterCall mem κ c).child = κ.child ∧ MainAt born (enterCall mem κ c) m ∧
      Reached (enterCall mem κ c) m := by
  rcases main_call op with ⟨expected, rfl, rfl, -⟩ | ⟨rfl, rfl, -⟩
  · exact ⟨rfl, phase, trivial⟩
  · exact ⟨rfl, phase, trivial⟩

/-- Main goes on with the child it has created. -/
theorem requeued_at (r : SysResult) (created : born) : MainAt born κ (requeued r) := by
  unfold requeued
  split_ifs <;> exact created

/-- Only a refusal with `EINVAL` leads to the wake. -/
theorem requeued_reached {r : SysResult} (refused : r.ret < 0 ∧ r.errno = einval) :
    Reached κ (requeued r) := by
  rw [requeued, if_pos refused.1, if_pos refused.2]
  exact trivial

theorem woken_at (r : SysResult) (created : born) : MainAt born κ (woken r) := by
  unfold woken
  split_ifs <;> exact created

theorem woken_reached {r : SysResult} (awake : κ.child = .awake) : Reached κ (woken r) := by
  unfold woken
  split_ifs <;> exact awake

theorem MainAt.next (phase : MainAt born κ m)
    (next : (main pthreadCreate m).Next (program pthreadCreate) mem loc access mem' l')
    (changes : kernel.Changes mem κ .main access κ') :
    ∃ m', l' = .main m' ∧ mem' = mem ∧ κ'.child = κ.child ∧
      MainAt (born ∨ access = .create .child) κ' m' ∧
      (Wakes κ access → Reached κ m → Reached κ' m') := by
  cases m with
  | create =>
    unfold main at next
    dsimp only at next
    split_ifs at next
    · cases next
      cases changes
      exact ⟨_, rfl, rfl, rfl, ⟨.inr rfl, phase⟩, fun _ _ => trivial⟩
    · cases next
      cases changes
      exact ⟨_, rfl, rfl, rfl, trivial, fun _ _ => trivial⟩
  | createFailed =>
    cases next
    cases changes
    exact ⟨_, rfl, rfl, rfl, trivial, fun _ _ => trivial⟩
  | load =>
    cases next
    cases changes
    exact ⟨_, rfl, rfl, rfl, ⟨.inl phase.1, phase.2⟩, fun _ _ => trivial⟩
  | requeue expected =>
    cases next with
    | leave c k r =>
      cases changes
      exact ⟨_, rfl, rfl, rfl, requeued_at r (.inl phase.1), fun wakes _ => requeued_reached wakes⟩
  | wake =>
    cases next with
    | leave c k r =>
      cases changes
      exact ⟨_, rfl, rfl, rfl, woken_at r (.inl phase), fun wakes _ => woken_reached wakes⟩
  | report ret =>
    cases next
    cases changes
    exact ⟨_, rfl, rfl, rfl, .inl phase, fun _ awake => awake⟩
  | join ret =>
    cases next
    cases changes
    exact ⟨_, rfl, rfl, rfl, trivial, fun _ _ => trivial⟩
  | out ret =>
    unfold main at next
    dsimp only at next
    split_ifs at next
    all_goals
      cases next
      cases changes
      exact ⟨_, rfl, rfl, rfl, trivial, fun _ _ => trivial⟩
  | exit ret => cases next

/-- A child that enters its wait goes to sleep. -/
theorem ChildAt.enter {c : Call} {k : SysResult → Loc} (f1 : mem .f1 = 0)
    (child : ChildAt κ.child (.ready l')) (op : program pthreadCreate .child l' = .call c k) :
    κ.child = .away ∧ enterCall mem κ c = { κ with child := .asleep } ∧
      ChildAt .asleep (.calling l') := by
  cases place : κ.child with
  | away =>
    rw [place] at child
    rcases child with rfl | rfl
    · cases op
    · cases op
      refine ⟨rfl, ?_, rfl⟩
      rw [enterCall, if_pos f1]
  | asleep =>
    rw [place] at child
    exact child.elim
  | awake =>
    rw [place] at child
    obtain ⟨pc, rfl, returned⟩ := child
    cases pc with
    | load | wait expected => cases returned
    | _ => cases op

/-- A child that goes on has not come to its wait, or is past it. -/
theorem ChildAt.next {x : Status Loc} {l : Loc} (f1 : mem .f1 = 0) (child : ChildAt κ.child x)
    (running : x = .ready l ∧ (∀ c k, program pthreadCreate .child l ≠ .call c k) ∨
      x = .calling l ∧ ∃ c r, access = .leave c r)
    (next : (program pthreadCreate .child l).Next (program pthreadCreate) mem loc access mem' l')
    (changes : kernel.Changes mem κ .child access κ') :
    κ' = κ ∧ ChildAt κ.child (.ready l') ∧ mem' .f1 = 0 := by
  rcases running with ⟨rfl, quiet⟩ | ⟨rfl, c, r, leaves⟩
  · cases place : κ.child with
    | away =>
      rw [place] at child
      rcases child with rfl | rfl
      · cases next
        cases changes
        refine ⟨rfl, .inr ?_, f1⟩
        rw [f1]
      · exact absurd rfl (quiet _ _)
    | asleep =>
      rw [place] at child
      exact child.elim
    | awake =>
      rw [place] at child
      obtain ⟨pc, rfl, returned⟩ := child
      cases pc with
      | load | wait expected => cases returned
      | store r =>
        cases next
        cases changes
        refine ⟨rfl, ?_, f1⟩
        split_ifs <;> exact ⟨_, rfl, rfl⟩
      | failed errno =>
        cases next
        cases changes
        exact ⟨rfl, ⟨_, rfl, rfl⟩, f1⟩
      | exit => cases next
  · subst leaves
    cases place : κ.child with
    | away =>
      rw [place] at child
      exact child.elim
    | asleep =>
      -- the kernel does not let it go
      rw [place] at child
      obtain rfl := child
      cases next
      have leaves : leaveCall κ (.wait 0) = some κ' := changes
      rw [leaveCall, if_pos place] at leaves
      cases leaves
    | awake =>
      rw [place] at child
      obtain rfl := child
      cases next
      have leaves : leaveCall κ (.wait 0) = some κ' := changes
      rw [leaveCall, if_neg (by rw [place]; nofun)] at leaves
      cases leaves
      exact ⟨rfl, ⟨_, rfl, rfl⟩, f1⟩

/-! ## Both threads -/

/-- What every run has of its threads. Nobody writes to `f1`. -/
structure Inv (pthreadCreate : ℤ) (s : TestState) (m : MainPc) : Prop where
  f1 : s.mem .f1 = 0
  atMain : s.thread .main = .ready (.main m) ∨
    s.thread .main = .calling (.main m) ∧ ∃ c k, main pthreadCreate m = .call c k
  main : MainAt (ChildBorn s) s.kernel m
  child : ChildAt s.kernel.child (s.thread .child)

theorem Inv.loc_main (inv : Inv pthreadCreate s m) : s.loc .main = .main m := by
  rw [State.loc]
  rcases inv.atMain with ready | ⟨calling, -⟩
  · rw [ready]
    rfl
  · rw [calling]
    rfl

theorem Inv.pc_eq {pc : Loc} (inv : Inv pthreadCreate s m)
    (here : s.thread .main = .ready pc ∨ s.thread .main = .calling pc) : pc = .main m := by
  rw [← inv.loc_main, State.loc]
  rcases here with ready | calling
  · rw [ready]
    rfl
  · rw [calling]
    rfl

theorem MainAt.mono {born' : Prop} (phase : MainAt born κ m) (keeps : born → born') :
    MainAt born' κ m := by
  cases m with
  | load | requeue expected => exact ⟨keeps phase.1, phase.2⟩
  | wake | report ret | join ret => exact keeps phase
  | create | createFailed | out ret | exit ret => exact phase

/-- What the child does to its place does not wake it. -/
theorem MainAt.frame (phase : MainAt born κ m) (waking : κ'.waking = κ.waking)
    (awake : κ'.child = .awake ↔ κ.child = .awake) :
    MainAt born κ' m ∧ (Reached κ m → Reached κ' m) := by
  cases m with
  | create | load | requeue expected =>
    refine ⟨?_, fun _ => trivial⟩
    simp only [MainAt, ne_eq, awake, waking]
    exact phase
  | wake => exact ⟨phase, fun _ => trivial⟩
  | report ret | join ret => exact ⟨phase, awake.mpr⟩
  | createFailed | out ret | exit ret => exact ⟨trivial, fun _ => trivial⟩

/-- The wake of main reaches a child that is asleep. -/
theorem Inv.act (inv : Inv pthreadCreate s m) (acts : wakeChild s.kernel = some κ) :
    MainAt (ChildBorn s) κ m ∧ ChildAt κ.child (s.thread .child) ∧ Reached κ m := by
  rw [wakeChild, Option.ite_none_right_eq_some] at acts
  obtain ⟨⟨waking, asleep⟩, same⟩ := acts
  obtain rfl := Option.some.inj same
  have phase := inv.main
  have child := inv.child
  rw [asleep] at child
  refine ⟨?_, ?_, ?_⟩
  · cases m with
    | create => exact absurd waking (by simp [phase.2])
    | load | requeue expected => exact absurd waking (by simp [phase.2.2])
    | _ => exact phase
  · generalize s.thread .child = x at child
    cases x with
    | calling l => exact child
    | unborn l | ready l => exact child.elim
  · cases m with
    | report ret | join ret => exact rfl
    | _ => exact trivial

/-- Main starts the child, and apart from that leaves it alone. -/
theorem Inv.child_frame (inv : Inv pthreadCreate s m) (same : s'.kernel.child = s.kernel.child)
    (others : access ≠ .create .child ∧ s'.thread .child = s.thread .child ∨
      access = .create .child ∧ ∃ l, s.thread .child = .unborn l ∧ s'.thread .child = .ready l) :
    ChildAt s'.kernel.child (s'.thread .child) ∧
      (ChildBorn s ∨ access = .create .child → ChildBorn s') := by
  have child := inv.child
  rw [same]
  rcases others with ⟨other, stays⟩ | ⟨creates, l, unborn, starts⟩
  · refine ⟨by rwa [stays], ?_⟩
    rintro (born | creates)
    · unfold ChildBorn
      rwa [stays]
    · exact absurd creates other
  · rw [unborn] at child
    refine ⟨?_, fun _ l' => by rw [starts]; nofun⟩
    rw [starts]
    cases place : s.kernel.child with
    | away =>
      rw [place] at child
      exact child
    | asleep | awake =>
      rw [place] at child
      exact child.elim

/-- The child never creates main. -/
theorem Inv.main_frame (inv : Inv pthreadCreate s m)
    (others : access ≠ .create .main ∧ s'.thread .main = s.thread .main ∨
      access = .create .main ∧ ∃ l, s.thread .main = .unborn l ∧ s'.thread .main = .ready l) :
    s'.thread .main = s.thread .main := by
  rcases others with ⟨-, stays⟩ | ⟨-, l, unborn, -⟩
  · exact stays
  · rcases inv.atMain with ready | ⟨calling, -⟩
    · rw [unborn] at ready
      cases ready
    · rw [unborn] at calling
      cases calling

/-- Every step keeps what is known of the threads, and one under the condition keeps
main from its join until the child is awake. -/
theorem Inv.step (inv : Inv pthreadCreate s m) (step : (machine pthreadCreate).step s e s') :
    ∃ m', Inv pthreadCreate s' m' ∧
      (WakesChild s e → Reached s.kernel m → Reached s'.kernel m') := by
  have changes := Step.changes step
  have others := fun u => Step.other step (u := u)
  have own := Step.own step
  obtain ⟨t, pc, access⟩ := e
  dsimp only at changes others own
  rcases own with ⟨acts, same, kept⟩ | own
  · subst acts
    obtain ⟨main, child, reached⟩ := inv.act changes
    refine ⟨m, ⟨?_, ?_, ?_, ?_⟩, fun _ _ => reached⟩
    · rw [kept]
      exact inv.f1
    · rw [same]
      exact inv.atMain
    · unfold ChildBorn
      rw [same]
      exact main
    · rw [same]
      exact child
  cases t with
  | main =>
    have frame := fun same => inv.child_frame same (others .child nofun)
    rcases own with ⟨c, k, op, rfl, kept, before, after⟩ | ⟨l', next, running, after⟩
    · -- main enters a call
      obtain rfl := inv.pc_eq (.inl before)
      have entered : enterCall s.mem s.kernel c = s'.kernel := Option.some.inj changes
      obtain ⟨same, main, reached⟩ := inv.main.enter s.mem op
      rw [entered] at same main reached
      obtain ⟨child, born⟩ := frame same
      have main' := main.mono fun now => born (.inl now)
      exact ⟨m, ⟨kept ▸ inv.f1, .inr ⟨after, c, k, op⟩, main', child⟩, fun _ _ => reached⟩
    · obtain rfl := inv.pc_eq (running.imp And.left And.left)
      obtain ⟨m', rfl, kept, same, main, reached⟩ := inv.main.next next changes
      obtain ⟨child, born⟩ := frame same
      exact ⟨m', ⟨kept ▸ inv.f1, .inl after, main.mono born, child⟩, reached⟩
  | child =>
    have stays := inv.main_frame (others .main nofun)
    rcases own with ⟨c, k, op, rfl, kept, before, after⟩ | ⟨l', next, running, after⟩
    · -- the child goes to sleep
      have here := inv.child
      rw [before] at here
      obtain ⟨away, entered, child⟩ := here.enter inv.f1 op
      have entered := entered.symm.trans (Option.some.inj changes)
      have waking : s'.kernel.waking = s.kernel.waking := by rw [← entered]
      obtain ⟨main, reached⟩ := inv.main.frame waking (by simp [← entered, away])
      have born : ChildBorn s' := fun l => by rw [after]; nofun
      refine ⟨m, ⟨kept ▸ inv.f1, stays ▸ inv.atMain, main.mono fun _ => born, ?_⟩,
        fun _ => reached⟩
      rw [after, ← entered]
      exact child
    · obtain ⟨same, child, f1⟩ := inv.child.next inv.f1 running next changes
      have born : ChildBorn s' := fun l => by rw [after]; nofun
      refine ⟨m, ⟨f1, stays ▸ inv.atMain, ?_, ?_⟩, ?_⟩
      · rw [same]
        exact inv.main.mono fun _ => born
      · rw [same, after]
        exact child
      · rw [same]
        exact fun _ => id

theorem inv_start : Inv pthreadCreate (start boot) .create :=
  ⟨rfl, .inl rfl, ⟨nofun, rfl⟩, .inl rfl⟩

theorem exists_inv (reach : (machine pthreadCreate).Reachable s) :
    ∃ m, Inv pthreadCreate s m := by
  have inv : (machine pthreadCreate).Invariant fun s => ∃ m, Inv pthreadCreate s m := by
    constructor
    · rintro s rfl
      exact ⟨.create, inv_start⟩
    · rintro s e s' - ⟨m, inv⟩ step
      obtain ⟨m', after, -⟩ := inv.step step
      exact ⟨m', after⟩
  exact inv.of_reachable reach

/-- Under the condition main never goes to its join before the child is awake. -/
theorem exists_reached (reach : ((machine pthreadCreate).restrict WakesChild).Reachable s) :
    ∃ m, Inv pthreadCreate s m ∧ Reached s.kernel m := by
  have inv : ((machine pthreadCreate).restrict WakesChild).Invariant
      fun s => ∃ m, Inv pthreadCreate s m ∧ Reached s.kernel m := by
    constructor
    · rintro s rfl
      exact ⟨.create, inv_start, trivial⟩
    · rintro s e s' - ⟨m, inv, reached⟩ ⟨step, wakes⟩
      obtain ⟨m', after, keeps⟩ := inv.step step
      exact ⟨m', after, keeps wakes reached⟩
  exact inv.of_reachable reach

/-! ## The end of the test -/

/-- A thread executes an operation that needs nobody else. -/
theorem later_run (pthreadCreate : ℤ) {t : Party} {l : Loc} (running : s.thread t = .ready l)
    (here : (program pthreadCreate t l).isLocal = true)
    (next : (program pthreadCreate t l).Next (program pthreadCreate) s.mem s.loc access mem' l') :
    ∃ s', (machine pthreadCreate).Later s s' ∧ s'.mem = mem' ∧ s'.kernel = s.kernel ∧
      s'.thread = Function.update s.thread t (.ready l') := by
  obtain ⟨s', step, after⟩ := exists_step running here next
  exact ⟨s', .single ⟨_, step⟩, after⟩

/-- The child finishes by itself, with main where it is. -/
def ChildExits (pthreadCreate : ℤ) (s : TestState) : Prop :=
  ∃ t, (machine pthreadCreate).Later s t ∧ t.thread .child = .ready (.child .exit) ∧
    t.thread .main = s.thread .main

theorem ChildExits.of_later (later : (machine pthreadCreate).Later s s')
    (main : s'.thread .main = s.thread .main) (exits : ChildExits pthreadCreate s') :
    ChildExits pthreadCreate s := by
  obtain ⟨t, further, ended, stays⟩ := exits
  exact ⟨t, later.trans further, ended, stays.trans main⟩

/-- A child that has returned from its wait finishes. -/
theorem child_exits {c : ChildPc} (ready : s.thread .child = .ready (.child c))
    (returned : c.returned = true) : ChildExits pthreadCreate s := by
  have failed_exits : ∀ (s : TestState) errno, s.thread .child = .ready (.child (.failed errno)) →
      ChildExits pthreadCreate s := by
    intro s errno ready
    obtain ⟨s', later, -, -, after⟩ := later_run pthreadCreate ready rfl (.store _ _ _)
    exact ⟨s', later, by simp [after], by simp [after]⟩
  cases c with
  | load | wait expected => cases returned
  | store r =>
    obtain ⟨s', later, -, -, after⟩ := later_run pthreadCreate ready rfl (.store _ _ _)
    refine .of_later later (by simp [after]) ?_
    split_ifs at after with failed
    · exact failed_exits s' r.errno (by simp [after])
    · exact ⟨s', .refl, by simp [after], rfl⟩
  | failed errno => exact failed_exits s errno ready
  | exit => exact ⟨s, .refl, ready, rfl⟩

/-- So does one that is awake. -/
theorem awake_child_exits (pthreadCreate : ℤ) (child : ChildAt .awake (s.thread .child))
    (awake : s.kernel.child = .awake) : ChildExits pthreadCreate s := by
  cases here : s.thread .child with
  | unborn l =>
    rw [here] at child
    exact child.elim
  | ready l =>
    rw [here] at child
    obtain ⟨c, rfl, returned⟩ := child
    exact child_exits here returned
  | calling l =>
    rw [here] at child
    obtain rfl := child
    -- the kernel lets it return from its wait
    have leaves : kernel.leave s.kernel .child (.wait 0) (.ok 0) = some s.kernel :=
      if_neg (by rw [awake]; nofun)
    obtain ⟨s', step, -, -, after⟩ := exists_leave (M := program pthreadCreate) here rfl leaves
    refine .of_later (.single ⟨_, step⟩) (by simp [after]) ?_
    exact child_exits (c := .store (.ok 0)) (by simp [after]) rfl

/-- Main prints its verdict once the child has finished. -/
theorem main_exits {ret : ℤ} (main : s.thread .main = .ready (.main (.join ret)))
    (child : s.thread .child = .ready (.child .exit)) :
    ∃ t v, (machine pthreadCreate).Later s t ∧ t.loc .main = .main (.exit v) := by
  have finished : s.finished (program pthreadCreate) .child = true := by
    rw [State.finished, child]
    rfl
  have op : program pthreadCreate .main (.main (.join ret)) = .join .child (.main (.out ret)) :=
    rfl
  obtain ⟨s', joins, -, -, joined⟩ := exists_join (Q := kernel) main op finished
  have out : s'.thread .main = .ready (.main (.out ret)) := by simp [joined]
  have prints : ∃ v access mem', (program pthreadCreate .main (.main (.out ret))).isLocal = true ∧
      (program pthreadCreate .main (.main (.out ret))).Next (program pthreadCreate)
        s'.mem s'.loc access mem' (.main (.exit v)) := by
    change ∃ v access mem', (if ret = 0 then _ else _ : TestOp).isLocal = true ∧
      (if ret = 0 then _ else _ : TestOp).Next _ _ _ access mem' _
    split_ifs
    · exact ⟨_, _, _, rfl, .load _ _⟩
    · exact ⟨_, _, _, rfl, .tau _⟩
  obtain ⟨v, access, mem', here, next⟩ := prints
  obtain ⟨t, later, -, -, after⟩ := later_run pthreadCreate out here next
  exact ⟨t, v, .head ⟨_, joins⟩ later, by simp [State.loc, after]⟩

/-- The child can go to sleep as long as nobody has woken it. -/
theorem exists_asleep (pthreadCreate : ℤ) (f1 : s.mem .f1 = 0) (born : ChildBorn s)
    (child : ChildAt s.kernel.child (s.thread .child)) (late : s.kernel.child ≠ .awake) :
    ∃ t, (machine pthreadCreate).Later s t ∧ t.kernel.child = .asleep ∧
      t.thread .main = s.thread .main := by
  have enters : ∀ s : TestState, s.mem .f1 = 0 → s.thread .child = .ready (.child (.wait 0)) →
      ∃ t, (machine pthreadCreate).Later s t ∧ t.kernel.child = .asleep ∧
        t.thread .main = s.thread .main := by
    intro s f1 ready
    obtain ⟨t, step, -, asleep, after⟩ := exists_enter (Q := kernel) (M := program pthreadCreate)
      ready rfl rfl
    exact ⟨t, .single ⟨_, step⟩, by rw [asleep, enterCall, if_pos f1], by simp [after]⟩
  cases place : s.kernel.child with
  | awake => exact absurd place late
  | asleep => exact ⟨s, .refl, place, rfl⟩
  | away =>
    rw [place] at child
    cases here : s.thread .child with
    | unborn l => exact absurd here (born l)
    | calling l =>
      rw [here] at child
      exact child.elim
    | ready l =>
      rw [here] at child
      rcases child with rfl | rfl
      · -- it reads `f1` first
        obtain ⟨s', later, mem, -, after⟩ := later_run pthreadCreate here rfl (.load _ _)
        rw [f1] at after
        obtain ⟨t, further, asleep, main⟩ := enters s' (by rw [mem, f1]) (by simp [after])
        exact ⟨t, later.trans further, asleep, main.trans (by simp [after])⟩
      · exact enters s f1 here

/-- Main goes on to its join, whatever the child does. -/
theorem exists_stuck {ret : ℤ} (f1 : s.mem .f1 = 0) (born : ChildBorn s)
    (child : ChildAt s.kernel.child (s.thread .child)) (late : s.kernel.child ≠ .awake)
    (way : s.thread .main = .ready (.main (.report ret)) ∨
      s.thread .main = .ready (.main (.join ret))) :
    ∃ t, (machine pthreadCreate).Later s t ∧ Stuck t := by
  obtain ⟨t, sleeps, asleep, main⟩ := exists_asleep pthreadCreate f1 born child late
  rcases way with reports | joins
  · obtain ⟨u, goes, -, kernel, after⟩ := later_run pthreadCreate (main.trans reports) rfl (.tau _)
    exact ⟨u, sleeps.trans goes, ⟨ret, by simp [State.loc, after]⟩, by rw [kernel, asleep]⟩
  · exact ⟨t, sleeps, ⟨ret, by simp [State.loc, main, joins]⟩, asleep⟩

theorem woken_way (r : SysResult) : ∃ ret, woken r = .report ret ∨ woken r = .join ret := by
  unfold woken
  split_ifs
  · exact ⟨_, .inr rfl⟩
  · exact ⟨_, .inl rfl⟩

theorem requeued_way {r : SysResult} (other : ¬ (r.ret < 0 ∧ r.errno = einval)) :
    ∃ ret, requeued r = .report ret := by
  unfold requeued
  split_ifs with failed refused moved
  · exact absurd ⟨failed, refused⟩ other
  · exact ⟨_, rfl⟩
  · exact ⟨_, rfl⟩
  · exact ⟨_, rfl⟩

/-- A step against the condition takes main to its join with a child that is not awake. -/
theorem Inv.late (inv : Inv pthreadCreate s m) (step : (machine pthreadCreate).step s e s')
    (against : ¬ WakesChild s e) :
    ∃ t, (machine pthreadCreate).Later s' t ∧ Stuck t := by
  obtain ⟨m', after, -⟩ := inv.step step
  have changes := Step.changes step
  have own := Step.own step
  obtain ⟨t, pc, access⟩ := e
  cases access with
  | leave c r =>
    rcases own with ⟨acts, -⟩ | ⟨c, k, -, enters, -⟩ | ⟨l', next, running, goes⟩
    · cases acts
    · cases enters
    obtain ⟨k, op, rfl⟩ := next.leave_op
    cases t with
    | child =>
      -- the returns of the child are not against it
      cases pc with
      | main m => cases op
      | child c =>
        cases c with
        | wait expected =>
          cases op
          exact absurd trivial against
        | _ => cases op
    | main =>
      obtain rfl := inv.pc_eq (running.imp And.left And.left)
      have there : k r = .main m' := by
        rw [← after.loc_main, State.loc, goes]
        rfl
      rcases main_call op with ⟨expected, rfl, rfl, rfl⟩ | ⟨rfl, rfl, rfl⟩
      · -- nobody has woken the child so far
        obtain ⟨ret, way⟩ := requeued_way against
        dsimp only at there goes
        rw [way] at there goes
        obtain rfl := Loc.main.inj there
        have kept : s.kernel = s'.kernel := Option.some.inj changes
        exact exists_stuck after.f1 after.main after.child (kept ▸ inv.main.2.1) (.inl goes)
      · have kept : { s.kernel with waking := false } = s'.kernel := Option.some.inj changes
        have late : s'.kernel.child ≠ .awake := by
          rw [← kept]
          exact against
        obtain ⟨ret, way | way⟩ := woken_way r
        all_goals
          dsimp only at there goes
          rw [way] at there goes
          obtain rfl := Loc.main.inj there
        · exact exists_stuck after.f1 after.main after.child late (.inl goes)
        · exact exists_stuck after.f1 after.main after.child late (.inr goes)
  | _ => exact absurd trivial against

/-- **The join of the mismatch test.** In every run in which main goes to its join only
after it has woken the child, main is never stuck there and can print its verdict; and
every step against this leads to a state in which main is stuck. -/
theorem join_ends_iff (pthreadCreate : ℤ) :
    (∀ s, ((machine pthreadCreate).restrict WakesChild).Reachable s →
      ¬ Stuck s ∧ ∀ ret, s.loc .main = .main (.join ret) →
        ∃ t v, (machine pthreadCreate).Later s t ∧ t.loc .main = .main (.exit v)) ∧
    ∀ s e s', (machine pthreadCreate).Reachable s → (machine pthreadCreate).step s e s' →
      ¬ WakesChild s e → ∃ t, (machine pthreadCreate).Later s' t ∧ Stuck t := by
  refine ⟨?_, ?_⟩
  · intro s reach
    obtain ⟨m, inv, reached⟩ := exists_reached reach
    refine ⟨?_, ?_⟩
    · rintro ⟨⟨ret, joins⟩, asleep⟩
      obtain rfl := Loc.main.inj (inv.loc_main.symm.trans joins)
      have awake : s.kernel.child = .awake := reached
      rw [awake] at asleep
      cases asleep
    · intro ret joins
      obtain rfl := Loc.main.inj (inv.loc_main.symm.trans joins)
      have awake : s.kernel.child = .awake := reached
      have ready : s.thread .main = .ready (.main (.join ret)) := by
        rcases inv.atMain with ready | ⟨-, c, k, op⟩
        · exact ready
        · cases op
      obtain ⟨s', later, ended, main⟩ :=
        awake_child_exits pthreadCreate (awake ▸ inv.child) awake
      obtain ⟨t, v, further, prints⟩ := main_exits (main.trans ready) ended
      exact ⟨t, v, later.trans further, prints⟩
  · intro s e s' reach step against
    obtain ⟨m, inv⟩ := exists_inv reach
    exact inv.late step against

/-- The kernel refuses the requeue with `EINVAL`, and the wake reaches the child. -/
def wokenInTime : List (Choice Party) :=
  List.flatten [
    [.run .main], Choice.ops .child 2, [.run .main], Choice.calls .main (.error einval),
    [.run .main, .act .child, .ret .main (.ok 1)]]

theorem join_ends_iff_wokenInTime :
    ∃ s, ((machine 0).restrict WakesChild).Reachable s ∧
      s.loc .main = .main (.join retPass) ∧ ¬ Stuck s := by
  obtain ⟨w, s, run, joins⟩ := exists_run_restrict kernel (program 0) (start boot) WakesChild
    wokenInTime (fun _ s => s.loc .main = .main (.join retPass)) (by decide +kernel)
  exact ⟨s, run.reachable, joins, ((join_ends_iff 0).1 s run.reachable).1⟩

/-- The child is late: main's requeue finds nobody, and main goes to its join. -/
def lateChild : List (Choice Party) :=
  List.flatten [
    Choice.ops .main 2, Choice.calls .main (.ok 0), [.run .main], Choice.ops .child 2]

/-- Main joins a child that nobody wakes. -/
theorem join_stuck : ∃ s, (machine 0).Reachable s ∧ Stuck s := by
  obtain ⟨w, s, run, joins, asleep⟩ := exists_run kernel (program 0) (start boot) lateChild
    (fun _ s => s.loc .main = .main (.join retError) ∧ s.kernel.child = .asleep)
    (by decide +kernel)
  exact ⟨s, run.reachable, ⟨retError, joins⟩, asleep⟩

end MismatchedOps
