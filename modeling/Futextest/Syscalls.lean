import Mathlib.Logic.Function.Basic
import Futextest.SysResult
import Futextest.System

/-!
# Threads and a kernel

Threads that share int cells and make system calls. What a call does and what it
returns is up to the kernel, which is a parameter: it has a state of its own, sees a
call when it is entered, decides when and with which result it returns, and may act
on a thread in between. One kernel lets every call return anything at any moment, so
that what holds under it holds whatever the calls return.

A call takes two steps of its thread, the entry and the return. All other operations
take one.

## Main definitions

* `Syscalls.Op` — one access, one call, or the life of threads
* `Syscalls.Kernel`, `Kernel.any` — what calls do; anything
* `Syscalls.Step` — one step of one thread; `Syscalls.exec` computes it
* `Syscalls.Move` — a step, seen from the cells and the control points

## Main results

* `Op.performs` — what an operation that is no call does
* `Step.move` — every step is such a move
* `Step.changes` — what a step does to the kernel
* `Step.own`, `Step.other` — what it does to the thread that takes it and to the others
* `Run.born` — a thread that runs was created
* `Run.move_induction`, `Run.born_induction` — what all operations preserve holds at the
  end of every run
-/

namespace Syscalls

/-! ## Programs -/

/-- What a thread does next, with the control point it continues at. A thread whose
next operation is `exit` has finished and can be joined. One at `quit` ends the whole
process, some time later: it does nothing more and is never joined. -/
inductive Op (A C T L : Type)
  | tau (next : L)
  | load (a : A) (next : ℤ → L)
  | store (a : A) (v : ℤ) (next : L)
  | inc (a : A) (next : L)
  | call (c : C) (next : SysResult → L)
  | create (t : T) (next : L)
  | join (t : T) (next : L)
  | quit
  | exit

/-- The program of each thread, as a function of its control point. -/
abbrev Program (A C T L : Type) := T → L → Op A C T L

/-- Where a thread is: not yet created, about to execute the operation of a control
point, or in the kernel with the call of one. -/
inductive Status (L : Type)
  | unborn (l : L)
  | ready (l : L)
  | calling (l : L)
  deriving DecidableEq

variable {A C T L K : Type}

/-- The control point of a thread. -/
@[simp] def Status.loc : Status L → L
  | .unborn l | .ready l | .calling l => l

/-- The shared cells, the threads and the kernel. -/
structure State (A T L K : Type) where
  mem : A → ℤ
  thread : T → Status L
  kernel : K

/-- What an observer of one step sees of it. -/
inductive Access (A C T : Type)
  | tau
  | load (a : A) (got : ℤ)
  | store (a : A) (v : ℤ)
  | inc (a : A) (result : ℤ)
  | create (t : T)
  | join (t : T)
  | enter (c : C)
  | leave (c : C) (result : SysResult)
  | act
  deriving DecidableEq

/-- One step: the thread that takes it or that the kernel acts on, its control point,
and what is done. -/
structure Event (A C T L : Type) where
  thread : T
  pc : L
  access : Access A C T
  deriving DecidableEq

/-- What calls do. The kernel changes its state when a thread enters a call, which it
can do on the cells it finds then, and when a call returns with some result; it refuses
the results that it would not return now. It may also act on a thread by itself. -/
structure Kernel (A C T K : Type) where
  enter : (A → ℤ) → K → T → C → Option K
  leave : K → T → C → SysResult → Option K
  act : K → T → Option K

/-- The kernel under which every call may return anything at any moment. -/
def Kernel.any : Kernel A C T Unit where
  enter _ _ _ _ := some ()
  leave _ _ _ _ := some ()
  act _ _ := none

/-! ## The machine -/

namespace State

variable (s : State A T L K)

/-- The control point of each thread. -/
def loc (t : T) : L := (s.thread t).loc

variable [DecidableEq T]

/-- Thread `t` gets the status. -/
def put (t : T) (status : Status L) : State A T L K :=
  { s with thread := Function.update s.thread t status }

@[simp] theorem put_mem (t : T) (x : Status L) : (s.put t x).mem = s.mem := rfl

@[simp] theorem put_self (t : T) (x : Status L) : (s.put t x).thread t = x := by
  simp [put]

theorem put_of_ne {t u : T} (ne : u ≠ t) (x : Status L) :
    (s.put t x).thread u = s.thread u := by
  simp [put, ne]

theorem put_loc (t : T) (x : Status L) : (s.put t x).loc = Function.update s.loc t x.loc := by
  funext u
  by_cases hu : u = t
  · subst hu
    simp [loc, put]
  · simp [loc, put, hu]

omit [DecidableEq T] in
/-- Whether a thread has reached the end of its program. -/
def finished (M : Program A C T L) (t : T) : Bool :=
  match s.thread t with
  | .ready l => match M t l with
    | .exit => true
    | _ => false
  | _ => false

end State

section Semantics

variable [DecidableEq A] [DecidableEq T]

/-- What an operation does that is not a call, when thread `t` executes it. -/
def Op.perform (M : Program A C T L) (s : State A T L K) (t : T) :
    Op A C T L → Option (Access A C T × State A T L K)
  | .tau k => some (.tau, s.put t (.ready k))
  | .load a k => some (.load a (s.mem a), s.put t (.ready (k (s.mem a))))
  | .store a v k =>
      some (.store a v, { s.put t (.ready k) with mem := Function.update s.mem a v })
  | .inc a k =>
      some (.inc a (s.mem a + 1),
        { s.put t (.ready k) with mem := Function.update s.mem a (s.mem a + 1) })
  | .create u k =>
      match s.thread u with
      | .unborn l => some (.create u, (s.put u (.ready l)).put t (.ready k))
      | _ => none
  | .join u k => if s.finished M u then some (.join u, s.put t (.ready k)) else none
  | .call _ _ | .quit | .exit => none

/-- One step: an operation that is not a call, the entry or the return of a call, or an
act of the kernel. -/
inductive Step (Q : Kernel A C T K) (M : Program A C T L) (s : State A T L K) :
    Event A C T L → State A T L K → Prop
  | run {t : T} {l : L} {access : Access A C T} {s' : State A T L K}
      (running : s.thread t = .ready l) (performed : (M t l).perform M s t = some (access, s')) :
      Step Q M s ⟨t, l, access⟩ s'
  | enter {t : T} {l : L} {c : C} {k : SysResult → L} {κ : K} (running : s.thread t = .ready l)
      (op : M t l = .call c k) (enters : Q.enter s.mem s.kernel t c = some κ) :
      Step Q M s ⟨t, l, .enter c⟩ { s.put t (.calling l) with kernel := κ }
  | leave {t : T} {l : L} {c : C} {k : SysResult → L} {r : SysResult} {κ : K}
      (calling : s.thread t = .calling l) (op : M t l = .call c k)
      (leaves : Q.leave s.kernel t c r = some κ) :
      Step Q M s ⟨t, l, .leave c r⟩ { s.put t (.ready (k r)) with kernel := κ }
  | act {t : T} {κ : K} (acts : Q.act s.kernel t = some κ) :
      Step Q M s ⟨t, s.loc t, .act⟩ { s with kernel := κ }

/-- The machine as a transition system with one initial state. -/
def machine (Q : Kernel A C T K) (M : Program A C T L) (start : State A T L K) :
    System (State A T L K) (Event A C T L) where
  init s := s = start
  step := Step Q M

@[simp] theorem machine_step {Q : Kernel A C T K} {M : Program A C T L}
    {start s s' : State A T L K} {e : Event A C T L} :
    (machine Q M start).step s e s' ↔ Step Q M s e s' := Iff.rfl

/-! ## Execution -/

/-- What the scheduler and the kernel choose for one step. -/
inductive Choice (T : Type)
  | run (t : T)
  | ret (t : T) (r : SysResult)
  | act (t : T)

/-- The next `n` operations of the thread, without a return from a call. -/
def Choice.ops (t : T) (n : ℕ) : List (Choice T) := List.replicate n (.run t)

/-- The next operation of the thread, a call, with the given result. -/
def Choice.calls (t : T) (r : SysResult) : List (Choice T) := [.run t, .ret t r]

/-- One step under the given choice, if it can be taken. -/
def exec (Q : Kernel A C T K) (M : Program A C T L) (s : State A T L K) :
    Choice T → Option (Event A C T L × State A T L K)
  | .run t =>
      match s.thread t with
      | .ready l =>
          match M t l with
          | .call c _ => (Q.enter s.mem s.kernel t c).map fun κ =>
              (⟨t, l, .enter c⟩, { s.put t (.calling l) with kernel := κ })
          | op => (op.perform M s t).map fun x => (⟨t, l, x.1⟩, x.2)
      | _ => none
  | .ret t r =>
      match s.thread t with
      | .calling l =>
          match M t l with
          | .call c k => (Q.leave s.kernel t c r).map fun κ =>
              (⟨t, l, .leave c r⟩, { s.put t (.ready (k r)) with kernel := κ })
          | _ => none
      | _ => none
  | .act t => (Q.act s.kernel t).map fun κ => (⟨t, s.loc t, .act⟩, { s with kernel := κ })

variable {Q : Kernel A C T K} {M : Program A C T L} {s s' : State A T L K} {e : Event A C T L}

theorem step_of_exec {c : Choice T} (done : exec Q M s c = some (e, s')) : Step Q M s e s' := by
  cases c with
  | run t =>
    cases ht : s.thread t with
    | ready l =>
      by_cases calls : ∃ c k, M t l = .call c k
      · obtain ⟨c, k, op⟩ := calls
        simp only [exec, ht, op, Option.map_eq_some_iff, Prod.mk.injEq] at done
        obtain ⟨κ, enters, rfl, rfl⟩ := done
        exact .enter ht op enters
      · have performs :
            ((M t l).perform M s t).map (fun x => ((⟨t, l, x.1⟩ : Event A C T L), x.2)) =
              some (e, s') := by
          simp only [exec, ht] at done
          split at done
          · rename_i c k op
            exact absurd ⟨c, k, op⟩ calls
          · exact done
        simp only [Option.map_eq_some_iff, Prod.mk.injEq] at performs
        obtain ⟨⟨access, s''⟩, performed, rfl, rfl⟩ := performs
        exact .run ht performed
    | unborn l | calling l => simp [exec, ht] at done
  | ret t r =>
    cases ht : s.thread t with
    | calling l =>
      simp only [exec, ht] at done
      split at done
      · rename_i c k op
        simp only [Option.map_eq_some_iff, Prod.mk.injEq] at done
        obtain ⟨κ, leaves, rfl, rfl⟩ := done
        exact .leave ht op leaves
      · simp at done
    | unborn l | ready l => simp [exec, ht] at done
  | act t =>
    simp only [exec, Option.map_eq_some_iff, Prod.mk.injEq] at done
    obtain ⟨κ, acts, rfl, rfl⟩ := done
    exact .act acts

/-- A run of the machine with given choices, and what evaluation shows of it. -/
theorem exists_run (Q : Kernel A C T K) (M : Program A C T L) (start : State A T L K)
    (cs : List (Choice T)) (R : List (Event A C T L) → State A T L K → Prop)
    [∀ w s, Decidable (R w s)]
    (check : (System.execAll (exec Q M) start cs).any (fun x => R x.1 x.2) = true) :
    ∃ w s, (machine Q M start).Run w s ∧ R w s :=
  System.exists_run (fun _ _ _ _ => step_of_exec) rfl cs R check

/-- A run under a condition. -/
theorem exists_run_restrict (Q : Kernel A C T K) (M : Program A C T L) (start : State A T L K)
    (P : State A T L K → Event A C T L → Prop) [∀ s e, Decidable (P s e)] (cs : List (Choice T))
    (R : List (Event A C T L) → State A T L K → Prop) [∀ w s, Decidable (R w s)]
    (check : (System.execAll (fun s c => (exec Q M s c).filter fun x => P s x.1) start cs).any
      (fun x => R x.1 x.2) = true) :
    ∃ w s, ((machine Q M start).restrict P).Run w s ∧ R w s :=
  System.exists_run_restrict (fun _ _ _ _ => step_of_exec) rfl P cs R check

/-! ## Moves

Most properties of a program speak of the cells and of the control points only. For
them the entry of a call and an act of the kernel are no steps at all, and all others
move one thread. -/

/-- What the operation of a thread can show, the cells after it and the control point
it continues at. A call shows its return, with any result. -/
inductive Op.Next (M : Program A C T L) (mem : A → ℤ) (loc : T → L) :
    Op A C T L → Access A C T → (A → ℤ) → L → Prop
  | tau (k : L) : Next M mem loc (.tau k) .tau mem k
  | load (a : A) (k : ℤ → L) : Next M mem loc (.load a k) (.load a (mem a)) mem (k (mem a))
  | store (a : A) (v : ℤ) (k : L) :
      Next M mem loc (.store a v k) (.store a v) (Function.update mem a v) k
  | inc (a : A) (k : L) :
      Next M mem loc (.inc a k) (.inc a (mem a + 1)) (Function.update mem a (mem a + 1)) k
  | create (u : T) (k : L) : Next M mem loc (.create u k) (.create u) mem k
  | join (u : T) (k : L) (ended : M u (loc u) = .exit) :
      Next M mem loc (.join u k) (.join u) mem k
  | leave (c : C) (k : SysResult → L) (r : SysResult) :
      Next M mem loc (.call c k) (.leave c r) mem (k r)

omit [DecidableEq T] in
theorem Op.Next.access_ne_act {mem mem' : A → ℤ} {loc : T → L} {op : Op A C T L}
    {access : Access A C T} {l : L} (next : op.Next M mem loc access mem' l) : access ≠ .act := by
  intro acts
  cases next <;> cases acts

omit [DecidableEq T] in
/-- Only a creation shows as one. -/
theorem Op.Next.create_op {mem mem' : A → ℤ} {loc : T → L} {op : Op A C T L} {u : T} {l : L}
    (next : op.Next M mem loc (.create u) mem' l) : ∃ k, op = .create u k := by
  cases next with
  | create u k => exact ⟨_, rfl⟩

omit [DecidableEq T] in
/-- Only a call returns. -/
theorem Op.Next.leave_op {mem mem' : A → ℤ} {loc : T → L} {op : Op A C T L} {c : C}
    {r : SysResult} {l : L} (next : op.Next M mem loc (.leave c r) mem' l) :
    ∃ k, op = .call c k ∧ l = k r := by
  cases next with
  | leave c k r => exact ⟨k, rfl, rfl⟩

/-- The cell an operation writes. -/
def Op.writes : Op A C T L → Option A
  | .store a _ _ | .inc a _ => some a
  | _ => none

omit [DecidableEq T] in
/-- An operation changes no other cell. -/
theorem Op.Next.frame {mem mem' : A → ℤ} {loc : T → L} {op : Op A C T L} {access : Access A C T}
    {l : L} (next : op.Next M mem loc access mem' l) {a : A} (other : op.writes ≠ some a) :
    mem' a = mem a := by
  cases next with
  | store b v k | inc b k =>
    have distinct : a ≠ b := fun same => other (congrArg some same.symm)
    exact Function.update_of_ne distinct _ _
  | tau | load | create | join | leave => rfl

/-- A step, seen from the cells and the control points. -/
inductive Move (M : Program A C T L) (mem : A → ℤ) (loc : T → L) :
    Event A C T L → (A → ℤ) → (T → L) → Prop
  | enter (t : T) (c : C) (k : SysResult → L) (op : M t (loc t) = .call c k) :
      Move M mem loc ⟨t, loc t, .enter c⟩ mem loc
  | act (t : T) : Move M mem loc ⟨t, loc t, .act⟩ mem loc
  | next (t : T) {access : Access A C T} {mem' : A → ℤ} {l : L}
      (next : (M t (loc t)).Next M mem loc access mem' l) :
      Move M mem loc ⟨t, loc t, access⟩ mem' (Function.update loc t l)

omit [DecidableEq A] [DecidableEq T] in
theorem State.exit_of_finished {t : T} (ended : s.finished M t = true) : M t (s.loc t) = .exit := by
  unfold State.finished at ended
  split at ended
  · rename_i l ready
    split at ended
    · rename_i op
      simpa [State.loc, ready] using op
    · simp at ended
  · simp at ended

/-- What a step does to the kernel. -/
def Kernel.Changes (Q : Kernel A C T K) (mem : A → ℤ) (κ : K) (t : T) :
    Access A C T → K → Prop
  | .enter c, κ' => Q.enter mem κ t c = some κ'
  | .leave c r, κ' => Q.leave κ t c r = some κ'
  | .act, κ' => Q.act κ t = some κ'
  | _, κ' => κ' = κ

omit [DecidableEq A] in
/-- A new thread stays at its first control point. -/
theorem State.loc_started {s : State A T L K} {u : T} {l : L} (unborn : s.thread u = .unborn l) :
    (s.put u (.ready l)).loc = s.loc := by
  have first : s.loc u = l := by simp [State.loc, unborn]
  rw [State.put_loc, Status.loc, ← first, Function.update_eq_self]

/-- What an operation that is no call leaves for its thread to go on from: other cells,
or a thread that has been started. -/
structure Op.Performs (M : Program A C T L) (s : State A T L K) (op : Op A C T L)
    (access : Access A C T) (l : L) (mid : State A T L K) : Prop where
  next : op.Next M s.mem s.loc access mid.mem l
  quiet : ∀ c k, op ≠ .call c k
  loc : mid.loc = s.loc
  changes : ∀ (Q : Kernel A C T K) t, Q.Changes s.mem s.kernel t access mid.kernel
  others : ∀ u, access ≠ .create u ∧ mid.thread u = s.thread u ∨
    access = .create u ∧ ∃ l, s.thread u = .unborn l ∧ mid.thread u = .ready l

theorem Op.performs {op : Op A C T L} {t : T} {access : Access A C T}
    (performed : op.perform M s t = some (access, s')) :
    ∃ l mid, s' = mid.put t (.ready l) ∧ op.Performs M s access l mid := by
  cases op with
  | tau k =>
    cases performed
    exact ⟨k, s, rfl, .tau k, nofun, rfl, fun _ _ => rfl, fun _ => .inl ⟨nofun, rfl⟩⟩
  | load a k =>
    cases performed
    exact ⟨_, s, rfl, .load a k, nofun, rfl, fun _ _ => rfl, fun _ => .inl ⟨nofun, rfl⟩⟩
  | store a v k =>
    cases performed
    exact ⟨k, { s with mem := Function.update s.mem a v }, rfl, .store a v k, nofun, rfl,
      fun _ _ => rfl, fun _ => .inl ⟨nofun, rfl⟩⟩
  | inc a k =>
    cases performed
    exact ⟨k, { s with mem := Function.update s.mem a (s.mem a + 1) }, rfl, .inc a k, nofun, rfl,
      fun _ _ => rfl, fun _ => .inl ⟨nofun, rfl⟩⟩
  | create u k =>
    simp only [Op.perform] at performed
    split at performed
    · rename_i l unborn
      cases performed
      refine ⟨k, s.put u (.ready l), rfl, .create u k, nofun, State.loc_started unborn,
        fun _ _ => rfl, ?_⟩
      intro v
      by_cases new : v = u
      · subst new
        exact .inr ⟨rfl, l, unborn, Function.update_self _ _ _⟩
      · refine .inl ⟨?_, Function.update_of_ne new _ _⟩
        intro creates
        exact new (Access.create.inj creates).symm
    · cases performed
  | join u k =>
    simp only [Op.perform, Option.ite_none_right_eq_some] at performed
    obtain ⟨ended, same⟩ := performed
    cases same
    exact ⟨k, s, rfl, .join u k (State.exit_of_finished ended), nofun, rfl, fun _ _ => rfl,
      fun _ => .inl ⟨nofun, rfl⟩⟩
  | call c k | quit | exit => cases performed

/-- Every step is a move. -/
theorem Step.move (step : Step Q M s e s') : Move M s.mem s.loc e s'.mem s'.loc := by
  cases step with
  | @enter t l c k κ running op enters =>
    have here : s.loc t = l := by simp [State.loc, running]
    subst here
    have same : (s.put t (.calling (s.loc t))).loc = s.loc := by
      rw [State.put_loc, Status.loc, Function.update_eq_self]
    change Move M s.mem s.loc _ s.mem (s.put t (.calling (s.loc t))).loc
    rw [same]
    exact .enter t c k op
  | @act t κ acts => exact .act t
  | @leave t l c k r κ calling op leaves =>
    have here : s.loc t = l := by simp [State.loc, calling]
    subst here
    change Move M s.mem s.loc _ s.mem (s.put t (.ready (k r))).loc
    rw [State.put_loc]
    refine .next t ?_
    rw [op]
    exact .leave c k r
  | @run t l access s' running performed =>
    have here : s.loc t = l := by simp [State.loc, running]
    subst here
    obtain ⟨l', mid, rfl, performs⟩ := Op.performs performed
    rw [State.put_loc, performs.loc]
    exact .next t performs.next

/-- Only calls and the kernel itself change the kernel. -/
theorem Step.changes (step : Step Q M s e s') :
    Q.Changes s.mem s.kernel e.thread e.access s'.kernel := by
  cases step with
  | enter running op enters => exact enters
  | leave calling op leaves => exact leaves
  | act acts => exact acts
  | @run t l access s' running performed =>
    obtain ⟨l', mid, rfl, performs⟩ := Op.performs performed
    exact performs.changes Q t

/-- What a step does to the thread that takes it, or that the kernel acts on. -/
theorem Step.own (step : Step Q M s e s') :
    (e.access = .act ∧ s'.thread = s.thread ∧ s'.mem = s.mem) ∨
      (∃ c k, M e.thread e.pc = .call c k ∧ e.access = .enter c ∧ s'.mem = s.mem ∧
        s.thread e.thread = .ready e.pc ∧ s'.thread e.thread = .calling e.pc) ∨
      ∃ l, (M e.thread e.pc).Next M s.mem s.loc e.access s'.mem l ∧
        (s.thread e.thread = .ready e.pc ∧ (∀ c k, M e.thread e.pc ≠ .call c k) ∨
          s.thread e.thread = .calling e.pc ∧ ∃ c r, e.access = .leave c r) ∧
        s'.thread e.thread = .ready l := by
  cases step with
  | @enter t l c k κ running op enters =>
    exact .inr (.inl ⟨c, k, op, rfl, rfl, running, Function.update_self _ _ _⟩)
  | @leave t l c k r κ calling op leaves =>
    refine .inr (.inr ⟨k r, ?_, .inr ⟨calling, c, r, rfl⟩, Function.update_self _ _ _⟩)
    rw [op]
    exact .leave c k r
  | act acts => exact .inl ⟨rfl, rfl, rfl⟩
  | @run t l access s' running performed =>
    obtain ⟨l', mid, rfl, performs⟩ := Op.performs performed
    exact .inr (.inr ⟨l', performs.next, .inl ⟨running, performs.quiet⟩,
      Function.update_self _ _ _⟩)

/-- What a step does to a thread that does not take it: nothing, unless it creates it. -/
theorem Step.other (step : Step Q M s e s') {u : T} (ne : u ≠ e.thread) :
    e.access ≠ .create u ∧ s'.thread u = s.thread u ∨
      e.access = .create u ∧ ∃ l, s.thread u = .unborn l ∧ s'.thread u = .ready l := by
  cases step with
  | enter running op enters => exact .inl ⟨nofun, Function.update_of_ne ne _ _⟩
  | leave calling op leaves => exact .inl ⟨nofun, Function.update_of_ne ne _ _⟩
  | act acts => exact .inl ⟨nofun, rfl⟩
  | @run t l access s' running performed =>
    obtain ⟨l', mid, rfl, performs⟩ := Op.performs performed
    rw [show (mid.put t (.ready l')).thread u = mid.thread u from Function.update_of_ne ne _ _]
    exact performs.others u

/-- A step moves no control point but that of the thread that takes it. -/
theorem Step.loc_other (step : Step Q M s e s') {u : T} (ne : u ≠ e.thread) :
    s'.loc u = s.loc u := by
  unfold State.loc
  rcases Step.other step ne with ⟨-, same⟩ | ⟨-, l, before, after⟩
  · rw [same]
  · rw [before, after]
    rfl

variable {start : State A T L K}

/-! ## The life of threads -/

/-- A thread has started, from the outset or by an event. -/
def Born (start : State A T L K) (w : List (Event A C T L)) (t : T) : Prop :=
  (∀ l, start.thread t ≠ .unborn l) ∨ ∃ e ∈ w, e.access = .create t

omit [DecidableEq A] [DecidableEq T] in
theorem Born.next {w : List (Event A C T L)} {t : T} (born : Born start w t)
    (e : Event A C T L) : Born start (w ++ [e]) t := by
  rcases born with outset | ⟨e', member, creates⟩
  · exact .inl outset
  · exact .inr ⟨e', List.mem_append_left _ member, creates⟩

/-- Only a thread that has started takes a step. -/
theorem Step.started (step : Step Q M s e s') (takes : e.access ≠ .act) :
    ∀ l, s.thread e.thread ≠ .unborn l := by
  intro l unborn
  cases step with
  | run running performed | enter running op enters =>
    rw [running] at unborn
    cases unborn
  | leave calling op leaves =>
    rw [calling] at unborn
    cases unborn
  | act acts => exact takes rfl

/-- A thread starts only by being created. -/
theorem Step.creates (step : Step Q M s e s') {u : T} (before : ∃ l, s.thread u = .unborn l)
    (after : ∀ l, s'.thread u ≠ .unborn l) : e.access = .create u := by
  obtain ⟨l, unborn⟩ := before
  by_cases own : u = e.thread
  · -- a thread that takes a step has started, and an act of the kernel moves nobody
    subst own
    rcases Step.own step with ⟨-, same, -⟩ | ⟨c, k, -, -, -, ready, -⟩ | ⟨l', -, running, -⟩
    · exact absurd ((congrFun same _).trans unborn) (after l)
    · rw [unborn] at ready
      cases ready
    · rw [unborn] at running
      rcases running with ⟨ready, -⟩ | ⟨calling, -⟩
      · cases ready
      · cases calling
  · rcases Step.other step own with ⟨-, same⟩ | ⟨creates, -⟩
    · exact absurd (same.trans unborn) (after l)
    · exact creates

/-- A thread that runs has started. -/
theorem Run.born {w : List (Event A C T L)} (run : (machine Q M start).Run w s) (t : T)
    (runs : ∀ l, s.thread t ≠ .unborn l) : Born start w t := by
  -- by induction on the run: the thread was running before, or the last step created it
  revert runs
  refine run.induction (P := fun w s => (∀ l, s.thread t ≠ .unborn l) → Born start w t) ?_ ?_
  · rintro s rfl runs
    exact .inl runs
  · intro w s e s' _ before step runs
    by_cases unborn : ∃ l, s.thread t = .unborn l
    · exact .inr ⟨e, List.mem_append_right _ (List.mem_singleton_self e),
        Step.creates step unborn runs⟩
    · exact (before (not_exists.mp unborn)).next e

/-- What every operation of a thread that has started preserves, for the events so far,
the cells and the control points, holds at the end of every run; entries of calls and
acts of the kernel are only recorded. -/
theorem Run.born_induction {P : List (Event A C T L) → (A → ℤ) → (T → L) → Prop}
    (initial : P [] start.mem start.loc)
    (act : ∀ w mem loc t κ κ', Q.act κ t = some κ' → P w mem loc →
      P (w ++ [⟨t, loc t, .act⟩]) mem loc)
    (enter : ∀ w mem loc t c k, M t (loc t) = .call c k → P w mem loc →
      P (w ++ [⟨t, loc t, .enter c⟩]) mem loc)
    (next : ∀ w mem loc t access mem' l, Born start w t → P w mem loc →
      (M t (loc t)).Next M mem loc access mem' l →
      P (w ++ [⟨t, loc t, access⟩]) mem' (Function.update loc t l))
    {w : List (Event A C T L)} (run : (machine Q M start).Run w s) : P w s.mem s.loc := by
  refine run.induction (P := fun w s => P w s.mem s.loc) ?_ ?_
  · intro s first
    rw [show s = start from first]
    exact initial
  · intro w s e s' run before step
    have move := Step.move step
    have started := Step.started step
    have changes := Step.changes step
    generalize s'.mem = mem', s'.loc = loc' at move
    cases move with
    | enter t c k op => exact enter _ _ _ _ _ _ op before
    | act t => exact act _ _ _ _ _ _ changes before
    | next t op => exact next _ _ _ _ _ _ _ (Run.born run t (started op.access_ne_act)) before op

/-- The same without regard to when threads start and what the kernel does. -/
theorem Run.move_induction {P : List (Event A C T L) → (A → ℤ) → (T → L) → Prop}
    (initial : P [] start.mem start.loc)
    (silent : ∀ w mem loc t access, (access = .act ∨ ∃ c, access = .enter c) → P w mem loc →
      P (w ++ [⟨t, loc t, access⟩]) mem loc)
    (next : ∀ w mem loc t access mem' l, P w mem loc →
      (M t (loc t)).Next M mem loc access mem' l →
      P (w ++ [⟨t, loc t, access⟩]) mem' (Function.update loc t l))
    {w : List (Event A C T L)} (run : (machine Q M start).Run w s) : P w s.mem s.loc := by
  refine Run.born_induction initial ?_ ?_ ?_ run
  · intro w mem loc t _ _ _ before
    exact silent _ _ _ _ _ (.inl rfl) before
  · intro w mem loc t c _ _ before
    exact silent _ _ _ _ _ (.inr ⟨c, rfl⟩) before
  · intro w mem loc t access mem' l _ before op
    exact next _ _ _ _ _ _ _ before op

/-! ## Runs that go on -/

/-- Whether a program has come to its end. -/
def Op.isExit : Op A C T L → Bool
  | .exit => true
  | _ => false

omit [DecidableEq A] [DecidableEq T] in
theorem Op.isExit_iff {op : Op A C T L} : op.isExit = true ↔ op = .exit := by
  cases op <;> simp [Op.isExit]

/-- Whether an operation needs nobody else: it is no call, and no other thread has a part
in it. -/
def Op.isLocal : Op A C T L → Bool
  | .tau _ | .load _ _ | .store _ _ _ | .inc _ _ => true
  | .call _ _ | .create _ _ | .join _ _ | .quit | .exit => false

/-- A thread can always execute such an operation. -/
theorem exists_step {t : T} {l l' : L} {access : Access A C T} {mem' : A → ℤ}
    (running : s.thread t = .ready l) (here : (M t l).isLocal = true)
    (next : (M t l).Next M s.mem s.loc access mem' l') :
    ∃ s', Step Q M s ⟨t, l, access⟩ s' ∧ s'.mem = mem' ∧ s'.kernel = s.kernel ∧
      s'.thread = Function.update s.thread t (.ready l') := by
  generalize op : M t l = o at here next
  have runs : ∀ access s', o.perform M s t = some (access, s') → Step Q M s ⟨t, l, access⟩ s' := by
    intro access s' performed
    exact .run running (op ▸ performed)
  cases next with
  | tau k | load a k | store a v k | inc a k => exact ⟨_, runs _ _ rfl, rfl, rfl, rfl⟩
  | create u k | join u k ended | leave c k r => cases here

/-- A thread can join one that has finished. -/
theorem exists_join {t u : T} {l k : L} (running : s.thread t = .ready l)
    (op : M t l = .join u k) (ended : s.finished M u = true) :
    ∃ s', Step Q M s ⟨t, l, .join u⟩ s' ∧ s'.mem = s.mem ∧ s'.kernel = s.kernel ∧
      s'.thread = Function.update s.thread t (.ready k) := by
  have performed : (M t l).perform M s t = some (.join u, s.put t (.ready k)) := by
    rw [op, Op.perform, if_pos ended]
  exact ⟨_, .run running performed, rfl, rfl, rfl⟩

/-- A thread enters its next call if the kernel lets it. -/
theorem exists_enter {t : T} {l : L} {c : C} {k : SysResult → L} {κ : K}
    (running : s.thread t = .ready l) (op : M t l = .call c k)
    (enters : Q.enter s.mem s.kernel t c = some κ) :
    ∃ s', Step Q M s ⟨t, l, .enter c⟩ s' ∧ s'.mem = s.mem ∧ s'.kernel = κ ∧
      s'.thread = Function.update s.thread t (.calling l) :=
  ⟨_, .enter running op enters, rfl, rfl, rfl⟩

/-- A call returns if the kernel lets it. -/
theorem exists_leave {t : T} {l : L} {c : C} {k : SysResult → L} {r : SysResult} {κ : K}
    (calling : s.thread t = .calling l) (op : M t l = .call c k)
    (leaves : Q.leave s.kernel t c r = some κ) :
    ∃ s', Step Q M s ⟨t, l, .leave c r⟩ s' ∧ s'.mem = s.mem ∧ s'.kernel = κ ∧
      s'.thread = Function.update s.thread t (.ready (k r)) :=
  ⟨_, .leave calling op leaves, rfl, rfl, rfl⟩

/-! ## Runs in which calls return what they are told to -/

/-- A thread makes its next call, which returns `r`. -/
theorem run_call {start : State A T L Unit} {s : State A T L Unit} {w : List (Event A C T L)}
    (run : (machine Kernel.any M start).Run w s) {t : T} {l : L} {c : C} {k : SysResult → L}
    (ready : s.thread t = .ready l) (op : M t l = .call c k) (r : SysResult) :
    ∃ s', (machine Kernel.any M start).Run (w ++ [⟨t, l, .enter c⟩, ⟨t, l, .leave c r⟩]) s' ∧
      s'.thread t = .ready (k r) := by
  have entered := run.next (Step.enter (κ := ()) ready op rfl)
  have inside : (s.put t (.calling l)).thread t = .calling l := Function.update_self _ _ _
  have left := entered.next (Step.leave (r := r) (κ := ()) inside op rfl)
  rw [List.append_assoc] at left
  exact ⟨_, left, Function.update_self _ _ _⟩

/-- A thread reads its next cell. -/
theorem run_load {start : State A T L K} {w : List (Event A C T L)}
    (run : (machine Q M start).Run w s) {t : T} {l : L} {a : A} {k : ℤ → L}
    (ready : s.thread t = .ready l) (op : M t l = .load a k) :
    ∃ s', (machine Q M start).Run (w ++ [⟨t, l, .load a (s.mem a)⟩]) s' ∧
      s'.thread t = .ready (k (s.mem a)) := by
  have performed : (M t l).perform M s t =
      some (.load a (s.mem a), s.put t (.ready (k (s.mem a)))) := by rw [op, Op.perform]
  exact ⟨_, run.next (.run ready performed), Function.update_self _ _ _⟩

end Semantics

end Syscalls
