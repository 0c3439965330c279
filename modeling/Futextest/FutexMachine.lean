import Mathlib.Algebra.Group.Nat.Defs
import Mathlib.Data.Finset.Card
import Mathlib.Data.Fintype.Card
import Futextest.System

/-!
# Threads that share words and sleep on them

Threads run over a memory of 32-bit words. Each thread has a control point; its
program says which single access, kernel call or thread operation it does there
and where it continues. Any thread may move next, so a run is an interleaving of
single accesses.

The kernel side is the plain futex: a wait enqueues its caller only if the word
has the expected value, in one step with the comparison, and otherwise returns
at once; a wake dequeues as many sleepers as it may, in any choice; and a sleeper
may return at any moment without having been woken.

## Main definitions

* `FutexMachine.Instr` — a shared access or futex call with its continuations
* `FutexMachine.Op` — an instruction, or the creation, joining or exit of threads
* `FutexMachine.Step` — one step of one thread
* `FutexMachine.exec` — the same step as a function of the scheduler's choice

## Main results

* `Step.other` — what a step can do to a thread that does not take it
* `asleep_at_wait` — every sleeper got there through a wait of its own program
* `enabled_of_instr` — a thread that is awake at an instruction can always move
-/

namespace FutexMachine

/-! ## Words as signed ints

A program may read its unsigned words into signed variables and back. -/

@[simp] theorem toInt32_eq_zero {v : UInt32} : v.toInt32 = 0 ↔ v = 0 := by
  constructor
  · intro h
    have back := congrArg Int32.toUInt32 h
    rwa [UInt32.toUInt32_toInt32] at back
  · rintro rfl
    rfl

@[simp] theorem toUInt32_eq_zero {v : Int32} : v.toUInt32 = 0 ↔ v = 0 := by
  rw [← toInt32_eq_zero, Int32.toInt32_toUInt32]

/-- A word that counts less than half of its range is positive as an int exactly
when it is not 0. -/
theorem toInt32_pos {v : UInt32} (small : v.toNat < 2 ^ 31) : 0 < v.toInt32 ↔ v ≠ 0 := by
  have value : v.toInt32.toInt = v.toNat := by
    have bits : v.toBitVec.toNat = v.toNat := rfl
    rw [show v.toInt32.toInt = v.toBitVec.toInt from rfl,
      BitVec.toInt_eq_toNat_of_lt (by omega), bits]
  have nonzero : v ≠ 0 ↔ v.toNat ≠ 0 := by
    rw [Ne, ← UInt32.toNat_inj]
    rfl
  rw [Int32.lt_iff_toInt_lt, value, nonzero]
  simp only [Int32.toInt_zero]
  omega

/-! ## Programs -/

/-- One access to the shared words or one futex call, with the control point
the thread continues at. A load, a compare-and-exchange and a decrement continue
with the value they return: the old value for `cmpxchg`, the new one for `dec`. -/
inductive Instr (A L : Type)
  | tau (next : L)
  | load (a : A) (next : UInt32 → L)
  | store (a : A) (v : UInt32) (next : L)
  | cmpxchg (a : A) (old new : UInt32) (next : UInt32 → L)
  | dec (a : A) (next : UInt32 → L)
  | wait (a : A) (v : UInt32) (next : L)
  | wake (a : A) (n : ℕ) (next : L)

/-- An instruction of a procedure, placed in a caller: its words are renamed and
its control points become control points of the caller. -/
@[simp] def Instr.map {A B L M : Type} (f : A → B) (g : L → M) : Instr A L → Instr B M
  | .tau k => .tau (g k)
  | .load a k => .load (f a) (g ∘ k)
  | .store a v k => .store (f a) v (g k)
  | .cmpxchg a old new k => .cmpxchg (f a) old new (g ∘ k)
  | .dec a k => .dec (f a) (g ∘ k)
  | .wait a v k => .wait (f a) v (g k)
  | .wake a n k => .wake (f a) n (g k)

theorem Instr.map_id {A L : Type} (i : Instr A L) : i.map id id = i := by
  cases i <;> rfl

/-- What a thread does next. A thread whose next operation is `exit` has
finished. -/
inductive Op (A T L : Type)
  | instr (i : Instr A L)
  | create (t : T) (next : L)
  | join (t : T) (next : L)
  | exit

/-- Whether the operation is the end of the thread. -/
def Op.isExit {A T L : Type} : Op A T L → Bool
  | .exit => true
  | _ => false

/-- The program of each thread, as a function of its control point. -/
abbrev Program (A T L : Type) := T → L → Op A T L

/-- Where a thread is: not yet created, running at a control point, or asleep on
a word with the control point it returns to. -/
inductive Status (A L : Type)
  | unborn (l : L)
  | ready (l : L)
  | asleep (a : A) (l : L)
  deriving DecidableEq

/-- The control point of a thread, asleep or not. -/
@[simp] def Status.loc {A L : Type} : Status A L → L
  | .unborn l => l
  | .ready l => l
  | .asleep _ l => l

/-- Out of the queue of the word it sleeps on. -/
@[simp] def Status.roused {A L : Type} : Status A L → Status A L
  | .asleep _ l => .ready l
  | status => status

/-- Whether a thread sleeps on the word `a`. -/
@[simp] def Status.sleepsOn {A L : Type} [DecidableEq A] (a : A) : Status A L → Bool
  | .asleep b _ => b = a
  | _ => false

theorem Status.sleepsOn_iff {A L : Type} [DecidableEq A] {a : A} {x : Status A L} :
    x.sleepsOn a = true ↔ ∃ l, x = .asleep a l := by
  cases x <;> simp

@[simp] theorem Status.loc_roused {A L : Type} (x : Status A L) : x.roused.loc = x.loc := by
  cases x <;> rfl

/-- The shared words and the threads. -/
structure State (A T L : Type) where
  mem : A → UInt32
  thread : T → Status A L

/-- What an observer of one step sees of it. -/
inductive Access (A T : Type)
  | tau
  | load (a : A) (got : UInt32)
  | store (a : A) (v : UInt32)
  | cmpxchg (a : A) (old new got : UInt32)
  | dec (a : A) (result : UInt32)
  | wait (a : A) (v : UInt32) (slept : Bool)
  | wake (a : A) (n : ℕ) (woken : Finset T)
  | create (t : T)
  | join (t : T)
  | resume
  deriving DecidableEq

/-- One step: the thread that takes it, the control point it takes it at, and
what it does. A `resume` is the return of a wait that nobody woke. -/
structure Event (A T L : Type) where
  thread : T
  pc : L
  access : Access A T

variable {A T L : Type}

namespace State

variable (s : State A T L)

section Threads

variable [DecidableEq T]

/-- The control point of each thread. -/
def loc (t : T) : L := (s.thread t).loc

/-- Thread `t` continues at `l`. -/
def goto (t : T) (l : L) : State A T L :=
  { s with thread := Function.update s.thread t (.ready l) }

/-- Thread `t` falls asleep on `a`, to return to `l`. -/
def sleep (t : T) (a : A) (l : L) : State A T L :=
  { s with thread := Function.update s.thread t (.asleep a l) }

/-- The threads in `woken` leave the queue they are in. -/
def rouse (woken : Finset T) : State A T L :=
  { s with thread := fun u => if u ∈ woken then (s.thread u).roused else s.thread u }

@[simp] theorem goto_mem (t : T) (l : L) : (s.goto t l).mem = s.mem := rfl

@[simp] theorem goto_self (t : T) (l : L) : (s.goto t l).thread t = .ready l := by
  simp [goto]

theorem goto_of_ne {t u : T} (ne : u ≠ t) (l : L) : (s.goto t l).thread u = s.thread u := by
  simp [goto, ne]

@[simp] theorem sleep_mem (t : T) (a : A) (l : L) : (s.sleep t a l).mem = s.mem := rfl

@[simp] theorem sleep_self (t : T) (a : A) (l : L) : (s.sleep t a l).thread t = .asleep a l := by
  simp [sleep]

theorem sleep_of_ne {t u : T} (ne : u ≠ t) (a : A) (l : L) :
    (s.sleep t a l).thread u = s.thread u := by
  simp [sleep, ne]

@[simp] theorem rouse_mem (woken : Finset T) : (s.rouse woken).mem = s.mem := rfl

theorem rouse_thread (woken : Finset T) (u : T) :
    (s.rouse woken).thread u = if u ∈ woken then (s.thread u).roused else s.thread u := rfl

end Threads

section Words

variable [DecidableEq A]

/-- The word `a` becomes `v`. -/
def write (a : A) (v : UInt32) : State A T L :=
  { s with mem := Function.update s.mem a v }

@[simp] theorem write_mem (a : A) (v : UInt32) :
    (s.write a v).mem = Function.update s.mem a v := rfl

@[simp] theorem write_thread (a : A) (v : UInt32) : (s.write a v).thread = s.thread := rfl

/-- The threads asleep on the word `a`. -/
def sleepers [Fintype T] (a : A) : Finset T :=
  Finset.univ.filter fun u => (s.thread u).sleepsOn a

@[simp] theorem mem_sleepers [Fintype T] {a : A} {u : T} :
    u ∈ s.sleepers a ↔ ∃ l, s.thread u = .asleep a l := by
  rw [sleepers, Finset.mem_filter, Status.sleepsOn_iff]
  simp

end Words

end State

/-- Whether a thread has reached the end of its program. -/
def State.finished (M : Program A T L) (s : State A T L) (t : T) : Bool :=
  match s.thread t with
  | .ready l => (M t l).isExit
  | _ => false

section Semantics

variable [DecidableEq A] [DecidableEq T] [Fintype T]

/-- What the instruction does when thread `t` executes it. The set `woken` is
the kernel's choice of the threads a wake dequeues, as many as there are up to
the limit; the other instructions do not read it. -/
def Instr.perform (s : State A T L) (t : T) (woken : Finset T) :
    Instr A L → Option (Access A T × State A T L)
  | .tau k => some (.tau, s.goto t k)
  | .load a k => some (.load a (s.mem a), s.goto t (k (s.mem a)))
  | .store a v k => some (.store a v, (s.write a v).goto t k)
  -- the old value is returned whether it is replaced or not
  | .cmpxchg a old new k =>
      some (.cmpxchg a old new (s.mem a),
        (if s.mem a = old then s.write a new else s).goto t (k (s.mem a)))
  | .dec a k =>
      some (.dec a (s.mem a - 1), (s.write a (s.mem a - 1)).goto t (k (s.mem a - 1)))
  | .wait a v k =>
      if s.mem a = v then some (.wait a v true, s.sleep t a k)
      else some (.wait a v false, s.goto t k)
  | .wake a n k =>
      if woken ⊆ s.sleepers a ∧ woken.card = min n (s.sleepers a).card then
        some (.wake a n woken, (s.rouse woken).goto t k)
      else none

/-- What the operation does when thread `t` executes it. A join blocks until its
target has finished. -/
def Op.perform (M : Program A T L) (s : State A T L) (t : T) (woken : Finset T) :
    Op A T L → Option (Access A T × State A T L)
  | .instr i => i.perform s t woken
  | .create u k =>
      match s.thread u with
      | .unborn l => some (.create u, (s.goto u l).goto t k)
      | _ => none
  | .join u k => if s.finished M u then some (.join u, s.goto t k) else none
  | .exit => none

/-- One step of one thread: its next operation, or the return of a wait that
nobody woke. -/
inductive Step (M : Program A T L) (s : State A T L) : Event A T L → State A T L → Prop
  | run {t : T} {l : L} {woken : Finset T} {access : Access A T} {s' : State A T L}
      (running : s.thread t = .ready l)
      (performed : (M t l).perform M s t woken = some (access, s')) :
      Step M s ⟨t, l, access⟩ s'
  | resume {t : T} {a : A} {l : L} (sleeping : s.thread t = .asleep a l) :
      Step M s ⟨t, l, .resume⟩ (s.goto t l)

/-- The machine as a transition system with one initial state. -/
def machine (M : Program A T L) (start : State A T L) : System (State A T L) (Event A T L) where
  init s := s = start
  step := Step M

@[simp] theorem machine_init {M : Program A T L} {start s : State A T L} :
    (machine M start).init s ↔ s = start := Iff.rfl

@[simp] theorem machine_step {M : Program A T L} {start s s' : State A T L} {e : Event A T L} :
    (machine M start).step s e s' ↔ Step M s e s' := Iff.rfl

/-! ## The machine as a function of the scheduler's choices -/

/-- What the scheduler and the kernel choose for one step. -/
inductive Choice (T : Type)
  | run (t : T) (woken : Finset T)
  | resume (t : T)

/-- One step under the given choice, if it can be taken. -/
def exec (M : Program A T L) (s : State A T L) : Choice T → Option (Event A T L × State A T L)
  | .run t woken =>
      match s.thread t with
      | .ready l => ((M t l).perform M s t woken).map fun x => (⟨t, l, x.1⟩, x.2)
      | _ => none
  | .resume t =>
      match s.thread t with
      | .asleep _ l => some (⟨t, l, .resume⟩, s.goto t l)
      | _ => none

variable {M : Program A T L} {s s' : State A T L} {e : Event A T L}

theorem step_of_exec {c : Choice T} (done : exec M s c = some (e, s')) : Step M s e s' := by
  cases c with
  | run t woken =>
    cases ht : s.thread t with
    | ready l =>
      simp only [exec, ht, Option.map_eq_some_iff, Prod.mk.injEq] at done
      obtain ⟨⟨access, s''⟩, performed, rfl, rfl⟩ := done
      exact .run ht performed
    | unborn l => simp [exec, ht] at done
    | asleep a l => simp [exec, ht] at done
  | resume t =>
    cases ht : s.thread t with
    | asleep a l =>
      simp only [exec, ht, Option.some.injEq, Prod.mk.injEq] at done
      obtain ⟨rfl, rfl⟩ := done
      exact .resume ht
    | unborn l => simp [exec, ht] at done
    | ready l => simp [exec, ht] at done

/-- A run of the machine with given choices, and what evaluation shows of it. -/
theorem exists_run (M : Program A T L) (start : State A T L) (cs : List (Choice T))
    (P : List (Event A T L) → State A T L → Prop) [∀ w s, Decidable (P w s)]
    (check : (System.execAll (exec M) start cs).any (fun x => P x.1 x.2) = true) :
    ∃ w s, (machine M start).Run w s ∧ P w s :=
  System.exists_run (fun _ _ _ _ => step_of_exec) rfl cs P check

/-- The same for runs under a condition that can be evaluated. -/
theorem exists_run_restrict (M : Program A T L) (start : State A T L)
    (C : State A T L → Event A T L → Prop) [∀ s e, Decidable (C s e)] (cs : List (Choice T))
    (P : List (Event A T L) → State A T L → Prop) [∀ w s, Decidable (P w s)]
    (check : (System.execAll (fun s c => (exec M s c).filter fun x => C s x.1) start cs).any
      (fun x => P x.1 x.2) = true) :
    ∃ w s, ((machine M start).restrict C).Run w s ∧ P w s :=
  System.exists_run_restrict (fun _ _ _ _ => step_of_exec) rfl C cs P check

/-! ## What a step does to the threads -/

/-- What a step can do to a thread that does not take it: nothing, or rouse it
from the word a wake is for, or create it. -/
theorem Step.other (step : Step M s e s') {u : T} (ne : u ≠ e.thread) :
    s'.thread u = s.thread u ∨
    (∃ a n woken l, e.access = .wake a n woken ∧ u ∈ woken ∧ s.thread u = .asleep a l ∧
      s'.thread u = .ready l) ∨
    (∃ l, e.access = .create u ∧ s.thread u = .unborn l ∧ s'.thread u = .ready l) := by
  cases step with
  | resume sleeping => exact .inl (s.goto_of_ne ne _)
  | @run t l woken access s' running performed =>
    cases hop : M t l with
    | exit => simp [hop, Op.perform] at performed
    | join v k =>
      simp only [hop, Op.perform, Option.ite_none_right_eq_some, Option.some.injEq,
        Prod.mk.injEq] at performed
      obtain ⟨-, -, rfl⟩ := performed
      exact .inl (s.goto_of_ne ne _)
    | create v k =>
      cases hv : s.thread v with
      | ready l => simp [hop, Op.perform, hv] at performed
      | asleep a l => simp [hop, Op.perform, hv] at performed
      | unborn l =>
        simp only [hop, Op.perform, hv, Option.some.injEq, Prod.mk.injEq] at performed
        obtain ⟨rfl, rfl⟩ := performed
        rw [State.goto_of_ne _ ne]
        by_cases huv : u = v
        · subst huv
          exact .inr (.inr ⟨l, rfl, hv, State.goto_self _ _ _⟩)
        · exact .inl (s.goto_of_ne huv _)
    | instr i =>
      rw [hop] at performed
      cases i with
      | wake a n k =>
        simp only [Op.perform, Instr.perform, Option.ite_none_right_eq_some, Option.some.injEq,
          Prod.mk.injEq] at performed
        obtain ⟨⟨subset, -⟩, rfl, rfl⟩ := performed
        rw [State.goto_of_ne _ ne, State.rouse_thread]
        by_cases hu : u ∈ woken
        · obtain ⟨l', hl'⟩ := s.mem_sleepers.mp (subset hu)
          exact .inr (.inl ⟨a, n, woken, l', rfl, hu, hl', by simp [hu, hl']⟩)
        · exact .inl (if_neg hu)
      | wait a v k =>
        simp only [Op.perform, Instr.perform] at performed
        split at performed <;>
          simp only [Option.some.injEq, Prod.mk.injEq] at performed <;>
          obtain ⟨-, rfl⟩ := performed
        · exact .inl (s.sleep_of_ne ne _ _)
        · exact .inl (s.goto_of_ne ne _)
      | cmpxchg a old new k =>
        simp only [Op.perform, Instr.perform, Option.some.injEq, Prod.mk.injEq] at performed
        obtain ⟨-, rfl⟩ := performed
        rw [State.goto_of_ne _ ne]
        split <;> exact .inl rfl
      | tau k | load a k | store a v k | dec a k =>
        simp only [Op.perform, Instr.perform, Option.some.injEq, Prod.mk.injEq] at performed
        obtain ⟨-, rfl⟩ := performed
        exact .inl (State.goto_of_ne _ ne _)

/-- A step moves no control point but that of the thread that takes it. -/
theorem Step.loc_other (step : Step M s e s') {u : T} (ne : u ≠ e.thread) :
    s'.loc u = s.loc u := by
  rcases step.other ne with same | ⟨a, n, woken, l, -, -, before, after⟩ | ⟨l, -, before, after⟩
  · simp [State.loc, same]
  · simp [State.loc, before, after]
  · simp [State.loc, before, after]

/-- A thread that is awake stays where it is while others move. -/
theorem Step.ready_other (step : Step M s e s') {u : T} (ne : u ≠ e.thread) {l : L}
    (ready : s.thread u = .ready l) : s'.thread u = .ready l := by
  rcases step.other ne with same | ⟨a, n, woken, l', -, -, before, -⟩ | ⟨l', -, before, -⟩
  · rw [same, ready]
  · simp [ready] at before
  · simp [ready] at before

/-- Nobody falls asleep by a step of another thread. -/
theorem Step.asleep_other (step : Step M s e s') {u : T} (ne : u ≠ e.thread) {a : A} {l : L}
    (asleep : s'.thread u = .asleep a l) : s.thread u = .asleep a l := by
  rcases step.other ne with same | ⟨a, n, woken, l', -, -, -, after⟩ | ⟨l', -, -, after⟩
  · rw [← same, asleep]
  · simp [asleep] at after
  · simp [asleep] at after

/-- A thread that is not yet created is created or stays so. -/
theorem Step.unborn_other (step : Step M s e s') {u : T} (ne : u ≠ e.thread) {l : L}
    (unborn : s'.thread u = .unborn l) : s.thread u = .unborn l := by
  rcases step.other ne with same | ⟨a, n, woken, l', -, -, -, after⟩ | ⟨l', -, -, after⟩
  · rw [← same, unborn]
  · simp [unborn] at after
  · simp [unborn] at after

/-! ## What an instruction does to its own thread -/

/-- The words and the control point after the instruction. A wait continues at
the same point whether it slept or not. -/
@[simp] def Instr.effect (mem : A → UInt32) : Instr A L → (A → UInt32) × L
  | .tau k => (mem, k)
  | .load a k => (mem, k (mem a))
  | .store a v k => (Function.update mem a v, k)
  | .cmpxchg a old new k =>
      (if mem a = old then Function.update mem a new else mem, k (mem a))
  | .dec a k => (Function.update mem a (mem a - 1), k (mem a - 1))
  | .wait _ _ k => (mem, k)
  | .wake _ _ k => (mem, k)

/-- What an observer sees of the instruction. -/
@[simp] def Instr.shows (mem : A → UInt32) (woken : Finset T) : Instr A L → Access A T
  | .tau _ => .tau
  | .load a _ => .load a (mem a)
  | .store a v _ => .store a v
  | .cmpxchg a old new _ => .cmpxchg a old new (mem a)
  | .dec a _ => .dec a (mem a - 1)
  | .wait a v _ => .wait a v (decide (mem a = v))
  | .wake a n _ => .wake a n woken

omit [DecidableEq A] [DecidableEq T] [Fintype T] in
theorem Instr.shows_ne_create {i : Instr A L} {mem : A → UInt32} {woken : Finset T}
    {u : T} : i.shows mem woken ≠ .create u := by
  cases i <;> simp

omit [DecidableEq A] [DecidableEq T] [Fintype T] in
theorem Instr.shows_ne_join {i : Instr A L} {mem : A → UInt32} {woken : Finset T}
    {u : T} : i.shows mem woken ≠ .join u := by
  cases i <;> simp

omit [DecidableEq T] [Fintype T] in
/-- An instruction of a procedure continues in the caller at one of the control
points that the procedure's own become there. -/
theorem Instr.effect_map {B P : Type} [DecidableEq B] {i : Instr B P} {f : B → A} {g : P → L}
    {mem : A → UInt32} : ((i.map f g).effect mem).2 = g (i.effect (mem ∘ f)).2 := by
  cases i <;> simp

theorem Instr.shows_of_perform {i : Instr A L} {t : T} {woken : Finset T}
    {access : Access A T} (performed : i.perform s t woken = some (access, s')) :
    access = i.shows s.mem woken := by
  cases i with
  | wake a n k =>
    simp only [Instr.perform, Option.ite_none_right_eq_some, Option.some.injEq,
      Prod.mk.injEq] at performed
    exact performed.2.1.symm
  | wait a v k =>
    by_cases h : s.mem a = v <;> simp [Instr.perform, h] at performed <;>
      simp [Instr.shows, h, performed.1]
  | tau k | load a k | store a v k | dec a k | cmpxchg a old new k =>
    simp only [Instr.perform, Option.some.injEq, Prod.mk.injEq] at performed
    exact performed.1.symm

theorem Instr.effect_of_perform {i : Instr A L} {t : T} {woken : Finset T}
    {access : Access A T} (performed : i.perform s t woken = some (access, s')) :
    s'.mem = (i.effect s.mem).1 ∧ s'.loc t = (i.effect s.mem).2 := by
  cases i with
  | wake a n k =>
    simp only [Instr.perform, Option.ite_none_right_eq_some, Option.some.injEq,
      Prod.mk.injEq] at performed
    obtain ⟨-, -, rfl⟩ := performed
    simp [State.loc, Instr.effect]
  | wait a v k =>
    simp only [Instr.perform] at performed
    split at performed <;>
      simp only [Option.some.injEq, Prod.mk.injEq] at performed <;>
      obtain ⟨-, rfl⟩ := performed <;> simp [State.loc, Instr.effect]
  | cmpxchg a old new k =>
    simp only [Instr.perform, Option.some.injEq, Prod.mk.injEq] at performed
    obtain ⟨-, rfl⟩ := performed
    by_cases h : s.mem a = old <;> simp [State.loc, Instr.effect, h]
  | tau k | load a k | store a v k | dec a k =>
    simp only [Instr.perform, Option.some.injEq, Prod.mk.injEq] at performed
    obtain ⟨-, rfl⟩ := performed
    simp [State.loc, Instr.effect]

/-- The four kinds of step. -/
theorem Step.view (step : Step M s e s') :
    (∃ i woken, M e.thread e.pc = .instr i ∧ s.thread e.thread = .ready e.pc ∧
      i.perform s e.thread woken = some (e.access, s')) ∨
    (∃ u l k, M e.thread e.pc = .create u k ∧ s.thread e.thread = .ready e.pc ∧
      s.thread u = .unborn l ∧ e.access = .create u ∧ s' = (s.goto u l).goto e.thread k) ∨
    (∃ u k, M e.thread e.pc = .join u k ∧ s.thread e.thread = .ready e.pc ∧
      s.finished M u = true ∧ e.access = .join u ∧ s' = s.goto e.thread k) ∨
    (∃ a, s.thread e.thread = .asleep a e.pc ∧ e.access = .resume ∧
      s' = s.goto e.thread e.pc) := by
  cases step with
  | @resume t a l sleeping => exact .inr (.inr (.inr ⟨a, sleeping, rfl, rfl⟩))
  | @run t l woken access s' running performed =>
    simp only
    cases hop : M t l with
    | exit => simp [hop, Op.perform] at performed
    | instr i => exact .inl ⟨i, woken, rfl, running, by simpa [hop, Op.perform] using performed⟩
    | join u k =>
      simp only [hop, Op.perform, Option.ite_none_right_eq_some, Option.some.injEq,
        Prod.mk.injEq] at performed
      obtain ⟨finished, rfl, rfl⟩ := performed
      exact .inr (.inr (.inl ⟨u, k, rfl, running, finished, rfl, rfl⟩))
    | create u k =>
      cases hu : s.thread u with
      | ready l => simp [hop, Op.perform, hu] at performed
      | asleep a l => simp [hop, Op.perform, hu] at performed
      | unborn l' =>
        simp only [hop, Op.perform, hu, Option.some.injEq, Prod.mk.injEq] at performed
        obtain ⟨rfl, rfl⟩ := performed
        exact .inr (.inl ⟨u, l', k, rfl, running, hu, rfl, rfl⟩)

/-- A step is taken at the control point of its thread. -/
theorem Step.pc_eq (step : Step M s e s') : e.pc = s.loc e.thread := by
  rcases step.view with ⟨i, woken, -, ready, -⟩ | ⟨u, l, k, -, ready, -⟩ | ⟨u, k, -, ready, -⟩ |
    ⟨a, sleeping, -⟩
  · simp [State.loc, ready]
  · simp [State.loc, ready]
  · simp [State.loc, ready]
  · simp [State.loc, sleeping]

/-- A step as far as the words and the control points go: the rest of a step is
who sleeps and who is created. -/
theorem Step.effect (step : Step M s e s') :
    (∃ i woken, M e.thread e.pc = .instr i ∧ s.thread e.thread = .ready e.pc ∧
      e.access = i.shows s.mem woken ∧ s'.mem = (i.effect s.mem).1 ∧
      s'.loc = Function.update s.loc e.thread (i.effect s.mem).2) ∨
    (s'.mem = s.mem ∧ (e.access = .resume ∧ (∃ a, s.thread e.thread = .asleep a e.pc) ∧
        s'.loc = s.loc ∨
      ∃ u k, (M e.thread e.pc = .create u k ∧ e.access = .create u ∨
          M e.thread e.pc = .join u k ∧ e.access = .join u ∧ s.finished M u = true) ∧
        s'.loc = Function.update s.loc e.thread k)) := by
  have others : ∀ x, s'.loc e.thread = x → s'.loc = Function.update s.loc e.thread x := by
    rintro x rfl
    funext u
    by_cases hu : u = e.thread
    · subst hu; simp
    · rw [Function.update_of_ne hu, step.loc_other hu]
  rcases step.view with ⟨i, woken, hop, ready, performed⟩ | ⟨u, l, k, hop, -, -, shown, rfl⟩ |
    ⟨u, k, hop, -, finished, shown, rfl⟩ | ⟨a, sleeping, resumed, rfl⟩
  · obtain ⟨hmem, hloc⟩ := Instr.effect_of_perform performed
    exact .inl ⟨i, woken, hop, ready, Instr.shows_of_perform performed, hmem, others _ hloc⟩
  · exact .inr ⟨rfl, .inr ⟨u, k, .inl ⟨hop, shown⟩, others _ (by simp [State.loc])⟩⟩
  · exact .inr ⟨rfl, .inr ⟨u, k, .inr ⟨hop, shown, finished⟩, others _ (by simp [State.loc])⟩⟩
  · refine .inr ⟨rfl, .inl ⟨resumed, ⟨a, sleeping⟩, ?_⟩⟩
    rw [others e.pc (by simp [State.loc])]
    exact Function.update_eq_self_iff.mpr (by simp [State.loc, sleeping])

/-- What a thread that is awake at a given instruction does. -/
theorem Step.effect_of_instr (step : Step M s e s') {i : Instr A L}
    (hop : M e.thread e.pc = .instr i) (ready : s.thread e.thread = .ready e.pc) :
    s'.mem = (i.effect s.mem).1 ∧ s'.loc = Function.update s.loc e.thread (i.effect s.mem).2 := by
  rcases step.effect with ⟨j, woken, hop', -, -, mem, loc⟩ |
    ⟨-, ⟨-, ⟨a, asleep⟩, -⟩ | ⟨u, k, hop', -⟩⟩
  · obtain rfl : i = j := by simpa [hop] using hop'
    exact ⟨mem, loc⟩
  · simp [ready] at asleep
  · simp [hop] at hop'

/-! ## Sleeping and waking -/

/-- After its step a thread is awake, or asleep because of it. -/
theorem Step.self (step : Step M s e s') :
    s'.thread e.thread = .ready (s'.loc e.thread) ∨
      ∃ a, s'.thread e.thread = .asleep a (s'.loc e.thread) := by
  rcases step.view with ⟨i, woken, -, -, performed⟩ | ⟨u, l, k, -, -, -, -, rfl⟩ |
    ⟨u, k, -, -, -, -, rfl⟩ | ⟨b, -, -, rfl⟩
  · cases i with
    | wait a v k =>
      by_cases h : s.mem a = v <;> simp [Instr.perform, h] at performed <;>
        simp [State.loc, ← performed.2]
    | wake a n k =>
      simp only [Instr.perform, Option.ite_none_right_eq_some, Option.some.injEq,
        Prod.mk.injEq] at performed
      simp [State.loc, ← performed.2.2]
    | tau k | load a k | store a v k | dec a k | cmpxchg a old new k =>
      simp only [Instr.perform, Option.some.injEq, Prod.mk.injEq] at performed
      simp [State.loc, ← performed.2]
  · simp [State.loc]
  · simp [State.loc]
  · simp [State.loc]

/-- A thread falls asleep only by a wait of its own, on a word that has the
value it waits for. -/
theorem Step.asleep_self (step : Step M s e s') {a : A} {l : L}
    (asleep : s'.thread e.thread = .asleep a l) :
    ∃ v, M e.thread e.pc = .instr (.wait a v l) ∧ s.mem a = v ∧ s'.mem = s.mem := by
  rcases step.view with ⟨i, woken, hop, -, performed⟩ | ⟨u, l, k, -, -, -, -, rfl⟩ |
    ⟨u, k, -, -, -, -, rfl⟩ | ⟨b, -, -, rfl⟩
  · cases i with
    | wait b v k =>
      simp only [Instr.perform] at performed
      split at performed <;>
        simp only [Option.some.injEq, Prod.mk.injEq] at performed <;>
        obtain ⟨-, rfl⟩ := performed
      · simp only [State.sleep_self, Status.asleep.injEq] at asleep
        obtain ⟨rfl, rfl⟩ := asleep
        exact ⟨v, hop, ‹_›, rfl⟩
      · simp at asleep
    | wake b n k =>
      simp only [Instr.perform, Option.ite_none_right_eq_some, Option.some.injEq,
        Prod.mk.injEq] at performed
      obtain ⟨-, -, rfl⟩ := performed
      simp at asleep
    | tau k | load b k | store b v k | dec b k | cmpxchg b old new k =>
      simp only [Instr.perform, Option.some.injEq, Prod.mk.injEq] at performed
      obtain ⟨-, rfl⟩ := performed
      simp at asleep
  · simp at asleep
  · simp at asleep
  · simp at asleep

/-- Only a thread that has been created takes steps. -/
theorem Step.not_unborn_self (step : Step M s e s') (l : L) : s.thread e.thread ≠ .unborn l := by
  rcases step.view with ⟨i, w, -, ready, -⟩ | ⟨v, l', k, -, ready, -⟩ | ⟨v, k, -, ready, -⟩ |
    ⟨a, asleep, -⟩
  · simp [ready]
  · simp [ready]
  · simp [ready]
  · simp [asleep]

/-- Only a thread that has not finished takes steps. -/
theorem Step.not_finished_self (step : Step M s e s') : s.finished M e.thread = false := by
  rcases step.view with ⟨i, w, hop, ready, -⟩ | ⟨v, l', k, hop, ready, -⟩ |
    ⟨v, k, hop, ready, -⟩ | ⟨a, asleep, -⟩
  · simp [State.finished, ready, hop, Op.isExit]
  · simp [State.finished, ready, hop, Op.isExit]
  · simp [State.finished, ready, hop, Op.isExit]
  · simp [State.finished, asleep]

/-- The threads that are not yet created after a step are those before it, but
for the one it creates. -/
theorem Step.unborn_iff (step : Step M s e s') (u : T) :
    (∃ l, s'.thread u = .unborn l) ↔
      (∃ l, s.thread u = .unborn l) ∧ e.access ≠ .create u := by
  by_cases hu : u = e.thread
  · subst hu
    have born : ¬ ∃ l, s'.thread e.thread = .unborn l := by
      rintro ⟨l, unborn⟩
      rcases step.self with ready | ⟨a, asleep⟩
      · simp [ready] at unborn
      · simp [asleep] at unborn
    exact iff_of_false born fun h => step.not_unborn_self _ h.1.choose_spec
  · rcases step.view with ⟨i, woken, -, -, performed⟩ | ⟨v, l, k, -, -, unborn, shown, rfl⟩ |
      ⟨v, k, -, -, -, shown, rfl⟩ | ⟨a, -, shown, rfl⟩
    · have shown : e.access ≠ .create u := by
        rw [Instr.shows_of_perform performed]
        exact Instr.shows_ne_create
      rcases step.other hu with same | ⟨a, n, w, l, -, -, before, after⟩ | ⟨l, created, -, -⟩
      · simp [same, shown]
      · simp [before, after]
      · exact absurd created shown
    · by_cases hv : u = v
      · subst hv
        simp [State.goto_of_ne _ hu, shown]
      · simp [State.goto_of_ne _ hu, State.goto_of_ne _ hv, shown, Ne.symm hv]
    · simp [State.goto_of_ne _ hu, shown]
    · simp [State.goto_of_ne _ hu, shown]

/-- A join ends only when its target has finished. -/
theorem Step.finished_of_join (step : Step M s e s') {t : T} (shown : e.access = .join t) :
    s.finished M t = true := by
  rcases step.effect with ⟨i, w, -, -, shown', -⟩ | ⟨-, ⟨resumed, -⟩ |
    ⟨u, k, ⟨-, shown'⟩ | ⟨-, shown', finished⟩, -⟩⟩
  · exact absurd (shown' ▸ shown) Instr.shows_ne_join
  · simp [resumed] at shown
  · simp [shown'] at shown
  · obtain rfl : u = t := by simpa [shown'] using shown
    exact finished

/-- A thread that has finished stays so. -/
theorem Step.finished (step : Step M s e s') {t : T} (finished : s.finished M t = true) :
    s'.finished M t = true := by
  cases ht : s.thread t with
  | unborn l => simp [State.finished, ht] at finished
  | asleep a l => simp [State.finished, ht] at finished
  | ready l =>
    have atExit : (M t l).isExit = true := by simpa [State.finished, ht] using finished
    have other : t ≠ e.thread := by
      rintro rfl
      simp [step.not_finished_self] at finished
    simp [State.finished, step.ready_other other ht, atExit]

/-- A wake for at least one thread leaves a thread awake that slept on the word,
if there was one. -/
theorem Step.exists_roused (step : Step M s e s') {a : A} {n : ℕ} {k : L}
    (wake : M e.thread e.pc = .instr (.wake a n k)) (awake : s.thread e.thread = .ready e.pc)
    (positive : 0 < n) {u : T} {l : L} (asleep : s.thread u = .asleep a l) :
    ∃ v l', s.thread v = .asleep a l' ∧ s'.thread v = .ready l' := by
  rcases step.view with ⟨i, woken, hop, -, performed⟩ | ⟨u, l, k', hop, -⟩ | ⟨u, k', hop, -⟩ |
    ⟨b, sleeping, -⟩
  · obtain rfl : i = .wake a n k := by simpa [wake] using hop.symm
    simp only [Instr.perform, Option.ite_none_right_eq_some, Option.some.injEq,
      Prod.mk.injEq] at performed
    obtain ⟨⟨subset, card⟩, -, rfl⟩ := performed
    have sleepers : 0 < (s.sleepers a).card :=
      Finset.card_pos.mpr ⟨u, s.mem_sleepers.mpr ⟨l, asleep⟩⟩
    obtain ⟨v, hv⟩ : woken.Nonempty := Finset.card_pos.mp (by omega)
    obtain ⟨l', hl'⟩ := s.mem_sleepers.mp (subset hv)
    have other : v ≠ e.thread := by rintro rfl; simp [hl'] at awake
    exact ⟨v, l', hl', by simp [State.goto_of_ne _ other, State.rouse_thread, hv, hl']⟩
  · simp [wake] at hop
  · simp [wake] at hop
  · simp [awake] at sleeping

/-- A wake for as many threads as sleep on the word leaves nobody asleep there. -/
theorem Step.all_roused (step : Step M s e s') {a : A} {n : ℕ} {k : L}
    (wake : M e.thread e.pc = .instr (.wake a n k)) (awake : s.thread e.thread = .ready e.pc)
    (enough : (s.sleepers a).card ≤ n) (u : T) (l : L) : s'.thread u ≠ .asleep a l := by
  rcases step.view with ⟨i, woken, hop, -, performed⟩ | ⟨u, l, k', hop, -⟩ | ⟨u, k', hop, -⟩ |
    ⟨b, sleeping, -⟩
  · obtain rfl : i = .wake a n k := by simpa [wake] using hop.symm
    intro asleep
    have other : u ≠ e.thread := by
      rintro rfl
      obtain ⟨v, hop', -⟩ := step.asleep_self asleep
      simp [wake] at hop'
    have before := step.asleep_other other asleep
    simp only [Instr.perform, Option.ite_none_right_eq_some, Option.some.injEq,
      Prod.mk.injEq] at performed
    obtain ⟨⟨subset, card⟩, -, rfl⟩ := performed
    have all : woken = s.sleepers a := Finset.eq_of_subset_of_card_le subset (by omega)
    have hu : u ∈ woken := all ▸ s.mem_sleepers.mpr ⟨l, before⟩
    simp [State.goto_of_ne _ other, State.rouse_thread, hu, before] at asleep
  · simp [wake] at hop
  · simp [wake] at hop
  · simp [awake] at sleeping

/-- A thread that is there from the start stays so. -/
theorem not_unborn {start : State A T L} {t : T} (born : ∀ l, start.thread t ≠ .unborn l)
    (reach : (machine M start).Reachable s) (l : L) : s.thread t ≠ .unborn l := by
  have inv : (machine M start).Invariant fun s => ¬ ∃ l, s.thread t = .unborn l := by
    refine ⟨?_, ?_⟩
    · rintro s rfl ⟨l, unborn⟩
      exact born l unborn
    · intro s e s' _ held step unborn
      exact held ((Step.unborn_iff step t).mp unborn).1
  intro unborn
  exact inv.of_reachable reach ⟨l, unborn⟩

/-- A thread that is not yet created is where it started. -/
theorem unborn_at_start {start : State A T L} (reach : (machine M start).Reachable s) {t : T}
    {l : L} (unborn : s.thread t = .unborn l) : start.thread t = .unborn l := by
  have inv : (machine M start).Invariant fun s =>
      ∀ l, s.thread t = .unborn l → start.thread t = .unborn l := by
    refine ⟨?_, ?_⟩
    · rintro s rfl l unborn
      exact unborn
    · intro s e s' _ held step l unborn
      by_cases ht : t = e.thread
      · subst ht
        rcases Step.self step with ready | ⟨a, asleep⟩
        · simp [unborn] at ready
        · simp [unborn] at asleep
      · exact held l (Step.unborn_other step ht unborn)
  exact inv.of_reachable reach l unborn

/-- Every sleeper got there through a wait of its own program on that word. -/
theorem asleep_at_wait {start : State A T L} (awake : ∀ t a l, start.thread t ≠ .asleep a l)
    (reach : (machine M start).Reachable s) {t : T} {a : A} {l : L}
    (asleep : s.thread t = .asleep a l) : ∃ pc v, M t pc = .instr (.wait a v l) := by
  have inv : (machine M start).Invariant fun s =>
      ∀ t a l, s.thread t = .asleep a l → ∃ pc v, M t pc = .instr (.wait a v l) := by
    refine ⟨?_, ?_⟩
    · rintro s rfl t a l asleep
      exact absurd asleep (awake t a l)
    · intro s e s' _ held step t a l asleep
      by_cases ht : t = e.thread
      · subst ht
        obtain ⟨v, hop, -⟩ := Step.asleep_self step asleep
        exact ⟨_, v, hop⟩
      · exact held t a l (Step.asleep_other step ht asleep)
  exact inv.of_reachable reach t a l asleep

/-! ## Which threads can move -/

/-- Thread `t` can take a step of its own program. The spurious return of a wait
does not count. -/
def Enabled (M : Program A T L) (s : State A T L) (t : T) : Prop :=
  ∃ pc access s', s.thread t = .ready pc ∧ Step M s ⟨t, pc, access⟩ s'

/-- A thread that is awake at an instruction can always move. -/
theorem enabled_of_instr {t : T} {pc : L} {i : Instr A L} (ready : s.thread t = .ready pc)
    (hop : M t pc = .instr i) : Enabled M s t := by
  obtain ⟨woken, x, performed⟩ : ∃ woken x, i.perform s t woken = some x := by
    cases i with
    | wake a n k =>
      obtain ⟨woken, subset, card⟩ :=
        Finset.exists_subset_card_eq (Nat.min_le_right n (s.sleepers a).card)
      exact ⟨woken, _, if_pos ⟨subset, card⟩⟩
    | wait a v k =>
      by_cases h : s.mem a = v
      · exact ⟨∅, _, if_pos h⟩
      · exact ⟨∅, _, if_neg h⟩
    | tau k | load a k | store a v k | dec a k | cmpxchg a old new k => exact ⟨∅, _, rfl⟩
  have performed' : (M t pc).perform M s t woken = some (x.1, x.2) := by
    rw [hop]
    exact performed
  exact ⟨pc, x.1, x.2, ready, .run ready performed'⟩

/-- A thread that is awake at the creation of a thread that is not there can move. -/
theorem enabled_of_create {t u : T} {pc k : L} (ready : s.thread t = .ready pc)
    (hop : M t pc = .create u k) (unborn : ∃ l, s.thread u = .unborn l) : Enabled M s t := by
  obtain ⟨l, unborn⟩ := unborn
  have performed : (M t pc).perform M s t ∅ =
      some (.create u, (s.goto u l).goto t k) := by
    simp [hop, Op.perform, unborn]
  exact ⟨pc, .create u, _, ready, .run ready performed⟩

/-- A thread that is awake at the join of a finished thread can move. -/
theorem enabled_of_join {t u : T} {pc k : L} (ready : s.thread t = .ready pc)
    (hop : M t pc = .join u k) (finished : s.finished M u = true) : Enabled M s t := by
  have performed : (M t pc).perform M s t ∅ = some (.join u, s.goto t k) := by
    simp [hop, Op.perform, finished]
  exact ⟨pc, .join u, s.goto t k, ready, .run ready performed⟩

end Semantics

end FutexMachine
