import Mathlib.Data.Finset.Card
import Mathlib.Data.Fintype.Card
import Futextest.SysResult
import Futextest.System

/-!
# Threads on priority-inheritance futexes

Threads that share int cells and sleep in the kernel, as in a plain futex
machine, and in addition own and hand on PI futexes. A PI futex has an owner and
a queue of threads that want it. A thread may also wait at a plain futex word for
being requeued: another one then moves it, asleep, to the queue of a PI futex, or
gives it that futex if nobody owns it.

The kernel chooses whom to wake, whom to hand a PI futex to, and whether a requeue
fails. A queued thread with a timeout may leave with `ETIMEDOUT` at any moment,
from whichever queue it is in by then; one whose timeout the kernel does not accept
is not queued at all.

## Main definitions

* `PiFutex.Op` — one access or system call, or the life of threads
* `PiFutex.Status`, `PiFutex.Queue` — where a thread is, and in which queue
* `PiFutex.Step` — one step of one thread; `PiFutex.exec` computes it
* `PiFutex.Op.Does` — what an operation can do, case by case

## Main results

* `Op.does_of_perform` — there are no other cases
* `Step.passive` — what a step can do to a thread that does not take it
* `Step.active` — what it can do to the thread that takes it
* `Step.requeue` — what a requeue returns and whom it takes
-/

namespace PiFutex

/-! ## Programs -/

/-- The timeout of a wait: none, one that the kernel accepts, or one that it does not. -/
inductive Timeout
  | never
  | valid
  | invalid
  deriving DecidableEq

/-- What a thread does next, with the control point it continues at: an access to
a shared cell, a futex call, or the creation, joining or exit of a thread. A
thread whose next operation is `exit` has finished. -/
inductive Op (A P T L : Type)
  | tau (next : L)
  | load (a : A) (next : ℤ → L)
  | store (a : A) (v : ℤ) (next : L)
  | inc (a : A) (next : L)
  | wait (a : A) (v : ℤ) (next : SysResult → L)
  | wake (a : A) (n : ℕ) (next : L)
  | lockPi (p : P) (next : SysResult → L)
  | unlockPi (p : P) (next : SysResult → L)
  | waitRequeuePi (a : A) (v : ℤ) (p : P) (timeout : Timeout) (next : SysResult → L)
  | cmpRequeuePi (a : A) (v : ℤ) (p : P) (nrWake nrRequeue : ℕ) (next : SysResult → L)
  | create (t : T) (next : L)
  | join (t : T) (next : L)
  | exit

/-- Whether an operation is a futex call. -/
def Op.isFutex {A P T L : Type} : Op A P T L → Bool
  | .tau _ | .load _ _ | .store _ _ _ | .inc _ _ | .create _ _ | .join _ _ | .exit => false
  | _ => true

/-- The program of each thread, as a function of its control point. -/
abbrev Program (A P T L : Type) := T → L → Op A P T L

/-- The queues a thread can be in: at a word, to be requeued to a PI futex, or for
that PI futex itself. -/
inductive Queue (A P : Type)
  | source (a : A) (p : P)
  | pi (p : P)
  deriving DecidableEq

/-- Where a thread is. One that is queued continues at `granted` when it is given
the PI futex, and at `expired` when its timeout comes first. -/
inductive Status (A P L : Type)
  | unborn (l : L)
  | ready (l : L)
  | asleep (a : A) (l : L)
  | queued (q : Queue A P) (granted : L) (expired : Option L)
  deriving DecidableEq

variable {A P T L : Type}

/-- The control point of a thread, or the one it continues at if all goes well. -/
@[simp] def Status.loc : Status A P L → L
  | .unborn l => l
  | .ready l => l
  | .asleep _ l => l
  | .queued _ l _ => l

/-- Whether the thread is in the queue. -/
def Status.inQueue [DecidableEq A] [DecidableEq P] (q : Queue A P) : Status A P L → Bool
  | .queued q' _ _ => q' = q
  | _ => false

/-- Moved to the queue of the PI futex `p`. -/
@[simp] def Status.requeued (p : P) : Status A P L → Status A P L
  | .queued _ l x => .queued (.pi p) l x
  | status => status

/-- Whether the thread sleeps on the word. -/
def Status.sleepsOn [DecidableEq A] (a : A) : Status A P L → Bool
  | .asleep b _ => b = a
  | _ => false

/-- The shared cells, the owners of the PI futexes, and the threads. -/
structure State (A P T L : Type) where
  mem : A → ℤ
  owner : P → Option T
  thread : T → Status A P L

/-- What an observer of one step sees of it. `taken` are the threads that a
requeue takes from the word. -/
inductive Access (A P T : Type)
  | tau
  | load (a : A) (got : ℤ)
  | store (a : A) (v : ℤ)
  | inc (a : A) (result : ℤ)
  | wait (a : A) (slept : Bool)
  | wake (a : A) (woken : Finset T)
  | lockPi (p : P) (owned : Bool)
  | unlockPi (p : P) (heir : Option T)
  | waitRequeuePi (a : A) (p : P) (slept : Bool)
  | cmpRequeuePi (a : A) (p : P) (taken : Finset T) (heir : Option T)
  | create (t : T)
  | join (t : T)
  | resume
  | expire

/-- The threads that a step moves away from the word they wait at. -/
def Access.taken : Access A P T → Finset T
  | .cmpRequeuePi _ _ taken _ => taken
  | _ => ∅

/-- One step: the thread that takes it, the control point it takes it at, and what
it does. A `resume` is the return of a wait that nobody woke, an `expire` the end
of a timeout. -/
structure Event (A P T L : Type) where
  thread : T
  pc : L
  access : Access A P T

/-! ## The machine -/

namespace State

variable (s : State A P T L)

section Threads

variable [DecidableEq T]

/-- The control point of each thread. -/
def loc (t : T) : L := (s.thread t).loc

/-- Thread `t` gets the status. -/
def put (t : T) (status : Status A P L) : State A P T L :=
  { s with thread := Function.update s.thread t status }

/-- The threads in `woken` continue. -/
def rouse (woken : Finset T) : State A P T L :=
  { s with thread := fun u => if u ∈ woken then .ready (s.thread u).loc else s.thread u }

/-- The threads in `taken` move to the queue of `p`. -/
def requeue (p : P) (taken : Finset T) : State A P T L :=
  { s with thread := fun u => if u ∈ taken then (s.thread u).requeued p else s.thread u }

@[simp] theorem put_mem (t : T) (x : Status A P L) : (s.put t x).mem = s.mem := rfl

@[simp] theorem put_owner (t : T) (x : Status A P L) : (s.put t x).owner = s.owner := rfl

@[simp] theorem put_self (t : T) (x : Status A P L) : (s.put t x).thread t = x := by
  simp [put]

theorem put_of_ne {t u : T} (ne : u ≠ t) (x : Status A P L) :
    (s.put t x).thread u = s.thread u := by
  simp [put, ne]

end Threads

section Words

variable [DecidableEq A] [DecidableEq P]

/-- The cell `a` becomes `v`. -/
def write (a : A) (v : ℤ) : State A P T L :=
  { s with mem := Function.update s.mem a v }

/-- The PI futex `p` gets the owner, or none. -/
def own (p : P) (t : Option T) : State A P T L :=
  { s with owner := Function.update s.owner p t }

/-- The PI futex `p` is given to the heir, who continues. Without one nothing
happens. -/
def grant [DecidableEq T] (p : P) : Option T → State A P T L
  | none => s
  | some u => (s.own p (some u)).put u (.ready (s.loc u))

/-- The threads in the queue. -/
def queue [Fintype T] (q : Queue A P) : Finset T :=
  Finset.univ.filter fun u => (s.thread u).inQueue q

theorem mem_queue [Fintype T] {q : Queue A P} {u : T} :
    u ∈ s.queue q ↔ ∃ l x, s.thread u = .queued q l x := by
  rw [queue, Finset.mem_filter]
  cases h : s.thread u <;> simp [Status.inQueue]

/-- The threads asleep on the word. -/
def sleepers [Fintype T] (a : A) : Finset T :=
  Finset.univ.filter fun u => (s.thread u).sleepsOn a

omit [DecidableEq P] in
theorem mem_sleepers [Fintype T] {a : A} {u : T} :
    u ∈ s.sleepers a ↔ ∃ l, s.thread u = .asleep a l := by
  rw [sleepers, Finset.mem_filter]
  cases h : s.thread u <;> simp [Status.sleepsOn]

end Words

/-- Whether a thread has reached the end of its program. -/
def finished (M : Program A P T L) (t : T) : Bool :=
  match s.thread t with
  | .ready l => match M t l with
    | .exit => true
    | _ => false
  | _ => false

end State

/-- What the kernel chooses in one step: the threads that a wake or a requeue
takes, the thread that a PI futex is given to, and the error of a requeue that
fails. -/
structure Kernel (T : Type) where
  taken : Finset T
  heir : Option T
  errno : Option ℕ

/-- Whether a requeue may choose this heir: one of the threads it takes, if it
takes any and the PI futex has no owner. -/
def Kernel.heirs [DecidableEq T] (c : Kernel T) (owner : Option T) : Bool :=
  match c.heir with
  | none => owner ≠ none ∨ c.taken = ∅
  | some u => owner = none ∧ u ∈ c.taken

section Semantics

variable [DecidableEq A] [DecidableEq P] [DecidableEq T] [Fintype T]

/-- What the operation does when thread `t` executes it.

`lockPi` takes a free PI futex and queues for one that somebody else owns.
`unlockPi` hands the futex to a queued thread if there is one. `waitRequeuePi`
queues at the word if the kernel accepts its timeout and the word has the expected
value. `cmpRequeuePi` fails with some error and moves nobody, or takes threads queued
at the word, at most as many as it may wake and requeue and, unless these are all, at
least as many as it may requeue; if nobody owns the PI futex one of them becomes its
owner, and the others queue for it. -/
def Op.perform (M : Program A P T L) (s : State A P T L) (t : T) (c : Kernel T) :
    Op A P T L → Option (Access A P T × State A P T L)
  | .tau k => some (.tau, s.put t (.ready k))
  | .load a k => some (.load a (s.mem a), s.put t (.ready (k (s.mem a))))
  | .store a v k => some (.store a v, (s.write a v).put t (.ready k))
  | .inc a k => some (.inc a (s.mem a + 1), (s.write a (s.mem a + 1)).put t (.ready k))
  -- the kernel compares the word before it puts the thread to sleep
  | .wait a v k =>
      if s.mem a = v then some (.wait a true, s.put t (.asleep a (k (.ok 0))))
      else some (.wait a false, s.put t (.ready (k (.error ewouldblock))))
  | .wake a n k =>
      if c.taken ⊆ s.sleepers a ∧ c.taken.card = min n (s.sleepers a).card then
        some (.wake a c.taken, (s.rouse c.taken).put t (.ready k))
      else none
  | .lockPi p k =>
      match s.owner p with
      | none => some (.lockPi p true, (s.own p (some t)).put t (.ready (k (.ok 0))))
      | some u =>
          if u = t then some (.lockPi p false, s.put t (.ready (k (.error edeadlk))))
          else some (.lockPi p false, s.put t (.queued (.pi p) (k (.ok 0)) none))
  | .unlockPi p k =>
      if s.owner p = some t then
        match c.heir with
        -- nobody may be passed over who waits for it
        | none =>
            if s.queue (.pi p) = ∅ then
              some (.unlockPi p none, (s.own p none).put t (.ready (k (.ok 0))))
            else none
        | some u =>
            if u ∈ s.queue (.pi p) then
              some (.unlockPi p (some u), (s.grant p (some u)).put t (.ready (k (.ok 0))))
            else none
      else some (.unlockPi p none, s.put t (.ready (k (.error eperm))))
  | .waitRequeuePi a v p timeout k =>
      -- the kernel looks at the timeout before it looks at the word
      if timeout = .invalid then
        some (.waitRequeuePi a p false, s.put t (.ready (k (.error einval))))
      else if s.mem a = v then
        some (.waitRequeuePi a p true, s.put t (.queued (.source a p) (k (.ok 0))
          (if timeout = .valid then some (k (.error etimedout)) else none)))
      else some (.waitRequeuePi a p false, s.put t (.ready (k (.error ewouldblock))))
  | .cmpRequeuePi a v p nrWake nrRequeue k =>
      match c.errno with
      | some errno =>
          -- whatever the reason, nobody is moved
          if 0 < errno then some (.cmpRequeuePi a p ∅ none, s.put t (.ready (k (.error errno))))
          else none
      | none =>
          if s.mem a = v ∧ c.taken ⊆ s.queue (.source a p) ∧ c.taken.card ≤ nrWake + nrRequeue ∧
              (c.taken = s.queue (.source a p) ∨ nrRequeue ≤ c.taken.card) ∧
              c.heirs (s.owner p) then
            some (.cmpRequeuePi a p c.taken c.heir,
              ((s.requeue p c.taken).grant p c.heir).put t (.ready (k (.ok c.taken.card))))
          else none
  | .create u k =>
      match s.thread u with
      | .unborn l => some (.create u, (s.put u (.ready l)).put t (.ready k))
      | _ => none
  | .join u k => if s.finished M u then some (.join u, s.put t (.ready k)) else none
  | .exit => none

/-- One step of one thread: its next operation, the return of a wait that nobody
woke, or the end of a timeout. -/
inductive Step (M : Program A P T L) (s : State A P T L) : Event A P T L → State A P T L → Prop
  | run {t : T} {l : L} {c : Kernel T} {access : Access A P T} {s' : State A P T L}
      (running : s.thread t = .ready l)
      (performed : (M t l).perform M s t c = some (access, s')) : Step M s ⟨t, l, access⟩ s'
  | resume {t : T} {a : A} {l : L} (sleeping : s.thread t = .asleep a l) :
      Step M s ⟨t, l, .resume⟩ (s.put t (.ready l))
  | expire {t : T} {q : Queue A P} {l x : L} (waiting : s.thread t = .queued q l (some x)) :
      Step M s ⟨t, l, .expire⟩ (s.put t (.ready x))

/-- The machine as a transition system with one initial state. -/
def machine (M : Program A P T L) (start : State A P T L) :
    System (State A P T L) (Event A P T L) where
  init s := s = start
  step := Step M

@[simp] theorem machine_step {M : Program A P T L} {start s s' : State A P T L}
    {e : Event A P T L} : (machine M start).step s e s' ↔ Step M s e s' := Iff.rfl

/-- What the scheduler and the kernel choose for one step. -/
inductive Choice (T : Type)
  | run (t : T) (c : Kernel T)
  | resume (t : T)
  | expire (t : T)

/-- The next `n` operations of the thread, with nothing for the kernel to choose. -/
def Choice.ops (t : T) (n : ℕ) : List (Choice T) :=
  List.replicate n (.run t ⟨∅, none, none⟩)

/-- One step under the given choice, if it can be taken. -/
def exec (M : Program A P T L) (s : State A P T L) :
    Choice T → Option (Event A P T L × State A P T L)
  | .run t c =>
      match s.thread t with
      | .ready l => ((M t l).perform M s t c).map fun x => (⟨t, l, x.1⟩, x.2)
      | _ => none
  | .resume t =>
      match s.thread t with
      | .asleep _ l => some (⟨t, l, .resume⟩, s.put t (.ready l))
      | _ => none
  | .expire t =>
      match s.thread t with
      | .queued _ l (some x) => some (⟨t, l, .expire⟩, s.put t (.ready x))
      | _ => none

variable {M : Program A P T L} {s s' : State A P T L} {e : Event A P T L}

theorem step_of_exec {c : Choice T} (done : exec M s c = some (e, s')) : Step M s e s' := by
  cases c with
  | run t c =>
    cases ht : s.thread t with
    | ready l =>
      simp only [exec, ht, Option.map_eq_some_iff, Prod.mk.injEq] at done
      obtain ⟨⟨access, s''⟩, performed, rfl, rfl⟩ := done
      exact .run ht performed
    | unborn l | asleep a l | queued q l x => simp [exec, ht] at done
  | resume t =>
    cases ht : s.thread t with
    | asleep a l =>
      simp only [exec, ht, Option.some.injEq, Prod.mk.injEq] at done
      obtain ⟨rfl, rfl⟩ := done
      exact .resume ht
    | unborn l | ready l | queued q l x => simp [exec, ht] at done
  | expire t =>
    cases ht : s.thread t with
    | queued q l x =>
      cases x with
      | none => simp [exec, ht] at done
      | some x =>
        simp only [exec, ht, Option.some.injEq, Prod.mk.injEq] at done
        obtain ⟨rfl, rfl⟩ := done
        exact .expire ht
    | unborn l | ready l | asleep a l => simp [exec, ht] at done

/-- A run of the machine with given choices, and what evaluation shows of it. -/
theorem exists_run (M : Program A P T L) (start : State A P T L) (cs : List (Choice T))
    (Q : List (Event A P T L) → State A P T L → Prop) [∀ w s, Decidable (Q w s)]
    (check : (System.execAll (exec M) start cs).any (fun x => Q x.1 x.2) = true) :
    ∃ w s, (machine M start).Run w s ∧ Q w s :=
  System.exists_run (fun _ _ _ _ => step_of_exec) rfl cs Q check

/-- A run under a condition. -/
theorem exists_run_restrict (M : Program A P T L) (start : State A P T L)
    (C : State A P T L → Event A P T L → Prop) [∀ s e, Decidable (C s e)] (cs : List (Choice T))
    (Q : List (Event A P T L) → State A P T L → Prop) [∀ w s, Decidable (Q w s)]
    (check : (System.execAll (fun s c => (exec M s c).filter fun x => C s x.1) start cs).any
      (fun x => Q x.1 x.2) = true) :
    ∃ w s, ((machine M start).restrict C).Run w s ∧ Q w s :=
  System.exists_run_restrict (fun _ _ _ _ => step_of_exec) rfl C cs Q check

/-! ## What an operation does -/

/-- The threads that a requeue may take. -/
structure Takes (s : State A P T L) (a : A) (v : ℤ) (p : P) (nrWake nrRequeue : ℕ)
    (taken : Finset T) : Prop where
  same : s.mem a = v
  subset : taken ⊆ s.queue (.source a p)
  few : taken.card ≤ nrWake + nrRequeue
  enough : taken = s.queue (.source a p) ∨ nrRequeue ≤ taken.card

/-- What an operation of thread `t` can do, case by case: what is seen of it, and the state
after it. -/
inductive Op.Does (M : Program A P T L) (s : State A P T L) (t : T) :
    Op A P T L → Access A P T → State A P T L → Prop
  | tau (k : L) : Does M s t (.tau k) .tau (s.put t (.ready k))
  | load (a : A) (k : ℤ → L) :
      Does M s t (.load a k) (.load a (s.mem a)) (s.put t (.ready (k (s.mem a))))
  | store (a : A) (v : ℤ) (k : L) :
      Does M s t (.store a v k) (.store a v) ((s.write a v).put t (.ready k))
  | inc (a : A) (k : L) : Does M s t (.inc a k) (.inc a (s.mem a + 1))
      ((s.write a (s.mem a + 1)).put t (.ready k))
  | slept (a : A) (v : ℤ) (k : SysResult → L) (same : s.mem a = v) :
      Does M s t (.wait a v k) (.wait a true) (s.put t (.asleep a (k (.ok 0))))
  | refused (a : A) (v : ℤ) (k : SysResult → L) (differs : s.mem a ≠ v) :
      Does M s t (.wait a v k) (.wait a false) (s.put t (.ready (k (.error ewouldblock))))
  | wake (a : A) (n : ℕ) (k : L) (woken : Finset T) (asleep : woken ⊆ s.sleepers a)
      (many : woken.card = min n (s.sleepers a).card) :
      Does M s t (.wake a n k) (.wake a woken) ((s.rouse woken).put t (.ready k))
  | locked (p : P) (k : SysResult → L) (free : s.owner p = none) :
      Does M s t (.lockPi p k) (.lockPi p true) ((s.own p (some t)).put t (.ready (k (.ok 0))))
  | deadlock (p : P) (k : SysResult → L) (own : s.owner p = some t) :
      Does M s t (.lockPi p k) (.lockPi p false) (s.put t (.ready (k (.error edeadlk))))
  | blocked (p : P) (k : SysResult → L) (u : T) (owner : s.owner p = some u) (other : u ≠ t) :
      Does M s t (.lockPi p k) (.lockPi p false) (s.put t (.queued (.pi p) (k (.ok 0)) none))
  | unlocked (p : P) (k : SysResult → L) (own : s.owner p = some t)
      (nobody : s.queue (.pi p) = ∅) :
      Does M s t (.unlockPi p k) (.unlockPi p none) ((s.own p none).put t (.ready (k (.ok 0))))
  | handed (p : P) (k : SysResult → L) (u : T) (own : s.owner p = some t)
      (queued : u ∈ s.queue (.pi p)) : Does M s t (.unlockPi p k) (.unlockPi p (some u))
      ((s.grant p (some u)).put t (.ready (k (.ok 0))))
  | notOwner (p : P) (k : SysResult → L) (other : s.owner p ≠ some t) :
      Does M s t (.unlockPi p k) (.unlockPi p none) (s.put t (.ready (k (.error eperm))))
  | rejected (a : A) (v : ℤ) (p : P) (timeout : Timeout) (k : SysResult → L)
      (invalid : timeout = .invalid) :
      Does M s t (.waitRequeuePi a v p timeout k) (.waitRequeuePi a p false)
        (s.put t (.ready (k (.error einval))))
  | queued (a : A) (v : ℤ) (p : P) (timeout : Timeout) (k : SysResult → L)
      (accepted : timeout ≠ .invalid) (same : s.mem a = v) :
      Does M s t (.waitRequeuePi a v p timeout k) (.waitRequeuePi a p true)
        (s.put t (.queued (.source a p) (k (.ok 0))
          (if timeout = .valid then some (k (.error etimedout)) else none)))
  | mismatched (a : A) (v : ℤ) (p : P) (timeout : Timeout) (k : SysResult → L)
      (accepted : timeout ≠ .invalid) (differs : s.mem a ≠ v) :
      Does M s t (.waitRequeuePi a v p timeout k) (.waitRequeuePi a p false)
        (s.put t (.ready (k (.error ewouldblock))))
  | failed (a : A) (v : ℤ) (p : P) (nrWake nrRequeue : ℕ) (k : SysResult → L) (errno : ℕ)
      (positive : 0 < errno) :
      Does M s t (.cmpRequeuePi a v p nrWake nrRequeue k) (.cmpRequeuePi a p ∅ none)
        (s.put t (.ready (k (.error errno))))
  | requeued (a : A) (v : ℤ) (p : P) (nrWake nrRequeue : ℕ) (k : SysResult → L)
      (taken : Finset T) (takes : Takes s a v p nrWake nrRequeue taken)
      (owned : s.owner p ≠ none ∨ taken = ∅) :
      Does M s t (.cmpRequeuePi a v p nrWake nrRequeue k) (.cmpRequeuePi a p taken none)
        ((s.requeue p taken).put t (.ready (k (.ok taken.card))))
  | granted (a : A) (v : ℤ) (p : P) (nrWake nrRequeue : ℕ) (k : SysResult → L)
      (taken : Finset T) (u : T) (takes : Takes s a v p nrWake nrRequeue taken)
      (free : s.owner p = none) (member : u ∈ taken) :
      Does M s t (.cmpRequeuePi a v p nrWake nrRequeue k) (.cmpRequeuePi a p taken (some u))
        (((s.requeue p taken).grant p (some u)).put t (.ready (k (.ok taken.card))))
  | create (u : T) (k l : L) (unborn : s.thread u = .unborn l) :
      Does M s t (.create u k) (.create u) ((s.put u (.ready l)).put t (.ready k))
  | join (u : T) (k : L) (ended : s.finished M u = true) :
      Does M s t (.join u k) (.join u) (s.put t (.ready k))

/-- An operation does nothing else. -/
theorem Op.does_of_perform {t : T} {c : Kernel T} {op : Op A P T L} {access : Access A P T}
    (performed : op.perform M s t c = some (access, s')) : op.Does M s t access s' := by
  cases op with
  | tau k | load a k | store a v k | inc a k =>
    simp only [Op.perform, Option.some.injEq, Prod.mk.injEq] at performed
    obtain ⟨rfl, rfl⟩ := performed
    constructor
  | wait a v k =>
    simp only [Op.perform] at performed
    split at performed <;> simp only [Option.some.injEq, Prod.mk.injEq] at performed <;>
      obtain ⟨rfl, rfl⟩ := performed <;> constructor <;> assumption
  | wake a n k =>
    simp only [Op.perform, Option.ite_none_right_eq_some, Option.some.injEq,
      Prod.mk.injEq] at performed
    obtain ⟨⟨asleep, many⟩, rfl, rfl⟩ := performed
    exact .wake a n k c.taken asleep many
  | lockPi p k =>
    simp only [Op.perform] at performed
    split at performed
    · rename_i free
      simp only [Option.some.injEq, Prod.mk.injEq] at performed
      obtain ⟨rfl, rfl⟩ := performed
      exact .locked p k free
    · rename_i u owner
      split at performed <;> simp only [Option.some.injEq, Prod.mk.injEq] at performed <;>
        obtain ⟨rfl, rfl⟩ := performed
      · rename_i self
        exact .deadlock p k (self ▸ owner)
      · rename_i other
        exact .blocked p k u owner other
  | unlockPi p k =>
    simp only [Op.perform] at performed
    split at performed
    · rename_i own
      split at performed <;>
        simp only [Option.ite_none_right_eq_some, Option.some.injEq, Prod.mk.injEq] at performed <;>
        obtain ⟨queue, rfl, rfl⟩ := performed
      · exact .unlocked p k own queue
      · exact .handed p k _ own queue
    · rename_i other
      simp only [Option.some.injEq, Prod.mk.injEq] at performed
      obtain ⟨rfl, rfl⟩ := performed
      exact .notOwner p k other
  | waitRequeuePi a v p timeout k =>
    simp only [Op.perform] at performed
    split at performed
    · rename_i invalid
      simp only [Option.some.injEq, Prod.mk.injEq] at performed
      obtain ⟨rfl, rfl⟩ := performed
      exact .rejected a v p timeout k invalid
    · rename_i accepted
      split at performed <;> simp only [Option.some.injEq, Prod.mk.injEq] at performed <;>
        obtain ⟨rfl, rfl⟩ := performed
      · rename_i same
        exact .queued a v p timeout k accepted same
      · rename_i differs
        exact .mismatched a v p timeout k accepted differs
  | cmpRequeuePi a v p nrWake nrRequeue k =>
    simp only [Op.perform] at performed
    split at performed <;>
      simp only [Option.ite_none_right_eq_some, Option.some.injEq, Prod.mk.injEq] at performed
    · obtain ⟨positive, rfl, rfl⟩ := performed
      exact .failed a v p nrWake nrRequeue k _ positive
    · obtain ⟨⟨same, subset, few, enough, heirs⟩, rfl, rfl⟩ := performed
      have takes : Takes s a v p nrWake nrRequeue c.taken := ⟨same, subset, few, enough⟩
      cases heir : c.heir with
      | none =>
        simp only [Kernel.heirs, heir, decide_eq_true_eq] at heirs
        exact .requeued a v p nrWake nrRequeue k c.taken takes heirs
      | some u =>
        simp only [Kernel.heirs, heir, decide_eq_true_eq] at heirs
        exact .granted a v p nrWake nrRequeue k c.taken u takes heirs.1 heirs.2
  | create u k =>
    simp only [Op.perform] at performed
    split at performed
    · rename_i l unborn
      simp only [Option.some.injEq, Prod.mk.injEq] at performed
      obtain ⟨rfl, rfl⟩ := performed
      exact .create u k l unborn
    · simp at performed
  | join u k =>
    simp only [Op.perform, Option.ite_none_right_eq_some, Option.some.injEq,
      Prod.mk.injEq] at performed
    obtain ⟨ended, rfl, rfl⟩ := performed
    exact .join u k ended
  | exit => simp [Op.perform] at performed

/-- A thread that is awake executes its next operation. -/
theorem Step.does (step : Step M s e s') {l : L} (ready : s.thread e.thread = .ready l) :
    (M e.thread e.pc).Does M s e.thread e.access s' := by
  cases step with
  | run running performed => exact Op.does_of_perform performed
  | resume sleeping => simp [sleeping] at ready
  | expire waiting => simp [waiting] at ready

namespace Takes

variable {a : A} {v : ℤ} {p : P} {nrWake nrRequeue : ℕ} {taken : Finset T}

omit [DecidableEq T] in
/-- The taken threads are queued at the word. -/
theorem queued (takes : Takes s a v p nrWake nrRequeue taken) {u : T} (member : u ∈ taken) :
    ∃ l x, s.thread u = .queued (.source a p) l x := s.mem_queue.mp (takes.subset member)

omit [DecidableEq T] in
/-- A thread that is awake is not taken. -/
theorem not_mem (takes : Takes s a v p nrWake nrRequeue taken) {u : T} {l : L}
    (running : s.thread u = .ready l) : u ∉ taken := by
  intro member
  obtain ⟨l', x, queued⟩ := takes.queued member
  simp [running] at queued

end Takes

/-! ## What a step does to the other threads -/

/-- What can happen to a thread by the step of another: nothing; it is woken, given
the PI futex it queues for or, if the step creates it, started; or a requeue takes
it. -/
inductive Passive (creates taken : Prop) : Status A P L → Status A P L → Prop
  | same (x : Status A P L) (left : ¬ taken) : Passive creates taken x x
  | woken (a : A) (l : L) (left : ¬ taken) : Passive creates taken (.asleep a l) (.ready l)
  | created (l : L) (create : creates) (left : ¬ taken) :
      Passive creates taken (.unborn l) (.ready l)
  | granted (p : P) (l : L) (x : Option L) (left : ¬ taken) :
      Passive creates taken (.queued (.pi p) l x) (.ready l)
  | moved (a : A) (p : P) (l : L) (x : Option L) (here : taken) :
      Passive creates taken (.queued (.source a p) l x) (.queued (.pi p) l x)
  | acquired (a : A) (p : P) (l : L) (x : Option L) (here : taken) :
      Passive creates taken (.queued (.source a p) l x) (.ready l)

section Passive

variable {creates : Prop} {t u : T} {l : L}

omit [DecidableEq P] in
theorem Passive.rouse {a : A} {woken : Finset T} (asleep : woken ⊆ s.sleepers a) :
    Passive creates False (s.thread u) ((s.rouse woken).thread u) := by
  by_cases hu : u ∈ woken
  · obtain ⟨l', here⟩ := s.mem_sleepers.mp (asleep hu)
    have awake : (s.rouse woken).thread u = .ready l' := by simp [State.rouse, hu, here]
    rw [awake, here]
    exact .woken a l' id
  · have same : (s.rouse woken).thread u = s.thread u := by simp [State.rouse, hu]
    rw [same]
    exact .same _ id

/-- One of those who queue for a PI futex is given it. -/
theorem Passive.handed {p : P} {v : T} (queued : v ∈ s.queue (.pi p)) :
    Passive creates False (s.thread u) ((s.grant p (some v)).thread u) := by
  by_cases hu : u = v
  · subst hu
    obtain ⟨l', x, here⟩ := s.mem_queue.mp queued
    have granted : (s.grant p (some u)).thread u = .ready l' := by
      simp [State.grant, State.loc, here]
    rw [granted, here]
    exact .granted p l' x id
  · have same : (s.grant p (some v)).thread u = s.thread u := State.put_of_ne _ hu _
    rw [same]
    exact .same _ id

omit [DecidableEq A] [DecidableEq P] [Fintype T] in
/-- The taken threads are moved. -/
theorem Passive.requeue {a : A} {p : P} {taken : Finset T}
    (queued : ∀ v ∈ taken, ∃ l x, s.thread v = .queued (.source a p) l x) :
    Passive creates (u ∈ taken) (s.thread u) ((s.requeue p taken).thread u) := by
  by_cases hu : u ∈ taken
  · obtain ⟨l', x, here⟩ := queued u hu
    have moved : (s.requeue p taken).thread u = .queued (.pi p) l' x := by
      simp [State.requeue, hu, here]
    rw [moved, here]
    exact .moved a p l' x hu
  · have same : (s.requeue p taken).thread u = s.thread u := by simp [State.requeue, hu]
    rw [same]
    exact .same _ hu

omit [DecidableEq A] [Fintype T] in
/-- One of them is given the PI futex. -/
theorem Passive.acquired_of_taken {a : A} {p : P} {taken : Finset T} {v : T}
    (queued : ∀ v ∈ taken, ∃ l x, s.thread v = .queued (.source a p) l x) (member : v ∈ taken) :
    Passive creates (u ∈ taken) (s.thread u) (((s.requeue p taken).grant p (some v)).thread u) := by
  by_cases hu : u = v
  · subst hu
    obtain ⟨l', x, here⟩ := queued u member
    have acquired : ((s.requeue p taken).grant p (some u)).thread u = .ready l' := by
      simp [State.grant, State.loc, State.requeue, member, here]
    rw [acquired, here]
    exact .acquired a p l' x member
  · have same : ((s.requeue p taken).grant p (some v)).thread u = (s.requeue p taken).thread u :=
      State.put_of_ne _ hu _
    rw [same]
    exact .requeue queued

end Passive

theorem Step.passive (step : Step M s e s') {u : T} (ne : u ≠ e.thread) :
    Passive (s.thread e.thread = .ready e.pc ∧ ∃ k, M e.thread e.pc = .create u k)
      (u ∈ e.access.taken) (s.thread u) (s'.thread u) := by
  cases step with
  | resume sleeping | expire waiting =>
    rw [State.put_of_ne _ ne]
    exact .same _ (by simp [Access.taken])
  | @run t l c access s' running performed =>
    have does := Op.does_of_perform performed
    generalize M t l = op at does
    cases does with
    | wake a n k woken asleep many =>
      rw [State.put_of_ne _ ne]
      simpa [Access.taken] using Passive.rouse asleep
    | handed p k v own queued =>
      rw [State.put_of_ne _ ne]
      simpa [Access.taken] using Passive.handed queued
    | requeued a v p nrWake nrRequeue k taken takes owned =>
      rw [State.put_of_ne _ ne]
      exact .requeue fun _ => takes.queued
    | granted a v p nrWake nrRequeue k taken w takes free member =>
      rw [State.put_of_ne _ ne]
      exact .acquired_of_taken (fun _ => takes.queued) member
    | create v k l' unborn =>
      rw [State.put_of_ne _ ne]
      by_cases hu : u = v
      · subst hu
        rw [State.put_self, unborn]
        exact .created l' ⟨running, k, rfl⟩ (by simp [Access.taken])
      · rw [State.put_of_ne _ hu]
        exact .same _ (by simp [Access.taken])
    | _ =>
      rw [State.put_of_ne _ ne]
      exact .same _ (by simp [Access.taken])

/-- A step moves no control point but that of the thread that takes it. -/
theorem Step.loc_other (step : Step M s e s') {u : T} (ne : u ≠ e.thread) :
    s'.loc u = s.loc u := by
  unfold State.loc
  have passive := step.passive ne
  generalize s.thread u = x at passive
  generalize s'.thread u = y at passive
  cases passive <;> rfl

/-! ## What a step does to its own thread -/

/-- Where a thread can be after its operation on these cells. -/
inductive Op.Leaves (mem : A → ℤ) : Op A P T L → Status A P L → Prop
  | tau (k : L) : Leaves mem (.tau k) (.ready k)
  | load (a : A) (k : ℤ → L) : Leaves mem (.load a k) (.ready (k (mem a)))
  | store (a : A) (v : ℤ) (k : L) : Leaves mem (.store a v k) (.ready k)
  | inc (a : A) (k : L) : Leaves mem (.inc a k) (.ready k)
  | slept (a : A) (v : ℤ) (k : SysResult → L) (same : mem a = v) :
      Leaves mem (.wait a v k) (.asleep a (k (.ok 0)))
  | refused (a : A) (v : ℤ) (k : SysResult → L) (differs : mem a ≠ v) :
      Leaves mem (.wait a v k) (.ready (k (.error ewouldblock)))
  | wake (a : A) (n : ℕ) (k : L) : Leaves mem (.wake a n k) (.ready k)
  | locked (p : P) (k : SysResult → L) (r : SysResult) : Leaves mem (.lockPi p k) (.ready (k r))
  | blocked (p : P) (k : SysResult → L) :
      Leaves mem (.lockPi p k) (.queued (.pi p) (k (.ok 0)) none)
  | unlocked (p : P) (k : SysResult → L) (r : SysResult) : Leaves mem (.unlockPi p k) (.ready (k r))
  | rejected (a : A) (v : ℤ) (p : P) (timeout : Timeout) (k : SysResult → L)
      (invalid : timeout = .invalid) :
      Leaves mem (.waitRequeuePi a v p timeout k) (.ready (k (.error einval)))
  | queued (a : A) (v : ℤ) (p : P) (timeout : Timeout) (k : SysResult → L)
      (accepted : timeout ≠ .invalid) (same : mem a = v) :
      Leaves mem (.waitRequeuePi a v p timeout k) (.queued (.source a p) (k (.ok 0))
        (if timeout = .valid then some (k (.error etimedout)) else none))
  | mismatched (a : A) (v : ℤ) (p : P) (timeout : Timeout) (k : SysResult → L)
      (accepted : timeout ≠ .invalid) (differs : mem a ≠ v) :
      Leaves mem (.waitRequeuePi a v p timeout k) (.ready (k (.error ewouldblock)))
  | requeued (a : A) (v : ℤ) (p : P) (nrWake nrRequeue : ℕ) (k : SysResult → L) (r : SysResult) :
      Leaves mem (.cmpRequeuePi a v p nrWake nrRequeue k) (.ready (k r))
  | create (u : T) (k : L) : Leaves mem (.create u k) (.ready k)
  | join (u : T) (k : L) : Leaves mem (.join u k) (.ready k)

theorem Op.leaves_of_perform {t : T} {c : Kernel T} {op : Op A P T L} {access : Access A P T}
    (performed : op.perform M s t c = some (access, s')) : op.Leaves s.mem (s'.thread t) := by
  have does := does_of_perform performed
  cases does with
  | slept a v k same | refused a v k same =>
    rw [State.put_self]
    constructor
    exact same
  | rejected a v p timeout k invalid =>
    rw [State.put_self]
    exact .rejected a v p timeout k invalid
  | queued a v p timeout k accepted same =>
    rw [State.put_self]
    exact .queued a v p timeout k accepted same
  | mismatched a v p timeout k accepted differs =>
    rw [State.put_self]
    exact .mismatched a v p timeout k accepted differs
  | _ =>
    rw [State.put_self]
    constructor

/-- What a step can do to the thread that takes it. -/
theorem Step.active (step : Step M s e s') :
    (s.thread e.thread = .ready e.pc ∧ (M e.thread e.pc).Leaves s.mem (s'.thread e.thread)) ∨
    (∃ a, s.thread e.thread = .asleep a e.pc ∧ s'.thread e.thread = .ready e.pc) ∨
    ∃ q x, s.thread e.thread = .queued q e.pc (some x) ∧ s'.thread e.thread = .ready x := by
  cases step with
  | run running performed => exact .inl ⟨running, Op.leaves_of_perform performed⟩
  | resume sleeping => exact .inr (.inl ⟨_, sleeping, by simp⟩)
  | expire waiting => exact .inr (.inr ⟨_, _, waiting, by simp⟩)

/-! ## Cells -/

/-- The cells after the operation. -/
@[simp] def Op.cells (mem : A → ℤ) : Op A P T L → A → ℤ
  | .store a v _ => Function.update mem a v
  | .inc a _ => Function.update mem a (mem a + 1)
  | _ => mem

theorem Op.cells_of_perform {t : T} {c : Kernel T} {op : Op A P T L} {access : Access A P T}
    (performed : op.perform M s t c = some (access, s')) : s'.mem = op.cells s.mem := by
  cases does_of_perform performed <;> rfl

/-- The cells change by the operation of a thread that is awake, and by nothing
else. -/
theorem Step.cells (step : Step M s e s') :
    (s.thread e.thread = .ready e.pc → s'.mem = (M e.thread e.pc).cells s.mem) ∧
    (s.thread e.thread ≠ .ready e.pc → s'.mem = s.mem) := by
  cases step with
  | run running performed =>
    exact ⟨fun _ => Op.cells_of_perform performed, fun asleep => absurd running asleep⟩
  | resume sleeping => exact ⟨fun ready => by simp [sleeping] at ready, fun _ => rfl⟩
  | expire waiting => exact ⟨fun ready => by simp [waiting] at ready, fun _ => rfl⟩

/-! ## Requeues -/

/-- Only a requeue takes threads from a word. -/
theorem Step.taken_eq_empty (step : Step M s e s')
    (other : s.thread e.thread = .ready e.pc →
      ∀ a v p nrWake nrRequeue k, M e.thread e.pc ≠ .cmpRequeuePi a v p nrWake nrRequeue k) :
    e.access.taken = ∅ := by
  cases step with
  | resume sleeping | expire waiting => rfl
  | @run t l c access s' running performed =>
    have differs := other running
    have does := Op.does_of_perform performed
    simp only at differs
    generalize M t l = op at does differs
    cases does with
    | failed | requeued | granted => exact absurd rfl (differs _ _ _ _ _ _)
    | _ => rfl

/-- What a requeue returns, and whom it takes. -/
theorem Step.requeue (step : Step M s e s') {a : A} {v : ℤ} {p : P} {nrWake nrRequeue : ℕ}
    {k : SysResult → L} (ready : s.thread e.thread = .ready e.pc)
    (op : M e.thread e.pc = .cmpRequeuePi a v p nrWake nrRequeue k) :
    (∃ errno, e.access.taken = ∅ ∧ s'.thread e.thread = .ready (k (.error errno))) ∨
    (e.access.taken ⊆ s.queue (.source a p) ∧ e.access.taken.card ≤ nrWake + nrRequeue ∧
      (e.access.taken = s.queue (.source a p) ∨ nrRequeue ≤ e.access.taken.card) ∧
      s'.thread e.thread = .ready (k (.ok e.access.taken.card))) := by
  have does := step.does ready
  rw [op] at does
  generalize e.access = access at does ⊢
  cases does with
  | failed a v p nrWake nrRequeue k errno positive => exact .inl ⟨errno, rfl, State.put_self ..⟩
  | requeued a v p nrWake nrRequeue k taken takes owned =>
    exact .inr ⟨takes.subset, takes.few, takes.enough, State.put_self ..⟩
  | granted a v p nrWake nrRequeue k taken u takes free member =>
    exact .inr ⟨takes.subset, takes.few, takes.enough, State.put_self ..⟩

/-- What a step that takes threads from a word does: it is a requeue, by a thread
that is awake, and the taken ones were queued at that word. -/
theorem Step.taken_queued (step : Step M s e s') {u : T} (taken : u ∈ e.access.taken) :
    s.thread e.thread = .ready e.pc ∧ ∃ a p l x, s.thread u = .queued (.source a p) l x := by
  by_cases requeues : s.thread e.thread = .ready e.pc ∧
      ∃ a v p nrWake nrRequeue k, M e.thread e.pc = .cmpRequeuePi a v p nrWake nrRequeue k
  · obtain ⟨ready, a, v, p, nrWake, nrRequeue, k, op⟩ := requeues
    rcases step.requeue ready op with ⟨errno, none_taken, -⟩ | ⟨subset, -⟩
    · simp [none_taken] at taken
    · obtain ⟨l, x, queued⟩ := s.mem_queue.mp (subset taken)
      exact ⟨ready, a, p, l, x, queued⟩
  · have none_taken := step.taken_eq_empty fun ready a v p nrWake nrRequeue k op =>
      requeues ⟨ready, a, v, p, nrWake, nrRequeue, k, op⟩
    simp [none_taken] at taken

/-- The taken threads go to the PI futex: they are queued for it, or own it. -/
theorem Step.taken_moved (step : Step M s e s') {u : T} (taken : u ∈ e.access.taken) :
    ∃ a p l x, s.thread u = .queued (.source a p) l x ∧
      (s'.thread u = .queued (.pi p) l x ∨ s'.thread u = .ready l) := by
  obtain ⟨ready, a, p, l, x, queued⟩ := step.taken_queued taken
  have other : u ≠ e.thread := by
    rintro rfl
    simp [queued] at ready
  have passive := step.passive other
  rw [queued] at passive
  generalize s'.thread u = y at passive ⊢
  cases passive with
  | same _ left => exact absurd taken left
  | moved => exact ⟨a, p, l, x, queued, .inl rfl⟩
  | acquired => exact ⟨a, p, l, x, queued, .inr rfl⟩

/-! ## Waking -/

/-- A wake of at least one thread leaves nobody asleep on a word where only one
thread sleeps. -/
theorem Step.wakes (step : Step M s e s') {a : A} {n : ℕ} {k : L}
    (ready : s.thread e.thread = .ready e.pc) (op : M e.thread e.pc = .wake a n k)
    (enough : (s.sleepers a).card ≤ n) {u : T} {l : L} (asleep : s.thread u = .asleep a l) :
    s'.thread u = .ready l := by
  cases step with
  | resume sleeping => simp [sleeping] at ready
  | expire waiting => simp [waiting] at ready
  | @run t l' c access s' running performed =>
    simp only at op
    rw [op] at performed
    simp only [Op.perform, Option.ite_none_right_eq_some, Option.some.injEq,
      Prod.mk.injEq] at performed
    obtain ⟨⟨subset, card⟩, -, rfl⟩ := performed
    have all : c.taken = s.sleepers a := Finset.eq_of_subset_of_card_le subset (by omega)
    have woken : u ∈ c.taken := all ▸ s.mem_sleepers.mpr ⟨l, asleep⟩
    have other : u ≠ t := by
      rintro rfl
      simp [asleep] at running
    rw [State.put_of_ne _ other]
    simp [State.rouse, woken, asleep]

/-! ## Control points -/

/-- Whether everything the operation continues at on these cells satisfies `Q`. -/
def Op.Leads (mem : A → ℤ) (Q : L → Prop) : Op A P T L → Prop
  | .tau k | .store _ _ k | .inc _ k | .wake _ _ k | .create _ k | .join _ k => Q k
  | .load a k => Q (k (mem a))
  | .wait _ _ k | .lockPi _ k | .unlockPi _ k | .waitRequeuePi _ _ _ _ k
  | .cmpRequeuePi _ _ _ _ _ k => ∀ r, Q (k r)
  | .exit => True

/-- Whether the thread continues at control points that satisfy `Q`. -/
def Status.Holds (Q : L → Prop) : Status A P L → Prop
  | .queued _ l x => Q l ∧ ∀ l' ∈ x, Q l'
  | status => Q status.loc

omit [DecidableEq A] [DecidableEq P] [DecidableEq T] [Fintype T] in
theorem Status.Holds.mono {Q R : L → Prop} {x : Status A P L} (held : x.Holds Q)
    (imp : ∀ l, Q l → R l) : x.Holds R := by
  cases x with
  | queued q l x => exact ⟨imp l held.1, fun l' expired => imp l' (held.2 l' expired)⟩
  | _ => exact imp _ held

omit [DecidableEq A] [DecidableEq P] [DecidableEq T] [Fintype T] in
theorem State.loc_of_holds {t : T} {Q : L → Prop} (held : (s.thread t).Holds Q) : Q (s.loc t) := by
  unfold State.loc
  cases h : s.thread t <;> rw [h] at held
  case queued q l x => exact held.1
  all_goals exact held

omit [DecidableEq A] [DecidableEq P] [DecidableEq T] [Fintype T] in
theorem Op.Leads.mono {mem : A → ℤ} {Q R : L → Prop} {op : Op A P T L} (leads : op.Leads mem Q)
    (imp : ∀ l, Q l → R l) : op.Leads mem R := by
  cases op with
  | exit => trivial
  | wait | lockPi | unlockPi | waitRequeuePi | cmpRequeuePi => exact fun r => imp _ (leads r)
  | _ => exact imp _ leads

omit [DecidableEq A] [DecidableEq P] [DecidableEq T] [Fintype T] in
theorem Op.Leads.and {mem : A → ℤ} {Q R : L → Prop} {op : Op A P T L} (first : op.Leads mem Q)
    (second : op.Leads mem R) : op.Leads mem fun l => Q l ∧ R l := by
  cases op with
  | exit => trivial
  | wait | lockPi | unlockPi | waitRequeuePi | cmpRequeuePi => exact fun r => ⟨first r, second r⟩
  | _ => exact ⟨first, second⟩

omit [DecidableEq A] [DecidableEq P] [DecidableEq T] [Fintype T] in
theorem Op.Leads.of_leaves {mem : A → ℤ} {Q : L → Prop} {op : Op A P T L}
    (leads : op.Leads mem Q) {x : Status A P L} (leaves : op.Leaves mem x) : x.Holds Q := by
  cases leaves with
  | tau k | load a k | store a v k | inc a k | wake a n k | create u k | join u k => exact leads
  | slept | refused | locked p k r | unlocked p k r | rejected a v p timeout k
  | mismatched a v p timeout k | requeued a v p nrWake nrRequeue k r => exact leads _
  | blocked p k => exact ⟨leads _, by simp⟩
  | queued a v p timeout k accepted =>
    refine ⟨leads _, ?_⟩
    intro l' expired
    obtain ⟨-, expired⟩ := Option.ite_none_right_eq_some.mp expired
    exact Option.some.inj expired ▸ leads _

omit [DecidableEq A] [DecidableEq P] [DecidableEq T] [Fintype T] in
theorem Passive.holds {Q : L → Prop} {creates taken : Prop} {x y : Status A P L}
    (passive : Passive creates taken x y) (held : x.Holds Q) : y.Holds Q := by
  cases passive with
  | same | woken | created | moved => exact held
  | granted | acquired => exact held.1

/-- What holds wherever a thread is and of everything its next operation continues at,
holds after a step. -/
theorem Step.holds (step : Step M s e s') {t : T} {Q : L → Prop}
    (leads : e.thread = t → s.thread t = .ready e.pc → (M t e.pc).Leads s.mem Q)
    (before : (s.thread t).Holds Q) : (s'.thread t).Holds Q := by
  by_cases ht : t = e.thread
  · subst ht
    rcases step.active with ⟨ready, leaves⟩ | ⟨a, asleep, awake⟩ | ⟨q, x, queued, awake⟩
    · exact (leads rfl ready).of_leaves leaves
    · rw [asleep] at before
      rw [awake]
      exact before
    · rw [queued] at before
      rw [awake]
      exact before.2 x rfl
  · exact (step.passive ht).holds before

/-- A property of control points that holds at the start and that the program of a
thread keeps holds wherever that thread is. -/
theorem loc_invariant {start : State A P T L} {t : T} {Q : L → Prop}
    (initial : (start.thread t).Holds Q) (leads : ∀ l mem, Q l → (M t l).Leads mem Q)
    (reach : (machine M start).Reachable s) : (s.thread t).Holds Q := by
  have inv : (machine M start).Invariant fun s => (s.thread t).Holds Q := by
    refine ⟨?_, ?_⟩
    · rintro s rfl
      exact initial
    · intro s e s' _ before step
      refine Step.holds step ?_ before
      intro _ ready
      rw [ready] at before
      exact leads e.pc s.mem before
  exact inv.of_reachable reach

/-! ## The life of threads -/

/-- A thread that nobody has created stays so unless the step creates it. -/
theorem Step.unborn_or_created (step : Step M s e s') {t : T} {l : L}
    (unborn : s.thread t = .unborn l) :
    s'.thread t = .unborn l ∨
      s.thread e.thread = .ready e.pc ∧ ∃ k, M e.thread e.pc = .create t k := by
  have other : t ≠ e.thread := by
    rintro rfl
    rcases step.active with ⟨ready, -⟩ | ⟨a, asleep, -⟩ | ⟨q, x, queued, -⟩
    · rw [ready] at unborn
      cases unborn
    · rw [asleep] at unborn
      cases unborn
    · rw [queued] at unborn
      cases unborn
  have passive := step.passive other
  rw [unborn] at passive
  generalize s'.thread t = y at passive ⊢
  cases passive with
  | same _ _ => exact .inl rfl
  | created _ create _ => exact .inr create

/-- A thread that nobody has created yet was not created before. -/
theorem Step.unborn_before (step : Step M s e s') {t : T} {l : L}
    (unborn : s'.thread t = .unborn l) : s.thread t = .unborn l := by
  by_cases own : t = e.thread
  · subst own
    rcases step.active with ⟨-, leaves⟩ | ⟨a, -, awake⟩ | ⟨q, x, -, awake⟩
    · rw [unborn] at leaves
      generalize M e.thread e.pc = op at leaves
      cases leaves
    · rw [unborn] at awake
      cases awake
    · rw [unborn] at awake
      cases awake
  · have passive := step.passive own
    rw [unborn] at passive
    generalize s.thread t = x at passive ⊢
    cases passive with
    | same _ _ => rfl

/-- A creation starts a thread that has not been created. -/
theorem Step.of_create (step : Step M s e s') {u : T} {k : L}
    (ready : s.thread e.thread = .ready e.pc) (op : M e.thread e.pc = .create u k) :
    ∃ l, s.thread u = .unborn l ∧ s'.thread u = .ready l := by
  cases step with
  | resume sleeping => simp [sleeping] at ready
  | expire waiting => simp [waiting] at ready
  | @run t pc c access s' running performed =>
    simp only at op
    rw [op, Op.perform] at performed
    split at performed
    · rename_i l unborn
      simp only [Option.some.injEq, Prod.mk.injEq] at performed
      obtain ⟨-, rfl⟩ := performed
      have other : u ≠ t := by
        rintro rfl
        simp [unborn] at running
      exact ⟨l, unborn, by rw [State.put_of_ne _ other, State.put_self]⟩
    · cases performed

omit [DecidableEq A] [DecidableEq P] [DecidableEq T] [Fintype T] in
theorem State.finished_iff {t : T} :
    s.finished M t = true ↔ ∃ l, s.thread t = .ready l ∧ M t l = .exit := by
  unfold State.finished
  split
  · rename_i l ready
    split
    · rename_i op
      exact iff_of_true rfl ⟨l, ready, op⟩
    · rename_i op
      refine iff_of_false (by simp) ?_
      rintro ⟨l', same, ended⟩
      rw [ready] at same
      cases same
      exact op ended
  · rename_i other
    refine iff_of_false (by simp) ?_
    rintro ⟨l, ready, -⟩
    exact other l ready

/-- A thread at the end of its program stays there. -/
theorem Step.at_exit (step : Step M s e s') {t : T} {l : L} (ready : s.thread t = .ready l)
    (exits : M t l = .exit) : s'.thread t = .ready l := by
  have other : t ≠ e.thread := by
    rintro rfl
    rcases step.active with ⟨here, leaves⟩ | ⟨a, asleep, -⟩ | ⟨q, x, queued, -⟩
    · rw [ready] at here
      cases here
      rw [exits] at leaves
      cases leaves
    · rw [ready] at asleep
      cases asleep
    · rw [ready] at queued
      cases queued
  have passive := step.passive other
  rw [ready] at passive
  generalize s'.thread t = y at passive
  cases passive with
  | same _ _ => rfl

/-- A thread that has finished stays so. -/
theorem Step.finished (step : Step M s e s') {t : T} (ended : s.finished M t = true) :
    s'.finished M t = true := by
  obtain ⟨l, ready, exits⟩ := State.finished_iff.mp ended
  exact State.finished_iff.mpr ⟨l, step.at_exit ready exits, exits⟩

/-- A join waits until the thread has finished. -/
theorem Step.finished_of_join (step : Step M s e s') {t : T} {k : L}
    (ready : s.thread e.thread = .ready e.pc) (op : M e.thread e.pc = .join t k) :
    s.finished M t = true := by
  cases step with
  | resume sleeping => simp [sleeping] at ready
  | expire waiting => simp [waiting] at ready
  | run running performed =>
    simp only at op
    rw [op, Op.perform, Option.ite_none_right_eq_some] at performed
    exact performed.1

/-! ## Enabled operations -/

/-- Whether the operation waits for no other thread. -/
def Op.immediate : Op A P T L → Bool
  | .create _ _ | .join _ _ | .exit => false
  | _ => true

/-- A thread that is awake can execute such an operation in every state. -/
theorem exists_step {t : T} {l : L} (running : s.thread t = .ready l)
    (immediate : (M t l).immediate) : ∃ access s', Step M s ⟨t, l, access⟩ s' := by
  suffices performs : ∃ c x, (M t l).perform M s t c = some x by
    obtain ⟨c, ⟨access, s'⟩, performed⟩ := performs
    exact ⟨access, s', .run running performed⟩
  cases hop : M t l with
  | tau k | load a k | store a v k | inc a k => exact ⟨⟨∅, none, none⟩, _, rfl⟩
  | wait a v k =>
    refine ⟨⟨∅, none, none⟩, ?_⟩
    by_cases word : s.mem a = v <;> simp [Op.perform, word]
  | waitRequeuePi a v p timeout k =>
    refine ⟨⟨∅, none, none⟩, ?_⟩
    by_cases invalid : timeout = .invalid
    · exact ⟨_, by rw [Op.perform, if_pos invalid]⟩
    · by_cases word : s.mem a = v
      · exact ⟨_, by rw [Op.perform, if_neg invalid, if_pos word]⟩
      · exact ⟨_, by rw [Op.perform, if_neg invalid, if_neg word]⟩
  | wake a n k =>
    obtain ⟨woken, subset, card⟩ :=
      Finset.exists_subset_card_eq (Nat.min_le_right n (s.sleepers a).card)
    exact ⟨⟨woken, none, none⟩, _, by rw [Op.perform, if_pos ⟨subset, card⟩]⟩
  | lockPi p k =>
    refine ⟨⟨∅, none, none⟩, ?_⟩
    cases owner : s.owner p with
    | none => exact ⟨_, by simp only [Op.perform, owner]; rfl⟩
    | some u => by_cases self : u = t <;> simp [Op.perform, owner, self]
  | unlockPi p k =>
    by_cases own : s.owner p = some t
    · rcases (s.queue (.pi p)).eq_empty_or_nonempty with nobody | ⟨u, queued⟩
      · exact ⟨⟨∅, none, none⟩, _, by simp only [Op.perform, if_pos own, if_pos nobody]; rfl⟩
      · exact ⟨⟨∅, some u, none⟩, _, by simp only [Op.perform, if_pos own, if_pos queued]; rfl⟩
    · exact ⟨⟨∅, none, none⟩, _, by rw [Op.perform, if_neg own]⟩
  | cmpRequeuePi a v p nrWake nrRequeue k => exact ⟨⟨∅, none, some eperm⟩, _, rfl⟩
  | create u k | join u k | exit => simp [hop, Op.immediate] at immediate

/-- A thread can create one that has not been created. -/
theorem exists_create {t u : T} {l k l' : L} (running : s.thread t = .ready l)
    (op : M t l = .create u k) (unborn : s.thread u = .unborn l') :
    ∃ s', Step M s ⟨t, l, .create u⟩ s' := by
  refine ⟨(s.put u (.ready l')).put t (.ready k), .run (c := ⟨∅, none, none⟩) running ?_⟩
  rw [op]
  simp only [Op.perform, unborn]

/-- A thread can join one that has finished. -/
theorem exists_join {t u : T} {l k : L} (running : s.thread t = .ready l)
    (op : M t l = .join u k) (ended : s.finished M u = true) :
    ∃ s', Step M s ⟨t, l, .join u⟩ s' := by
  refine ⟨s.put t (.ready k), .run (c := ⟨∅, none, none⟩) running ?_⟩
  rw [op, Op.perform, if_pos ended]

/-! ## Where unborn, sleeping and queued threads come from -/

/-- A thread that nobody has created is at its first control point. -/
theorem unborn_at_start {start : State A P T L} (reach : (machine M start).Reachable s) {t : T}
    {l : L} (unborn : s.thread t = .unborn l) : start.thread t = .unborn l := by
  have inv : (machine M start).Invariant fun s => ∀ t l, s.thread t = .unborn l →
      start.thread t = .unborn l := by
    refine ⟨?_, ?_⟩
    · rintro s rfl t l unborn
      exact unborn
    · intro s e s' _ held step t l unborn
      by_cases ht : t = e.thread
      · subst ht
        rcases Step.active step with ⟨-, leaves⟩ | ⟨b, -, awake⟩ | ⟨q, x, -, awake⟩
        · rw [unborn] at leaves
          generalize M e.thread e.pc = op at leaves
          cases leaves
        · simp [unborn] at awake
        · simp [unborn] at awake
      · have passive := Step.passive step ht
        rw [unborn] at passive
        generalize hx : s.thread t = x at passive
        cases passive with
        | same _ _ => exact held t l hx
  exact inv.of_reachable reach t l unborn

/-- Every sleeper got there through a wait of its own program on that word. -/
theorem asleep_at_wait {start : State A P T L} (awake : ∀ t a l, start.thread t ≠ .asleep a l)
    (reach : (machine M start).Reachable s) {t : T} {a : A} {l : L}
    (asleep : s.thread t = .asleep a l) :
    ∃ pc v k, M t pc = .wait a v k ∧ l = k (.ok 0) := by
  have inv : (machine M start).Invariant fun s => ∀ t a l, s.thread t = .asleep a l →
      ∃ pc v k, M t pc = .wait a v k ∧ l = k (.ok 0) := by
    refine ⟨?_, ?_⟩
    · rintro s rfl t a l asleep
      exact absurd asleep (awake t a l)
    · intro s e s' _ held step t a l asleep
      by_cases ht : t = e.thread
      · subst ht
        rcases Step.active step with ⟨-, leaves⟩ | ⟨b, -, awake⟩ | ⟨q, x, -, awake⟩
        · rw [asleep] at leaves
          generalize hop : M e.thread e.pc = op at leaves
          cases leaves with
          | slept a v k => exact ⟨e.pc, v, k, hop, rfl⟩
        · simp [asleep] at awake
        · simp [asleep] at awake
      · have passive := Step.passive step ht
        rw [asleep] at passive
        generalize hx : s.thread t = x at passive
        cases passive with
        | same _ _ => exact held t a l hx
  exact inv.of_reachable reach t a l asleep

/-- Where a queued thread got there, and how its waiting may end. -/
inductive QueuedBy (M : Program A P T L) (t : T) : Queue A P → L → Option L → Prop
  | lock (pc : L) (p : P) (k : SysResult → L) (op : M t pc = .lockPi p k) :
      QueuedBy M t (.pi p) (k (.ok 0)) none
  | wait (pc : L) (a : A) (v : ℤ) (p : P) (timeout : Timeout) (k : SysResult → L)
      (op : M t pc = .waitRequeuePi a v p timeout k) (accepted : timeout ≠ .invalid) :
      QueuedBy M t (.source a p) (k (.ok 0))
        (if timeout = .valid then some (k (.error etimedout)) else none)
  | requeued (pc : L) (a : A) (v : ℤ) (p : P) (timeout : Timeout) (k : SysResult → L)
      (op : M t pc = .waitRequeuePi a v p timeout k) (accepted : timeout ≠ .invalid) :
      QueuedBy M t (.pi p) (k (.ok 0))
        (if timeout = .valid then some (k (.error etimedout)) else none)

theorem queuedBy {start : State A P T L} (awake : ∀ t q l x, start.thread t ≠ .queued q l x)
    (reach : (machine M start).Reachable s) {t : T} {q : Queue A P} {l : L} {x : Option L}
    (queued : s.thread t = .queued q l x) : QueuedBy M t q l x := by
  have inv : (machine M start).Invariant fun s => ∀ t q l x, s.thread t = .queued q l x →
      QueuedBy M t q l x := by
    refine ⟨?_, ?_⟩
    · rintro s rfl t q l x queued
      exact absurd queued (awake t q l x)
    · intro s e s' _ held step t q l x queued
      by_cases ht : t = e.thread
      · subst ht
        rcases Step.active step with ⟨-, leaves⟩ | ⟨b, -, awake⟩ | ⟨q, x, -, awake⟩
        · rw [queued] at leaves
          generalize hop : M e.thread e.pc = op at leaves
          cases leaves with
          | blocked p k => exact .lock e.pc p k hop
          | queued a v p timeout k accepted => exact .wait e.pc a v p timeout k hop accepted
        · simp [queued] at awake
        · simp [queued] at awake
      · have passive := Step.passive step ht
        rw [queued] at passive
        generalize hx : s.thread t = y at passive
        cases passive with
        | same _ _ => exact held t q l x hx
        | moved a p _ _ _ =>
          cases held t _ _ _ hx with
          | wait pc _ v _ timeout k op accepted => exact .requeued pc a v p timeout k op accepted
  exact inv.of_reachable reach t q l x queued

end Semantics

end PiFutex
