import Mathlib.Algebra.BigOperators.Ring.Finset
import Mathlib.Algebra.Order.BigOperators.Group.Finset
import Futextest.PiFutex
import Futextest.Potential

/-!
# Potentials of threads on PI futexes

The rank of a control point says how far a thread still has to go from there, and a
thread that waits has in addition to come out of its wait. What the others do takes no
thread further from its end: a sleeper that is woken and a queued thread that is given
its futex have less to do, and one that a requeue moves has as much as before. So the
sum of the ranks falls with each step of a program whose operations all lead to lower
ranks.

## Main definitions

* `Op.Shows` — what an operation can show of itself
* `Event.resumes` — a step is the return of a wait that nobody woke
* `State.total` — the sum of the ranks
* `State.counted` — what the threads contribute to a counter

## Main results

* `Step.total_le` — what a step does to the sum
* `machine_bounded` — programs whose operations lead to lower ranks have bounded runs
* `counter_eq` — a cell that is the sum of the contributions
* `ready_of_stuck` — what is left to a thread that is awake when nobody can move
-/

namespace PiFutex

variable {A P T L : Type}

/-! ## What an operation shows -/

/-- What an operation can show of itself on these cells. -/
inductive Op.Shows (mem : A → ℤ) : Op A P T L → Access A P T → Prop
  | tau (k : L) : Shows mem (.tau k) .tau
  | load (a : A) (k : ℤ → L) : Shows mem (.load a k) (.load a (mem a))
  | store (a : A) (v : ℤ) (k : L) : Shows mem (.store a v k) (.store a v)
  | inc (a : A) (k : L) : Shows mem (.inc a k) (.inc a (mem a + 1))
  | wait (a : A) (v : ℤ) (k : SysResult → L) (slept : Bool) : Shows mem (.wait a v k) (.wait a slept)
  | wake (a : A) (n : ℕ) (k : L) (woken : Finset T) : Shows mem (.wake a n k) (.wake a woken)
  | lockPi (p : P) (k : SysResult → L) (owned : Bool) : Shows mem (.lockPi p k) (.lockPi p owned)
  | unlockPi (p : P) (k : SysResult → L) (heir : Option T) :
      Shows mem (.unlockPi p k) (.unlockPi p heir)
  | waitRequeuePi (a : A) (v : ℤ) (p : P) (timeout : Timeout) (k : SysResult → L) (slept : Bool) :
      Shows mem (.waitRequeuePi a v p timeout k) (.waitRequeuePi a p slept)
  | cmpRequeuePi (a : A) (v : ℤ) (p : P) (nrWake nrRequeue : ℕ) (k : SysResult → L)
      (taken : Finset T) (heir : Option T) :
      Shows mem (.cmpRequeuePi a v p nrWake nrRequeue k) (.cmpRequeuePi a p taken heir)
  | create (u : T) (k : L) : Shows mem (.create u k) (.create u)
  | join (u : T) (k : L) : Shows mem (.join u k) (.join u)

/-- Whether a step is the return of a wait that nobody woke. -/
def Event.resumes (e : Event A P T L) : Bool :=
  match e.access with
  | .resume => true
  | _ => false

/-! ## Ranks -/

/-- The rank of a thread, given that of control points. -/
def Status.rank (f : L → ℕ) : Status A P L → ℕ
  | .unborn l | .ready l => 2 * f l
  | .asleep _ l => 2 * f l + 1
  -- it continues in one of two ways
  | .queued _ l x => 2 * max (f l) (x.elim 0 f) + 1

/-- The sum of the ranks of all threads. -/
def State.total [Fintype T] (f : L → ℕ) (s : State A P T L) : ℕ :=
  ∑ t, (s.thread t).rank f

variable {f : L → ℕ}

/-- A thread that continues below `n` has a rank below `2 * n`. -/
theorem Status.Holds.rank_lt {x : Status A P L} {n : ℕ} (held : x.Holds fun l => f l < n) :
    x.rank f < 2 * n := by
  cases x with
  | unborn l | ready l | asleep a l =>
    have below : f l < n := held
    simp only [Status.rank]
    omega
  | queued q l x =>
    obtain ⟨granted, expired⟩ := held
    have least : x.elim 0 f < n := by
      cases x with
      | none => exact Nat.zero_lt_of_lt granted
      | some l' => exact expired l' rfl
    simp only [Status.rank]
    omega

/-- What the step of another thread does to a thread takes it no further from its end. -/
theorem Passive.rank_le {creates taken : Prop} {x y : Status A P L}
    (passive : Passive creates taken x y) : y.rank f ≤ x.rank f := by
  cases passive with
  | same | created | moved => exact le_rfl
  | woken a l left => exact Nat.le_succ _
  | granted | acquired =>
    simp only [Status.rank]
    omega

section Semantics

variable [DecidableEq A] [DecidableEq P] [DecidableEq T] [Fintype T]
variable {M : Program A P T L} {start s s' : State A P T L} {e : Event A P T L}

theorem Op.shows_of_perform {t : T} {c : Kernel T} {op : Op A P T L} {access : Access A P T}
    (performed : op.perform M s t c = some (access, s')) : op.Shows s.mem access := by
  cases does_of_perform performed <;> constructor

/-- What a step shows that a thread takes while it is awake. -/
theorem Step.shows (step : Step M s e s') {l : L} (ready : s.thread e.thread = .ready l) :
    (M e.thread e.pc).Shows s.mem e.access := by
  cases step with
  | run running performed => exact Op.shows_of_perform performed
  | resume sleeping => simp [sleeping] at ready
  | expire waiting => simp [waiting] at ready

/-- A thread that loads is awake, and its next operation is that load. -/
theorem Step.loads (step : Step M s e s') {a : A} {v : ℤ} (load : e.access = .load a v) :
    s.thread e.thread = .ready e.pc ∧ v = s.mem a ∧ ∃ k, M e.thread e.pc = .load a k := by
  cases step with
  | @run t l c access s' running performed =>
    refine ⟨running, ?_⟩
    have shows := Op.shows_of_perform performed
    simp only at load ⊢
    rw [load] at shows
    generalize M t l = op at shows
    cases shows with
    | load a k => exact ⟨rfl, k, rfl⟩
  | resume sleeping => cases load
  | expire waiting => cases load

/-! ## Runs -/

/-- The thread that takes a step goes from one rank to another, and no other one rises. -/
theorem Step.total_le (step : Step M s e s') :
    s'.total f + (s.thread e.thread).rank f ≤ s.total f + (s'.thread e.thread).rank f := by
  have others : ∀ u ∈ Finset.univ.erase e.thread,
      (s'.thread u).rank f ≤ (s.thread u).rank f := by
    intro u member
    exact (step.passive (Finset.ne_of_mem_erase member)).rank_le
  have sum := Finset.sum_le_sum others
  have after := Finset.add_sum_erase Finset.univ (fun u => (s'.thread u).rank f)
    (Finset.mem_univ e.thread)
  have before := Finset.add_sum_erase Finset.univ (fun u => (s.thread u).rank f)
    (Finset.mem_univ e.thread)
  unfold State.total
  omega

/-- Whoever takes a step has less to do afterwards, if the operation leads to lower ranks. -/
theorem Step.rank_lt (step : Step M s e s')
    (leads : s.thread e.thread = .ready e.pc →
      (M e.thread e.pc).Leads s.mem fun l => f l < f e.pc) :
    (s'.thread e.thread).rank f < (s.thread e.thread).rank f := by
  rcases step.active with ⟨ready, leaves⟩ | ⟨a, asleep, awake⟩ | ⟨q, x, queued, awake⟩
  · rw [ready]
    exact ((leads ready).of_leaves leaves).rank_lt
  · rw [asleep, awake]
    exact Nat.lt_succ_self _
  · rw [queued, awake]
    simp only [Status.rank, Option.elim]
    omega

/-- A program has bounded runs, but for steps after which the thread is where it was, if
all its other operations lead to lower ranks. -/
theorem machine_bounded (f : L → ℕ) {idle : Event A P T L → Bool}
    (leads : ∀ s e s', Step M s e s' → idle e = false → s.thread e.thread = .ready e.pc →
      (M e.thread e.pc).Leads s.mem fun l => f l < f e.pc)
    (idles : ∀ s e s', Step M s e s' → idle e = true →
      s'.thread e.thread = s.thread e.thread) :
    (machine M start).Bounded (fun e => !idle e) (start.total f) 0 := by
  have pot : (machine M start).Potential (State.total f) (fun e => if !idle e then 1 else 0)
      fun e => if !idle e then 0 else 0 := by
    constructor
    intro s e s' _ step
    have least := Step.total_le (f := f) step
    cases wait : idle e with
    | true =>
      rw [idles s e s' step wait] at least
      simpa using least
    | false =>
      have lower := Step.rank_lt step (leads s e s' step wait)
      simp only [Bool.not_false, if_true]
      omega
  exact pot.bounded fun s first => by rw [show s = start from first]

/-- If no thread can move but by some steps that do not count, a thread that is awake waits
for another one, has finished, or can take one of those steps. -/
theorem ready_of_stuck {counts : Event A P T L → Bool}
    (stuck : (machine M start).Stuck counts s) {t : T} {l : L} (ready : s.thread t = .ready l) :
    (M t l).immediate = false ∨
      ∃ access, (M t l).Shows s.mem access ∧ counts ⟨t, l, access⟩ = false := by
  cases waits : (M t l).immediate with
  | false => exact .inl rfl
  | true =>
    obtain ⟨access, s', step⟩ := exists_step ready waits
    exact .inr ⟨access, step.shows (l := l) ready, stuck _ _ step⟩

/-- Whether a thread can only go on after another one, or by a wait that returns by itself:
it has not started or has finished, waits without a timeout, or joins a thread that has not
finished. -/
def State.idle (M : Program A P T L) (s : State A P T L) (t : T) : Bool :=
  match s.thread t with
  | .unborn _ | .asleep _ _ => true
  | .queued _ _ x => x.isNone
  | .ready l => match M t l with
    | .exit => true
    | .join u _ => !s.finished M u
    | _ => false

/-- Where all threads are idle nobody can move except by such a wait. -/
theorem stuck_of_idle (idle : ∀ t, s.idle M t = true) :
    (machine M start).Stuck (fun e => !e.resumes) s := by
  intro e s' step
  have waits := idle e.thread
  cases step with
  | resume sleeping => rfl
  | expire waiting =>
    simp only [State.idle, waiting] at waits
    cases waits
  | @run t l c access s' running performed =>
    simp only [State.idle, running] at waits
    cases op : M t l with
    | exit =>
      rw [op] at performed
      cases performed
    | join u k =>
      rw [op] at performed waits
      simp only [Bool.not_eq_true'] at waits
      simp [Op.perform, waits] at performed
    | _ =>
      rw [op] at waits
      cases waits

/-! ## Counters -/

/-- What the threads contribute to a counter, by their control points. -/
def State.counted (g : L → ℤ) (s : State A P T L) : ℤ := ∑ t, g (s.loc t)

/-- The contributions change by what the thread that takes the step contributes. -/
theorem Step.counted (step : Step M s e s') (g : L → ℤ) :
    s'.counted g + g (s.loc e.thread) = s.counted g + g (s'.loc e.thread) := by
  exact Finset.sum_add_of_others e.thread fun u other => congrArg g (step.loc_other other)

/-- **Counters.** A cell that each operation changes as its thread's contribution changes is
the sum of the contributions in every reachable state. -/
theorem counter_eq {a : A} {g : L → ℤ} (awake : ∀ t q l x, start.thread t ≠ .queued q l x)
    (keeps : ∀ t l mem, (M t l).Leads mem fun l' => (M t l).cells mem a + g l = mem a + g l')
    (initial : start.mem a = start.counted g) (reach : (machine M start).Reachable s) :
    s.mem a = s.counted g := by
  have inv : (machine M start).Invariant fun s => s.mem a = s.counted g := by
    constructor
    · rintro s rfl
      exact initial
    · intro s e s' reach held step
      have moved := Step.counted step g
      rcases Step.active step with ⟨ready, leaves⟩ | ⟨b, asleep, up⟩ | ⟨q, x, queued, up⟩
      · have holds := (keeps e.thread e.pc s.mem).of_leaves leaves
        have there := State.loc_of_holds holds
        have here : s.loc e.thread = e.pc := by rw [State.loc, ready]; rfl
        rw [← (Step.cells step).1 ready] at there
        rw [here] at moved
        omega
      · have here : s.loc e.thread = e.pc := by rw [State.loc, asleep]; rfl
        have there : s'.loc e.thread = e.pc := by rw [State.loc, up]; rfl
        rw [(Step.cells step).2 (by simp [asleep]), held]
        rw [here, there] at moved
        omega
      · have here : s.loc e.thread = e.pc := by rw [State.loc, queued]; rfl
        have there : s'.loc e.thread = x := by rw [State.loc, up]; rfl
        -- a call contributes the same whatever it returns
        have same : g x = g e.pc := by
          have waits := queuedBy awake reach queued
          generalize e.pc = l at waits
          generalize hx : some x = y at waits
          cases waits with
          | lock => cases hx
          | wait pc b v p timeout k op accepted | requeued pc b v p timeout k op accepted =>
            obtain ⟨-, ends⟩ := Option.ite_none_right_eq_some.mp hx.symm
            obtain rfl : k (.error etimedout) = x := Option.some.inj ends
            have both := keeps e.thread pc s.mem
            rw [op] at both
            have first := both (.ok 0)
            have second := both (.error etimedout)
            omega
        rw [(Step.cells step).2 (by simp [queued]), held]
        rw [here, there] at moved
        omega
  exact inv.of_reachable reach

end Semantics

end PiFutex
