import Mathlib.Algebra.BigOperators.Group.Finset.Basic
import Futextest.Potential
import Futextest.Syscalls

/-!
# Potentials of threads and a kernel

Each control point has a rank, which says how far its thread still has to go from there, and
the kernel has one, which says how often it can still act by itself. If every operation leads
to lower ranks then a run has at most as many steps as the ranks it started with. A call is
two steps, so that its control point has another rank inside of it, and what either step costs
or saves the kernel is paid for by the thread. Some returns may lead back; these bring in what
they cost, and a bound is then one on the other steps.

## Main definitions

* `State.total` — the sum of the ranks
* `Descends` — the operations of a program lead to lower ranks

## Main results

* `Descends.bounded` — then its runs are bounded
* `waits_of_stuck` — what is left to a thread that is awake when nobody can move
-/

namespace Syscalls

variable {A C T L K : Type}

/-- How many steps a thread can still take, by its control point and whether it is inside
of a call. -/
def Status.rank (f h : L → ℕ) : Status L → ℕ
  | .unborn l | .ready l => f l
  | .calling l => h l

section Semantics

variable [DecidableEq A] [DecidableEq T] [Fintype T]

/-- The ranks of all threads and of the kernel. -/
def State.total (f h : L → ℕ) (g : K → ℕ) (s : State A T L K) : ℕ :=
  ∑ t, (s.thread t).rank f h + g s.kernel

/-- Every operation of the program leads to a control point of a lower rank, and every act of
the kernel to a state of a lower rank. A return that does not count may lead anywhere, at the
given price. -/
structure Descends (Q : Kernel A C T K) (M : Program A C T L) (f h : L → ℕ) (g : K → ℕ)
    (counts : Event A C T L → Bool) (price : ℕ) : Prop where
  others : ∀ e, (∀ c r, e.access ≠ .leave c r) → counts e = true
  act : ∀ t κ κ', Q.act κ t = some κ' → g κ' < g κ
  enter : ∀ mem κ t l c k κ', M t l = .call c k → Q.enter mem κ t c = some κ' →
    h l + g κ' < f l + g κ
  leave : ∀ κ t l c k r κ', M t l = .call c k → Q.leave κ t c r = some κ' →
    f (k r) + g κ' + (if counts ⟨t, l, .leave c r⟩ then 1 else 0) ≤
      h l + g κ + if counts ⟨t, l, .leave c r⟩ then 0 else price
  run : ∀ t l mem loc access mem' l', (M t l).Next M mem loc access mem' l' →
    (∀ c k, M t l ≠ .call c k) → f l' < f l

variable {Q : Kernel A C T K} {M : Program A C T L} {f h : L → ℕ} {g : K → ℕ}
  {counts : Event A C T L → Bool} {price : ℕ} {s s' start : State A T L K} {e : Event A C T L}

omit [Fintype T] [DecidableEq T] in
/-- An operation that is no call is no return, and leaves the kernel alone. -/
theorem Op.Performs.silent {op : Op A C T L} {access : Access A C T} {l : L}
    {mid : State A T L K} (performs : op.Performs M s access l mid) (Q : Kernel A C T K) (t : T) :
    (∀ c r, access ≠ .leave c r) ∧ mid.kernel = s.kernel := by
  have changes := performs.changes Q t
  have quiet := performs.quiet
  have next := performs.next
  generalize mid.mem = mem' at next
  cases next with
  | leave c k r => exact absurd rfl (quiet c k)
  | _ => exact ⟨by simp, changes⟩

/-- Only the thread that takes the step has another rank afterwards. -/
theorem Step.total_eq (step : Step Q M s e s') :
    s'.total f h g + (s.thread e.thread).rank f h + g s.kernel =
      s.total f h g + (s'.thread e.thread).rank f h + g s'.kernel := by
  have same : ∀ u, u ≠ e.thread → (s'.thread u).rank f h = (s.thread u).rank f h := by
    intro u other
    rcases Step.other step other with ⟨-, same⟩ | ⟨-, l, before, after⟩
    · rw [same]
    · -- a thread that is created has the rank it had before
      rw [before, after]
      rfl
  have sum := Finset.sum_add_of_others e.thread same
  unfold State.total
  omega

/-- Each step that counts takes away one, and each other one brings in at most the price. -/
theorem Descends.pays (descends : Descends Q M f h g counts price) (step : Step Q M s e s') :
    s'.total f h g + (if counts e then 1 else 0) ≤
      s.total f h g + if counts e then 0 else price := by
  have total := Step.total_eq (f := f) (h := h) (g := g) step
  have counted : (∀ c r, e.access ≠ .leave c r) → counts e = true := descends.others e
  cases step with
  | @run t l access s' running performed =>
    obtain ⟨l', mid, rfl, performs⟩ := Op.performs performed
    have lower := descends.run t l _ _ _ _ _ performs.next performs.quiet
    obtain ⟨no_leave, same⟩ := performs.silent Q t
    have outside : (mid.put t (.ready l')).thread t = .ready l' := State.put_self mid t _
    have kept : (mid.put t (.ready l')).kernel = s.kernel := same
    rw [counted no_leave]
    simp only [outside, kept, running, Status.rank, if_true] at total ⊢
    omega
  | @enter t l c k κ running op enters =>
    have lower := descends.enter _ _ _ _ _ _ _ op enters
    rw [counted (by simp)]
    have inside : (s.put t (.calling l)).thread t = .calling l := State.put_self s t _
    simp only [inside, running, Status.rank, if_true] at total ⊢
    omega
  | @leave t l c k r κ calling op leaves =>
    have least := descends.leave _ _ _ _ _ _ _ op leaves
    have outside : (s.put t (.ready (k r))).thread t = .ready (k r) := State.put_self s t _
    simp only [outside, calling, Status.rank] at total ⊢
    split_ifs at least ⊢ <;> omega
  | @act t κ acts =>
    have lower := descends.act _ _ _ acts
    rw [counted (by simp)]
    simp only [if_true] at total ⊢
    omega

/-- **Programs that descend have bounded runs.** There are at most as many steps that count as
the ranks at the start, and the price more for each other step. -/
theorem Descends.bounded (descends : Descends Q M f h g counts price) :
    (machine Q M start).Bounded counts (start.total f h g) price := by
  have pot : (machine Q M start).Potential (State.total f h g) (fun e => if counts e then 1 else 0)
      fun e => if counts e then 0 else price :=
    ⟨fun _ _ _ _ step => descends.pays step⟩
  exact pot.bounded fun s first => by rw [show s = start from first]

/-! ## When nobody can move -/

omit [Fintype T] in
/-- A thread that is in a call is at an operation that makes one. -/
theorem calling_at_call (awake : ∀ t l, start.thread t ≠ .calling l)
    (reach : (machine Q M start).Reachable s) {t : T} {l : L} (calling : s.thread t = .calling l) :
    ∃ c k, M t l = .call c k := by
  have inv : (machine Q M start).Invariant fun s => ∀ l, s.thread t = .calling l →
      ∃ c k, M t l = .call c k := by
    constructor
    · rintro s rfl l calling
      exact absurd calling (awake t l)
    · intro s e s' _ before step l calling
      by_cases own : t = e.thread
      · subst own
        rcases Step.own step with ⟨-, same, -⟩ | ⟨c, k, op, -, -, -, enters⟩ | ⟨l', -, -, leaves⟩
        · exact before l (same ▸ calling)
        · rw [enters] at calling
          cases calling
          exact ⟨c, k, op⟩
        · rw [leaves] at calling
          cases calling
      · rcases Step.other step own with ⟨-, same⟩ | ⟨-, l', -, started⟩
        · exact before l (same ▸ calling)
        · rw [started] at calling
          cases calling
  exact inv.of_reachable reach l calling

omit [Fintype T] in
/-- An operation that needs nobody else can always be executed. -/
theorem exists_step_of_isLocal {t : T} {l : L} (ready : s.thread t = .ready l)
    (here : (M t l).isLocal = true) : ∃ access s', (∀ c r, access ≠ .leave c r) ∧
      Step Q M s ⟨t, l, access⟩ s' := by
  cases op : M t l with
  | tau k => exact ⟨.tau, _, by simp, .run ready (by rw [op, Op.perform])⟩
  | load a k => exact ⟨.load a (s.mem a), _, by simp, .run ready (by rw [op, Op.perform])⟩
  | store a v k => exact ⟨.store a v, _, by simp, .run ready (by rw [op, Op.perform])⟩
  | inc a k => exact ⟨.inc a (s.mem a + 1), _, by simp, .run ready (by rw [op, Op.perform])⟩
  | _ =>
    rw [op] at here
    cases here

omit [Fintype T] in
/-- If only returns that do not count are left, a thread that is awake needs another one for
its next operation. -/
theorem waits_of_stuck (descends : Descends Q M f h g counts price)
    (stuck : (machine Q M start).Stuck counts s) {t : T} {l : L} (ready : s.thread t = .ready l) :
    (M t l).isLocal = false ∧
      ∀ c k, M t l = .call c k → Q.enter s.mem s.kernel t c = none := by
  constructor
  · by_contra here
    obtain ⟨access, s', no_leave, step⟩ :=
      exists_step_of_isLocal (Q := Q) ready ((Bool.not_eq_false _).mp here)
    have idle := stuck _ _ step
    rw [descends.others _ no_leave] at idle
    cases idle
  · intro c k op
    by_contra refused
    obtain ⟨κ, enters⟩ := Option.ne_none_iff_exists'.mp refused
    have idle := stuck _ _ (.enter ready op enters)
    rw [descends.others _ (by simp)] at idle
    cases idle

end Semantics

end Syscalls
