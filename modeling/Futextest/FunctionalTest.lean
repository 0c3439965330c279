import Futextest.Constants
import Futextest.Syscalls

/-!
# Functional tests and their verdicts

A functional test is a program whose main ends by printing a verdict. On the way its
threads may print diagnostics. Which verdicts there are, and that no diagnostic is
followed by a pass, is asked of every run, whatever its calls return.

## Main definitions

* `printResult` — the line that a verdict is printed as
* `Syscalls.FunctionalTest` — a program with its verdict and its diagnostics
* `FunctionalTest.DocumentedWhen`, `FunctionalTest.UnknownWhen`,
  `FunctionalTest.HeededWhen` — what is asked of a verdict
* `returns` — the results of some calls, in order
* `HappensWhen` — an event comes after a given past
-/

/-- The lines that `print_result` prints. -/
inductive ResultLine
  | unknown
  | pass
  | error
  | fail
  deriving DecidableEq

/-- `print_result(ret)`. -/
def printResult (ret : ℤ) : ResultLine :=
  if ret = retPass then .pass
  else if ret = retError then .error
  else if ret = retFail then .fail
  else .unknown

/-- One of the documented verdicts. -/
def Documented (ret : ℤ) : Prop := ret = retPass ∨ ret = retError ∨ ret = retFail

instance (ret : ℤ) : Decidable (Documented ret) := inferInstanceAs (Decidable (_ ∨ _))

/-- These are the verdicts that `print_result` knows. -/
theorem printResult_eq_unknown_iff {ret : ℤ} : printResult ret = .unknown ↔ ¬ Documented ret := by
  unfold printResult Documented
  split_ifs with pass error fail
  · simp [pass]
  · simp [error]
  · simp [fail]
  · simp [pass, error, fail]

@[simp] theorem documented_retPass : Documented retPass := .inl rfl

@[simp] theorem documented_retError : Documented retError := .inr (.inl rfl)

@[simp] theorem documented_retFail : Documented retFail := .inr (.inr rfl)

theorem retError_ne_retPass : retError ≠ retPass := by decide

theorem retFail_ne_retPass : retFail ≠ retPass := by decide

namespace Syscalls

variable {A C T L : Type}

/-! ## Looking back at a run -/

section Traces

variable [DecidableEq T]

/-- What a call of thread `t` returns, if the event is the return of one that `p` selects. -/
def Event.returned (t : T) (p : C → Bool) (e : Event A C T L) : Option SysResult :=
  match e.access with
  | .leave c r => if e.thread = t ∧ p c then some r else none
  | _ => none

/-- The results of the calls of thread `t` that `p` selects, in order. -/
def returns (t : T) (p : C → Bool) (w : List (Event A C T L)) : List SysResult :=
  w.filterMap (Event.returned t p)

variable {t : T} {p : C → Bool} {w : List (Event A C T L)} {e : Event A C T L}

theorem returns_append (w : List (Event A C T L)) (e : Event A C T L) :
    returns t p (w ++ [e]) = returns t p w ++ (e.returned t p).toList := by
  rw [returns, List.filterMap_append, returns]
  cases h : e.returned t p <;> simp [h]

@[simp] theorem returns_nil : returns t p ([] : List (Event A C T L)) = [] := rfl

/-- Only returns of calls count. -/
theorem returns_append_of_none (none : e.returned t p = none) :
    returns t p (w ++ [e]) = returns t p w := by
  rw [returns_append, none]
  exact List.append_nil _

/-- The steps of other threads do not count. -/
theorem returned_of_ne {u : T} {pc : L} {access : Access A C T} (ne : u ≠ t) :
    (⟨u, pc, access⟩ : Event A C T L).returned t p = none := by
  unfold Event.returned
  split
  · simp [ne]
  · rfl

/-- Nor does the entry of a call. -/
theorem returned_of_silent {u : T} {pc : L} {access : Access A C T}
    (silent : access = .act ∨ ∃ c, access = .enter c) :
    (⟨u, pc, access⟩ : Event A C T L).returned t p = none := by
  rcases silent with rfl | ⟨c, rfl⟩ <;> rfl

end Traces

/-- Some call has woken one thread. -/
def Woken (results : List SysResult) : Prop := ∃ r ∈ results, r.ret = 1

theorem not_woken_nil : ¬ Woken [] := by
  rintro ⟨r, member, -⟩
  exact List.not_mem_nil member

theorem woken_singleton {r : SysResult} : Woken [r] ↔ r.ret = 1 := by
  constructor
  · rintro ⟨r', member, one⟩
    rwa [List.mem_singleton.mp member] at one
  · intro one
    exact ⟨r, List.mem_singleton_self r, one⟩

/-- Some event happens when `P` holds of the events before it and of itself. -/
def HappensWhen (P : List (Event A C T L) → Event A C T L → Prop) (w : List (Event A C T L)) :
    Prop :=
  ∃ early e, early ++ [e] <+: w ∧ P early e

theorem happensWhen_append {P : List (Event A C T L) → Event A C T L → Prop}
    {w : List (Event A C T L)} {e : Event A C T L} :
    HappensWhen P (w ++ [e]) ↔ HappensWhen P w ∨ P w e := by
  constructor
  · rintro ⟨early, e', before, holds⟩
    rcases List.prefix_concat_iff.mp before with same | before
    · -- the event is the last one
      obtain ⟨rfl, last⟩ := List.append_inj' same rfl
      cases last
      exact .inr holds
    · exact .inl ⟨early, e', before, holds⟩
  · rintro (⟨early, e', before, holds⟩ | holds)
    · exact ⟨early, e', before.trans (List.prefix_append w [e]), holds⟩
    · exact ⟨w, e, List.prefix_rfl, holds⟩

theorem not_happensWhen_nil {P : List (Event A C T L) → Event A C T L → Prop} :
    ¬ HappensWhen P [] := by
  rintro ⟨early, e, before, -⟩
  have empty := List.prefix_nil.mp before
  simp at empty

/-! ## Tests -/

/-- A functional test: its program and where it starts, the thread that prints the
verdict, the value it prints at a control point, the control points at which `error()`
or `fail()` is called, and the steps whose arithmetic overflows. -/
structure FunctionalTest (A C T L : Type) where
  program : Program A C T L
  start : State A T L Unit
  main : T
  verdict : L → Option ℤ
  diagnoses : L → Bool
  overflows : Event A C T L → Bool := fun _ => false

namespace FunctionalTest

variable [DecidableEq A] [DecidableEq T] (test : FunctionalTest A C T L)

/-- The test with calls that return anything. -/
abbrev anyMachine : System (State A T L Unit) (Event A C T L) :=
  machine Kernel.any test.program test.start

/-- `test.Prints w s v`: a run without an overflow ends with the verdict `v`. -/
def Prints (w : List (Event A C T L)) (s : State A T L Unit) (v : ℤ) : Prop :=
  test.anyMachine.Run w s ∧ (∀ e ∈ w, test.overflows e = false) ∧
    test.verdict (s.loc test.main) = some v

/-- The verdict is a documented one in exactly the runs of a kind. -/
def DocumentedWhen (kind : List (Event A C T L) → Prop) : Prop :=
  ∀ w s v, test.Prints w s v → (Documented v ↔ kind w)

/-- `print_result` does not know the verdict in exactly the runs of a kind. -/
def UnknownWhen (kind : List (Event A C T L) → Prop) : Prop :=
  ∀ w s v, test.Prints w s v → (printResult v = .unknown ↔ kind w)

variable {test} in
/-- These are the runs in which it is not a documented one. -/
theorem DocumentedWhen.unknownWhen {kind other : List (Event A C T L) → Prop}
    (documented : test.DocumentedWhen kind) (others : ∀ w, other w ↔ ¬ kind w) :
    test.UnknownWhen other := by
  intro w s v prints
  rw [printResult_eq_unknown_iff, others w]
  exact not_congr (documented w s v prints)

omit [DecidableEq A] [DecidableEq T] in
/-- Some thread takes or has taken a branch that calls `error()` or `fail()`. -/
def Diagnosed (w : List (Event A C T L)) (s : State A T L Unit) : Prop :=
  (∃ e ∈ w, test.diagnoses e.pc = true) ∨ ∃ t, test.diagnoses (s.loc t) = true

/-- A diagnostic keeps the verdict from being a pass in exactly the runs of a kind. -/
def HeededWhen (kind : List (Event A C T L) → Prop) : Prop :=
  ∀ w s v, test.Prints w s v → ((test.Diagnosed w s → v ≠ retPass) ↔ kind w)

/-- Thread `t` has taken a branch that calls `error()` or `fail()`. -/
def DiagnosedBy (w : List (Event A C T L)) (t : T) : Prop :=
  ∃ e ∈ w, e.thread = t ∧ test.diagnoses e.pc = true

variable {test} {w : List (Event A C T L)} {t u : T} {e : Event A C T L}

omit [DecidableEq A] [DecidableEq T] in
theorem diagnosedBy_append :
    test.DiagnosedBy (w ++ [e]) t ↔
      test.DiagnosedBy w t ∨ e.thread = t ∧ test.diagnoses e.pc = true := by
  constructor
  · rintro ⟨e', member, of⟩
    rcases List.mem_append.mp member with before | now
    · exact .inl ⟨e', before, of⟩
    · rw [List.mem_singleton.mp now] at of
      exact .inr of
  · rintro (⟨e', before, of⟩ | now)
    · exact ⟨e', List.mem_append_left _ before, of⟩
    · exact ⟨e, List.mem_append_right _ (List.mem_singleton_self e), now⟩

omit [DecidableEq A] [DecidableEq T] in
theorem diagnosedBy_append_self {l : L} {access : Access A C T} :
    test.DiagnosedBy (w ++ [⟨t, l, access⟩]) t ↔
      test.DiagnosedBy w t ∨ test.diagnoses l = true := by
  rw [diagnosedBy_append]
  exact or_congr_right (and_iff_right rfl)

omit [DecidableEq A] [DecidableEq T] in
theorem diagnosedBy_append_of_ne {l : L} {access : Access A C T} (ne : u ≠ t) :
    test.DiagnosedBy (w ++ [⟨u, l, access⟩]) t ↔ test.DiagnosedBy w t := by
  rw [diagnosedBy_append]
  exact or_iff_left fun both => ne both.1

omit [DecidableEq A] [DecidableEq T] in
theorem diagnosedBy_append_of_false {l : L} {access : Access A C T} (t : T)
    (quiet : test.diagnoses l = false) :
    test.DiagnosedBy (w ++ [⟨u, l, access⟩]) t ↔ test.DiagnosedBy w t := by
  rw [diagnosedBy_append]
  refine or_iff_left ?_
  rintro ⟨-, diagnosed⟩
  exact absurd diagnosed (Bool.eq_false_iff.mp quiet)

omit [DecidableEq A] [DecidableEq T] in
theorem not_diagnosedBy_nil : ¬ test.DiagnosedBy [] t := by
  rintro ⟨e, member, -⟩
  exact List.not_mem_nil member

omit [DecidableEq A] [DecidableEq T] in
theorem diagnosed_iff {s : State A T L Unit} :
    test.Diagnosed w s ↔ ∃ t, test.DiagnosedBy w t ∨ test.diagnoses (s.loc t) = true := by
  constructor
  · rintro (⟨e, member, of⟩ | ⟨t, now⟩)
    · exact ⟨e.thread, .inl ⟨e, member, rfl, of⟩⟩
    · exact ⟨t, .inr now⟩
  · rintro ⟨t, ⟨e, member, -, of⟩ | now⟩
    · exact .inl ⟨e, member, of⟩
    · exact .inr ⟨t, now⟩

omit [DecidableEq A] [DecidableEq T] in
/-- In a test of two threads, neither of which is at a diagnostic, one of them has taken
it before. -/
theorem diagnosed_pair_iff {t₁ t₂ : T} (pair : ∀ t, t = t₁ ∨ t = t₂) {s : State A T L Unit}
    (first : test.diagnoses (s.loc t₁) = false) (second : test.diagnoses (s.loc t₂) = false) :
    test.Diagnosed w s ↔ test.DiagnosedBy w t₁ ∨ test.DiagnosedBy w t₂ := by
  rw [diagnosed_iff]
  constructor
  · rintro ⟨t, before | now⟩
    · rcases pair t with rfl | rfl
      · exact .inl before
      · exact .inr before
    · rcases pair t with rfl | rfl
      · rw [first] at now
        cases now
      · rw [second] at now
        cases now
  · rintro (before | before)
    · exact ⟨t₁, .inl before⟩
    · exact ⟨t₂, .inl before⟩

/-- What every operation of a thread that has started preserves, for the events so far,
the cells and the control points, holds at the end of every run. -/
theorem run_induction (test : FunctionalTest A C T L)
    {P : List (Event A C T L) → (A → ℤ) → (T → L) → Prop}
    (initial : P [] test.start.mem test.start.loc)
    (enter : ∀ w mem loc t c k, test.program t (loc t) = .call c k → P w mem loc →
      P (w ++ [⟨t, loc t, .enter c⟩]) mem loc)
    (next : ∀ w mem loc t access mem' l, Born test.start w t → P w mem loc →
      (test.program t (loc t)).Next test.program mem loc access mem' l →
      P (w ++ [⟨t, loc t, access⟩]) mem' (Function.update loc t l))
    {s : State A T L Unit} (run : test.anyMachine.Run w s) : P w s.mem s.loc := by
  refine Run.born_induction initial ?_ enter next run
  -- this kernel does nothing by itself
  intro w mem loc t κ κ' acts
  cases acts

/-- The same for a test of two threads, whose control points are those of their own
functions. -/
theorem pair_induction (test : FunctionalTest A C T L) {X Y : Type} (t₁ t₂ : T) (f : X → L)
    (g : Y → L) {P : List (Event A C T L) → (A → ℤ) → X → Y → Prop}
    (pair : ∀ t, t = t₁ ∨ t = t₂) (ne : t₂ ≠ t₁) (x₀ : X) (y₀ : Y)
    (first_start : test.start.loc t₁ = f x₀) (second_start : test.start.loc t₂ = g y₀)
    (initial : P [] test.start.mem x₀ y₀)
    (enter : ∀ w mem x y t l c k, test.program t l = .call c k → P w mem x y →
      P (w ++ [⟨t, l, .enter c⟩]) mem x y)
    (first : ∀ w mem loc x y access mem' l, loc t₂ = g y → P w mem x y →
      (test.program t₁ (f x)).Next test.program mem loc access mem' l →
      ∃ x', l = f x' ∧ P (w ++ [⟨t₁, f x, access⟩]) mem' x' y)
    (second : ∀ w mem loc x y access mem' l, loc t₁ = f x → P w mem x y →
      (test.program t₂ (g y)).Next test.program mem loc access mem' l →
      ∃ y', l = g y' ∧ P (w ++ [⟨t₂, g y, access⟩]) mem' x y')
    {s : State A T L Unit} (run : test.anyMachine.Run w s) :
    ∃ x y, s.loc t₁ = f x ∧ s.loc t₂ = g y ∧ P w s.mem x y := by
  refine run_induction test
    (P := fun w mem loc => ∃ x y, loc t₁ = f x ∧ loc t₂ = g y ∧ P w mem x y) ?_ ?_ ?_ run
  · exact ⟨x₀, y₀, first_start, second_start, initial⟩
  · rintro w mem loc t c k op ⟨x, y, here, there, before⟩
    exact ⟨x, y, here, there, enter _ _ _ _ _ _ _ _ op before⟩
  · rintro w mem loc t access mem' l - ⟨x, y, here, there, before⟩ next
    -- the thread that takes the step is one of the two
    rcases pair t with same | same
    · subst same
      rw [here] at next ⊢
      obtain ⟨x', goes, after⟩ := first _ _ _ _ _ _ _ _ there before next
      refine ⟨x', y, ?_, ?_, after⟩
      · rw [Function.update_self, goes]
      · rw [Function.update_of_ne ne, there]
    · subst same
      rw [there] at next ⊢
      obtain ⟨y', goes, after⟩ := second _ _ _ _ _ _ _ _ here before next
      refine ⟨x, y', ?_, ?_, after⟩
      · rw [Function.update_of_ne (Ne.symm ne), here]
      · rw [Function.update_self, goes]

/-- What is known of the two threads at the end of a run that has come to a verdict, where
main shows it at one control point only. -/
theorem pair_of_prints {test : FunctionalTest A C T L} {X Y : Type} {t₂ : T} {f : X → L}
    {g : Y → L} {P : List (Event A C T L) → (A → ℤ) → X → Y → Prop} {exit : ℤ → X}
    (shows : ∀ x v, test.verdict (f x) = some v → x = exit v)
    (phases : ∀ w s, test.anyMachine.Run w s →
      ∃ x y, s.loc test.main = f x ∧ s.loc t₂ = g y ∧ P w s.mem x y)
    {s : State A T L Unit} {v : ℤ} (prints : test.Prints w s v) :
    ∃ y, s.loc test.main = f (exit v) ∧ s.loc t₂ = g y ∧ P w s.mem (exit v) y := by
  obtain ⟨run, -, verdict⟩ := prints
  obtain ⟨x, y, here, there, both⟩ := phases w s run
  rw [here] at verdict
  obtain rfl := shows x v verdict
  exact ⟨y, here, there, both⟩

end FunctionalTest

end Syscalls
