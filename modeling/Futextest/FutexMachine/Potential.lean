import Mathlib.Algebra.BigOperators.Ring.Finset
import Mathlib.Algebra.Group.Action.Defs
import Mathlib.Algebra.Order.BigOperators.Group.Finset
import Futextest.Potential
import Futextest.Projection

/-!
# Potentials of threads

The potential of a machine is the sum of the ranks of its threads, and the rank of a
thread says how far it still has to go, given the words. A step moves one thread. The
others are where they were, but they may find other words, and those that a wake rouses
have more to do than they had asleep.

## Main definitions

* `State.total` — the sum of the ranks
* `Access.woken` — the threads that a step rouses
* `Event.resumes` — a step is the return of a wait that nobody woke

## Main results

* `Step.total_le` — what a step does to the sum
* `Step.total_loc` — exactly, for ranks that depend only on the control point
-/

namespace FutexMachine

variable {A T L : Type}

/-- The threads that a step rouses from their sleep. -/
def Access.woken : Access A T → Finset T
  | .wake _ _ woken => woken
  | _ => ∅

/-- The word that a step may change. -/
def Access.writes : Access A T → Option A
  | .store a _ => some a
  | .cmpxchg a _ _ _ => some a
  | .dec a _ => some a
  | _ => none

/-- Whether a step is the return of a wait that nobody woke. -/
def Event.resumes (e : Event A T L) : Bool :=
  match e.access with
  | .resume => true
  | _ => false

theorem Event.resumes_iff {e : Event A T L} : e.resumes = true ↔ e.access = .resume := by
  unfold Event.resumes
  cases e.access <;> simp

theorem Access.map_eq_resume {B : Type} {f : B → A} {x : Access B T} :
    x.map f = .resume ↔ x = .resume := by
  cases x <;> simp [Access.map]

/-- The statements of a run inside the common procedures are statements of the component. -/
theorem Shadow.count_inside {B L' : Type} {embed : B → A} {inside : T → L → Bool}
    {w : List (Event A T L)} {w' : List (Event B T L')} (shadow : Shadow embed inside w w') :
    w.countP (fun e => inside e.thread e.pc && !e.resumes) ≤ w'.countP fun e => !e.resumes := by
  induction shadow with
  | nil => simp
  | @still w w' e _ _ silent ih =>
    have none : (inside e.thread e.pc && !e.resumes) = false := by
      cases within : inside e.thread e.pc with
      | false => rfl
      | true => simp [Event.resumes_iff.mpr (silent within)]
    simpa [List.countP_append, none] using ih
  | @both w w' e e' _ _ access ih =>
    have same : e.resumes = e'.resumes := by
      rw [Bool.eq_iff_iff, Event.resumes_iff, Event.resumes_iff, access, Access.map_eq_resume]
    rw [List.countP_append, List.countP_append, List.countP_singleton, List.countP_singleton, same]
    cases inside e.thread e.pc <;> cases e'.resumes <;> simp <;> omega

/-- A wait that returns by itself in the component does so in the run. -/
theorem Shadow.count_resumes {B L' : Type} {embed : B → A} {inside : T → L → Bool}
    {w : List (Event A T L)} {w' : List (Event B T L')} (shadow : Shadow embed inside w w') :
    w'.countP Event.resumes ≤ w.countP Event.resumes := by
  induction shadow with
  | nil => simp
  | still _ _ _ ih =>
    rw [List.countP_append]
    omega
  | @both w w' e e' _ _ access ih =>
    have same : e.resumes = e'.resumes := by
      rw [Bool.eq_iff_iff, Event.resumes_iff, Event.resumes_iff, access, Access.map_eq_resume]
    rw [List.countP_append, List.countP_append, List.countP_singleton, List.countP_singleton, same]
    omega

/-- What the instruction makes of its thread. -/
@[simp] def Instr.status [DecidableEq A] (mem : A → UInt32) : Instr A L → Status A L
  | .wait a v k => if mem a = v then .asleep a k else .ready k
  | i => .ready (i.effect mem).2

/-- The sum of the ranks of all threads. -/
def State.total [Fintype T] (rank : T → Status A L → ℕ) (s : State A T L) : ℕ :=
  ∑ t, rank t (s.thread t)

theorem State.total_le [Fintype T] {rank : T → Status A L → ℕ} {c : ℕ}
    (bound : ∀ t x, rank t x ≤ c) (s : State A T L) : s.total rank ≤ c * Fintype.card T := by
  calc s.total rank ≤ ∑ _t : T, c := Finset.sum_le_sum fun t _ => bound t _
    _ = c * Fintype.card T := by rw [Finset.sum_const, Finset.card_univ, smul_eq_mul, mul_comm]

section Semantics

variable [DecidableEq A] [DecidableEq T] [Fintype T]
variable {M : Program A T L} {s s' : State A T L} {e : Event A T L}

theorem Instr.status_of_perform {i : Instr A L} {t : T} {woken : Finset T} {access : Access A T}
    (performed : i.perform s t woken = some (access, s')) : s'.thread t = i.status s.mem := by
  cases i with
  | wait a v k =>
    simp only [Instr.perform] at performed
    split at performed <;>
      simp only [Option.some.injEq, Prod.mk.injEq] at performed <;>
      obtain ⟨-, rfl⟩ := performed <;> simp [*]
  | wake a n k =>
    simp only [Instr.perform, Option.ite_none_right_eq_some, Option.some.injEq,
      Prod.mk.injEq] at performed
    obtain ⟨-, -, rfl⟩ := performed
    simp
  | tau k | load a k | store a v k | dec a k | cmpxchg a old new k =>
    simp only [Instr.perform, Option.some.injEq, Prod.mk.injEq] at performed
    obtain ⟨-, rfl⟩ := performed
    simp

/-- A thread that is awake does not return from a wait. -/
theorem Step.resumes_eq_false (step : Step M s e s') {l : L}
    (ready : s.thread e.thread = .ready l) : e.resumes = false := by
  rw [Bool.eq_false_iff, Ne, Event.resumes_iff]
  intro resumed
  rcases step.view with ⟨i, chosen, -, -, performed⟩ | ⟨u, l, k, -, -, -, shown, -⟩ |
    ⟨u, k, -, -, -, shown, -⟩ | ⟨b, asleep, -⟩
  · rw [Instr.shows_of_perform performed] at resumed
    cases i <;> simp at resumed
  · simp [resumed] at shown
  · simp [resumed] at shown
  · simp [ready] at asleep

/-- Nothing but the return of a wait is left when no thread can move. -/
theorem not_enabled_of_stuck {start : State A T L}
    (stuck : (machine M start).Stuck (fun e => !e.resumes) s) (t : T) : ¬ Enabled M s t := by
  rintro ⟨pc, access, s', ready, step⟩
  have running := Step.resumes_eq_false step ready
  simpa [running] using stuck _ _ step

/-- A step changes no word but the one that its access writes. -/
theorem Step.mem_other (step : Step M s e s') {b : A} (other : e.access.writes ≠ some b) :
    s'.mem b = s.mem b := by
  rcases step.effect with ⟨i, woken, -, -, shown, mem, -⟩ | ⟨mem, -⟩
  · rw [mem]
    rw [shown] at other
    cases i with
    | store a v k | dec a k =>
      have ne : b ≠ a := fun same => other (congrArg some same.symm)
      exact Function.update_of_ne ne _ _
    | cmpxchg a old new k =>
      have ne : b ≠ a := fun same => other (congrArg some same.symm)
      by_cases hit : s.mem a = old
      · simp [hit, Function.update_of_ne ne]
      · simp [hit]
    | tau k | load a k | wait a v k | wake a n k => rfl
  · rw [mem]

/-- A wake rouses threads that slept on its word, and no more than it may. -/
theorem Step.woken_le (step : Step M s e s') {a : A} {n : ℕ} {woken : Finset T}
    (wakes : e.access = .wake a n woken) : woken.card ≤ n ∧ woken ⊆ s.sleepers a := by
  rcases step.view with ⟨i, chosen, -, -, performed⟩ | ⟨u, l, k, -, -, -, shown, -⟩ |
    ⟨u, k, -, -, -, shown, -⟩ | ⟨b, -, shown, -⟩
  · have shows := Instr.shows_of_perform performed
    cases i with
    | wake b m k =>
      rw [wakes] at shows
      simp only [Instr.shows, Access.wake.injEq] at shows
      obtain ⟨rfl, rfl, rfl⟩ := shows
      simp only [Instr.perform, Option.ite_none_right_eq_some] at performed
      obtain ⟨⟨subset, card⟩, -⟩ := performed
      exact ⟨by omega, subset⟩
    | _ =>
      rw [wakes] at shows
      simp at shows
  · simp [wakes] at shown
  · simp [wakes] at shown
  · simp [wakes] at shown

/-- A wait on a word that has the expected value puts its thread to sleep. -/
theorem Step.sleeps (step : Step M s e s') {a : A} {v : UInt32} {l : L}
    (ready : s.thread e.thread = .ready e.pc) (wait : M e.thread e.pc = .instr (.wait a v l))
    (word : s.mem a = v) : s'.thread e.thread = .asleep a l := by
  rcases step.view with ⟨i, chosen, hop, -, performed⟩ | ⟨u, l, k, hop, -⟩ | ⟨u, k, hop, -⟩ |
    ⟨b, asleep, -⟩
  · obtain rfl : i = .wait a v l := by simpa [wait] using hop.symm
    simp only [Instr.perform, if_pos word, Option.some.injEq, Prod.mk.injEq] at performed
    rw [← performed.2, State.sleep_self]
  · simp [wait] at hop
  · simp [wait] at hop
  · simp [ready] at asleep

/-- What a step does to the sum of the ranks. The thread that takes it goes from one rank
to another. A thread that is roused rises by at most `rise`, and every other one drifts
with the words by at most its `drift`. -/
theorem Step.total_le (step : Step M s e s') (rank rank' : T → Status A L → ℕ) (rise : ℕ)
    (drift : T → ℕ)
    (drifts : ∀ u, u ≠ e.thread → rank' u (s.thread u) ≤ rank u (s.thread u) + drift u)
    (rises : ∀ u ∈ e.access.woken, ∀ a l, s.thread u = .asleep a l →
      rank' u (.ready l) ≤ rank' u (.asleep a l) + rise)
    (starts : ∀ u l, e.access = .create u → rank' u (.ready l) ≤ rank' u (.unborn l)) :
    s'.total rank' + rank e.thread (s.thread e.thread) ≤
      s.total rank + rank' e.thread (s'.thread e.thread) + rise * e.access.woken.card +
        ∑ u, drift u := by
  have other : ∀ u ∈ Finset.univ.erase e.thread, rank' u (s'.thread u) ≤
      rank u (s.thread u) + drift u + if u ∈ e.access.woken then rise else 0 := by
    intro u member
    have ne : u ≠ e.thread := Finset.ne_of_mem_erase member
    have drifted := drifts u ne
    rcases step.other ne with same | ⟨a, n, woken, l, shown, roused, before, after⟩ |
      ⟨l, created, before, after⟩
    · rw [same]
      omega
    · have member : u ∈ e.access.woken := by rw [shown]; exact roused
      have risen := rises u member a l before
      rw [before] at drifted
      rw [after, before, if_pos member]
      omega
    · have started := starts u l created
      rw [before] at drifted
      rw [after, before]
      omega
  have sum := Finset.sum_le_sum other
  have roused : ∑ u ∈ Finset.univ.erase e.thread, (if u ∈ e.access.woken then rise else 0) ≤
      rise * e.access.woken.card := by
    calc ∑ u ∈ Finset.univ.erase e.thread, (if u ∈ e.access.woken then rise else 0)
        ≤ ∑ u, if u ∈ e.access.woken then rise else 0 :=
          Finset.sum_le_sum_of_subset (Finset.subset_univ _)
      _ = rise * e.access.woken.card := by
          rw [Finset.sum_ite_mem, Finset.univ_inter, Finset.sum_const, smul_eq_mul, mul_comm]
  have drifted : ∑ u ∈ Finset.univ.erase e.thread, drift u ≤ ∑ u, drift u :=
    Finset.sum_le_sum_of_subset (Finset.subset_univ _)
  rw [Finset.sum_add_distrib, Finset.sum_add_distrib] at sum
  have after := Finset.add_sum_erase Finset.univ (fun u => rank' u (s'.thread u))
    (Finset.mem_univ e.thread)
  have before := Finset.add_sum_erase Finset.univ (fun u => rank u (s.thread u))
    (Finset.mem_univ e.thread)
  unfold State.total
  omega

/-- Ranks that depend only on the control point change by what the thread that moves
does. -/
theorem Step.total_loc (step : Step M s e s') (f : L → ℕ) :
    s'.total (fun _ x => f x.loc) + f (s.loc e.thread) =
      s.total (fun _ x => f x.loc) + f (s'.loc e.thread) := by
  exact Finset.sum_add_of_others e.thread fun u other => congrArg f (Step.loc_other step other)

end Semantics

end FutexMachine
