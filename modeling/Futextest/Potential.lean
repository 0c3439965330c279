import Mathlib.Algebra.BigOperators.Group.Finset.Basic
import Mathlib.Algebra.BigOperators.Group.List.Basic
import Mathlib.Algebra.GroupWithZero.Nat
import Mathlib.Algebra.Order.Group.Nat
import Futextest.System

/-!
# Potentials

How long a run can be. A potential is a number for each state, and each step is paid
for: it costs something, it may bring in something, and the potential covers the
difference. Then the costs of a whole run are covered by the potential it started with
and by what its steps brought in. A step that costs nothing may be taken any number of
times, so a bound is always one on the other steps.

## Main definitions

* `System.Potential` — a potential that pays for every step from a reachable state
* `System.Balance` — one that pays exactly
* `System.Stuck` — no step that counts can be taken
* `System.Bounded` — how many steps that count a run can have

## Main results

* `Potential.run_le` — the costs of a run are covered
* `Potential.count_le` — the same for steps that are counted
* `Balance.run_eq` — what a run has cost is what it has brought in and used up
* `Bounded.exists_later_stuck` — a run that is bounded can be continued until no step that
  counts is left
-/

universe u v

/-- Where only one summand changes, the sum changes as it does. -/
theorem Finset.sum_add_of_others {ι N : Type*} [Fintype ι] [DecidableEq ι] [AddCommMonoid N]
    {f g : ι → N} (i : ι) (others : ∀ j, j ≠ i → g j = f j) :
    ∑ j, g j + f i = ∑ j, f j + g i := by
  have rest : ∑ j ∈ Finset.univ.erase i, g j = ∑ j ∈ Finset.univ.erase i, f j :=
    Finset.sum_congr rfl fun j member => others j (Finset.ne_of_mem_erase member)
  calc ∑ j, g j + f i
    _ = g i + ∑ j ∈ Finset.univ.erase i, g j + f i := by
      rw [Finset.add_sum_erase _ g (Finset.mem_univ i)]
    _ = f i + ∑ j ∈ Finset.univ.erase i, f j + g i := by
      rw [rest, add_right_comm, add_comm (g i), add_right_comm]
    _ = ∑ j, f j + g i := by rw [Finset.add_sum_erase _ f (Finset.mem_univ i)]

namespace System

variable {σ : Type u} {α : Type v} {S : System σ α} {μ : σ → ℕ} {cost gain : α → ℕ}
variable {w : List α} {s t : σ}

/-- Every step from a reachable state is paid for: by the potential that it takes away
and by what it brings in. -/
structure Potential (S : System σ α) (μ : σ → ℕ) (cost gain : α → ℕ) : Prop where
  pays : ∀ s a t, S.Reachable s → S.step s a t → μ t + cost a ≤ μ s + gain a

/-- The costs of a run are covered by the potential it starts with and by what its steps
bring in. -/
theorem Potential.run_le (pot : Potential S μ cost gain) {bound : ℕ}
    (initial : ∀ s, S.init s → μ s ≤ bound) (run : S.Run w s) :
    (w.map cost).sum + μ s ≤ bound + (w.map gain).sum := by
  induction run with
  | start first => simpa using initial _ first
  | next before move ih =>
    have paid := pot.pays _ _ _ before.reachable move
    simp only [List.map_append, List.map_cons, List.map_nil, List.sum_append, List.sum_cons,
      List.sum_nil]
    omega

/-- A price for each element that is counted. -/
theorem sum_map_ite (p : α → Bool) (c : ℕ) (w : List α) :
    (w.map fun a => if p a then c else 0).sum = c * w.countP p := by
  induction w with
  | nil => simp
  | cons a w ih =>
    rw [List.map_cons, List.sum_cons, ih, List.countP_cons]
    by_cases hp : p a = true
    · rw [if_pos hp, if_pos hp, Nat.mul_succ, Nat.add_comm]
    · rw [if_neg hp, if_neg hp, Nat.zero_add, Nat.add_zero]

/-- The same for steps that are counted: those that cost are at most as many as the
potential pays for, if every step that brings in something brings in at most `c`. -/
theorem Potential.count_le {p q : α → Bool} {c : ℕ}
    (pot : Potential S μ (fun a => if p a then 1 else 0) fun a => if q a then c else 0)
    {bound : ℕ} (initial : ∀ s, S.init s → μ s ≤ bound) (run : S.Run w s) :
    w.countP p + μ s ≤ bound + c * w.countP q := by
  have covered := pot.run_le initial run
  rwa [sum_map_ite, sum_map_ite, one_mul] at covered

/-- Every step from a reachable state is paid for exactly. -/
structure Balance (S : System σ α) (μ : σ → ℕ) (cost gain : α → ℕ) : Prop where
  pays : ∀ s a t, S.Reachable s → S.step s a t → μ t + cost a = μ s + gain a

/-- What the steps of a run cost is what they bring in and what they use up of the
balance that the run started with. -/
theorem Balance.run_eq (bal : Balance S μ cost gain) (start : ℕ)
    (initial : ∀ s, S.init s → μ s = start) (run : S.Run w s) :
    (w.map cost).sum + μ s = start + (w.map gain).sum := by
  induction run with
  | start first => simpa using initial _ first
  | next before move ih =>
    have paid := bal.pays _ _ _ before.reachable move
    simp only [List.map_append, List.map_cons, List.map_nil, List.sum_append, List.sum_cons,
      List.sum_nil]
    omega

/-- The same for steps that are counted. -/
theorem Balance.count_eq {p q : α → Bool}
    (bal : Balance S μ (fun a => if p a then 1 else 0) fun a => if q a then 1 else 0)
    (start : ℕ) (initial : ∀ s, S.init s → μ s = start) (run : S.Run w s) :
    w.countP p + μ s = start + w.countP q := by
  have exact := bal.run_eq start initial run
  rwa [sum_map_ite, sum_map_ite, one_mul, one_mul] at exact

/-- No step that counts can be taken. -/
def Stuck (S : System σ α) (counts : α → Bool) (s : σ) : Prop :=
  ∀ a t, S.step s a t → counts a = false

/-- Runs are bounded as far as certain steps go: there are at most `bound` of them, and
`c` more for each other step. -/
def Bounded (S : System σ α) (counts : α → Bool) (bound c : ℕ) : Prop :=
  ∀ w s, S.Run w s → w.countP counts ≤ bound + c * w.countP fun a => !counts a

/-- A potential that pays one for each step that counts bounds the runs. -/
theorem Potential.bounded {counts : α → Bool} {bound c : ℕ}
    (pot : Potential S μ (fun a => if counts a then 1 else 0) fun a => if counts a then 0 else c)
    (initial : ∀ s, S.init s → μ s ≤ bound) : S.Bounded counts bound c := by
  intro w s run
  have gain : (fun a => if counts a then 0 else c) = fun a => if !counts a then c else 0 := by
    funext a
    cases counts a <;> rfl
  rw [gain] at pot
  have counted := pot.count_le initial run
  omega

theorem Bounded.count_le {p : α → Bool} {bound c : ℕ} (bounded : S.Bounded (fun a => !p a) bound c)
    (run : S.Run w s) : w.countP (fun a => !p a) ≤ bound + c * w.countP p := by
  simpa only [Bool.not_not] using bounded w s run

/-- Where all runs are bounded, fewer kinds of steps are bounded by the same number, and by
any larger one. -/
theorem Bounded.mono {counts counts' : α → Bool} {bound bound' : ℕ}
    (bounded : S.Bounded counts bound 0) (fewer : ∀ a, counts' a = true → counts a = true)
    (le : bound ≤ bound') : S.Bounded counts' bound' 0 := by
  intro w s run
  have most := bounded w s run
  have less := List.countP_mono_left (l := w) fun a _ => fewer a
  omega

/-- If runs are bounded, each of them goes on by steps that count to a state in which none is
left. -/
theorem Bounded.exists_later_stuck {counts : α → Bool} {bound c : ℕ}
    (bounded : S.Bounded counts bound c) (run : S.Run w s) :
    ∃ w' t, S.Run (w ++ w') t ∧ S.Later s t ∧ (∀ a ∈ w', counts a = true) ∧
      S.Stuck counts t := by
  -- induction on how many more such steps the bound allows
  induction left : bound + c * (w.countP fun a => !counts a) - w.countP counts using
    Nat.strong_induction_on generalizing w s with
  | _ n ih =>
    by_cases stuck : S.Stuck counts s
    · exact ⟨[], s, by simpa using run, .refl, by simp, stuck⟩
    · unfold Stuck at stuck
      push Not at stuck
      obtain ⟨a, t, move, counted⟩ := stuck
      have counted : counts a = true := by simpa using counted
      have next := run.next move
      have most := bounded _ _ next
      have once : (w ++ [a]).countP counts = w.countP counts + 1 := by
        simp [List.countP_append, counted]
      have others : ((w ++ [a]).countP fun a => !counts a) = w.countP fun a => !counts a := by
        simp [List.countP_append, counted]
      rw [once, others] at most
      obtain ⟨w', u, further, later, all, stuck⟩ := ih _ (by rw [once, others]; omega) next rfl
      refine ⟨a :: w', u, by simpa using further, .head ⟨a, move⟩ later, ?_, stuck⟩
      intro b member
      rcases List.mem_cons.mp member with rfl | later
      · exact counted
      · exact all b later

/-- So each of them can be continued by such steps until none is left. -/
theorem Bounded.exists_stuck {counts : α → Bool} {bound c : ℕ} (bounded : S.Bounded counts bound c)
    (run : S.Run w s) :
    ∃ w' t, S.Run (w ++ w') t ∧ (∀ a ∈ w', counts a = true) ∧ S.Stuck counts t := by
  obtain ⟨w', t, further, -, counted, stuck⟩ := bounded.exists_later_stuck run
  exact ⟨w', t, further, counted, stuck⟩

end System
