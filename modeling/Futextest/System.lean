import Mathlib.Data.List.Basic
import Mathlib.Logic.Relation

/-!
# Labelled transition systems

A system is a set of initial states and a step relation whose steps carry
labels. A run records the labels of its steps in order, so that a property of a
run can speak about the whole past and not only about the state it ends in.

## Main definitions

* `System.Run` — a run from an initial state, with its labels in order
* `System.Invariant` — a property of states that holds initially and that every
  step from a reachable state keeps
* `System.restrict` — the runs whose steps all meet a condition
* `System.Later` — some steps lead from one state to another
* `System.execAll` — the run that a list of choices determines
* `Simulation` — each step of one system is a step of another or a stutter

## Main results

* `System.Run.induction` — a property of labels and state that holds initially
  and survives every step holds at the end of every run
* `Simulation.exists_run` — the abstract system runs along, and its labels are
  the observable part of the concrete ones
-/

universe u v w u' v'

/-- A transition system whose steps carry labels. -/
structure System (σ : Type u) (α : Type v) where
  /-- The states a run may start in. -/
  init : σ → Prop
  /-- `step s a t`: the system moves from `s` to `t` and the label `a` is seen. -/
  step : σ → α → σ → Prop

namespace System

variable {σ : Type u} {α : Type v} (S : System σ α)

/-- `S.Run w s`: some run of `S` with the labels `w`, in order, ends in `s`. -/
inductive Run : List α → σ → Prop
  | start {s : σ} (initial : S.init s) : Run [] s
  | next {w : List α} {s t : σ} {a : α} (before : Run w s) (move : S.step s a t) :
      Run (w ++ [a]) t

/-- A state in which some run ends. -/
def Reachable (s : σ) : Prop := ∃ w, S.Run w s

variable {S} {w : List α} {s t : σ} {a : α}

theorem Run.reachable (run : S.Run w s) : S.Reachable s := ⟨w, run⟩

theorem Reachable.next (reach : S.Reachable s) (move : S.step s a t) : S.Reachable t := by
  obtain ⟨w, run⟩ := reach
  exact ⟨w ++ [a], run.next move⟩

/-- The induction rule for runs: a step may use that it starts at the end of a
run. -/
theorem Run.induction {P : List α → σ → Prop} (initial : ∀ s, S.init s → P [] s)
    (step : ∀ w s a t, S.Run w s → P w s → S.step s a t → P (w ++ [a]) t)
    (run : S.Run w s) : P w s := by
  induction run with
  | start first => exact initial _ first
  | next before move ih => exact step _ _ _ _ before ih move

variable (S)

/-- A property of states that holds initially and that every step from a
reachable state keeps. -/
structure Invariant (I : σ → Prop) : Prop where
  initial : ∀ s, S.init s → I s
  step : ∀ s a t, S.Reachable s → I s → S.step s a t → I t

variable {S}

/-- An invariant holds at the end of every run. -/
theorem Invariant.of_reachable {I : σ → Prop} (inv : S.Invariant I) (reach : S.Reachable s) :
    I s := by
  obtain ⟨w, run⟩ := reach
  exact run.induction (P := fun _ s => I s) inv.initial
    fun _ _ _ _ before held move => inv.step _ _ _ before.reachable held move

/-- The runs of a system are runs of one that can do more. -/
theorem Run.mono {S' : System σ α} (run : S.Run w s) (initial : ∀ s, S.init s → S'.init s)
    (more : ∀ s a t, S.step s a t → S'.step s a t) : S'.Run w s := by
  induction run with
  | start first => exact .start (initial _ first)
  | next _ move sofar => exact sofar.next (more _ _ _ move)

/-- The runs of `S` in which every step is taken under the condition `P`. -/
def restrict (S : System σ α) (P : σ → α → Prop) : System σ α where
  init := S.init
  step s a t := S.step s a t ∧ P s a

@[simp] theorem restrict_step {P : σ → α → Prop} :
    (S.restrict P).step s a t ↔ S.step s a t ∧ P s a := Iff.rfl

/-- A run under a condition is a run. -/
theorem Run.of_restrict {P : σ → α → Prop} (run : (S.restrict P).Run w s) : S.Run w s := by
  induction run with
  | start first => exact .start first
  | next _ move sofar => exact sofar.next (restrict_step.mp move).1

theorem Reachable.of_restrict {P : σ → α → Prop} (reach : (S.restrict P).Reachable s) :
    S.Reachable s := by
  obtain ⟨w, run⟩ := reach
  exact run.of_restrict.reachable

/-- A condition that every step from a reachable state meets restricts nothing. -/
theorem Run.restrict {P : σ → α → Prop}
    (always : ∀ s a t, S.Reachable s → S.step s a t → P s a) (run : S.Run w s) :
    (S.restrict P).Run w s := by
  induction run with
  | start first => exact .start first
  | next before move sofar =>
    exact sofar.next (restrict_step.mpr ⟨move, always _ _ _ before.reachable move⟩)

/-- Some steps lead from one state to the other. -/
def Later (S : System σ α) : σ → σ → Prop :=
  Relation.ReflTransGen fun s t => ∃ a, S.step s a t

/-- What steps from reachable states keep holds in all later states. -/
theorem Later.keeps {I : σ → Prop} (later : S.Later s t) (reach : S.Reachable s)
    (step : ∀ s a t, S.Reachable s → I s → S.step s a t → I t) (now : I s) :
    S.Reachable t ∧ I t := by
  induction later with
  | refl => exact ⟨reach, now⟩
  | tail _ move ih =>
    obtain ⟨a, move⟩ := move
    exact ⟨ih.1.next move, step _ a _ ih.1 ih.2 move⟩

/-- Steps from the end of a run continue it. -/
theorem Run.exists_append (run : S.Run w s) (later : S.Later s t) : ∃ w', S.Run (w ++ w') t := by
  induction later with
  | refl => exact ⟨[], by simpa using run⟩
  | tail _ move ih =>
    obtain ⟨w', sofar⟩ := ih
    obtain ⟨a, move⟩ := move
    exact ⟨w' ++ [a], by simpa using sofar.next move⟩

/-! ## Runs by evaluation

Where a function computes the step that a scheduler's choice determines, a list
of choices determines a run, and what holds at its end can be evaluated. -/

section Execution

variable {κ : Type w} (exec : σ → κ → Option (α × σ))

/-- The steps under the given choices, one after the other. -/
def execAll (s : σ) : List κ → Option (List α × σ)
  | [] => some ([], s)
  | c :: cs => (exec s c).bind fun x => (execAll x.2 cs).map fun y => (x.1 :: y.1, y.2)

variable {exec}

/-- Steps taken one after the other continue a run. -/
theorem Run.execAll (sound : ∀ s c a t, exec s c = some (a, t) → S.step s a t)
    {w w' : List α} {s t : σ} {cs : List κ} (run : S.Run w s)
    (done : execAll exec s cs = some (w', t)) : S.Run (w ++ w') t := by
  induction cs generalizing w w' s with
  | nil =>
    simp only [System.execAll, Option.some.injEq, Prod.mk.injEq] at done
    obtain ⟨rfl, rfl⟩ := done
    simpa using run
  | cons c cs ih =>
    simp only [System.execAll, Option.bind_eq_some_iff, Option.map_eq_some_iff,
      Prod.mk.injEq] at done
    obtain ⟨⟨a, s₁⟩, first, ⟨w₂, s₂⟩, rest, rfl, rfl⟩ := done
    have extended := run.next (sound _ _ _ _ first)
    simpa using ih extended rest

/-- What can be evaluated under a condition is taken under it. -/
theorem restrict_sound (sound : ∀ s c a t, exec s c = some (a, t) → S.step s a t)
    (C : σ → α → Prop) [∀ s a, Decidable (C s a)] (s : σ) (c : κ) (a : α) (t : σ)
    (taken : ((exec s c).filter fun x => C s x.1) = some (a, t)) : (S.restrict C).step s a t := by
  obtain ⟨done, met⟩ := Option.filter_eq_some_iff.mp taken
  exact ⟨sound s c a t done, by simpa using met⟩

/-- A run goes on with given choices, and evaluation shows where it comes to. -/
theorem Run.exists_execAll (sound : ∀ s c a t, exec s c = some (a, t) → S.step s a t)
    (run : S.Run w s) (cs : List κ) (P : σ → Prop) [∀ s, Decidable (P s)]
    (check : (System.execAll exec s cs).any (fun x => P x.2) = true) :
    ∃ w' t, S.Run (w ++ w') t ∧ P t := by
  obtain ⟨⟨w', t⟩, done, holds⟩ := (Option.any_eq_true _ _).mp check
  exact ⟨w', t, run.execAll sound done, by simpa using holds⟩

/-- A run with given choices, and what evaluation shows of it. -/
theorem exists_run (sound : ∀ s c a t, exec s c = some (a, t) → S.step s a t) {start : σ}
    (initial : S.init start) (cs : List κ) (P : List α → σ → Prop) [∀ w s, Decidable (P w s)]
    (check : (execAll exec start cs).any (fun x => P x.1 x.2) = true) :
    ∃ w s, S.Run w s ∧ P w s := by
  obtain ⟨⟨w, s⟩, done, holds⟩ := (Option.any_eq_true _ _).mp check
  have run := (Run.start initial).execAll sound done
  exact ⟨w, s, by simpa using run, by simpa using holds⟩

/-- The same for runs under a condition that can be evaluated. -/
theorem exists_run_restrict (sound : ∀ s c a t, exec s c = some (a, t) → S.step s a t) {start : σ}
    (initial : S.init start) (C : σ → α → Prop) [∀ s a, Decidable (C s a)] (cs : List κ)
    (P : List α → σ → Prop) [∀ w s, Decidable (P w s)]
    (check : (execAll (fun s c => (exec s c).filter fun x => C s x.1) start cs).any
      (fun x => P x.1 x.2) = true) :
    ∃ w s, (S.restrict C).Run w s ∧ P w s :=
  exists_run (restrict_sound sound C) initial cs P check

end Execution

end System

/-! ## Simulation

The abstract state follows the concrete one through a relation. A step whose
label is not observable leaves the abstract state where it is; an observable
label is a step of the abstract system. -/

/-- Every run of `S`, seen through `obs`, is matched step by step in `A`. A step
may use that it starts in a reachable state of `S`. -/
structure Simulation {σ : Type u} {α : Type v} {τ : Type u'} {β : Type v'}
    (S : System σ α) (A : System τ β) (obs : α → Option β) (R : σ → τ → Prop) : Prop where
  initial : ∀ s, S.init s → ∃ u, A.init u ∧ R s u
  step : ∀ s a t u, S.Reachable s → R s u → S.step s a t →
    (obs a = none ∧ R t u) ∨ ∃ b u', obs a = some b ∧ A.step u b u' ∧ R t u'

namespace Simulation

variable {σ : Type u} {α : Type v} {τ : Type u'} {β : Type v'}
variable {S : System σ α} {A : System τ β} {obs : α → Option β} {R : σ → τ → Prop}

/-- The abstract system runs along, and its labels are the observable part of
the concrete ones. -/
theorem exists_run (sim : Simulation S A obs R) {w : List α} {s : σ} (run : S.Run w s) :
    ∃ u, A.Run (w.filterMap obs) u ∧ R s u := by
  refine run.induction (P := fun w s => ∃ u, A.Run (w.filterMap obs) u ∧ R s u) ?_ ?_
  · intro s first
    obtain ⟨u, hu, hR⟩ := sim.initial s first
    exact ⟨u, .start hu, hR⟩
  · rintro w s a t before ⟨u, hu, hR⟩ move
    rcases sim.step s a t u before.reachable hR move with ⟨hobs, hR'⟩ | ⟨b, u', hobs, hb, hR'⟩
    · exact ⟨u, by simpa [hobs] using hu, hR'⟩
    · exact ⟨u', by simpa [hobs] using hu.next hb, hR'⟩

end Simulation
