import Futextest.Syscalls

/-!
# Two threads and a kernel

A program whose main thread creates one other thread. What its operations and those of the
kernel preserve, given where the two threads are, holds after every run: the rule below leaves
one obligation for each kind of step, with the thread that does not move already framed.

## Main definitions

* `Status.At` — where a thread is that has started
* `Runs` — it executes the operation there, or its call returns
* `Keeps` — what a step of main does to the other thread

## Main results

* `Run.pair_invariant` — the induction rule
-/

namespace Syscalls

variable {A C T L K : Type}

/-- The thread is at the control point, or inside of the call that it makes there. -/
def Status.At (l : L) : Status L → Prop
  | .ready l' | .calling l' => l' = l
  | .unborn _ => False

/-- The thread executes the operation at `l`: it is awake there, at no call, or its call
returns. -/
def Runs (M : Program A C T L) (t : T) (l : L) (access : Access A C T) (x : Status L) : Prop :=
  x = .ready l ∧ (∀ c k, M t l ≠ .call c k) ∨ x = .calling l ∧ ∃ c r, access = .leave c r

theorem Status.At.loc_eq {l : L} {x : Status L} (here : x.At l) : x.loc = l := by
  cases x with
  | unborn l' => exact here.elim
  | ready l' | calling l' => exact here

theorem Runs.at_eq {M : Program A C T L} {t : T} {l l' : L} {access : Access A C T} {x : Status L}
    (runs : Runs M t l access x) (here : x.At l') : l = l' := by
  rcases runs with ⟨rfl, -⟩ | ⟨rfl, -⟩ <;> exact here

/-- What a step of main does to the other thread: nothing, or it creates it. -/
def Keeps (u : T) (access : Access A C T) (y y' : Status L) : Prop :=
  access ≠ .create u ∧ y' = y ∨ access = .create u ∧ ∃ l, y = .unborn l ∧ y' = .ready l

/-- A step of main that is no creation leaves the other thread alone. -/
theorem Keeps.same {u : T} {access : Access A C T} {y y' : Status L} (keeps : Keeps u access y y')
    (no_create : access ≠ .create u) : y' = y := by
  rcases keeps with ⟨-, same⟩ | ⟨creates, -⟩
  · exact same
  · exact absurd creates no_create

section Semantics

variable [DecidableEq A] [DecidableEq T] {Q : Kernel A C T K} {M : Program A C T L}
  {start s : State A T L K} {w : List (Event A C T L)} {t u : T}

/-- **Two threads and a kernel.** What holds of the cells, both threads and the kernel at the
start, and after each kind of step if it held before, holds after every run. Main is awake at
the start and creates the other thread, which creates nobody. -/
theorem Run.pair_invariant (pair : ∀ v, v = t ∨ v = u) (ne : u ≠ t)
    (awake : ∀ l, start.thread t ≠ .unborn l)
    {P : List (Event A C T L) → (A → ℤ) → Status L → Status L → K → Prop}
    (initial : P [] start.mem (start.thread t) (start.thread u) start.kernel)
    (act : ∀ w mem x y κ v l κ', P w mem x y κ → Q.act κ v = some κ' →
      P (w ++ [⟨v, l, .act⟩]) mem x y κ')
    (enter : ∀ w mem y κ l c k κ', P w mem (.ready l) y κ → M t l = .call c k →
      Q.enter mem κ t c = some κ' → P (w ++ [⟨t, l, .enter c⟩]) mem (.calling l) y κ')
    (other_enter : ∀ w mem x κ l c k κ', P w mem x (.ready l) κ → M u l = .call c k →
      Q.enter mem κ u c = some κ' → P (w ++ [⟨u, l, .enter c⟩]) mem x (.calling l) κ')
    (next : ∀ w mem loc x y y' κ l access mem' l' κ', P w mem x y κ → Runs M t l access x →
      loc u = y.loc → (M t l).Next M mem loc access mem' l' → Q.Changes mem κ t access κ' →
      Keeps u access y y' → P (w ++ [⟨t, l, access⟩]) mem' (.ready l') y' κ')
    (other_next : ∀ w mem loc x y κ l access mem' l' κ', P w mem x y κ → Runs M u l access y →
      (M u l).Next M mem loc access mem' l' → Q.Changes mem κ u access κ' →
      P (w ++ [⟨u, l, access⟩]) mem' x (.ready l') κ')
    (run : (machine Q M start).Run w s) :
    P w s.mem (s.thread t) (s.thread u) s.kernel := by
  have both : (∀ l, s.thread t ≠ .unborn l) ∧ P w s.mem (s.thread t) (s.thread u) s.kernel := by
    induction run with
    | start first =>
      rw [show _ = start from first]
      exact ⟨awake, initial⟩
    | @next w s s' e before step ih =>
      obtain ⟨born, held⟩ := ih
      have own := Step.own step
      have changes := Step.changes step
      have others := fun v => Step.other step (u := v)
      obtain ⟨v, pc, access⟩ := e
      dsimp only at own changes others
      rcases pair v with rfl | rfl
      · -- main moves, and may create the other thread
        rcases own with ⟨rfl, same, mem⟩ | ⟨c, k, op, rfl, mem, ready, calling⟩ |
          ⟨l', goes, running, after⟩
        · rw [same, mem]
          exact ⟨born, act _ _ _ _ _ _ _ _ held changes⟩
        · rcases others u ne with ⟨-, same⟩ | ⟨creates, -⟩
          · rw [same, mem, calling]
            rw [ready] at held
            exact ⟨by simp, enter _ _ _ _ _ _ _ _ held op changes⟩
          · cases creates
        · rw [after]
          exact ⟨by simp, next _ _ _ _ _ _ _ _ _ _ _ _ held running rfl goes changes (others u ne)⟩
      · -- main stays where it is
        have stays : s'.thread t = s.thread t := by
          rcases others t (Ne.symm ne) with ⟨-, same⟩ | ⟨-, l, unborn, -⟩
          · exact same
          · exact absurd unborn (born l)
        rw [stays]
        refine ⟨born, ?_⟩
        rcases own with ⟨rfl, same, mem⟩ | ⟨c, k, op, rfl, mem, ready, calling⟩ |
          ⟨l', goes, running, after⟩
        · rw [same, mem]
          exact act _ _ _ _ _ _ _ _ held changes
        · rw [mem, calling]
          rw [ready] at held
          exact other_enter _ _ _ _ _ _ _ _ held op changes
        · rw [after]
          exact other_next _ _ _ _ _ _ _ _ _ _ _ held running goes changes
  exact both.2

end Semantics

end Syscalls
