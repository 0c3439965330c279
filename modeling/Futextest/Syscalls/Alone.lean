import Futextest.FunctionalTest

/-!
# One thread, whatever the others do

The runs of one thread when nothing is known of the others but that they leave some cells
to it: before each of its operations they may have written anything to all other cells.
What holds in these runs holds in those of any machine in which the others keep to that.

## Main definitions

* `Syscalls.Local`, `LocalStep`, `alone` — a thread among others that do anything
* `observe` — the events that this thread has a part in

## Main results

* `exists_localStep` — a thread goes on whatever it reads and its calls return
* `alone_simulation`, `Run.alone` — a run of all threads, seen by one of them
-/

namespace Syscalls

variable {A C T L K : Type}

/-- Where the thread is, and the cells after its last operation. -/
structure Local (A L : Type) where
  pc : L
  mem : A → ℤ

section Alone

variable [DecidableEq A]

/-- One operation of thread `t`. The others may have changed the cells before it, but not
those that it owns. -/
inductive LocalStep (M : Program A C T L) (t : T) (own : A → Prop) (s : Local A L) :
    Event A C T L → Local A L → Prop
  | next {mem mem' : A → ℤ} {loc : T → L} {access : Access A C T} {l : L}
      (kept : ∀ a, own a → mem a = s.mem a)
      (next : (M t s.pc).Next M mem loc access mem' l) :
      LocalStep M t own s ⟨t, s.pc, access⟩ ⟨l, mem'⟩

/-- Thread `t` from its start. -/
def alone (M : Program A C T L) (start : State A T L K) (t : T) (own : A → Prop) :
    System (Local A L) (Event A C T L) where
  init s := s.pc = start.loc t ∧ ∀ a, own a → s.mem a = start.mem a
  step := LocalStep M t own

variable {M : Program A C T L} {t : T} {own : A → Prop} {s : Local A L}

/-- The thread goes on, whatever it reads in the cells of the others and whatever its calls
return. -/
theorem exists_localStep (own : A → Prop) (reads : A → ℤ) (gets : C → SysResult)
    (goes : (M t s.pc).isLocal = true ∨ ∃ c k, M t s.pc = .call c k) :
    ∃ e s', LocalStep M t own s e s' ∧
      (∀ a v, e.access = .load a v → own a ∨ v = reads a) ∧
      ∀ c r, e.access = .leave c r → r = gets c := by
  have steps : ∀ {access mem' l}, (M t s.pc).Next M s.mem (fun _ => s.pc) access mem' l →
      LocalStep M t own s ⟨t, s.pc, access⟩ ⟨l, mem'⟩ := fun next => .next (fun _ _ => rfl) next
  generalize op : M t s.pc = o at goes steps
  cases o with
  | tau k => exact ⟨_, _, steps (.tau k), nofun, nofun⟩
  | load a k =>
    by_cases owned : own a
    · refine ⟨_, _, steps (.load a k), ?_, nofun⟩
      rintro b v same
      cases same
      exact .inl owned
    · -- the others have just written what it reads
      have next : (M t s.pc).Next M (Function.update s.mem a (reads a)) (fun _ => s.pc)
          (.load a (Function.update s.mem a (reads a) a)) (Function.update s.mem a (reads a))
          (k (Function.update s.mem a (reads a) a)) := by
        rw [op]
        exact .load a k
      rw [Function.update_self] at next
      refine ⟨_, _, .next ?_ next, ?_, nofun⟩
      · rintro b mine
        refine Function.update_of_ne ?_ _ _
        rintro rfl
        exact owned mine
      · rintro b v same
        cases same
        exact .inr rfl
  | store a v k => exact ⟨_, _, steps (.store a v k), nofun, nofun⟩
  | inc a k => exact ⟨_, _, steps (.inc a k), nofun, nofun⟩
  | call c k =>
    refine ⟨_, _, steps (.leave c k (gets c)), nofun, ?_⟩
    rintro c' r same
    cases same
    rfl
  | create u k | join u k | quit | exit =>
    rcases goes with goes | ⟨c, k, same⟩
    · cases goes
    · cases same

end Alone

/-! ## A thread of a machine -/

/-- Whether a step leaves its thread where it is. -/
def Access.isSilent : Access A C T → Bool
  | .enter _ | .act => true
  | _ => false

theorem Op.Next.not_silent [DecidableEq A] {M : Program A C T L} {mem mem' : A → ℤ}
    {loc : T → L} {op : Op A C T L} {access : Access A C T} {l : L}
    (next : op.Next M mem loc access mem' l) : access.isSilent = false := by
  cases next <;> rfl

variable [DecidableEq T]

/-- The events in which thread `t` goes on. -/
def observe (t : T) (e : Event A C T L) : Option (Event A C T L) :=
  if e.thread = t ∧ e.access.isSilent = false then some e else none

/-- They are all that shows what the calls of the thread return. -/
theorem returned_bind_observe {t : T} {p : C → Bool} (e : Event A C T L) :
    (observe t e).bind (fun e => e.returned t p) = e.returned t p := by
  unfold observe
  split_ifs with mine
  · rfl
  · obtain ⟨u, pc, access⟩ := e
    by_cases same : u = t
    · have silent : access.isSilent = true := by
        by_contra loud
        exact mine ⟨same, Bool.eq_false_iff.mpr loud⟩
      cases access with
      | enter c => exact (returned_of_silent (.inr ⟨c, rfl⟩)).symm
      | act => exact (returned_of_silent (.inl rfl)).symm
      | _ => cases silent
    · exact (returned_of_ne same).symm

theorem returns_observe {t : T} {p : C → Bool} (w : List (Event A C T L)) :
    returns t p (w.filterMap (observe t)) = returns t p w := by
  unfold returns
  rw [List.filterMap_filterMap]
  exact List.filterMap_congr fun e _ => returned_bind_observe e

variable [DecidableEq A] {Q : Kernel A C T K} {M : Program A C T L} {start : State A T L K}
  {t : T} {own : A → Prop}

/-- A machine runs as one of its threads sees it, if the others write to no cell that this
thread owns. -/
theorem alone_simulation (others : ∀ u l a, u ≠ t → own a → (M u l).writes ≠ some a) :
    Simulation (machine Q M start) (alone M start t own) (observe t)
      (fun s c => c.pc = s.loc t ∧ ∀ a, own a → c.mem a = s.mem a) where
  initial := by
    rintro s rfl
    exact ⟨⟨s.loc t, s.mem⟩, ⟨rfl, fun _ _ => rfl⟩, rfl, fun _ _ => rfl⟩
  step := by
    rintro s e s' c - ⟨here, cells⟩ step
    have move := Step.move step
    generalize s'.mem = mem', s'.loc = loc' at move ⊢
    cases move with
    | enter u d k op => exact .inl ⟨if_neg (by simp [Access.isSilent]), here, cells⟩
    | act u => exact .inl ⟨if_neg (by simp [Access.isSilent]), here, cells⟩
    | @next u access mem' l next =>
      by_cases same : u = t
      · subst same
        refine .inr ⟨_, ⟨l, mem'⟩, if_pos ⟨rfl, next.not_silent⟩, ?_, ?_, fun _ _ => rfl⟩
        · rw [← here] at next ⊢
          exact .next (fun a mine => (cells a mine).symm) next
        · rw [Function.update_self]
      · refine .inl ⟨if_neg fun both => same both.1, ?_, ?_⟩
        · rw [here, Function.update_of_ne (Ne.symm same)]
        · intro a mine
          rw [cells a mine, next.frame (others u _ a same mine)]

/-- The run of one thread in a run of all. -/
theorem Run.alone (others : ∀ u l a, u ≠ t → own a → (M u l).writes ≠ some a)
    {w : List (Event A C T L)} {s : State A T L K} (run : (machine Q M start).Run w s) :
    ∃ c, (Syscalls.alone M start t own).Run (w.filterMap (observe t)) c ∧ c.pc = s.loc t ∧
      ∀ a, own a → c.mem a = s.mem a :=
  (alone_simulation others).exists_run run

end Syscalls
