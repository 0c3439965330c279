import Futextest.System

/-!
# The abstract mutex

What a lock is for: a token that is free or has one owner. A thread acquires it
when it is free, and only its owner releases it. A lock is correct when its
acquisitions and releases, in the order they happen, are a run of this system.

## Main definitions

* `Mutex.system` — the mutex, as a transition system on its owner
* `Mutex.Owns` — a thread has acquired and not yet released, read off a list of
  actions alone

## Main results

* `Mutex.owner_iff_owns` — in a run of the mutex the owner is the one thread
  that `Owns` says
* `Mutex.count_release` — releases and acquisitions of one thread
-/

namespace Mutex

variable {T : Type}

/-- What a thread does to the mutex. -/
inductive Action (T : Type)
  | acquire (t : T)
  | release (t : T)
  deriving DecidableEq

/-- The thread that acts. -/
def Action.actor : Action T → T
  | .acquire t => t
  | .release t => t

/-- The mutex is acquired when it is free and released by its owner. -/
inductive Step : Option T → Action T → Option T → Prop
  | acquire (t : T) : Step none (.acquire t) (some t)
  | release (t : T) : Step (some t) (.release t) none

/-- The mutex, initially free. -/
def system (T : Type) : System (Option T) (Action T) where
  init owner := owner = none
  step := Step

@[simp] theorem system_init {m : Option T} : (system T).init m ↔ m = none := Iff.rfl

@[simp] theorem system_step {m m' : Option T} {a : Action T} :
    (system T).step m a m' ↔ Step m a m' := Iff.rfl

variable [DecidableEq T]

/-- After the actions `w`, thread `t` owns the mutex: its last action is an
acquisition. -/
def Owns (w : List (Action T)) (t : T) : Prop :=
  (w.filter (·.actor = t)).getLast? = some (.acquire t)

instance (w : List (Action T)) (t : T) : Decidable (Owns w t) :=
  inferInstanceAs (Decidable (_ = _))

@[simp] theorem not_owns_nil (t : T) : ¬ Owns [] t := by
  simp [Owns]

@[simp] theorem owns_append_acquire (w : List (Action T)) (t u : T) :
    Owns (w ++ [.acquire u]) t ↔ u = t ∨ Owns w t := by
  by_cases h : u = t
  · subst h
    simp [Owns, Action.actor]
  · simp [Owns, Action.actor, h]

@[simp] theorem owns_append_release (w : List (Action T)) (t u : T) :
    Owns (w ++ [.release u]) t ↔ u ≠ t ∧ Owns w t := by
  by_cases h : u = t
  · subst h
    simp [Owns, Action.actor]
  · simp [Owns, Action.actor, h]

/-- In a run of the mutex the owner is the one thread whose last action is an
acquisition. -/
theorem owner_iff_owns {w : List (Action T)} {m : Option T} (run : (system T).Run w m) (t : T) :
    m = some t ↔ Owns w t := by
  induction run with
  | start first => simp [system_init.mp first]
  | next before move ih =>
    cases system_step.mp move with
    | acquire u => simp [← ih]
    | release u => simp [← ih]

/-- A thread has released the mutex as often as it has acquired it, but for once while
it owns it. -/
theorem count_release {w : List (Action T)} {m : Option T} (run : (system T).Run w m) (t : T) :
    w.count (.release t) + (if Owns w t then 1 else 0) = w.count (.acquire t) := by
  induction run with
  | start first => simp
  | next before move ih =>
    have owner := owner_iff_owns before t
    cases system_step.mp move with
    | acquire u =>
      simp only [reduceCtorEq, false_iff] at owner
      by_cases same : u = t
      · simp [same, owner] at ih ⊢
        omega
      · simp [same, owner] at ih ⊢
        omega
    | release u =>
      by_cases same : u = t
      · have owns : Owns _ t := owner.mp (by rw [same])
        simp [same, owns] at ih ⊢
        omega
      · have other : ¬ Owns _ t := fun owns => same (Option.some.inj (owner.mpr owns))
        simp [same, other] at ih ⊢
        omega

/-- No two threads own the mutex. -/
theorem owns_unique {w : List (Action T)} {m : Option T} (run : (system T).Run w m) {t u : T}
    (ht : Owns w t) (hu : Owns w u) : t = u := by
  have owner := (owner_iff_owns run t).mpr ht
  rw [(owner_iff_owns run u).mpr hu] at owner
  exact (Option.some.inj owner).symm

end Mutex
