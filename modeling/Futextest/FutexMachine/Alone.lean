import Futextest.FutexMachine

/-!
# A thread that is left alone

While one thread runs and the others stand still, its accesses and the words follow from its
program alone, up to the next instruction that needs the kernel. A run of the machine can be
put together from such stretches, with the sleeps and the wakes between them.

## Main definitions

* `alone` — the words and the control point after some instructions of one thread

## Main results

* `exists_run_alone` — the machine has a run in which the thread executes them
* `exists_sleep`, `exists_wake` — it can go to sleep on a word, and wake a chosen sleeper
-/

namespace FutexMachine

variable {A T L : Type}

/-- Whether the instruction has to do with the words only. -/
def Instr.silent : Instr A L → Bool
  | .wait _ _ _ | .wake _ _ _ => false
  | _ => true

/-- Whether the access is one to the words only. -/
def Access.silent : Access A T → Bool
  | .tau | .load _ _ | .store _ _ | .cmpxchg _ _ _ _ | .dec _ _ => true
  | _ => false

section Semantics

variable [DecidableEq A] [DecidableEq T] [Fintype T] {M : Program A T L} {s : State A T L}
  {start : State A T L} {w : List (Event A T L)} {t : T}

/-- The words and the control point after `n` instructions of a thread that have to do with
the words only. -/
def alone (M : Program A T L) (t : T) : ℕ → (A → UInt32) → L → Option ((A → UInt32) × L)
  | 0, mem, l => some (mem, l)
  | n + 1, mem, l =>
    match M t l with
    | .instr i => if i.silent then alone M t n (i.effect mem).1 (i.effect mem).2 else none
    | _ => none

/-- A thread executes such an instruction whenever it is awake. -/
theorem exists_silent {l : L} {i : Instr A L} (ready : s.thread t = .ready l)
    (op : M t l = .instr i) (silent : i.silent = true) :
    ∃ access s', Step M s ⟨t, l, access⟩ s' ∧ access.silent = true ∧
      s'.mem = (i.effect s.mem).1 ∧
      s'.thread = Function.update s.thread t (.ready (i.effect s.mem).2) := by
  have runs : ∀ access s', i.perform s t ∅ = some (access, s') → Step M s ⟨t, l, access⟩ s' := by
    intro access s' performed
    have now : (M t l).perform M s t ∅ = some (access, s') := by
      rw [op]
      exact performed
    exact .run ready now
  cases i with
  | wait a v k | wake a n k => cases silent
  | cmpxchg a old new k =>
    refine ⟨_, _, runs _ _ rfl, rfl, ?_, ?_⟩
    · by_cases same : s.mem a = old <;> simp [same]
    · by_cases same : s.mem a = old <;> simp [same, State.goto]
  | _ => exact ⟨_, _, runs _ _ rfl, rfl, rfl, rfl⟩

/-- **A stretch of one thread.** If nobody else moves, the thread executes its instructions. -/
theorem exists_run_alone {n : ℕ} {l l' : L} {mem' : A → UInt32}
    (run : (machine M start).Run w s) (ready : s.thread t = .ready l)
    (done : alone M t n s.mem l = some (mem', l')) :
    ∃ w' s', (machine M start).Run (w ++ w') s' ∧ (∀ e ∈ w', e.access.silent = true) ∧
      s'.mem = mem' ∧ s'.thread = Function.update s.thread t (.ready l') := by
  induction n generalizing w s l with
  | zero =>
    obtain ⟨rfl, rfl⟩ := Prod.mk.inj (Option.some.inj done)
    refine ⟨[], s, by simpa using run, by simp, rfl, ?_⟩
    rw [← ready, Function.update_eq_self]
  | succ n ih =>
    rw [alone] at done
    split at done
    · rename_i i op
      split_ifs at done with silent
      obtain ⟨access, s₁, step, quiet, mem, thread⟩ := exists_silent ready op silent
      have ready₁ : s₁.thread t = .ready (i.effect s.mem).2 := by
        rw [thread, Function.update_self]
      obtain ⟨w', s', further, quiet', mem', thread'⟩ :=
        ih (run.next step) ready₁ (by rw [mem]; exact done)
      refine ⟨⟨t, l, access⟩ :: w', s', ?_, ?_, mem', ?_⟩
      · simpa using further
      · intro e member
        rcases List.mem_cons.mp member with rfl | later
        · exact quiet
        · exact quiet' e later
      · rw [thread', thread, Function.update_idem]
    · cases done

/-- A thread that waits on a word with the value it expects goes to sleep. -/
theorem exists_sleep {l k : L} {a : A} {v : UInt32} (ready : s.thread t = .ready l)
    (op : M t l = .instr (.wait a v k)) (same : s.mem a = v) :
    ∃ s', Step M s ⟨t, l, .wait a v true⟩ s' ∧ s'.mem = s.mem ∧
      s'.thread = Function.update s.thread t (.asleep a k) := by
  have performed : (M t l).perform M s t ∅ = some (.wait a v true, s.sleep t a k) := by
    rw [op]
    exact if_pos same
  exact ⟨_, .run ready performed, rfl, rfl⟩

/-- A thread that wakes one sleeper can wake any one of them. -/
theorem exists_wake {u : T} {l k lu : L} {a : A} (ready : s.thread t = .ready l)
    (op : M t l = .instr (.wake a 1 k)) (asleep : s.thread u = .asleep a lu) :
    ∃ s', Step M s ⟨t, l, .wake a 1 {u}⟩ s' ∧ s'.mem = s.mem ∧
      s'.thread = Function.update (Function.update s.thread u (.ready lu)) t (.ready k) := by
  have member : u ∈ s.sleepers a := (State.mem_sleepers s).mpr ⟨lu, asleep⟩
  have found : 1 ≤ (s.sleepers a).card := Finset.card_pos.mpr ⟨u, member⟩
  have choice : {u} ⊆ s.sleepers a ∧ ({u} : Finset T).card = min 1 (s.sleepers a).card := by
    refine ⟨Finset.singleton_subset_iff.mpr member, ?_⟩
    rw [Finset.card_singleton, min_eq_left found]
  have performed : (M t l).perform M s t {u} =
      some (.wake a 1 {u}, (s.rouse {u}).goto t k) := by
    rw [op]
    exact if_pos choice
  have roused : (s.rouse {u}).thread = Function.update s.thread u (.ready lu) := by
    funext v
    by_cases here : v = u
    · subst here
      simp [State.rouse_thread, asleep]
    · simp [State.rouse_thread, here]
  refine ⟨_, .run ready performed, rfl, ?_⟩
  change Function.update (s.rouse {u}).thread t (.ready k) = _
  rw [roused]

end Semantics

end FutexMachine
