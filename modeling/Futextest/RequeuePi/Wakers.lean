import Futextest.RequeuePi.Waiters

/-!
# The two wakers

Both wakers add the results of their requeues up in `task_count`. The sum is the
number of waiters that requeues have moved off `f1`: a requeue returns how many it
takes, and takes nobody twice, since a waiter that is past `f1` does not come back.

What the two functions have in common is a loop with a count. It ends by its test or
by an error, and a wake for the third party follows. Every statement of either
function is a step of that loop or leaves it where it is.

## Main definitions

* `moved` — the waiters that requeues have taken in the course of a run
* `Phase`, `Phase.Next` — the loop that both wakers are
* `Loc.In` — the phase a control point of a waker belongs to

## Main results

* `waker_leads` — the statements of the wakers follow the loop
* `waker_phase` — the count of the loop is the number of moved waiters
-/

namespace RequeuePi

open PiFutex UnitTest

variable {u : UnitTest} {w : List RunEvent} {s s' : RunState} {e : RunEvent}

/-! ## The moved waiters -/

/-- The waiters that requeues have moved off `f1`. -/
def moved (w : List RunEvent) : Finset (Fin threadMax) :=
  Finset.univ.filter fun i => ∃ e ∈ w, .waiter i ∈ e.access.taken

@[simp] theorem mem_moved {i : Fin threadMax} :
    i ∈ moved w ↔ ∃ e ∈ w, .waiter i ∈ e.access.taken := by
  simp [moved]

theorem mem_moved_append {i : Fin threadMax} :
    i ∈ moved (w ++ [e]) ↔ i ∈ moved w ∨ .waiter i ∈ e.access.taken := by
  simp only [mem_moved, List.mem_append, List.mem_singleton, or_and_right, exists_or,
    exists_eq_left]

/-- A moved waiter is past `f1`. -/
theorem moved_subset_left (run : (machine u).Run w s) : moved w ⊆ left s := by
  induction run with
  | start first =>
    intro i earlier
    simp at earlier
  | next before step ih =>
    have step := machine_step.mp step
    intro i earlier
    rcases mem_moved_append.mp earlier with earlier | taken
    · exact left_of_step before.reachable step (ih earlier)
    · obtain ⟨j, same, -, after⟩ := taken_waiter before.reachable step taken
      rw [Party.waiter.injEq] at same
      exact same ▸ after

/-- A step moves as many waiters as it takes threads: they are all waiters, and none
of them was moved before. -/
theorem card_moved_append (run : (machine u).Run w s) (step : Step u.program s e s') :
    (moved (w ++ [e])).card = (moved w).card + e.access.taken.card := by
  have taken : ∀ t ∈ e.access.taken, ∃ i, t = .waiter i ∧ i ∉ left s ∧ i ∈ left s' :=
    fun t => taken_waiter run.reachable step
  let now : Finset (Fin threadMax) := Finset.univ.filter fun i => .waiter i ∈ e.access.taken
  have union : moved (w ++ [e]) = moved w ∪ now := by
    ext i
    rw [mem_moved_append]
    simp [now]
  have disjoint : Disjoint (moved w) now := by
    rw [Finset.disjoint_left]
    intro i earlier later
    obtain ⟨j, same, before, -⟩ := taken (.waiter i) (by simpa [now] using later)
    rw [Party.waiter.injEq] at same
    exact before (same ▸ moved_subset_left run earlier)
  have image : e.access.taken = now.map ⟨.waiter, fun i j => Party.waiter.inj⟩ := by
    ext t
    simp only [now, Finset.mem_map, Finset.mem_filter, Finset.mem_univ, true_and]
    constructor
    · intro member
      obtain ⟨i, rfl, -⟩ := taken t member
      exact ⟨i, member, rfl⟩
    · rintro ⟨i, member, rfl⟩
      exact member
  rw [union, Finset.card_union_of_disjoint disjoint, image, Finset.card_map]

/-! ## The loop of a waker -/

/-- How far a waker is: in its loop, about to give up, about to wake the third party,
or past that. Out of its loop it has a count unless it carries an error. -/
inductive Phase
  | looping (count : ℕ)
  | givingUp
  | waking (count : Option ℕ)
  | gone (count : Option ℕ)

/-- The waker has left its loop without an error. -/
def Phase.Done : Phase → Prop
  | .waking (some _) | .gone (some _) => True
  | _ => False

/-- The waker has left its loop with an error. -/
def Phase.Failed : Phase → Prop
  | .waking none | .gone none => True
  | _ => False

/-- The steps of the loop between requeues. `exits` says that its test ends it. -/
inductive Phase.Next (exits : Prop) : Phase → Phase → Prop
  | loop (n : ℕ) : Next exits (.looping n) (.looping n)
  | exit (n : ℕ) (ended : exits) : Next exits (.looping n) (.waking (some n))
  | giveUp (n : ℕ) : Next exits (.looping n) .givingUp
  | error : Next exits .givingUp (.waking none)
  | wake (count : Option ℕ) : Next exits (.waking count) (.gone count)
  | rest (count : Option ℕ) : Next exits (.gone count) (.gone count)

/-- The control points of `broadcast_wakerfn` in a phase. -/
def BroadcastPc.In : Phase → BroadcastPc → Prop
  | .looping n, .poll | .looping n, .lock => n = 0
  | .looping n, .load taskCount _ | .looping n, .requeue taskCount _ _ => taskCount = n
  | .looping n, .store taskCount _ result => taskCount + max result.ret 0 = n
  | .looping n, .test taskCount _ ret => taskCount = n ∧ 0 ≤ ret
  | .givingUp, .setError _ => True
  | .waking (some n), .wake taskCount ret | .gone (some n), .unlock taskCount ret =>
      taskCount = n ∧ 0 ≤ ret
  | .waking none, .wake _ ret | .gone none, .unlock _ ret => ret < 0
  | .gone (some n), .total taskCount => taskCount = n
  | .gone (some _), .exit ret => 0 ≤ ret
  | .gone none, .exit ret => ret < 0
  | _, _ => False

/-- The control points of `signal_wakerfn` in a phase. -/
def SignalPc.In : Phase → SignalPc → Prop
  | .looping n, .poll => n = 0
  | .looping n, .guard taskCount _ ret | .looping n, .guardWoken taskCount _ ret =>
      taskCount = n ∧ 0 ≤ ret
  | .looping n, .lock taskCount _ | .looping n, .load taskCount _
  | .looping n, .requeue taskCount _ _ | .looping n, .negate taskCount _ _ => taskCount = n
  | .looping n, .store taskCount _ result => taskCount + max result.ret 0 = n
  | .looping n, .unlock taskCount _ ret => taskCount + max ret 0 = n
  | .givingUp, .setError _ => True
  | .waking (some n), .wake taskCount ret => taskCount = n ∧ 0 ≤ ret
  | .waking none, .wake _ ret => ret < 0
  | .gone (some n), .total taskCount => taskCount = n
  | .gone (some _), .exit ret => 0 ≤ ret
  | .gone none, .exit ret => ret < 0
  | _, _ => False

/-- The control points of a waker in a phase. -/
def Loc.In (p : Phase) : Loc → Prop
  | .broadcast pc => pc.In p
  | .signal pc => pc.In p
  | _ => False

/-- The loop of the waker ends with its next test. -/
def Loc.Exits (mem : Cell → ℤ) : Loc → Prop
  | .broadcast (.test taskCount _ _) => threadMax ≤ taskCount + mem .waitersWoken
  | .signal (.guard taskCount _ _) => threadMax ≤ taskCount
  | .signal (.guardWoken _ _ _) => threadMax ≤ mem .waitersWoken
  | _ => False

/-- Where the loop is after a requeue that kept the count. -/
def Loc.Continues (n : ℕ) (l : Loc) : Prop := l.In (.looping n) ∨ l.In .givingUp

theorem Loc.Continues.next {n : ℕ} {l : Loc} (continues : l.Continues n) (exits : Prop) :
    ∃ p, Phase.Next exits (.looping n) p ∧ l.In p := by
  rcases continues with here | here
  · exact ⟨_, .loop n, here⟩
  · exact ⟨_, .giveUp n, here⟩

theorem requeuedAll_continues {taskCount ret : ℤ} {n : ℕ} (i : ℕ)
    (count : taskCount + max ret 0 = n) :
    (Loc.broadcast (requeuedAll taskCount i ret)).Continues n := by
  unfold requeuedAll
  split
  · exact .inr trivial
  · rename_i nonneg
    split
    · rw [max_eq_left (by omega)] at count
      exact .inl ⟨count, Int.not_lt.mp nonneg⟩
    · exact .inr trivial

theorem requeuedOne_continues {taskCount ret : ℤ} {n : ℕ} (i : ℕ)
    (count : taskCount + max ret 0 = n) :
    (Loc.signal (requeuedOne taskCount i ret)).Continues n := by
  unfold requeuedOne
  split
  · exact .inr trivial
  · rename_i nonneg
    split
    · exact .inr trivial
    · rw [max_eq_left (by omega)] at count
      exact .inl ⟨count, Int.not_lt.mp nonneg⟩

theorem release_continues {taskCount ret : ℤ} {n : ℕ} (i : ℕ)
    (count : taskCount + max ret 0 = n) :
    (Loc.signal (u.release taskCount i ret)).Continues n := by
  unfold UnitTest.release
  split
  · exact .inl count
  · exact requeuedOne_continues i count

theorem broadcastResult_in {taskCount ret : ℤ} {count : Option ℕ}
    (at_wake : (BroadcastPc.wake taskCount ret).In (.waking count)) :
    (broadcastResult taskCount ret).In (.gone count) := by
  unfold broadcastResult
  cases count with
  | none =>
    have failed : ret < 0 := at_wake
    rw [if_neg (by omega)]
    exact failed
  | some n =>
    have here : taskCount = n ∧ 0 ≤ ret := at_wake
    split
    · exact here.1
    · exact here.2

theorem broadcast_leads {p : Phase} {pc : BroadcastPc} (at_phase : pc.In p)
    (no_requeue : ∀ taskCount i old, pc ≠ .requeue taskCount i old) (mem : Cell → ℤ) :
    (u.broadcastWakerfn pc).Leads mem fun l =>
      ∃ p', p.Next ((Loc.broadcast pc).Exits mem) p' ∧ l.In p' := by
  cases p with
  | looping n =>
    have stays : ∀ {l : Loc}, l.In (.looping n) →
        ∃ p', Phase.Next ((Loc.broadcast pc).Exits mem) (.looping n) p' ∧ l.In p' :=
      fun here => ⟨_, .loop n, here⟩
    cases pc with
    | poll =>
      have count : n = 0 := at_phase
      subst count
      simp only [broadcastWakerfn, Op.Leads]
      split
      · exact stays rfl
      · split <;> exact stays rfl
    | lock =>
      have count : n = 0 := at_phase
      subst count
      exact fun _ => stays rfl
    | load taskCount i => exact stays at_phase
    | requeue taskCount i old => exact absurd rfl (no_requeue taskCount i old)
    | store taskCount i result => exact (requeuedAll_continues i at_phase).next _
    | test taskCount i ret =>
      simp only [broadcastWakerfn, Op.Leads]
      split
      · exact stays at_phase.1
      · rename_i ended
        have exits : (threadMax : ℤ) ≤ taskCount + mem .waitersWoken := by omega
        exact ⟨_, .exit n exits, at_phase⟩
    | _ => exact at_phase.elim
  | givingUp =>
    cases pc with
    | setError taskCount =>
      have negative : retError < 0 := by decide
      exact ⟨_, .error, negative⟩
    | _ => exact at_phase.elim
  | waking count =>
    cases pc with
    | wake taskCount ret =>
      simp only [broadcastWakerfn, Op.Leads]
      split
      · refine ⟨_, .wake count, ?_⟩
        cases count <;> exact at_phase
      · exact ⟨_, .wake count, broadcastResult_in at_phase⟩
    | _ => cases count <;> exact at_phase.elim
  | gone count =>
    have rests : ∀ {l : Loc}, l.In (.gone count) →
        ∃ p', Phase.Next ((Loc.broadcast pc).Exits mem) (.gone count) p' ∧ l.In p' :=
      fun here => ⟨_, .rest count, here⟩
    cases pc with
    | unlock taskCount ret =>
      have at_wake : (BroadcastPc.wake taskCount ret).In (.waking count) := by
        cases count <;> exact at_phase
      exact fun _ => rests (broadcastResult_in at_wake)
    | total taskCount =>
      cases count with
      | none => exact at_phase.elim
      | some n =>
        have count : taskCount = n := at_phase
        have nonneg : 0 ≤ taskCount := by omega
        exact rests nonneg
    | exit ret => trivial
    | _ => cases count <;> exact at_phase.elim

theorem signal_leads {p : Phase} {pc : SignalPc} (at_phase : pc.In p)
    (no_requeue : ∀ taskCount i old, pc ≠ .requeue taskCount i old) (mem : Cell → ℤ) :
    (u.signalWakerfn pc).Leads mem fun l =>
      ∃ p', p.Next ((Loc.signal pc).Exits mem) p' ∧ l.In p' := by
  cases p with
  | looping n =>
    have stays : ∀ {l : Loc}, l.In (.looping n) →
        ∃ p', Phase.Next ((Loc.signal pc).Exits mem) (.looping n) p' ∧ l.In p' :=
      fun here => ⟨_, .loop n, here⟩
    cases pc with
    | poll =>
      have count : n = 0 := at_phase
      subst count
      simp only [signalWakerfn, Op.Leads]
      split
      · exact stays rfl
      · exact stays ⟨rfl, Int.le_refl 0⟩
    | guard taskCount i ret =>
      simp only [signalWakerfn, Op.Leads]
      split
      · exact stays at_phase
      · rename_i ended
        exact ⟨_, .exit n (Int.not_lt.mp ended), at_phase⟩
    | guardWoken taskCount i ret =>
      simp only [signalWakerfn, Op.Leads]
      split
      · split <;> exact stays at_phase.1
      · rename_i ended
        exact ⟨_, .exit n (Int.not_lt.mp ended), at_phase⟩
    | lock taskCount i => exact fun _ => stays at_phase
    | load taskCount i => exact stays at_phase
    | requeue taskCount i old => exact absurd rfl (no_requeue taskCount i old)
    | store taskCount i result =>
      simp only [signalWakerfn, Op.Leads]
      split
      · rename_i negative
        have count : taskCount + max result.ret 0 = n := at_phase
        rw [max_eq_right (by omega), Int.add_zero] at count
        exact stays count
      · exact (release_continues i at_phase).next _
    | negate taskCount i errno =>
      have count : taskCount + max (-errno : ℤ) 0 = n := by
        rw [max_eq_right (by omega), Int.add_zero]
        exact at_phase
      exact (release_continues i count).next _
    | unlock taskCount i ret => exact fun _ => (requeuedOne_continues i at_phase).next _
    | _ => exact at_phase.elim
  | givingUp =>
    cases pc with
    | setError taskCount =>
      have negative : retError < 0 := by decide
      exact ⟨_, .error, negative⟩
    | _ => exact at_phase.elim
  | waking count =>
    cases pc with
    | wake taskCount ret =>
      refine ⟨_, .wake count, ?_⟩
      cases count with
      | none =>
        have failed : ret < 0 := at_phase
        rw [if_neg (by omega)]
        exact failed
      | some n =>
        have here : taskCount = n ∧ 0 ≤ ret := at_phase
        rw [if_pos here.2]
        exact here.1
    | _ => cases count <;> exact at_phase.elim
  | gone count =>
    cases pc with
    | total taskCount =>
      cases count with
      | none => exact at_phase.elim
      | some n =>
        have count : taskCount = n := at_phase
        have nonneg : 0 ≤ taskCount := by omega
        exact ⟨_, .rest (some n), nonneg⟩
    | exit ret => trivial
    | _ => cases count <;> exact at_phase.elim

/-- Every statement of a waker but its requeue is a step of the loop. -/
theorem waker_leads {p : Phase} {l : Loc} (at_phase : l.In p)
    (no_requeue : ∀ a v p nrWake nrRequeue k,
      u.program .waker l ≠ .cmpRequeuePi a v p nrWake nrRequeue k) (mem : Cell → ℤ) :
    (u.program .waker l).Leads mem fun l' => ∃ p', p.Next (l.Exits mem) p' ∧ l'.In p' := by
  cases l with
  | broadcast pc =>
    refine broadcast_leads at_phase ?_ mem
    rintro taskCount i old rfl
    exact no_requeue _ _ _ _ _ _ rfl
  | signal pc =>
    refine signal_leads at_phase ?_ mem
    rintro taskCount i old rfl
    exact no_requeue _ _ _ _ _ _ rfl
  | _ => exact at_phase.elim

/-! ## The waker in a run -/

/-- The waker is in a phase that satisfies `Q`. -/
def WakerIn (s : RunState) (Q : Phase → Prop) : Prop :=
  (s.thread .waker).Holds fun l => ∃ p, l.In p ∧ Q p

/-- A requeue adds what it returns. -/
theorem waker_requeues (step : Step u.program s e s') (ready : s.thread e.thread = .ready e.pc)
    {a : Cell} {v : ℤ} {p : PiWord} {nrWake nrRequeue : ℕ} {k : SysResult → Loc}
    (op : u.program e.thread e.pc = .cmpRequeuePi a v p nrWake nrRequeue k) {p : Phase}
    (at_phase : e.pc.In p) :
    ∃ n l, p = .looping n ∧ s'.thread .waker = .ready l ∧
      l.In (.looping (n + e.access.taken.card)) := by
  obtain ⟨waker, at_requeue⟩ := program_cmpRequeuePi op
  have result : ∃ r, s'.thread .waker = .ready (k r) ∧ max r.ret 0 = e.access.taken.card := by
    rw [← waker]
    rcases step.requeue ready op with ⟨errno, none_taken, after⟩ | ⟨-, -, -, after⟩
    · exact ⟨_, after, by simp [none_taken]⟩
    · exact ⟨_, after, by simp⟩
  obtain ⟨r, after, taken⟩ := result
  rw [waker] at op
  rcases at_requeue with ⟨taskCount, i, old, here⟩ | ⟨taskCount, i, old, here⟩ <;>
    rw [here] at op at_phase <;> cases op
  · cases p with
    | looping n =>
      have count : taskCount = n := at_phase
      have added : taskCount + max r.ret 0 = (n + e.access.taken.card : ℕ) := by
        push_cast
        omega
      exact ⟨n, _, rfl, after, added⟩
    | waking count | gone count => cases count <;> exact at_phase.elim
    | givingUp => exact at_phase.elim
  · cases p with
    | looping n =>
      have count : taskCount = n := at_phase
      have added : taskCount + max r.ret 0 = (n + e.access.taken.card : ℕ) := by
        push_cast
        omega
      exact ⟨n, _, rfl, after, added⟩
    | waking count | gone count => cases count <;> exact at_phase.elim
    | givingUp => exact at_phase.elim

/-- What a step can do to the phase of the waker: nothing, a requeue with its count,
or a step of the loop. -/
theorem wakerIn_of_step (step : Step u.program s e s') {Q Q' : Phase → Prop}
    (stays : e.access.taken = ∅ → ∀ p, Q p → Q' p)
    (requeues : ∀ n, Q (.looping n) → Q' (.looping (n + e.access.taken.card)))
    (next : e.access.taken = ∅ → e.thread = .waker → s.thread .waker = .ready e.pc →
      ∀ p p', e.pc.In p → Q p → p.Next (e.pc.Exits s.mem) p' → Q' p')
    (before : WakerIn s Q) : WakerIn s' Q' := by
  by_cases requeue : s.thread e.thread = .ready e.pc ∧
      ∃ a v p nrWake nrRequeue k, u.program e.thread e.pc = .cmpRequeuePi a v p nrWake nrRequeue k
  · obtain ⟨ready, a, v, p, nrWake, nrRequeue, k, op⟩ := requeue
    have waker := (program_cmpRequeuePi op).1
    unfold WakerIn at before
    rw [← waker, ready] at before
    obtain ⟨p, at_phase, held⟩ := before
    obtain ⟨n, l, rfl, after, added⟩ := waker_requeues step ready op at_phase
    unfold WakerIn
    rw [after]
    exact ⟨_, added, requeues n held⟩
  · have none_taken := step.taken_eq_empty fun ready a v p nrWake nrRequeue k op =>
      requeue ⟨ready, a, v, p, nrWake, nrRequeue, k, op⟩
    refine step.holds ?_ (before.mono fun l ⟨p, at_phase, held⟩ =>
      ⟨p, at_phase, stays none_taken p held⟩)
    intro waker ready
    unfold WakerIn at before
    rw [ready] at before
    obtain ⟨p, at_phase, held⟩ := before
    have leads : (u.program .waker e.pc).Leads s.mem fun l' =>
        ∃ p', p.Next (e.pc.Exits s.mem) p' ∧ l'.In p' := by
      refine waker_leads at_phase ?_ s.mem
      intro a v p nrWake nrRequeue k op
      rw [← waker] at ready op
      exact requeue ⟨ready, a, v, p, nrWake, nrRequeue, k, op⟩
    refine leads.mono ?_
    rintro l' ⟨p', move, at_phase'⟩
    exact ⟨p', at_phase', next none_taken waker ready p p' at_phase held move⟩

/-- At the start the loop has moved nobody. -/
theorem wakerIn_start {Q : Phase → Prop} (initial : Q (.looping 0)) : WakerIn u.start Q := by
  simp only [WakerIn, UnitTest.start]
  split <;> exact ⟨.looping 0, rfl, initial⟩

/-- Until `R` holds the waker keeps to the phases `Q`, if it leaves them only by a step
that makes `R` true, and `R` stays true. -/
theorem wakerIn_until {P : RunState → RunEvent → Prop} {Q : Phase → Prop} {R : RunState → Prop}
    (loops : ∀ n, Q (.looping n))
    (stable : ∀ s e s', (machine u).Reachable s → Step u.program s e s' → R s → R s')
    (leaves : ∀ w s e s' p p', (machine u).Run w s → Step u.program s e s' → P s e →
      e.thread = .waker → s.thread .waker = .ready e.pc → e.pc.In p → Q p →
      p.Next (e.pc.Exits s.mem) p' → Q p' ∨ R s')
    (run : ((machine u).restrict P).Run w s) : R s ∨ WakerIn s Q := by
  induction run with
  | start first =>
    rw [show _ = u.start from first]
    exact .inr (wakerIn_start (loops 0))
  | @next w s s' e before move ih =>
    obtain ⟨step, met⟩ := System.restrict_step.mp move
    have step := machine_step.mp step
    rcases ih with held | inside
    · exact .inl (stable s e s' before.of_restrict.reachable step held)
    by_cases after : R s'
    · exact .inl after
    · right
      refine wakerIn_of_step step (fun _ _ => id) (fun n _ => loops _) ?_ inside
      intro _ waker ready p p' at_phase held move
      have result := leaves w s e s' p p' before.of_restrict step met waker ready at_phase held move
      exact result.resolve_right after

/-- The count of a phase is `n`, if it has one. -/
def Phase.Counts (n : ℕ) : Phase → Prop
  | .looping count | .waking (some count) | .gone (some count) => count = n
  | _ => True

/-- The count of the loop is the number of waiters that requeues have moved. -/
theorem waker_phase (run : (machine u).Run w s) : WakerIn s (Phase.Counts (moved w).card) := by
  induction run with
  | start first =>
    rw [show _ = u.start from first]
    exact wakerIn_start (by simp [Phase.Counts, moved])
  | @next w s s' e before step ih =>
    have step := machine_step.mp step
    have card := card_moved_append before step
    refine wakerIn_of_step step ?_ ?_ ?_ ih
    · intro none_taken p counts
      rw [card, none_taken]
      exact counts
    · intro n counts
      rw [card]
      exact congrArg (· + _) counts
    · intro none_taken _ _ p p' _ counts move
      rw [card, none_taken]
      cases move with
      | wake count => cases count <;> exact counts
      | error | giveUp n => trivial
      | _ => exact counts

end RequeuePi
