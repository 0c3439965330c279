import Futextest.PiFutex.Faulty

/-!
# Who owns a PI futex

A PI futex changes hands in four ways: a thread locks it while it is free, a requeue
gives it to one of the threads it takes, its owner hands it to a queued thread or
gives it up. A program is disciplined if each of its control points says whether
the thread has the futex there, and every operation continues accordingly whatever
it returns. Then the kernel's owner is the thread that the control points name, also if
the kernel ends waits by other errors than a timeout.

## Main definitions

* `Op.Respects` — an operation continues at control points that say who owns the futex
* `Discipline` — every operation of a program does
* `Status.Has` — whether a thread has the futex, by where it is

## Main results

* `Discipline.owned_faulty` — in every reachable state the owner is the thread that has it,
  whatever waits fail
* `attended_of_reachable` — a futex that somebody queues for has an owner
-/

namespace PiFutex

variable {A P T L : Type}

/-- The PI futex that the threads of the queue wait for. -/
def Queue.target : Queue A P → P
  | .source _ p => p
  | .pi p => p

section Points

variable (p : P) (has : L → Prop)

/-- Whether a thread has `p`, where `has` are the control points at which it is to have
it. A thread that waits for `p` does not have it yet. -/
def Status.Has : Status A P L → Prop
  | .unborn _ => False
  | .ready l | .asleep _ l => has l
  | .queued q l _ => q.target ≠ p ∧ has l

/-- What a thread that waits will find: it has `p` if it was given it, and not if the
timeout came first. A thread that waits for another futex keeps what it has. -/
def Status.Settled : Status A P L → Prop
  | .unborn l => ¬ has l
  | .ready _ | .asleep _ _ => True
  | .queued q l x =>
      (q.target = p → has l ∧ ∀ l' ∈ x, ¬ has l') ∧ (q.target ≠ p → ∀ l' ∈ x, (has l' ↔ has l))

/-- Whether the operation continues at control points that say who owns `p`, if the
thread has `p` before it exactly when `now`. -/
def Op.Respects (now : Prop) : Op A P T L → Prop
  | .tau k | .store _ _ k | .inc _ k | .wake _ _ k | .create _ k | .join _ k => has k ↔ now
  | .load _ k => ∀ v, has (k v) ↔ now
  | .wait _ _ k | .cmpRequeuePi _ _ _ _ _ k => ∀ r, has (k r) ↔ now
  | .lockPi q k => (q = p → ¬ now ∧ has (k (.ok 0))) ∧ (q ≠ p → ∀ r, has (k r) ↔ now)
  | .unlockPi q k => (q = p → now ∧ ∀ r, ¬ has (k r)) ∧ (q ≠ p → ∀ r, has (k r) ↔ now)
  | .waitRequeuePi _ _ q _ k =>
      (q = p → ¬ now ∧ has (k (.ok 0)) ∧ ∀ errno, ¬ has (k (.error errno))) ∧
      (q ≠ p → ∀ r, has (k r) ↔ now)
  | .exit => ¬ now

end Points

variable (p : P) (has : T → L → Prop)

/-- The owner of `p` is the thread that has it, by where the threads are. -/
structure Owned (s : State A P T L) : Prop where
  owner : ∀ t, s.owner p = some t ↔ (s.thread t).Has p (has t)
  settled : ∀ t, (s.thread t).Settled p (has t)

/-! ## What keeps the owner right -/

namespace Owned

variable {p has} {s : State A P T L}

section Threads

variable [DecidableEq T]

/-- A thread moves on and keeps what it has. -/
theorem put (owned : Owned p has s) {t : T} {x : Status A P L}
    (same : x.Has p (has t) ↔ (s.thread t).Has p (has t)) (settled : x.Settled p (has t)) :
    Owned p has (s.put t x) := by
  constructor
  · intro u
    by_cases hu : u = t
    · subst hu
      rw [State.put_self, same]
      exact owned.owner u
    · rw [State.put_of_ne _ hu]
      exact owned.owner u
  · intro u
    by_cases hu : u = t
    · subst hu
      rw [State.put_self]
      exact settled
    · rw [State.put_of_ne _ hu]
      exact owned.settled u

/-- A thread that is awake goes on. -/
theorem goOn (owned : Owned p has s) {t : T} {l k : L} (running : s.thread t = .ready l)
    (same : has t k ↔ has t l) : Owned p has (s.put t (.ready k)) := by
  refine owned.put ?_ trivial
  rw [running]
  exact same

/-- Sleepers wake up. -/
theorem rouse (owned : Owned p has s) {woken : Finset T}
    (asleep : ∀ u ∈ woken, ∃ a l, s.thread u = .asleep a l) : Owned p has (s.rouse woken) := by
  have same : ∀ u, ((s.rouse woken).thread u).Has p (has u) ↔ (s.thread u).Has p (has u) := by
    intro u
    by_cases hu : u ∈ woken
    · obtain ⟨a, l, here⟩ := asleep u hu
      simp [State.rouse, hu, here, Status.Has]
    · simp [State.rouse, hu]
  constructor
  · intro u
    rw [same u]
    exact owned.owner u
  · intro u
    by_cases hu : u ∈ woken
    · simp [State.rouse, hu, Status.Settled]
    · simpa [State.rouse, hu] using owned.settled u

/-- Threads move to the queue of the PI futex they have waited for anyway. -/
theorem requeue (owned : Owned p has s) {q : P} {taken : Finset T}
    (queued : ∀ u ∈ taken, ∃ a l x, s.thread u = .queued (.source a q) l x) :
    Owned p has (s.requeue q taken) := by
  -- a thread that is taken still waits for the same PI futex
  have moved : ∀ u ∈ taken, ∃ a l x, s.thread u = .queued (.source a q) l x ∧
      (s.requeue q taken).thread u = .queued (.pi q) l x := by
    intro u hu
    obtain ⟨a, l, x, here⟩ := queued u hu
    refine ⟨a, l, x, here, ?_⟩
    rw [State.requeue]
    simp only [if_pos hu, here, Status.requeued]
  have stays : ∀ u, u ∉ taken → (s.requeue q taken).thread u = s.thread u := by
    intro u hu
    simp [State.requeue, hu]
  constructor
  · intro u
    have before := owned.owner u
    by_cases hu : u ∈ taken
    · obtain ⟨a, l, x, here, there⟩ := moved u hu
      rw [here] at before
      rw [there]
      exact before
    · rw [stays u hu]
      exact before
  · intro u
    have before := owned.settled u
    by_cases hu : u ∈ taken
    · obtain ⟨a, l, x, here, there⟩ := moved u hu
      rw [here] at before
      rw [there]
      exact before
    · rw [stays u hu]
      exact before

end Threads

section Words

variable [DecidableEq P]

/-- Another futex changes its owner. -/
theorem own_other (owned : Owned p has s) {q : P} (ne : q ≠ p) (o : Option T) :
    Owned p has (s.own q o) := by
  have same : (s.own q o).owner p = s.owner p := by simp [State.own, Ne.symm ne]
  constructor
  · intro t
    rw [same]
    exact owned.owner t
  · exact owned.settled

variable [DecidableEq T]

/-- A thread gets the futex, which was free. -/
theorem take (owned : Owned p has s) (free : s.owner p = none) {t : T} {x : Status A P L}
    (here : x.Has p (has t)) (settled : x.Settled p (has t)) :
    Owned p has ((s.own p (some t)).put t x) := by
  constructor
  · intro u
    by_cases hu : u = t
    · subst hu
      simp [State.own, here]
    · have before := owned.owner u
      rw [free] at before
      rw [State.put_of_ne _ hu, State.put_owner]
      -- nobody had it before, and only `t` has it now
      have nobody : ¬ (s.thread u).Has p (has u) := fun h => by simpa using before.mpr h
      simpa [State.own, nobody] using Ne.symm hu
  · intro u
    by_cases hu : u = t
    · subst hu
      rw [State.put_self]
      exact settled
    · rw [State.put_of_ne _ hu]
      exact owned.settled u

/-- The owner gives the futex up. -/
theorem release (owned : Owned p has s) {t : T} (owner : s.owner p = some t) {x : Status A P L}
    (gone : ¬ x.Has p (has t)) (settled : x.Settled p (has t)) :
    Owned p has ((s.own p none).put t x) := by
  constructor
  · intro u
    by_cases hu : u = t
    · subst hu
      simp [State.own, gone]
    · have before := owned.owner u
      rw [owner] at before
      rw [State.put_of_ne _ hu, State.put_owner]
      have nobody : ¬ (s.thread u).Has p (has u) := fun h =>
        hu (Option.some.inj (before.mpr h)).symm
      simpa [State.own] using nobody
  · intro u
    by_cases hu : u = t
    · subst hu
      rw [State.put_self]
      exact settled
    · rw [State.put_of_ne _ hu]
      exact owned.settled u

/-- A thread that waits for a futex is given it. -/
theorem grant (owned : Owned p has s) {q : P} {u : T} {r : Queue A P} {l : L} {x : Option L}
    (queued : s.thread u = .queued r l x) (target : r.target = q)
    (free : q = p → s.owner p = none) : Owned p has (s.grant q (some u)) := by
  have settled := owned.settled u
  rw [queued] at settled
  have continues : s.loc u = l := by simp [State.loc, queued]
  rw [State.grant, continues]
  by_cases hq : q = p
  · subst hq
    exact owned.take (free rfl) (settled.1 target).1 trivial
  · refine (owned.own_other hq (some u)).put ?_ trivial
    have other : r.target ≠ p := target ▸ hq
    have before : (s.own q (some u)).thread u = .queued r l x := queued
    rw [before]
    simp [Status.Has, other]

end Words

end Owned

/-- A thread that has the futex can hand it on: it gives it up, and the heir gets the
free futex. -/
theorem State.grant_put [DecidableEq P] [DecidableEq T] {p : P} (s : State A P T L) {t u : T}
    (ne : u ≠ t) (x : Status A P L) :
    (s.grant p (some u)).put t x = ((s.own p none).put t x).grant p (some u) := by
  have loc : ((s.own p none).put t x).loc u = s.loc u := by
    simp [State.loc, State.put_of_ne _ ne, State.own]
  rw [State.grant, State.grant, loc]
  simp only [State.put, State.own, State.mk.injEq, true_and]
  constructor
  · exact (Function.update_idem _ _ _).symm
  · exact Function.update_comm ne _ _ _

/-! ## Disciplined programs -/

/-- In a program whose threads stay at the control points in `proper`, every operation
continues where the thread has `p` exactly if it then owns it. -/
structure Discipline (M : Program A P T L) (proper : T → L → Prop) : Prop where
  leads : ∀ t l mem, proper t l → (M t l).Leads mem (proper t)
  respects : ∀ t l, proper t l → (M t l).Respects p (has t) (has t l)

section Semantics

variable [DecidableEq A] [DecidableEq P] [DecidableEq T] [Fintype T]
variable {p has} {M : Program A P T L} {s s' : State A P T L} {e : Event A P T L}

theorem Owned.lockPi (owned : Owned p has s) {t : T} {l : L} (running : s.thread t = .ready l)
    {q : P} {k : SysResult → L} {access : Access A P T}
    (respects : (Op.lockPi q k : Op A P T L).Respects p (has t) (has t l))
    (does : (Op.lockPi q k).Does M s t access s') : Owned p has s' := by
  cases does with
  | locked _ _ free =>
    by_cases hq : q = p
    · -- a free futex is taken at once
      subst hq
      exact owned.take free (respects.1 rfl).2 trivial
    · exact (owned.own_other hq _).goOn running (respects.2 hq _)
  | deadlock _ _ own =>
    by_cases hq : q = p
    · -- the caller would have the futex already
      subst hq
      have here := (owned.owner t).mp own
      rw [running] at here
      exact absurd here (respects.1 rfl).1
    · exact owned.goOn running (respects.2 hq _)
  | blocked _ _ u owner other =>
    by_cases hq : q = p
    · subst hq
      -- the caller is to have it when the call returns, and has not yet
      refine owned.put ?_ ⟨fun _ => ⟨(respects.1 rfl).2, by simp⟩, fun _ => by simp⟩
      rw [running]
      simp [Status.Has, Queue.target, (respects.1 rfl).1]
    · refine owned.put ?_ ⟨fun same => absurd same hq, fun _ => by simp⟩
      rw [running]
      exact (and_iff_right hq).trans (respects.2 hq _)

theorem Owned.unlockPi (owned : Owned p has s) {t : T} {l : L} (running : s.thread t = .ready l)
    {q : P} {k : SysResult → L} {access : Access A P T}
    (respects : (Op.unlockPi q k : Op A P T L).Respects p (has t) (has t l))
    (does : (Op.unlockPi q k).Does M s t access s') : Owned p has s' := by
  cases does with
  | unlocked _ _ own nobody =>
    by_cases hq : q = p
    · subst hq
      exact owned.release own ((respects.1 rfl).2 _) trivial
    · exact (owned.own_other hq _).goOn running (respects.2 hq _)
  | handed _ _ u own queued =>
    obtain ⟨l', x, here⟩ := s.mem_queue.mp queued
    -- the heir is queued, so it is not the caller
    have other : u ≠ t := by
      rintro rfl
      simp [running] at here
    by_cases hq : q = p
    · subst hq
      -- the futex is given up first, and the heir takes it free
      rw [State.grant_put s other]
      have released := owned.release (x := .ready (k (.ok 0))) own ((respects.1 rfl).2 _) trivial
      have waits :
          ((s.own q none).put t (.ready (k (.ok 0)))).thread u = .queued (.pi q) l' x := by
        rw [State.put_of_ne _ other]
        exact here
      exact released.grant waits rfl fun _ => by simp [State.own]
    · have awake : (s.grant q (some u)).thread t = .ready l := by
        rw [State.grant, State.put_of_ne _ other.symm]
        exact running
      exact (owned.grant (q := q) here rfl fun same => absurd same hq).goOn awake
        (respects.2 hq _)
  | notOwner _ _ other =>
    by_cases hq : q = p
    · subst hq
      -- at this control point the caller has it
      refine absurd ((owned.owner t).mpr ?_) other
      rw [running]
      exact (respects.1 rfl).1
    · exact owned.goOn running (respects.2 hq _)

section Waits

variable {t : T} {l : L} {a : A} {v : ℤ} {q : P} {timeout : Timeout} {k : SysResult → L}

omit [DecidableEq A] [Fintype T] in
/-- A wait fails at once. -/
theorem Owned.refuse (owned : Owned p has s) (running : s.thread t = .ready l)
    (respects : (Op.waitRequeuePi a v q timeout k : Op A P T L).Respects p (has t) (has t l))
    (errno : ℕ) : Owned p has (s.put t (.ready (k (.error errno)))) := by
  apply owned.goOn running
  by_cases hq : q = p
  · obtain ⟨free, -, refused⟩ := respects.1 hq
    exact iff_of_false (refused _) free
  · exact respects.2 hq _

omit [DecidableEq A] [Fintype T] in
/-- A wait is queued, and whatever else may end it is an error. -/
theorem Owned.enqueue (owned : Owned p has s) (running : s.thread t = .ready l)
    (respects : (Op.waitRequeuePi a v q timeout k : Op A P T L).Respects p (has t) (has t l))
    {x : Option L} (ends : ∀ l' ∈ x, ∃ errno, l' = k (.error errno)) :
    Owned p has (s.put t (.queued (.source a q) (k (.ok 0)) x)) := by
  by_cases hq : q = p
  · obtain ⟨free, given, refused⟩ := respects.1 hq
    refine owned.put ?_ ⟨fun _ => ⟨given, ?_⟩, fun differs => absurd hq differs⟩
    · rw [running]
      simp [Status.Has, Queue.target, hq, free]
    · intro l' member
      obtain ⟨errno, rfl⟩ := ends l' member
      exact refused errno
  · have same := respects.2 hq
    refine owned.put ?_ ⟨fun target => absurd target hq, fun _ l' member => ?_⟩
    · rw [running]
      exact (and_iff_right hq).trans (same _)
    · obtain ⟨errno, rfl⟩ := ends l' member
      exact (same _).trans (same _).symm

theorem Owned.waitRequeuePi (owned : Owned p has s) (running : s.thread t = .ready l)
    {access : Access A P T}
    (respects : (Op.waitRequeuePi a v q timeout k : Op A P T L).Respects p (has t) (has t l))
    (does : (Op.waitRequeuePi a v q timeout k).Does M s t access s') : Owned p has s' := by
  cases does with
  | rejected | mismatched => exact owned.refuse running respects _
  | queued =>
    refine owned.enqueue running respects ?_
    intro l' member
    obtain ⟨-, ends⟩ := Option.ite_none_right_eq_some.mp member
    exact ⟨etimedout, (Option.some.inj ends).symm⟩

end Waits

theorem Owned.cmpRequeuePi (owned : Owned p has s) {t : T} {l : L}
    (running : s.thread t = .ready l) {a : A} {v : ℤ} {q : P} {nrWake nrRequeue : ℕ}
    {k : SysResult → L} {access : Access A P T} (respects :
      (Op.cmpRequeuePi a v q nrWake nrRequeue k : Op A P T L).Respects p (has t) (has t l))
    (does : (Op.cmpRequeuePi a v q nrWake nrRequeue k).Does M s t access s') :
    Owned p has s' := by
  cases does with
  | failed => exact owned.goOn running (respects _)
  | requeued _ _ _ _ _ _ taken takes _ =>
    -- nobody is given the futex; those taken go on waiting for it
    have awake : (s.requeue q taken).thread t = .ready l := by
      simp [State.requeue, takes.not_mem running, running]
    exact (owned.requeue fun u member => ⟨a, takes.queued member⟩).goOn awake (respects _)
  | granted _ _ _ _ _ _ taken u takes free member =>
    -- the heir is one of those taken, and takes the free futex
    have moved := owned.requeue fun u member => ⟨a, takes.queued member⟩
    obtain ⟨l', x, here⟩ := takes.queued member
    have waits : (s.requeue q taken).thread u = .queued (.pi q) l' x := by
      simp [State.requeue, member, here]
    have other : t ≠ u := by
      rintro rfl
      exact takes.not_mem running member
    have awake : ((s.requeue q taken).grant q (some u)).thread t = .ready l := by
      rw [State.grant, State.put_of_ne _ other]
      simp [State.own, State.requeue, takes.not_mem running, running]
    exact (moved.grant (q := q) waits rfl fun same => same ▸ free).goOn awake (respects _)

/-- An operation that respects the ownership keeps the owner right. -/
theorem Owned.perform (owned : Owned p has s) {t : T} {l : L} (running : s.thread t = .ready l)
    {c : Kernel T} {op : Op A P T L} (respects : op.Respects p (has t) (has t l))
    {access : Access A P T} (performed : op.perform M s t c = some (access, s')) :
    Owned p has s' := by
  have does := Op.does_of_perform performed
  cases op with
  | tau k | join u k =>
    cases does
    exact owned.goOn running respects
  | load a k =>
    cases does
    exact owned.goOn running (respects _)
  | store a v k | inc a k =>
    cases does
    -- the owner does not depend on the cells
    have written : ∀ v, Owned p has (s.write a v) := fun v => ⟨owned.owner, owned.settled⟩
    exact (written _).goOn running respects
  | wait a v k =>
    cases does with
    | slept =>
      refine owned.put ?_ trivial
      rw [running]
      exact respects _
    | refused => exact owned.goOn running (respects _)
  | wake a n k =>
    cases does with
    | wake _ _ _ woken asleep many =>
      -- the caller is awake, so it is not among those woken
      have sleeps : ∀ u ∈ woken, ∃ a l, s.thread u = .asleep a l :=
        fun u member => ⟨a, s.mem_sleepers.mp (asleep member)⟩
      have awake : (s.rouse woken).thread t = .ready l := by
        by_cases ht : t ∈ woken
        · obtain ⟨b, l', here⟩ := sleeps t ht
          simp [running] at here
        · simp [State.rouse, ht, running]
      exact (owned.rouse sleeps).goOn awake respects
  | lockPi q k => exact owned.lockPi running respects does
  | unlockPi q k => exact owned.unlockPi running respects does
  | waitRequeuePi a v q timeout k => exact owned.waitRequeuePi running respects does
  | cmpRequeuePi a v q nrWake nrRequeue k => exact owned.cmpRequeuePi running respects does
  | create u k =>
    cases does with
    | create _ _ l' unborn =>
      -- a thread that is not born has nothing
      have other : t ≠ u := by
        rintro rfl
        simp [running] at unborn
      have settled := owned.settled u
      rw [unborn] at settled
      have started : Owned p has (s.put u (.ready l')) := by
        refine owned.put ?_ trivial
        rw [unborn]
        exact ⟨fun h => absurd h settled, False.elim⟩
      refine started.goOn (l := l) ?_ respects
      rw [State.put_of_ne _ other]
      exact running
  | exit => cases does

/-- A step of a disciplined program keeps the owner right. -/
theorem Owned.step {proper : T → L → Prop} (discipline : Discipline p has M proper)
    (owned : Owned p has s) (at_proper : ∀ t, (s.thread t).Holds (proper t))
    (step : FaultyStep M s e s') : Owned p has s' := by
  have respects : ∀ {t l}, s.thread t = .ready l →
      (M t l).Respects p (has t) (has t l) := by
    intro t l running
    have here := at_proper t
    rw [running] at here
    exact discipline.respects t l here
  cases step with
  | sound step =>
    cases step with
    | run running performed => exact owned.perform running (respects running) performed
    | @resume t a l sleeping =>
      -- a wait that returns by itself changes nothing
      refine owned.put ?_ trivial
      rw [sleeping]
      rfl
    | @expire t q l x waiting =>
      -- the timeout came first: the thread goes on without what it waited for
      have settled := owned.settled t
      rw [waiting] at settled
      refine owned.put ?_ trivial
      rw [waiting]
      by_cases target : q.target = p
      · have refused := (settled.1 target).2 x rfl
        exact ⟨fun h => absurd h refused, fun h => absurd target h.1⟩
      · exact (settled.2 target x rfl).trans (and_iff_right target).symm
  | refused errno running op => exact owned.refuse running (op ▸ respects running) errno
  | bound errno running op =>
    refine owned.enqueue running (op ▸ respects running) ?_
    intro l' member
    exact ⟨errno, (Option.some.inj member).symm⟩

section Discipline

variable {start : State A P T L} {proper : T → L → Prop} (discipline : Discipline p has M proper)
  (initial : Owned p has start) (at_proper : ∀ t, (start.thread t).Holds (proper t))

include discipline initial at_proper

/-- **The owner of a disciplined futex.** In every state that is reachable under a faulty
kernel its owner is the thread that has the futex by where it is. -/
theorem Discipline.owned_faulty (reach : (faultyMachine M start).Reachable s) :
    Owned p has s := by
  have inv : (faultyMachine M start).Invariant (Owned p has) := by
    constructor
    · rintro s rfl
      exact initial
    · intro s e s' reach owned step
      have here : ∀ t, (s.thread t).Holds (proper t) := fun t =>
        faulty_loc_invariant (at_proper t) (fun l mem => discipline.leads t l mem) reach
      exact owned.step discipline here step
  exact inv.of_reachable reach

theorem Discipline.owned (reach : (machine M start).Reachable s) : Owned p has s :=
  discipline.owned_faulty initial at_proper (Reachable.faulty reach)

/-- The thread that unlocks the futex owns it, and the one that locks it does not. -/
theorem Discipline.owner_at_op (reach : (faultyMachine M start).Reachable s) {t : T} {l : L}
    {k : SysResult → L} (running : s.thread t = .ready l) :
    (M t l = .unlockPi p k → s.owner p = some t) ∧ (M t l = .lockPi p k → s.owner p ≠ some t) := by
  have owned := discipline.owned_faulty initial at_proper reach
  have proper_here :=
    faulty_loc_invariant (at_proper t) (fun l mem => discipline.leads t l mem) reach
  rw [running] at proper_here
  have respects := discipline.respects t l proper_here
  have owner := owned.owner t
  rw [running] at owner
  constructor
  · intro op
    rw [op] at respects
    exact owner.mpr (respects.1 rfl).1
  · intro op holder
    rw [op] at respects
    exact (respects.1 rfl).1 (owner.mp holder)

/-- A thread that has finished does not own the futex. -/
theorem Discipline.not_owner_of_finished (reach : (faultyMachine M start).Reachable s) {t : T}
    (finished : s.finished M t = true) : s.owner p ≠ some t := by
  have owned := discipline.owned_faulty initial at_proper reach
  have proper_here :=
    faulty_loc_invariant (at_proper t) (fun l mem => discipline.leads t l mem) reach
  obtain ⟨l, ready, exits⟩ := State.finished_iff.mp finished
  rw [ready] at proper_here
  have respects := discipline.respects t l proper_here
  rw [exits] at respects
  intro holder
  have here := (owned.owner t).mp holder
  rw [ready] at here
  exact respects here

/-- When every thread that was created has finished nobody owns the futex. -/
theorem Discipline.free_of_finished (reach : (faultyMachine M start).Reachable s)
    (all : ∀ t, s.finished M t = true ∨ ∃ l, s.thread t = .unborn l) : s.owner p = none := by
  rw [Option.eq_none_iff_forall_ne_some]
  intro t owner
  rcases all t with finished | ⟨l, unborn⟩
  · exact discipline.not_owner_of_finished initial at_proper reach finished owner
  · have has := ((discipline.owned_faulty initial at_proper reach).owner t).mp owner
    rw [unborn] at has
    exact has

end Discipline

end Semantics

/-! ## Queues -/

/-- Nobody queues for a PI futex that nobody owns. -/
def State.Attended (s : State A P T L) : Prop :=
  ∀ t p l x, s.thread t = .queued (.pi p) l x → s.owner p ≠ none

namespace State.Attended

variable {s : State A P T L}

section Threads

variable [DecidableEq T]

/-- A thread goes on, or queues for a futex that has an owner. -/
theorem put (attended : s.Attended) {t : T} {x : Status A P L}
    (behind : ∀ p l l', x = .queued (.pi p) l l' → s.owner p ≠ none) : (s.put t x).Attended := by
  intro u p l l' queued
  by_cases hu : u = t
  · subst hu
    rw [put_self] at queued
    exact behind p l l' queued
  · rw [put_of_ne _ hu] at queued
    exact attended u p l l' queued

/-- Sleepers wake up. -/
theorem rouse (attended : s.Attended) (woken : Finset T) : (s.rouse woken).Attended := by
  intro u p l l' queued
  by_cases hu : u ∈ woken
  · simp [State.rouse, hu] at queued
  · simp only [State.rouse, hu, if_false] at queued
    exact attended u p l l' queued

/-- After a requeue those queue for a futex that did so before, and those that were taken. -/
theorem queued_of_requeue {q p : P} {taken : Finset T} {u : T} {l : L} {x : Option L}
    (queued : (s.requeue q taken).thread u = .queued (.pi p) l x) :
    s.thread u = .queued (.pi p) l x ∨ p = q ∧ u ∈ taken := by
  by_cases hu : u ∈ taken
  · simp only [State.requeue, hu, if_true] at queued
    cases here : s.thread u with
    | queued r k x' =>
      rw [here] at queued
      cases queued
      exact .inr ⟨rfl, hu⟩
    | unborn k | ready k | asleep a k =>
      rw [here] at queued
      cases queued
  · simp only [State.requeue, hu, if_false] at queued
    exact .inl queued

/-- Threads move to the queue of a futex that has an owner. -/
theorem requeue (attended : s.Attended) {q : P} (taken : Finset T)
    (owned : taken ≠ ∅ → s.owner q ≠ none) : (s.requeue q taken).Attended := by
  intro u p l x queued
  rcases queued_of_requeue queued with before | ⟨rfl, member⟩
  · exact attended u p l x before
  · exact owned (Finset.ne_empty_of_mem member)

end Threads

section Words

variable [DecidableEq P]

/-- A futex gets an owner, whatever the queues were before. -/
theorem own {q : P} (o : T)
    (attended : ∀ t p l x, s.thread t = .queued (.pi p) l x → p ≠ q → s.owner p ≠ none) :
    (s.own q (some o)).Attended := by
  intro u p l x queued
  by_cases hp : p = q
  · subst hp
    simp [State.own]
  · rw [show (s.own q (some o)).owner p = s.owner p by simp [State.own, hp]]
    exact attended u p l x queued hp

/-- A futex that nobody queues for loses its owner. -/
theorem free [DecidableEq A] [Fintype T] (attended : s.Attended) {q : P}
    (empty : s.queue (.pi q) = ∅) : (s.own q none).Attended := by
  intro u p l x queued
  have other : p ≠ q := by
    rintro rfl
    have member : u ∈ s.queue (.pi p) := s.mem_queue.mpr ⟨l, x, queued⟩
    simp [empty] at member
  rw [show (s.own q none).owner p = s.owner p by simp [State.own, other]]
  exact attended u p l x queued

end Words

end State.Attended

section Semantics

variable [DecidableEq A] [DecidableEq P] [DecidableEq T] [Fintype T]
variable {M : Program A P T L} {start s s' : State A P T L} {e : Event A P T L}

theorem State.Attended.perform (attended : s.Attended) {t : T} {c : Kernel T} {op : Op A P T L}
    {access : Access A P T} (performed : op.perform M s t c = some (access, s')) :
    s'.Attended := by
  cases Op.does_of_perform performed with
  | wake a n k woken asleep many => exact put (attended.rouse woken) (by simp)
  | locked p k free => exact put (own t fun u q l x queued _ => attended u q l x queued) (by simp)
  | blocked p k u owner other =>
    refine put attended ?_
    intro q l l' behind
    cases behind
    simp [owner]
  | unlocked p k own nobody => exact put (attended.free nobody) (by simp)
  | handed p k u owner queued =>
    have given := own (q := p) u fun v q l x queued _ => attended v q l x queued
    exact put (put given (by simp)) (by simp)
  | requeued a v p nrWake nrRequeue k taken takes owned =>
    exact put (attended.requeue taken fun some => owned.resolve_right some) (by simp)
  | granted a v p nrWake nrRequeue k taken u takes free member =>
    -- the futex had no owner, so that only those just moved queue for it
    have given : ((s.requeue p taken).own p (some u)).Attended := by
      refine own u ?_
      intro v q l x queued ne
      rcases queued_of_requeue queued with before | ⟨same, -⟩
      · exact attended v q l x before
      · exact absurd same ne
    exact put (put given (by simp)) (by simp)
  | create u k l unborn => exact put (put attended (by simp)) (by simp)
  | _ => exact put attended (by simp)

/-- Who locks a futex that it does not own gets it or queues for it. -/
theorem Step.locks (step : Step M s e s') {p : P} {k : SysResult → L}
    (ready : s.thread e.thread = .ready e.pc) (op : M e.thread e.pc = .lockPi p k)
    (other : s.owner p ≠ some e.thread) : s'.thread e.thread = .ready (k (.ok 0)) ∨
      s'.thread e.thread = .queued (.pi p) (k (.ok 0)) none := by
  have does := step.does ready
  rw [op] at does
  generalize e.access = access at does
  cases does with
  | locked => exact .inl (State.put_self _ _ _)
  | deadlock _ _ own => exact absurd own other
  | blocked => exact .inr (State.put_self _ _ _)

/-- The owner of a futex can unlock it. -/
theorem Step.unlocks (step : Step M s e s') {p : P} {k : SysResult → L}
    (ready : s.thread e.thread = .ready e.pc) (op : M e.thread e.pc = .unlockPi p k)
    (owner : s.owner p = some e.thread) : s'.thread e.thread = .ready (k (.ok 0)) := by
  have does := step.does ready
  rw [op] at does
  generalize e.access = access at does
  cases does with
  | unlocked | handed => exact State.put_self _ _ _
  | notOwner _ _ other => exact absurd owner other

/-- **Queues.** In every reachable state of any program, a PI futex that somebody queues for
has an owner. -/
theorem attended_of_reachable (initial : start.Attended) (reach : (machine M start).Reachable s) :
    s.Attended := by
  have inv : (machine M start).Invariant State.Attended := by
    constructor
    · rintro s rfl
      exact initial
    · intro s e s' _ attended step
      cases step with
      | run running performed => exact attended.perform performed
      | resume sleeping => exact attended.put (by simp)
      | expire waiting => exact attended.put (by simp)
  exact inv.of_reachable reach

end Semantics

end PiFutex
