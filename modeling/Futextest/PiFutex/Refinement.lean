import Futextest.PiFutex.Calls

/-!
# PI futexes as one of the kernels

The machine with PI futexes does in one step what takes two under a kernel that is a
parameter, the entry and the return of a call, and it lets a thread go on at the moment
another one wakes it. So its runs are runs under the kernel that lets every call return
anything: the threads enter their calls when they come to them, and return from them with
what they were given as soon as they have something to do.

## Main definitions

* `Lags` — a thread is still in the call that it has returned from
* `Follows` — the cells are the same, and no thread does more than lag

## Main results

* `exists_anyRun` — every run is matched under the kernel that allows anything
-/

namespace PiFutex

variable {A P T L : Type}

/-- The status of a thread on PI futexes, and one under any kernel: it is the same, or the
thread is in a call whose returns are all that it continues at. -/
inductive Lags (M : Program A P T L) (t : T) : Status A P L → Syscalls.Status L → Prop
  | unborn (l : L) : Lags M t (.unborn l) (.unborn l)
  | ready (l : L) : Lags M t (.ready l) (.ready l)
  | calling (x : Status A P L) (pc : L) (c : Call A P) (k : SysResult → L)
      (op : (M t pc).toSyscalls = .call c k) (returns : x.Holds fun l => ∃ r, l = k r)
      (born : ∀ l, x ≠ .unborn l) : Lags M t x (.calling pc)

/-- Under any kernel the threads have the same cells and do no more than lag. -/
structure Follows (M : Program A P T L) (s : State A P T L) (v : Syscalls.State A T L Unit) :
    Prop where
  mem : v.mem = s.mem
  thread : ∀ t, Lags M t (s.thread t) (v.thread t)

variable {M : Program A P T L}

theorem Lags.eq_unborn {t : T} {l : L} {y : Syscalls.Status L} (lags : Lags M t (.unborn l) y) :
    y = .unborn l := by
  generalize hx : (Status.unborn l : Status A P L) = x at lags
  cases lags with
  | unborn l' => rw [(Status.unborn.inj hx)]
  | ready l' => cases hx
  | calling x pc c k op returns born => exact absurd hx.symm (born l)

/-- What another thread does to a thread that it does not create. -/
theorem Lags.passive {t : T} {creates taken : Prop} {x x' : Status A P L} {y : Syscalls.Status L}
    (lags : Lags M t x y) (passive : Passive creates taken x x') (not_new : ¬ creates) :
    Lags M t x' y := by
  cases lags with
  | unborn l =>
    cases passive with
    | same => exact .unborn l
    | created _ create => exact absurd create not_new
  | ready l =>
    cases passive with
    | same => exact .ready l
  | calling x pc c k op returns born =>
    refine .calling x' pc c k op (passive.holds returns) ?_
    intro l unborn
    cases passive with
    | same => exact born l unborn
    | _ => cases unborn

/-- A call continues at what it returns. -/
theorem Op.leads_call {op : Op A P T L} {c : Call A P} {k : SysResult → L} {mem : A → ℤ}
    (calls : op.toSyscalls = .call c k) : op.Leads mem fun l => ∃ r, l = k r := by
  cases op with
  | wake a n k' =>
    obtain ⟨-, rfl⟩ := Syscalls.Op.call.inj calls
    exact ⟨.ok 0, rfl⟩
  | wait a v k' | lockPi p k' | unlockPi p k' | waitRequeuePi a v p timeout k'
  | cmpRequeuePi a v p nrWake nrRequeue k' =>
    obtain ⟨-, rfl⟩ := Syscalls.Op.call.inj calls
    exact fun r => ⟨r, rfl⟩
  | _ => cases calls

/-- A thread is never unborn after its own operation. -/
theorem Op.Leaves.born {mem : A → ℤ} {op : Op A P T L} {x : Status A P L}
    (leaves : op.Leaves mem x) (l : L) : x ≠ .unborn l := by
  intro unborn
  rw [unborn] at leaves
  cases leaves

section Cells

variable [DecidableEq A]

/-- A call changes no cell. -/
theorem Op.cells_call {op : Op A P T L} {c : Call A P} {k : SysResult → L} {mem : A → ℤ}
    (calls : op.toSyscalls = .call c k) : op.cells mem = mem := by
  cases op <;> first | rfl | cases calls

/-- An operation that needs nobody else does the same under any kernel. -/
theorem Op.Leaves.next {mem : A → ℤ} {op : Op A P T L} {x : Status A P L}
    (leaves : op.Leaves mem x) (alone : op.toSyscalls.isLocal = true)
    (Q : Syscalls.Program A (Call A P) T L) (loc : T → L) :
    ∃ access l, op.toSyscalls.Next Q mem loc access (op.cells mem) l ∧ x = .ready l := by
  cases leaves with
  | tau k => exact ⟨_, _, .tau k, rfl⟩
  | load a k => exact ⟨_, _, .load a k, rfl⟩
  | store a v k => exact ⟨_, _, .store a v k, rfl⟩
  | inc a k => exact ⟨_, _, .inc a k, rfl⟩
  | _ => cases alone

end Cells

/-! ## Matching runs -/

section Runs

variable [DecidableEq A] [DecidableEq T]
variable {start s s' : State A P T L} {e : Event A P T L}
variable {w : List (Syscalls.Event A (Call A P) T L)} {v v' : Syscalls.State A T L Unit}

/-- The machine under the kernel that lets every call return anything. -/
abbrev anyMachine (M : Program A P T L) (start : State A P T L) :
    System (Syscalls.State A T L Unit) (Syscalls.Event A (Call A P) T L) :=
  Syscalls.machine Syscalls.Kernel.any M.toSyscalls start.toSyscalls

/-- A thread that has returned from its call here returns from it there. -/
theorem Follows.catch_up (follows : Follows M s v) (run : (anyMachine M start).Run w v) {t : T}
    {l : L} (ready : s.thread t = .ready l) :
    ∃ w' v', (anyMachine M start).Run w' v' ∧ Follows M s v' ∧ v'.thread t = .ready l ∧
      ∀ u ≠ t, v'.thread u = v.thread u := by
  have lags := follows.thread t
  rw [ready] at lags
  generalize there : v.thread t = y at lags
  cases lags with
  | ready l => exact ⟨w, v, run, follows, there, fun _ _ => rfl⟩
  | calling x pc c k op returns born =>
    obtain ⟨r, rfl⟩ := returns
    have returned := run.next (Syscalls.Step.leave (r := r) (κ := ()) there op rfl)
    have after : (v.put t (.ready (k r))).thread t = .ready (k r) := Syscalls.State.put_self _ _ _
    refine ⟨_, _, returned, ⟨follows.mem, ?_⟩, after, fun u ne => Syscalls.State.put_of_ne _ ne _⟩
    intro u
    change Lags M u _ ((v.put t (.ready (k r))).thread u)
    by_cases hu : u = t
    · subst hu
      rw [after, ready]
      exact .ready _
    · rw [Syscalls.State.put_of_ne _ hu]
      exact follows.thread u

variable [DecidableEq P] [Fintype T]

/-- Where the thread that takes a step goes on there as it does here, the others follow. -/
theorem Follows.of_own (follows : Follows M s v) (step : Step M s e s') (mem : v'.mem = s'.mem)
    (own : Lags M e.thread (s'.thread e.thread) (v'.thread e.thread))
    (others : ∀ u ≠ e.thread, v'.thread u = v.thread u ∧
        ¬ (s.thread e.thread = .ready e.pc ∧ ∃ k, M e.thread e.pc = .create u k) ∨
      Lags M u (s'.thread u) (v'.thread u)) : Follows M s' v' := by
  refine ⟨mem, ?_⟩
  intro u
  by_cases hu : u = e.thread
  · subst hu
    exact own
  · rcases others u hu with ⟨same, old⟩ | new
    · rw [same]
      exact (follows.thread u).passive (step.passive hu) old
    · exact new

/-- A thread enters the call that it makes here, and may lag from then on. -/
theorem Follows.call (follows : Follows M s v) (run : (anyMachine M start).Run w v)
    (step : Step M s e s') (ready : s.thread e.thread = .ready e.pc)
    (here : v.thread e.thread = .ready e.pc) {c : Call A P} {k : SysResult → L}
    (op : (M e.thread e.pc).toSyscalls = .call c k)
    (leaves : (M e.thread e.pc).Leaves s.mem (s'.thread e.thread)) :
    ∃ w' v', (anyMachine M start).Run w' v' ∧ Follows M s' v' := by
  have entered := run.next (Syscalls.Step.enter (κ := ()) here op rfl)
  have inside : (v.put e.thread (.calling e.pc)).thread e.thread = .calling e.pc :=
    Syscalls.State.put_self _ _ _
  refine ⟨_, _, entered, follows.of_own step ?_ ?_ ?_⟩
  · rw [step.cells.1 ready, Op.cells_call op]
    exact follows.mem
  · change Lags M e.thread _ ((v.put e.thread (.calling e.pc)).thread e.thread)
    rw [inside]
    exact .calling _ e.pc c k op ((Op.leads_call op).of_leaves leaves) leaves.born
  · intro u other
    refine .inl ⟨Syscalls.State.put_of_ne _ other _, ?_⟩
    rintro ⟨-, k', creates⟩
    rw [creates] at op
    cases op

/-- A thread does the same there if it needs nobody else for it. -/
theorem Follows.alone (follows : Follows M s v) (run : (anyMachine M start).Run w v)
    (step : Step M s e s') (ready : s.thread e.thread = .ready e.pc)
    (here : v.thread e.thread = .ready e.pc)
    (alone : (M e.thread e.pc).toSyscalls.isLocal = true)
    (leaves : (M e.thread e.pc).Leaves s.mem (s'.thread e.thread)) :
    ∃ w' v', (anyMachine M start).Run w' v' ∧ Follows M s' v' := by
  obtain ⟨access, l, next, after⟩ := leaves.next alone M.toSyscalls v.loc
  rw [← follows.mem] at next
  obtain ⟨v', step', mem, -, thread⟩ :=
    Syscalls.exists_step (Q := Syscalls.Kernel.any) here alone next
  refine ⟨_, v', run.next step', follows.of_own step ?_ ?_ ?_⟩
  · rw [mem, step.cells.1 ready, follows.mem]
  · rw [thread, Function.update_self, after]
    exact .ready l
  · intro u other
    refine .inl ⟨by rw [thread, Function.update_of_ne other], ?_⟩
    rintro ⟨-, k', creates⟩
    rw [creates] at alone
    cases alone

/-- A thread creates the same one there. -/
theorem Follows.create (follows : Follows M s v) (run : (anyMachine M start).Run w v)
    (step : Step M s e s') (ready : s.thread e.thread = .ready e.pc)
    (here : v.thread e.thread = .ready e.pc) {u : T} {k : L}
    (op : M e.thread e.pc = .create u k)
    (leaves : (M e.thread e.pc).Leaves s.mem (s'.thread e.thread)) :
    ∃ w' v', (anyMachine M start).Run w' v' ∧ Follows M s' v' := by
  obtain ⟨l, unborn, runs⟩ := step.of_create ready op
  have new : v.thread u = .unborn l := (unborn ▸ follows.thread u).eq_unborn
  have performed : (M.toSyscalls e.thread e.pc).perform M.toSyscalls v e.thread =
      some (.create u, (v.put u (.ready l)).put e.thread (.ready k)) := by
    rw [Program.toSyscalls, op]
    simp only [Op.toSyscalls, Syscalls.Op.perform, new]
  have cells := step.cells.1 ready
  rw [op] at cells leaves
  refine ⟨_, _, run.next (.run here performed), follows.of_own step ?_ ?_ ?_⟩
  · rw [cells]
    exact follows.mem
  · generalize s'.thread e.thread = x at leaves
    cases leaves
    rw [Syscalls.State.put_self]
    exact .ready k
  · intro t ne
    by_cases created : t = u
    · subst created
      refine .inr ?_
      rw [Syscalls.State.put_of_ne _ ne, Syscalls.State.put_self, runs]
      exact .ready l
    · refine .inl ⟨?_, ?_⟩
      · rw [Syscalls.State.put_of_ne _ ne, Syscalls.State.put_of_ne _ created]
      · rintro ⟨-, k', creates⟩
        exact created (Op.create.inj (op.symm.trans creates)).1.symm

/-- A thread joins the same one there, once that has left its last call. -/
theorem Follows.join (follows : Follows M s v) (run : (anyMachine M start).Run w v)
    (step : Step M s e s') (ready : s.thread e.thread = .ready e.pc)
    (here : v.thread e.thread = .ready e.pc) {u : T} {k : L}
    (op : M e.thread e.pc = .join u k)
    (leaves : (M e.thread e.pc).Leaves s.mem (s'.thread e.thread)) :
    ∃ w' v', (anyMachine M start).Run w' v' ∧ Follows M s' v' := by
  obtain ⟨l, up, exits⟩ := State.finished_iff.mp (step.finished_of_join ready op)
  have other : e.thread ≠ u := by
    intro same
    rw [← same] at up exits
    rw [Status.ready.inj (ready.symm.trans up), exits] at op
    cases op
  obtain ⟨w₁, v₁, run₁, follows₁, there, others⟩ := follows.catch_up run up
  have ended : v₁.finished M.toSyscalls u = true := by
    simp [Syscalls.State.finished, there, Program.toSyscalls, exits]
  have joins : M.toSyscalls e.thread e.pc = .join u k := by rw [Program.toSyscalls, op]; rfl
  obtain ⟨v', step', mem, -, thread⟩ :=
    Syscalls.exists_join (Q := Syscalls.Kernel.any) ((others _ other).trans here) joins ended
  have cells := step.cells.1 ready
  rw [op] at cells leaves
  refine ⟨_, v', run₁.next step', follows₁.of_own step ?_ ?_ ?_⟩
  · rw [mem, cells]
    exact follows₁.mem
  · generalize s'.thread e.thread = x at leaves
    cases leaves
    rw [thread, Function.update_self]
    exact .ready k
  · intro t ne
    refine .inl ⟨by rw [thread, Function.update_of_ne ne], ?_⟩
    rintro ⟨-, k', creates⟩
    rw [op] at creates
    cases creates

/-- A thread that returns from its wait here only lags there. -/
theorem Follows.wait (follows : Follows M s v) (step : Step M s e s')
    (waits : ∀ l, s.thread e.thread ≠ .unborn l ∧ s.thread e.thread ≠ .ready l)
    (awake : ∃ l, s'.thread e.thread = .ready l ∧
      ∀ Q : L → Prop, (s.thread e.thread).Holds Q → Q l) : Follows M s' v := by
  obtain ⟨l, awake, continues⟩ := awake
  have lags := follows.thread e.thread
  refine follows.of_own step ?_ ?_ ?_
  · rw [follows.mem, step.cells.2 (waits e.pc).2]
  · rw [awake]
    generalize s.thread e.thread = x at lags waits continues
    generalize v.thread e.thread = y at lags ⊢
    cases lags with
    | unborn l => exact absurd rfl (waits l).1
    | ready l => exact absurd rfl (waits l).2
    | calling _ pc c k op returns born =>
      exact .calling _ pc c k op (continues _ returns) (by simp)
  · intro u other
    exact .inl ⟨rfl, fun creates => (waits e.pc).2 creates.1⟩

/-- Each step is matched: by no step, or by returns and the operation. -/
theorem Follows.step (follows : Follows M s v) (run : (anyMachine M start).Run w v)
    (step : Step M s e s') : ∃ w' v', (anyMachine M start).Run w' v' ∧ Follows M s' v' := by
  rcases step.active with ⟨ready, leaves⟩ | ⟨a, asleep, awake⟩ | ⟨q, x, queued, awake⟩
  · obtain ⟨w₁, v₁, run₁, follows₁, here, -⟩ := follows.catch_up run ready
    cases op : M e.thread e.pc with
    | tau k | load a k | store a v k | inc a k =>
      exact follows₁.alone run₁ step ready here (by rw [op]; rfl) leaves
    | create u k => exact follows₁.create run₁ step ready here op leaves
    | join u k => exact follows₁.join run₁ step ready here op leaves
    | exit =>
      rw [op] at leaves
      cases leaves
    | _ => exact follows₁.call run₁ step ready here (by rw [op]; rfl) leaves
  · exact ⟨w, v, run, follows.wait step (by simp [asleep])
      ⟨e.pc, awake, fun Q held => by rwa [asleep] at held⟩⟩
  · refine ⟨w, v, run, follows.wait step (by simp [queued]) ⟨x, awake, ?_⟩⟩
    intro Q held
    rw [queued] at held
    exact held.2 x rfl

/-- **Any kernel.** Every run of threads on PI futexes is matched by one under the kernel
that lets every call return anything, with the same cells, in which the threads that are
awake are where they are here. -/
theorem exists_anyRun
    (fresh : ∀ t, (∃ l, start.thread t = .unborn l) ∨ ∃ l, start.thread t = .ready l)
    (reach : (machine M start).Reachable s) :
    ∃ w v, (anyMachine M start).Run w v ∧ Follows M s v ∧
      ∀ t l, s.thread t = .ready l → v.thread t = .ready l := by
  obtain ⟨w', run⟩ := reach
  have lagging : ∃ w v, (anyMachine M start).Run w v ∧ Follows M s v := by
    refine run.induction (P := fun _ s => ∃ w v, (anyMachine M start).Run w v ∧ Follows M s v)
      ?_ ?_
    · rintro s rfl
      refine ⟨[], _, .start rfl, rfl, ?_⟩
      intro t
      rcases fresh t with ⟨l, here⟩ | ⟨l, here⟩ <;> simp only [State.toSyscalls, here]
      · exact .unborn l
      · exact .ready l
    · rintro w s e s' _ ⟨w, v, run, follows⟩ step
      exact follows.step run step
  -- one after the other the threads catch up
  suffices all : ∀ F : Finset T, ∃ w v, (anyMachine M start).Run w v ∧ Follows M s v ∧
      ∀ t ∈ F, ∀ l, s.thread t = .ready l → v.thread t = .ready l by
    obtain ⟨w, v, run, follows, ready⟩ := all Finset.univ
    exact ⟨w, v, run, follows, fun t => ready t (Finset.mem_univ t)⟩
  intro F
  induction F using Finset.induction with
  | empty =>
    obtain ⟨w, v, run, follows⟩ := lagging
    exact ⟨w, v, run, follows, by simp⟩
  | insert t F _ ih =>
    obtain ⟨w, v, run, follows, ready⟩ := ih
    by_cases up : ∃ l, s.thread t = .ready l
    · obtain ⟨l, up⟩ := up
      obtain ⟨w', v', run', follows', here, others⟩ := follows.catch_up run up
      refine ⟨w', v', run', follows', ?_⟩
      intro u member l' awake
      by_cases hu : u = t
      · subst hu
        rw [here, Status.ready.inj (up.symm.trans awake)]
      · rw [others u hu]
        exact ready u ((Finset.mem_insert.mp member).resolve_left hu) l' awake
    · refine ⟨w, v, run, follows, ?_⟩
      intro u member l' awake
      rcases Finset.mem_insert.mp member with rfl | member
      · exact absurd ⟨l', awake⟩ up
      · exact ready u member l' awake

end Runs

end PiFutex
