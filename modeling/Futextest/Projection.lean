import Futextest.FutexMachine

/-!
# A machine seen as one of its components

A program that calls procedures on words of its own can be looked at one
procedure at a time. Fix a component machine with fewer words, and a relation
between the control points of a thread and those of its component: inside the
procedure the two run in step, and everywhere else the component waits. Then
every reachable state of the whole machine has a reachable component state below
it, so what is proved of the component once holds inside every program that
contains it.

## Main definitions

* `FutexMachine.Tracks` — at these control points, the operation of the whole
  program is one of the component, or none of the component's business
* `FutexMachine.Projects` — the component state seen in a state of the machine
* `FutexMachine.Shadow` — the component's steps among those of a run

## Main results

* `Projects.step_shown` — each step is a step of the component or leaves it alone
* `exists_component_run` — below every run lies a run of the component
* `exists_component` — below every reachable state lies a reachable component
  state
-/

namespace FutexMachine

variable {A B T L L' : Type}

/-- The operation of the whole program and that of the component, at related
control points: the same instruction of a common procedure, or an operation on
words outside the component after which the component is where it was. -/
inductive Tracks (embed : B → A) (R : L → L' → Prop) (l' : L') :
    Op A T L → Op B T L' → Prop
  | call {P : Type} (i : Instr B P) (g : P → L) (g' : P → L') (related : ∀ p, R (g p) (g' p)) :
      Tracks embed R l' (.instr (i.map embed g)) (.instr (i.map id g'))
  | away {P C : Type} (i : Instr C P) (f : C → A) (g : P → L) (op : Op B T L')
      (outside : ∀ c b, f c ≠ embed b) (related : ∀ p, R (g p) l') :
      Tracks embed R l' (.instr (i.map f g)) op
  | tau (k : L) (op : Op B T L') (related : R k l') : Tracks embed R l' (.instr (.tau k)) op
  | create (u : T) (k : L) (op : Op B T L') (related : R k l') :
      Tracks embed R l' (.create u k) op
  | join (u : T) (k : L) (op : Op B T L') (related : R k l') :
      Tracks embed R l' (.join u k) op
  | exit (op : Op B T L') : Tracks embed R l' .exit op

/-- How the status of a thread shows in the component. A thread that sleeps
elsewhere, or is not created yet, is one that does not move. -/
inductive StatusTracks (embed : B → A) (R : L → L' → Prop) : Status A L → Status B L' → Prop
  | unborn {l : L} {l' : L'} (related : R l l') :
      StatusTracks embed R (.unborn l) (.ready l')
  | ready {l : L} {l' : L'} (related : R l l') :
      StatusTracks embed R (.ready l) (.ready l')
  | asleep {b : B} {l : L} {l' : L'} (related : R l l') :
      StatusTracks embed R (.asleep (embed b) l) (.asleep b l')
  | elsewhere {a : A} {l : L} {l' : L'} (outside : ∀ b, a ≠ embed b) (related : R l l') :
      StatusTracks embed R (.asleep a l) (.ready l')

/-- The component state seen in a state of the whole machine. -/
structure Projects (embed : B → A) (R : T → L → L' → Prop) (s : State A T L)
    (u : State B T L') : Prop where
  mem : ∀ b, s.mem (embed b) = u.mem b
  thread : ∀ t, StatusTracks embed (R t) (s.thread t) (u.thread t)

theorem StatusTracks.related {embed : B → A} {R : L → L' → Prop} {x : Status A L}
    {y : Status B L'} (tracks : StatusTracks embed R x y) : R x.loc y.loc := by
  cases tracks <;> assumption

/-- A thread that is awake shows as awake. -/
theorem StatusTracks.of_ready {embed : B → A} {R : L → L' → Prop} {l : L} {y : Status B L'}
    (tracks : StatusTracks embed R (.ready l) y) : ∃ l', y = .ready l' ∧ R l l' := by
  cases tracks with
  | ready related => exact ⟨_, rfl, related⟩

/-- A thread that is asleep in the component is asleep on that very word. -/
theorem StatusTracks.of_asleep {embed : B → A} {R : L → L' → Prop} {x : Status A L} {b : B}
    {l' : L'} (tracks : StatusTracks embed R x (.asleep b l')) :
    ∃ l, x = .asleep (embed b) l ∧ R l l' := by
  cases tracks with
  | asleep related => exact ⟨_, rfl, related⟩

/-- A thread asleep on a word of the component is asleep in it. -/
theorem StatusTracks.asleep_embed {embed : B → A} {R : L → L' → Prop} {b : B} {l : L}
    {y : Status B L'} (inj : Function.Injective embed)
    (tracks : StatusTracks embed R (.asleep (embed b) l) y) : ∃ l', y = .asleep b l' ∧ R l l' := by
  generalize hb : embed b = a at tracks
  cases tracks with
  | asleep related => exact ⟨_, by rw [inj hb], related⟩
  | elsewhere outside _ => exact absurd hb.symm (outside b)

/-! ## The accesses -/

/-- The word of an access. -/
def Access.addr : Access A T → Option A
  | .load a _ => some a
  | .store a _ => some a
  | .cmpxchg a _ _ _ => some a
  | .dec a _ => some a
  | .wait a _ _ => some a
  | .wake a _ _ => some a
  | _ => none

/-- An access of the component, as the whole machine shows it. -/
def Access.map (f : B → A) : Access B T → Access A T
  | .tau => .tau
  | .load b got => .load (f b) got
  | .store b v => .store (f b) v
  | .cmpxchg b old new got => .cmpxchg (f b) old new got
  | .dec b result => .dec (f b) result
  | .wait b v slept => .wait (f b) v slept
  | .wake b n woken => .wake (f b) n woken
  | .create t => .create t
  | .join t => .join t
  | .resume => .resume

/-- At the control points `inside`, the operations of the two programs are the same
instruction of a common procedure. -/
def Calls (embed : B → A) (R : T → L → L' → Prop) (inside : T → L → Bool) (M : Program A T L)
    (N : Program B T L') : Prop :=
  ∀ t l l', R t l l' → inside t l = true → ∃ (P : Type) (i : Instr B P) (g : P → L) (g' : P → L'),
    M t l = .instr (i.map embed g) ∧ N t l' = .instr (i.map id g') ∧ ∀ p, R t (g p) (g' p)

theorem Calls.none {embed : B → A} {R : T → L → L' → Prop} {M : Program A T L}
    {N : Program B T L'} : Calls embed R (fun _ _ => false) M N := by
  intro t l l' _ inside
  cases inside

/-- The steps of a run, and those of them that the component takes. Each step of the
component is one of the run, with the same access; the others touch none of its words, and
are not inside the common procedures unless they are returns of waits. -/
inductive Shadow (embed : B → A) (inside : T → L → Bool) :
    List (Event A T L) → List (Event B T L') → Prop
  | nil : Shadow embed inside [] []
  | still {w : List (Event A T L)} {w' : List (Event B T L')} {e : Event A T L}
      (before : Shadow embed inside w w') (outside : ∀ b, e.access.addr ≠ some (embed b))
      (silent : inside e.thread e.pc = true → e.access = .resume) :
      Shadow embed inside (w ++ [e]) w'
  | both {w : List (Event A T L)} {w' : List (Event B T L')} {e : Event A T L}
      {e' : Event B T L'} (before : Shadow embed inside w w') (thread : e'.thread = e.thread)
      (access : e.access = e'.access.map embed) : Shadow embed inside (w ++ [e]) (w' ++ [e'])

/-- What is read off the accesses to the words of the component is the same in a run and
in its shadow. -/
theorem Shadow.filterMap {γ : Type} {embed : B → A} {inside : T → L → Bool}
    {w : List (Event A T L)} {w' : List (Event B T L')} (shadow : Shadow embed inside w w')
    (obs : T → Access A T → Option γ) (obs' : T → Access B T → Option γ)
    (same : ∀ t a, obs t (a.map embed) = obs' t a)
    (none : ∀ t a, (∀ b, a.addr ≠ some (embed b)) → obs t a = none) :
    w'.filterMap (fun e => obs' e.thread e.access) =
      w.filterMap fun e => obs e.thread e.access := by
  induction shadow with
  | nil => rfl
  | still _ outside _ ih =>
    rw [List.filterMap_append, ih]
    simp [none _ _ outside]
  | both _ thread access ih =>
    rw [List.filterMap_append, List.filterMap_append, ih, List.filterMap_cons,
      List.filterMap_cons, thread, access, same]
    rfl

variable {embed : B → A} {R : T → L → L' → Prop}
variable {s s' : State A T L} {u : State B T L'}

/-- The control points are related. -/
theorem Projects.loc (proj : Projects embed R s u) (t : T) : R t (s.loc t) (u.loc t) :=
  (proj.thread t).related

section Words

variable [DecidableEq A] [DecidableEq B]

/-- The same threads sleep on a word of the component, seen from either side. -/
theorem Projects.sleepers [Fintype T] (inj : Function.Injective embed)
    (proj : Projects embed R s u) (b : B) :
    s.sleepers (embed b) = u.sleepers b := by
  ext t
  rw [State.mem_sleepers, State.mem_sleepers]
  have tracks := proj.thread t
  constructor
  · rintro ⟨l, asleep⟩
    rw [asleep] at tracks
    obtain ⟨l', shown, -⟩ := tracks.asleep_embed inj
    exact ⟨l', shown⟩
  · rintro ⟨l', asleep⟩
    rw [asleep] at tracks
    obtain ⟨l, hl, -⟩ := tracks.of_asleep
    exact ⟨l, hl⟩

/-- A word of the component is written in both. -/
theorem Projects.write (inj : Function.Injective embed) (proj : Projects embed R s u) (b : B)
    (v : UInt32) : Projects embed R (s.write (embed b) v) (u.write b v) := by
  refine ⟨fun c => ?_, proj.thread⟩
  by_cases hc : c = b
  · subst hc; simp
  · simp [hc, inj.ne hc, proj.mem c]

omit [DecidableEq B] in
/-- A word outside the component is written. -/
theorem Projects.write_left (proj : Projects embed R s u) {a : A} (outside : ∀ b, a ≠ embed b)
    (v : UInt32) : Projects embed R (s.write a v) u := by
  refine ⟨fun b => ?_, proj.thread⟩
  rw [State.write_mem, Function.update_of_ne (outside b).symm]
  exact proj.mem b

end Words

section Threads

variable [DecidableEq T]

/-- The thread moves on while the component stays. -/
theorem Projects.goto_left (proj : Projects embed R s u) {t : T} {l : L} {l' : L'}
    (ready : u.thread t = .ready l') (related : R t l l') : Projects embed R (s.goto t l) u := by
  refine ⟨proj.mem, fun v => ?_⟩
  by_cases hv : v = t
  · subst hv
    rw [State.goto_self, ready]
    exact .ready related
  · rw [State.goto_of_ne _ hv]
    exact proj.thread v

/-- The thread moves on in both. -/
theorem Projects.goto (proj : Projects embed R s u) {t : T} {l : L} {l' : L'}
    (related : R t l l') : Projects embed R (s.goto t l) (u.goto t l') := by
  refine ⟨proj.mem, fun v => ?_⟩
  by_cases hv : v = t
  · subst hv
    rw [State.goto_self, State.goto_self]
    exact .ready related
  · rw [State.goto_of_ne _ hv, State.goto_of_ne _ hv]
    exact proj.thread v

end Threads

section Steps

variable [DecidableEq A] [DecidableEq B] [DecidableEq T] [Fintype T]

/-- Threads are roused from a word of the component in both. -/
theorem Projects.rouse (inj : Function.Injective embed) (proj : Projects embed R s u) {b : B}
    {woken : Finset T} (subset : woken ⊆ s.sleepers (embed b)) :
    Projects embed R (s.rouse woken) (u.rouse woken) := by
  refine ⟨proj.mem, fun v => ?_⟩
  rw [State.rouse_thread, State.rouse_thread]
  by_cases hv : v ∈ woken
  · have tracks := proj.thread v
    obtain ⟨l', hl'⟩ := u.mem_sleepers.mp (proj.sleepers inj b ▸ subset hv)
    rw [hl'] at tracks
    obtain ⟨l, hl, related⟩ := tracks.of_asleep
    have roused : StatusTracks embed (R v) (.ready l) (.ready l') := .ready related
    simpa [hv, hl, hl'] using roused
  · simpa [hv] using proj.thread v

omit [DecidableEq B] in
/-- Threads are roused from a word outside the component. -/
theorem Projects.rouse_left (proj : Projects embed R s u) {a : A} {woken : Finset T}
    (outside : ∀ b, a ≠ embed b) (subset : woken ⊆ s.sleepers a) :
    Projects embed R (s.rouse woken) u := by
  refine ⟨proj.mem, fun v => ?_⟩
  rw [State.rouse_thread]
  by_cases hv : v ∈ woken
  · have tracks := proj.thread v
    obtain ⟨l, hl⟩ := s.mem_sleepers.mp (subset hv)
    rw [hl] at tracks
    rw [if_pos hv, hl]
    generalize hy : u.thread v = y at tracks
    cases tracks with
    | asleep related => exact absurd rfl (outside _)
    | elsewhere _ related => exact .ready related
  · simpa [hv] using proj.thread v

/-- An instruction of a common procedure is performed in both. -/
theorem Projects.perform (inj : Function.Injective embed) (proj : Projects embed R s u) {t : T}
    {P : Type} {i : Instr B P} {g : P → L} {g' : P → L'} (related : ∀ p, R t (g p) (g' p))
    {woken : Finset T} {access : Access A T}
    (performed : (i.map embed g).perform s t woken = some (access, s')) :
    ∃ access' u',
      (i.map id g').perform u t woken = some (access', u') ∧ Projects embed R s' u' := by
  cases i with
  | tau k =>
    simp only [Instr.map, Instr.perform, Option.some.injEq, Prod.mk.injEq] at performed
    obtain ⟨-, rfl⟩ := performed
    exact ⟨_, _, rfl, proj.goto (related k)⟩
  | load b k =>
    simp only [Instr.map, Instr.perform, Option.some.injEq, Prod.mk.injEq] at performed
    obtain ⟨-, rfl⟩ := performed
    exact ⟨_, _, rfl, by rw [proj.mem b]; exact proj.goto (related _)⟩
  | store b v k =>
    simp only [Instr.map, Instr.perform, Option.some.injEq, Prod.mk.injEq] at performed
    obtain ⟨-, rfl⟩ := performed
    exact ⟨_, _, rfl, (proj.write inj b v).goto (related k)⟩
  | cmpxchg b old new k =>
    simp only [Instr.map, Instr.perform, Option.some.injEq, Prod.mk.injEq] at performed
    obtain ⟨-, rfl⟩ := performed
    refine ⟨_, _, rfl, ?_⟩
    simp only [id_eq, proj.mem b]
    split
    · exact (proj.write inj b new).goto (related _)
    · exact proj.goto (related _)
  | dec b k =>
    simp only [Instr.map, Instr.perform, Option.some.injEq, Prod.mk.injEq] at performed
    obtain ⟨-, rfl⟩ := performed
    exact ⟨_, _, rfl, by rw [proj.mem b]; exact (proj.write inj b _).goto (related _)⟩
  | wait b v k =>
    simp only [Instr.map, Instr.perform, proj.mem b] at performed
    split at performed <;>
      simp only [Option.some.injEq, Prod.mk.injEq] at performed <;>
      obtain ⟨-, rfl⟩ := performed
    · refine ⟨_, _, if_pos ‹_›, proj.mem, fun c => ?_⟩
      by_cases hc : c = t
      · subst hc; simpa using StatusTracks.asleep (related k)
      · simpa [State.sleep_of_ne _ hc] using proj.thread c
    · exact ⟨_, _, if_neg ‹_›, proj.goto (related k)⟩
  | wake b n k =>
    simp only [Instr.map, Instr.perform, Option.ite_none_right_eq_some, Option.some.injEq,
      Prod.mk.injEq] at performed
    obtain ⟨allowed, -, rfl⟩ := performed
    rw [proj.sleepers inj] at allowed
    exact ⟨_, _, if_pos allowed,
      (proj.rouse inj (proj.sleepers inj b ▸ allowed.1)).goto (related k)⟩

omit [DecidableEq B] in
/-- An instruction on words outside the component leaves it where it was. -/
theorem Projects.perform_away (proj : Projects embed R s u) {t : T} {l' : L'}
    (ready : u.thread t = .ready l') {P C : Type} {i : Instr C P} {f : C → A} {g : P → L}
    (outside : ∀ c b, f c ≠ embed b) (related : ∀ p, R t (g p) l')
    {woken : Finset T} {access : Access A T}
    (performed : (i.map f g).perform s t woken = some (access, s')) : Projects embed R s' u := by
  cases i with
  | tau k | load b k =>
    simp only [Instr.map, Instr.perform, Option.some.injEq, Prod.mk.injEq] at performed
    obtain ⟨-, rfl⟩ := performed
    exact proj.goto_left ready (related _)
  | store b v k | dec b k =>
    simp only [Instr.map, Instr.perform, Option.some.injEq, Prod.mk.injEq] at performed
    obtain ⟨-, rfl⟩ := performed
    exact (proj.write_left (outside b) _).goto_left ready (related _)
  | cmpxchg b old new k =>
    simp only [Instr.map, Instr.perform, Option.some.injEq, Prod.mk.injEq] at performed
    obtain ⟨-, rfl⟩ := performed
    split
    · exact (proj.write_left (outside b) new).goto_left ready (related _)
    · exact proj.goto_left ready (related _)
  | wait b v k =>
    simp only [Instr.map, Instr.perform] at performed
    split at performed <;>
      simp only [Option.some.injEq, Prod.mk.injEq] at performed <;>
      obtain ⟨-, rfl⟩ := performed
    · refine ⟨proj.mem, fun c => ?_⟩
      by_cases hc : c = t
      · subst hc
        rw [State.sleep_self, ready]
        exact .elsewhere (outside b) (related k)
      · simpa [State.sleep_of_ne _ hc] using proj.thread c
    · exact proj.goto_left ready (related k)
  | wake b n k =>
    simp only [Instr.map, Instr.perform, Option.ite_none_right_eq_some, Option.some.injEq,
      Prod.mk.injEq] at performed
    obtain ⟨allowed, -, rfl⟩ := performed
    exact (proj.rouse_left (outside b) allowed.1).goto_left ready (related k)

variable {M : Program A T L} {N : Program B T L'} {e : Event A T L}

omit [DecidableEq A] [DecidableEq B] [DecidableEq T] [Fintype T] in
/-- An instruction of a common procedure shows the same in both, but for the names of the
words. -/
theorem Projects.shows (proj : Projects embed R s u) {P : Type} (i : Instr B P) (g : P → L)
    (g' : P → L') (woken : Finset T) :
    (i.map embed g).shows s.mem woken = ((i.map id g').shows u.mem woken).map embed := by
  cases i <;> simp [Access.map, proj.mem]

omit [DecidableEq A] [DecidableEq B] [DecidableEq T] [Fintype T] in
/-- An instruction on words outside the component shows none of its words. -/
theorem outside_of_away {P C : Type} (i : Instr C P) {f : C → A} (g : P → L)
    (outside : ∀ c b, f c ≠ embed b) (mem : A → UInt32) (woken : Finset T) (b : B) :
    ((i.map f g).shows mem woken).addr ≠ some (embed b) := by
  cases i <;> simp [Access.addr, outside]

/-- Each step of the machine is a step of the component, by the same thread and with the
same access, or it leaves the component alone and touches none of its words. A step
inside the procedures that both have is always one of the component, but for the return of
a wait. -/
theorem Projects.step_shown (inj : Function.Injective embed)
    (tracks : ∀ t l l', R t l l' → Tracks embed (R t) l' (M t l) (N t l'))
    {inside : T → L → Bool} (calls : Calls embed R inside M N)
    (proj : Projects embed R s u) (step : Step M s e s') :
    (Projects embed R s' u ∧ (∀ b, e.access.addr ≠ some (embed b)) ∧
      (inside e.thread e.pc = true → e.access = .resume)) ∨
    ∃ e' u', Step N u e' u' ∧ Projects embed R s' u' ∧ e'.thread = e.thread ∧
      e.access = e'.access.map embed := by
  cases step with
  | @resume t a l sleeping =>
    have shown := proj.thread t
    rw [sleeping] at shown
    generalize hy : u.thread t = y at shown
    -- a spurious return shows in the component if the thread sleeps on a word of it
    cases shown with
    | asleep related => exact .inr ⟨_, _, .resume hy, proj.goto related, rfl, rfl⟩
    | elsewhere _ related =>
      exact .inl ⟨proj.goto_left hy related, by simp [Access.addr], fun _ => rfl⟩
  | @run t l woken access s' running performed =>
    have shown := proj.thread t
    rw [running] at shown
    obtain ⟨l', ready, related⟩ := shown.of_ready
    by_cases within : inside t l = true
    · obtain ⟨P, i, g, g', op, op', related⟩ := calls t l l' related within
      rw [op] at performed
      obtain ⟨access', u', performed', proj'⟩ := proj.perform inj related performed
      refine .inr ⟨⟨t, l', access'⟩, u', .run ready (by rw [op']; exact performed'), proj', rfl, ?_⟩
      rw [Instr.shows_of_perform performed', Instr.shows_of_perform performed]
      exact proj.shows i g g' woken
    have silent : ∀ {p : Prop}, inside t l = true → p := fun within' => absurd within' within
    have tracked := tracks t l l' related
    generalize hM : M t l = op at tracked performed
    generalize hN : N t l' = op' at tracked
    -- the operations of the component are performed in both, and all others leave it alone
    cases tracked with
    | call i g g' related =>
      obtain ⟨access', u', performed', proj'⟩ := proj.perform inj related performed
      refine .inr ⟨⟨t, l', access'⟩, u', .run ready (by rw [hN]; exact performed'), proj', rfl, ?_⟩
      rw [Instr.shows_of_perform performed', Instr.shows_of_perform performed]
      exact proj.shows i g g' woken
    | away i f g _ outside related =>
      refine .inl ⟨proj.perform_away ready outside related performed, ?_, silent⟩
      rw [Instr.shows_of_perform performed]
      exact outside_of_away i g outside s.mem woken
    | tau k _ related =>
      simp only [Op.perform, Instr.perform, Option.some.injEq, Prod.mk.injEq] at performed
      obtain ⟨rfl, rfl⟩ := performed
      exact .inl ⟨proj.goto_left ready related, by simp [Access.addr], silent⟩
    | join v k _ related =>
      simp only [Op.perform, Option.ite_none_right_eq_some, Option.some.injEq,
        Prod.mk.injEq] at performed
      obtain ⟨-, rfl, rfl⟩ := performed
      exact .inl ⟨proj.goto_left ready related, by simp [Access.addr], silent⟩
    | create v k _ related =>
      simp only [Op.perform] at performed
      split at performed
      · rename_i l₀ unborn
        simp only [Option.some.injEq, Prod.mk.injEq] at performed
        obtain ⟨rfl, rfl⟩ := performed
        have shown' := proj.thread v
        rw [unborn] at shown'
        generalize hy : u.thread v = y at shown'
        -- in the component the new thread has been there all along
        cases shown' with
        | unborn related' =>
          exact .inl ⟨(proj.goto_left hy related').goto_left ready related, by simp [Access.addr],
            silent⟩
      · simp at performed
    | exit => simp [Op.perform] at performed

/-- Below every run of the machine lies a run of the component, which is its shadow. -/
theorem exists_component_run (inj : Function.Injective embed)
    (tracks : ∀ t l l', R t l l' → Tracks embed (R t) l' (M t l) (N t l'))
    {inside : T → L → Bool} (calls : Calls embed R inside M N)
    {start : State A T L} {start' : State B T L'} (initial : Projects embed R start start')
    {w : List (Event A T L)} (run : (machine M start).Run w s) :
    ∃ w' u, (machine N start').Run w' u ∧ Projects embed R s u ∧ Shadow embed inside w w' := by
  induction run with
  | start first =>
    obtain rfl := machine_init.mp first
    exact ⟨[], start', .start rfl, initial, .nil⟩
  | next _ move ih =>
    obtain ⟨w', u, run', proj, shadow⟩ := ih
    rcases proj.step_shown inj tracks calls (machine_step.mp move) with
      ⟨still, outside, silent⟩ | ⟨e', u', step, proj', thread, access⟩
    · exact ⟨w', u, run', still, shadow.still outside silent⟩
    · exact ⟨w' ++ [e'], u', run'.next (machine_step.mpr step), proj', shadow.both thread access⟩

/-- Below every reachable state of the machine lies a reachable state of the
component. -/
theorem exists_component (inj : Function.Injective embed)
    (tracks : ∀ t l l', R t l l' → Tracks embed (R t) l' (M t l) (N t l'))
    {start : State A T L} {start' : State B T L'} (initial : Projects embed R start start')
    (reach : (machine M start).Reachable s) :
    ∃ u, (machine N start').Reachable u ∧ Projects embed R s u := by
  obtain ⟨w, run⟩ := reach
  obtain ⟨w', u, run', proj, -⟩ := exists_component_run inj tracks .none initial run
  exact ⟨u, run'.reachable, proj⟩

end Steps

end FutexMachine
