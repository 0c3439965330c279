import Futextest.Syscalls.Pair
import Futextest.Syscalls.Potential
import Futextest.WaitTests

/-!
# What `futex_wait_private_mapped_file` tells

The test under a futex of its own: the waiter goes to sleep if `val` is 1, stays asleep until
main's wake or its timeout, and a wake finds it only if the kernel knows the page that both
look at for the same. That it may not is the fault that the test is about.

The test ends under either kernel. It passes exactly if the waiter has come back from its wait
because of the wake; otherwise it fails, also under a kernel without the fault, where the
waiter may have come too late or waited too long. It reports an error only if the waiter could
not be created.

## Main definitions

* `kernel` — the kernel, with the place of the waiter
* `ComesBack` — the wait of the waiter has returned 0
* `Scene` — the waiter and the kernel, by where main is

## Main results

* `descends` — every step leads nearer to the end
* `passes_iff_comesBack` — the test ends, and what its verdict says
-/

namespace PrivateMappedFile

open Syscalls

/-! ## The kernel -/

/-- Where the waiter is for the kernel: not yet in its call, asleep on `val`, woken, late
for a sleep, or past its timeout. -/
inductive Place
  | away
  | asleep
  | woken
  | late
  | expired
  deriving DecidableEq

/-- What the wait returns. It does not as long as the waiter sleeps. -/
def Place.result : Place → Option SysResult
  | .away | .asleep => none
  | .woken => some (.ok 0)
  | .late => some (.error ewouldblock)
  | .expired => some (.error etimedout)

/-- A thread enters a call: the waiter goes to sleep if `val` is still 1. -/
def enterCall (mem : Cell → ℤ) (place : Place) : Call → Place
  | .wait => if mem .val = 1 then .asleep else .late
  | .wake => place

/-- A call returns. A wake that finds the waiter asleep returns 1, and any other one 0. -/
def leaveCall (finds : Bool) (place : Place) (r : SysResult) : Call → Option Place
  | .wait => if place.result = some r then some place else none
  | .wake =>
      if finds = true ∧ place = .asleep then if r = .ok 1 then some .woken else none
      else if r = .ok 0 then some place else none

/-- The timeout of a waiter that sleeps may end at any moment. -/
def expire : Place → Option Place
  | .asleep => some .expired
  | _ => none

/-- The kernel of the test; `finds` says whether its wakes find a waiter on a private mapping
of a file. -/
def kernel (finds : Bool) : Kernel Cell Call Party Place where
  enter mem place _ c := some (enterCall mem place c)
  leave place _ c r := leaveCall finds place r c
  act place _ := expire place

/-- The start of the test, with the waiter away. -/
def boot : State Cell Party Loc Place where
  mem := start.mem
  thread := start.thread
  kernel := .away

/-- The test under this kernel. -/
abbrev machine (pthreadCreate : ℤ) (finds : Bool) :
    System (State Cell Party Loc Place) TestEvent :=
  Syscalls.machine (kernel finds) (program pthreadCreate) boot

instance : Fintype Party := ⟨{.main, .waiter}, fun t => by cases t <;> simp⟩

variable {pthreadCreate : ℤ} {finds : Bool} {place place' : Place} {r : SysResult}

/-! ## The length of a run -/

/-- How many steps main still takes. -/
def MainPc.rank : MainPc → ℕ
  | .create => 6
  | .store _ => 5
  | .wake _ => 4
  | .wakeFailed => 2
  | .join _ => 1
  | .exit _ => 0

/-- How many steps the waiter still takes. -/
def WaiterPc.rank : WaiterPc → ℕ
  | .wait => 4
  | .failed | .timedOut => 1
  | .quit | .exit => 0

/-- The ranks of both. -/
def Loc.rank : Loc → ℕ
  | .main pc => pc.rank
  | .waiter pc => pc.rank

/-- The entry of a call is one step, and that of the wait pays for its timeout too. -/
def Loc.rankInside : Loc → ℕ
  | .main pc => pc.rank - 1
  | .waiter pc => pc.rank - 2

/-- A timeout that can end. -/
def Place.rank : Place → ℕ
  | .asleep => 1
  | _ => 0

theorem Place.rank_le_one (place : Place) : place.rank ≤ 1 := by
  cases place <;> simp [rank]

/-- The only call of main is its wake. -/
theorem main_call {m : MainPc} {c : Call} {k : SysResult → Loc}
    (op : main pthreadCreate m = .call c k) : c = .wake ∧ ∃ ret, m = .wake ret ∧
      k = fun result => .main (if result.ret ≠ 1 then .wakeFailed else .join ret) := by
  cases m with
  | wake ret =>
    cases op
    exact ⟨rfl, ret, rfl, rfl⟩
  | create | join ret =>
    unfold main at op
    dsimp only at op
    split_ifs at op
  | _ => cases op

theorem rank_waited (r : SysResult) : (waited r).rank ≤ 1 := by
  unfold waited
  split_ifs <;> simp [WaiterPc.rank]

/-- What the return of a call leaves. -/
theorem rank_leave {c : Call} (leaves : leaveCall finds place r c = some place') :
    place'.rank ≤ place.rank := by
  cases c with
  | wait =>
    rw [leaveCall, Option.ite_none_right_eq_some] at leaves
    cases leaves.2
    exact le_rfl
  | wake =>
    rw [leaveCall] at leaves
    split_ifs at leaves <;> cases leaves
    · exact Nat.zero_le _
    · exact le_rfl

/-- **The test descends.** Every step leads nearer to its end. -/
theorem descends (pthreadCreate : ℤ) (finds : Bool) : Descends (kernel finds)
    (program pthreadCreate) Loc.rank Loc.rankInside Place.rank (fun _ => true) 0 := by
  constructor
  · exact fun _ _ => rfl
  · intro t place place' acts
    cases place <;> cases acts
    exact Nat.zero_lt_one
  · intro mem place t l c k place' op enters
    obtain rfl : enterCall mem place c = place' := Option.some.inj enters
    cases t with
    | main =>
      cases l with
      | main m =>
        obtain ⟨rfl, ret, rfl, -⟩ := main_call op
        exact Nat.add_lt_add_right (Nat.lt_succ_self 3) _
      | waiter p => cases op
    | waiter =>
      cases l with
      | main m => cases op
      | waiter p =>
        cases p with
        | wait =>
          have most := (enterCall mem place c).rank_le_one
          simp only [Loc.rank, Loc.rankInside, WaiterPc.rank]
          omega
        | _ => cases op
  · intro place t l c k r place' op leaves
    have least := rank_leave leaves
    simp only [if_true]
    cases t with
    | main =>
      cases l with
      | main m =>
        obtain ⟨rfl, ret, rfl, rfl⟩ := main_call op
        simp only [Loc.rank, Loc.rankInside, MainPc.rank]
        split_ifs <;> simp only <;> omega
      | waiter p => cases op
    | waiter =>
      cases l with
      | main m => cases op
      | waiter p =>
        cases p <;> cases op
        have after := rank_waited r
        change (waited r).rank + place'.rank + 1 ≤ 2 + place.rank + 0
        omega
  · intro t l mem loc access mem' l' next quiet
    cases t with
    | main =>
      cases l with
      | main m =>
        cases m with
        | create | join ret =>
          rw [program, main] at next
          split_ifs at next <;> cases next <;> simp [Loc.rank, MainPc.rank]
        | wake ret => exact absurd rfl (quiet _ _)
        | exit ret => cases next
        | _ =>
          cases next
          exact Nat.lt_succ_self _
      | waiter p => cases next
    | waiter =>
      cases l with
      | main m => cases next
      | waiter p =>
        cases p with
        | wait => exact absurd rfl (quiet _ _)
        | quit | exit => cases next
        | _ =>
          cases next
          exact Nat.lt_succ_self _

/-! ## Where everybody is -/

/-- The wait of the waiter has returned because of a wake. -/
def ComesBack (w : List TestEvent) : Prop :=
  (⟨.waiter, .waiter .wait, .leave .wait (.ok 0)⟩ : TestEvent) ∈ w

/-- Where the waiter is, for itself and for the kernel, and whether it has come back. -/
def WaiterAt (back : Prop) (place : Place) : Status Loc → Prop
  | .unborn l => l = .waiter .wait ∧ place = .away ∧ ¬ back
  | .ready (.waiter .wait) => place = .away ∧ ¬ back
  | .calling l => l = .waiter .wait ∧ place ≠ .away ∧ ¬ back
  | .ready (.waiter .timedOut) => place = .expired ∧ ¬ back
  | .ready (.waiter .exit) => place = .woken ∧ back ∨ (place = .late ∨ place = .expired) ∧ ¬ back
  | _ => False

/-- Whether there is a waiter. -/
def Created (pthreadCreate : ℤ) (x : Status Loc) : Prop :=
  pthreadCreate = 0 ∧ (∀ l, x ≠ .unborn l) ∨ 0 < pthreadCreate ∧ x = .unborn (.waiter .wait)

/-- What main has found out about its wake. -/
def Told (place : Place) (ret : ℤ) : Prop :=
  ret = retPass ∧ place = .woken ∨ ret = retFail ∧ place ≠ .woken

/-- What main knows of the waiter. -/
def MainPc.Knows (pthreadCreate : ℤ) (place : Place) (x : Status Loc) : MainPc → Prop
  | .create => x = .unborn (.waiter .wait)
  | .store ret | .wake ret => ret = pthreadCreate ∧ Created pthreadCreate x ∧ place ≠ .woken
  | .wakeFailed => Created pthreadCreate x ∧ place ≠ .woken
  | .join ret => Created pthreadCreate x ∧ Told place ret
  | .exit v =>
      v = retError ∧ pthreadCreate < 0 ∧ x = .unborn (.waiter .wait) ∨
      Told place v ∧ Created pthreadCreate x ∧ (pthreadCreate = 0 → x = .ready (.waiter .exit))

/-- What ties main, the waiter and the kernel together. -/
def Scene (pthreadCreate : ℤ) (w : List TestEvent) (x y : Status Loc) (place : Place) : Prop :=
  ∃ m, x.At (.main m) ∧ WaiterAt (ComesBack w) place y ∧ m.Knows pthreadCreate place y

variable {w : List TestEvent} {e : TestEvent} {x y y' : Status Loc} {m : MainPc} {back : Prop}
  {mem mem' : Cell → ℤ} {loc : Party → Loc} {access : Access Cell Call Party} {l l' : Loc}

theorem comesBack_append : ComesBack (w ++ [e]) ↔
    ComesBack w ∨ e = ⟨.waiter, .waiter .wait, .leave .wait (.ok 0)⟩ := by
  rw [ComesBack, List.mem_append, List.mem_singleton]
  exact or_congr_right eq_comm

/-- Only the return of a wait is a way back. -/
theorem comesBack_append_of_ne (other : ∀ r, e.access ≠ .leave .wait r) :
    ComesBack (w ++ [e]) = ComesBack w := by
  rw [comesBack_append, eq_iff_iff]
  refine or_iff_left ?_
  rintro rfl
  exact other _ rfl

/-- A waiter that the kernel has asleep is in its call. -/
theorem WaiterAt.calling (waiter : WaiterAt back .asleep x) : x = .calling (.waiter .wait) := by
  unfold WaiterAt at waiter
  split at waiter
  · cases waiter.2.1
  · cases waiter.1
  · rw [waiter.1]
  · cases waiter.1
  · rcases waiter with ⟨woken, -⟩ | ⟨late | expired, -⟩
    · cases woken
    · cases late
    · cases expired
  · exact waiter.elim

/-- A waiter at the end of its function has finished. -/
theorem WaiterAt.of_exit (waiter : WaiterAt back place x)
    (ended : program pthreadCreate .waiter x.loc = .exit) : x = .ready (.waiter .exit) := by
  unfold WaiterAt at waiter
  split at waiter
  · rw [Status.loc, waiter.1] at ended
    cases ended
  · cases ended
  · rw [Status.loc, waiter.1] at ended
    cases ended
  · cases ended
  · rfl
  · exact waiter.elim

/-- A waiter that goes on tells main nothing but that it goes on. -/
theorem MainPc.Knows.frame (knows : m.Knows pthreadCreate place x) (born : ∀ l, x ≠ .unborn l)
    (born' : ∀ l, y ≠ .unborn l) (running : x ≠ .ready (.waiter .exit))
    (same : place' = .woken ↔ place = .woken) : m.Knows pthreadCreate place' y := by
  have created : Created pthreadCreate x → Created pthreadCreate y := by
    rintro (⟨zero, -⟩ | ⟨-, unborn⟩)
    · exact .inl ⟨zero, born'⟩
    · exact absurd unborn (born _)
  have told : ∀ ret, Told place ret → Told place' ret := by
    rintro ret (⟨pass, woken⟩ | ⟨fail, not_woken⟩)
    · exact .inl ⟨pass, same.mpr woken⟩
    · exact .inr ⟨fail, fun woken => not_woken (same.mp woken)⟩
  cases m with
  | create => exact absurd knows (born _)
  | store ret | wake ret => exact ⟨knows.1, created knows.2.1, fun woken => knows.2.2 (same.mp woken)⟩
  | wakeFailed => exact ⟨created knows.1, fun woken => knows.2 (same.mp woken)⟩
  | join ret => exact ⟨created knows.1, told ret knows.2⟩
  | exit v =>
    rcases knows with ⟨-, -, unborn⟩ | ⟨-, ⟨zero, -⟩ | ⟨-, unborn⟩, ended⟩
    · exact absurd unborn (born _)
    · exact absurd (ended zero) running
    · exact absurd unborn (born _)

/-- An operation of main. -/
theorem main_next (waiter : WaiterAt back place y) (knows : m.Knows pthreadCreate place y)
    (there : loc .waiter = y.loc)
    (next : (main pthreadCreate m).Next (program pthreadCreate) mem loc access mem' l')
    (changes : (kernel finds).Changes mem place .main access place')
    (keeps : Keeps .waiter access y y') :
    ∃ m', l' = .main m' ∧ WaiterAt back place' y' ∧ m'.Knows pthreadCreate place' y' := by
  cases m with
  | create =>
    obtain rfl : y = .unborn (.waiter .wait) := knows
    unfold main at next
    dsimp only at next
    split_ifs at next with created refused
    · cases next
      obtain rfl : place' = place := changes
      rcases keeps with ⟨no_create, -⟩ | ⟨-, l, unborn, rfl⟩
      · exact absurd rfl no_create
      · cases unborn
        obtain ⟨-, away, quiet⟩ := waiter
        exact ⟨_, rfl, ⟨away, quiet⟩, rfl, .inl ⟨created, by simp⟩, by simp [away]⟩
    · cases next
      obtain rfl : place' = place := changes
      obtain rfl := keeps.same (by simp)
      exact ⟨_, rfl, waiter, .inl ⟨rfl, refused, rfl⟩⟩
    · cases next
      obtain rfl : place' = place := changes
      obtain rfl := keeps.same (by simp)
      exact ⟨_, rfl, waiter, rfl, .inr ⟨by omega, rfl⟩, by simp [waiter.2.1]⟩
  | store ret =>
    cases next
    obtain rfl : place' = place := changes
    obtain rfl := keeps.same (by simp)
    exact ⟨_, rfl, waiter, knows⟩
  | wake ret =>
    obtain ⟨rfl, created, not_woken⟩ := knows
    cases next with
    | leave c k r =>
      obtain rfl := keeps.same (by simp)
      have leaves : leaveCall finds place r .wake = some place' := changes
      rw [leaveCall] at leaves
      split_ifs at leaves with found one none
      · -- the waiter is asleep, so that there is one
        subst one
        cases leaves
        obtain rfl := (found.2 ▸ waiter).calling
        rcases created with ⟨rfl, born⟩ | ⟨-, unborn⟩
        · exact ⟨.join 0, rfl, ⟨rfl, by simp, waiter.2.2⟩, .inl ⟨rfl, born⟩, .inl ⟨rfl, rfl⟩⟩
        · cases unborn
      · subst none
        cases leaves
        exact ⟨.wakeFailed, rfl, waiter, created, not_woken⟩
  | wakeFailed =>
    cases next
    obtain rfl : place' = place := changes
    obtain rfl := keeps.same (by simp)
    exact ⟨_, rfl, waiter, knows.1, .inr ⟨rfl, knows.2⟩⟩
  | join ret =>
    obtain ⟨created, told⟩ := knows
    unfold main at next
    dsimp only at next
    split_ifs at next with zero
    · cases next with
      | join u k ended =>
        obtain rfl : place' = place := changes
        obtain rfl := keeps.same (by simp)
        rw [there] at ended
        exact ⟨_, rfl, waiter, .inr ⟨told, created, fun _ => waiter.of_exit ended⟩⟩
    · cases next
      obtain rfl : place' = place := changes
      obtain rfl := keeps.same (by simp)
      exact ⟨_, rfl, waiter, .inr ⟨told, created, fun same => absurd same zero⟩⟩
  | exit v => cases next

/-- The waiter enters its wait. -/
theorem waiter_enter (waiter : WaiterAt back place (.ready l))
    (knows : m.Knows pthreadCreate place (.ready l)) {c : Call} {k : SysResult → Loc}
    (op : program pthreadCreate .waiter l = .call c k)
    (enters : (kernel finds).enter mem place .waiter c = some place') :
    WaiterAt back place' (.calling l) ∧ m.Knows pthreadCreate place' (.calling l) := by
  obtain rfl : enterCall mem place c = place' := Option.some.inj enters
  cases l with
  | main m => cases op
  | waiter p =>
    cases p with
    | wait =>
      cases op
      obtain ⟨rfl, quiet⟩ := waiter
      have enters : enterCall mem .away .wait ≠ .away ∧ enterCall mem .away .wait ≠ .woken := by
        unfold enterCall
        split_ifs <;> simp
      exact ⟨⟨rfl, enters.1, quiet⟩, knows.frame (by simp) (by simp) (by simp) (by simp [enters.2])⟩
    | _ => cases op

/-- An operation of the waiter. -/
theorem waiter_next (waiter : WaiterAt (ComesBack w) place y)
    (knows : m.Knows pthreadCreate place y)
    (runs : Runs (program pthreadCreate) .waiter l access y)
    (next : (program pthreadCreate .waiter l).Next (program pthreadCreate) mem loc access mem' l')
    (changes : (kernel finds).Changes mem place .waiter access place') :
    WaiterAt (ComesBack (w ++ [⟨.waiter, l, access⟩])) place' (.ready l') ∧
      m.Knows pthreadCreate place' (.ready l') := by
  rcases runs with ⟨rfl, no_call⟩ | ⟨rfl, c, r, rfl⟩
  · cases l with
    | main m => cases next
    | waiter p =>
      cases p with
      | timedOut =>
        obtain ⟨expired, quiet⟩ := waiter
        cases next
        obtain rfl : place' = place := changes
        rw [comesBack_append_of_ne (by simp)]
        exact ⟨.inr ⟨.inr expired, quiet⟩, knows.frame (by simp) (by simp) (by simp) .rfl⟩
      | wait => exact absurd rfl (no_call _ _)
      | failed => exact waiter.elim
      | quit | exit => cases next
  · -- the wait returns what the kernel has for it
    obtain ⟨rfl, busy, quiet⟩ := waiter
    cases next
    have leaves : leaveCall finds place r .wait = some place' := changes
    rw [leaveCall, Option.ite_none_right_eq_some] at leaves
    obtain ⟨result, same⟩ := leaves
    cases same
    refine ⟨?_, knows.frame (by simp) (by simp) (by simp) .rfl⟩
    cases place with
    | away => exact absurd rfl busy
    | asleep => cases result
    | woken =>
      cases result
      exact .inl ⟨rfl, comesBack_append.mpr (.inr rfl)⟩
    | late =>
      cases result
      refine .inr ⟨.inl rfl, ?_⟩
      rw [comesBack_append, not_or]
      exact ⟨quiet, by simp [SysResult.error, SysResult.ok]⟩
    | expired =>
      cases result
      refine ⟨rfl, ?_⟩
      rw [comesBack_append, not_or]
      exact ⟨quiet, by simp [SysResult.error, SysResult.ok]⟩

/-- The timeout of the waiter ends. -/
theorem waiter_act (waiter : WaiterAt back place y) (knows : m.Knows pthreadCreate place y)
    (acts : expire place = some place') :
    WaiterAt back place' y ∧ m.Knows pthreadCreate place' y := by
  cases place <;> cases acts
  obtain rfl := waiter.calling
  exact ⟨⟨rfl, by simp, waiter.2.2⟩, knows.frame (by simp) (by simp) (by simp) (by simp)⟩

/-- Every run ends in a scene. -/
theorem exists_scene {s : State Cell Party Loc Place}
    (run : (machine pthreadCreate finds).Run w s) :
    Scene pthreadCreate w (s.thread .main) (s.thread .waiter) s.kernel := by
  refine Run.pair_invariant (t := .main) (u := .waiter)
    (P := fun w _ x y place => Scene pthreadCreate w x y place)
    (fun v => by cases v <;> simp) (by simp) (by simp [boot, start]) ?_ ?_ ?_ ?_ ?_ ?_ run
  · exact ⟨.create, rfl, ⟨rfl, rfl, by simp [ComesBack]⟩, rfl⟩
  · rintro w mem x y place v l place' ⟨m, here, waiter, knows⟩ acts
    obtain ⟨waiter', knows'⟩ := waiter_act waiter knows acts
    refine ⟨m, here, ?_, knows'⟩
    rwa [comesBack_append_of_ne (by simp)]
  · rintro w mem y place l c k place' ⟨m, here, waiter, knows⟩ op enters
    obtain rfl : l = .main m := here
    refine ⟨m, rfl, ?_⟩
    rw [comesBack_append_of_ne (by simp)]
    -- the entry of main's wake leaves the waiter where it is
    obtain ⟨rfl, -⟩ := main_call op
    cases enters
    exact ⟨waiter, knows⟩
  · rintro w mem x place l c k place' ⟨m, here, waiter, knows⟩ op enters
    refine ⟨m, here, ?_⟩
    rw [comesBack_append_of_ne (by simp)]
    exact waiter_enter waiter knows op enters
  · rintro w mem loc x y y' place l access mem' l' place' ⟨m, here, waiter, knows⟩ runs there next
      changes keeps
    obtain rfl := runs.at_eq here
    have no_wait : ∀ r, access ≠ .leave .wait r := by
      rintro r rfl
      obtain ⟨k, op, -⟩ := next.leave_op
      cases (main_call op).1
    obtain ⟨m', rfl, after⟩ := main_next waiter knows there next changes keeps
    refine ⟨m', rfl, ?_⟩
    rwa [comesBack_append_of_ne no_wait]
  · rintro w mem loc x y place l access mem' l' place' ⟨m, here, waiter, knows⟩ runs next changes
    exact ⟨m, here, waiter_next waiter knows runs next changes⟩

/-! ## The end -/

/-- Nobody can move. -/
abbrev Quiet (pthreadCreate : ℤ) (finds : Bool) (s : State Cell Party Loc Place) : Prop :=
  (machine pthreadCreate finds).Stuck (fun _ => true) s

variable {s : State Cell Party Loc Place}

/-- Then a thread that is awake waits for another one or has finished. -/
theorem waits_of_quiet (quiet : Quiet pthreadCreate finds s) {t : Party} {l : Loc}
    (ready : s.thread t = .ready l) : (program pthreadCreate t l).isLocal = false ∧
      ∀ c k, program pthreadCreate t l ≠ .call c k := by
  obtain ⟨idle, calls⟩ := waits_of_stuck (descends pthreadCreate finds) quiet ready
  exact ⟨idle, fun c k op => absurd (calls c k op) (by simp [kernel])⟩

/-- And the waiter has finished, if there is one: a sleep ends with its timeout. -/
theorem waiter_of_quiet (quiet : Quiet pthreadCreate finds s)
    (waiter : WaiterAt back s.kernel (s.thread .waiter))
    (born : ∀ l, s.thread .waiter ≠ .unborn l) : s.thread .waiter = .ready (.waiter .exit) := by
  cases there : s.thread .waiter with
  | unborn l => exact absurd there (born l)
  | ready l =>
    obtain ⟨idle, no_call⟩ := waits_of_quiet quiet there
    rw [there] at waiter
    cases l with
    | main m => exact waiter.elim
    | waiter p =>
      cases p with
      | wait => exact absurd rfl (no_call _ _)
      | timedOut => cases idle
      | exit => rfl
      | failed | quit => exact waiter.elim
  | calling l =>
    rw [there] at waiter
    obtain ⟨rfl, busy, -⟩ := waiter
    have leaves : ∀ r, s.kernel.result = some r →
        (kernel finds).leave s.kernel .waiter .wait r = some s.kernel := fun r result =>
      if_pos result
    cases place : s.kernel with
    | away => exact absurd place busy
    | asleep =>
      have acts : (kernel finds).act s.kernel .waiter = some .expired := by
        rw [place]
        rfl
      cases quiet _ _ (.act acts)
    | woken => cases quiet _ _ (.leave there rfl (leaves (.ok 0) (by rw [place]; rfl)))
    | late => cases quiet _ _ (.leave there rfl (leaves (.error ewouldblock) (by rw [place]; rfl)))
    | expired => cases quiet _ _ (.leave there rfl (leaves (.error etimedout) (by rw [place]; rfl)))

/-- Where nobody can move main has printed its verdict. -/
theorem exit_of_quiet (run : (machine pthreadCreate finds).Run w s)
    (quiet : Quiet pthreadCreate finds s) : ∃ v, s.loc .main = .main (.exit v) := by
  obtain ⟨m, here, waiter, knows⟩ := exists_scene run
  cases there : s.thread .main with
  | unborn l =>
    rw [there] at here
    exact here.elim
  | ready l =>
    rw [there] at here
    obtain rfl : l = .main m := here
    obtain ⟨idle, no_call⟩ := waits_of_quiet quiet there
    cases m with
    | create =>
      rw [program, main] at idle
      split_ifs at idle with created
      · have unborn : s.thread .waiter = .unborn (.waiter .wait) := knows
        have performed : (program pthreadCreate .main (.main .create)).perform
            (program pthreadCreate) s .main = some (.create .waiter,
              (s.put .waiter (.ready (.waiter .wait))).put .main
                (.ready (.main (.store pthreadCreate)))) := by
          rw [program, main, if_pos created, Op.perform, unborn]
        cases quiet _ _ (.run there performed)
      · cases idle
      · cases idle
    | join ret =>
      rw [program, main] at idle
      split_ifs at idle with zero
      · have born : ∀ l, s.thread .waiter ≠ .unborn l := by
          rcases knows.1 with ⟨-, born⟩ | ⟨positive, -⟩
          · exact born
          · omega
        have finished : s.finished (program pthreadCreate) .waiter = true := by
          rw [State.finished, waiter_of_quiet quiet waiter born]
          rfl
        have joins : program pthreadCreate .main (.main (.join ret)) =
            .join .waiter (.main (.exit ret)) := if_pos zero
        obtain ⟨s', step, -⟩ := exists_join (Q := kernel finds) there joins finished
        cases quiet _ _ step
      · cases idle
    | wake ret => exact absurd rfl (no_call _ _)
    | exit v => exact ⟨v, by simp [State.loc, there]⟩
    | _ => cases idle
  | calling l =>
    -- the wake returns, with 1 if it finds the waiter
    rw [there] at here
    obtain rfl : l = .main m := here
    obtain ⟨c, k, op⟩ := calling_at_call (fun t l => by cases t <;> simp [boot, start])
      run.reachable there
    obtain ⟨rfl, -⟩ := main_call op
    by_cases found : finds = true ∧ s.kernel = .asleep
    · have leaves : leaveCall finds s.kernel (.ok 1) .wake = some .woken := by
        rw [leaveCall, if_pos found, if_pos rfl]
      cases quiet _ _ (.leave there op leaves)
    · have leaves : leaveCall finds s.kernel (.ok 0) .wake = some s.kernel := by
        rw [leaveCall, if_neg found, if_pos rfl]
      cases quiet _ _ (.leave there op leaves)

/-- A kernel with the fault wakes nobody. -/
theorem finds_of_woken (reach : (machine pthreadCreate finds).Reachable s)
    (woken : s.kernel = .woken) : finds = true := by
  have inv : (machine pthreadCreate finds).Invariant fun s => s.kernel = .woken → finds = true := by
    constructor
    · rintro s rfl woken
      cases woken
    · intro s e s' _ before step woken
      have changes := Step.changes step
      obtain ⟨t, pc, access⟩ := e
      rw [woken] at changes
      cases access with
      | enter c =>
        have entered : enterCall s.mem s.kernel c = .woken := Option.some.inj changes
        cases c with
        | wait =>
          rw [enterCall] at entered
          split_ifs at entered
        | wake => exact before entered
      | leave c r =>
        have left : leaveCall finds s.kernel r c = some .woken := changes
        cases c with
        | wait =>
          rw [leaveCall, Option.ite_none_right_eq_some] at left
          exact before (Option.some.inj left.2)
        | wake =>
          rw [leaveCall] at left
          split_ifs at left with found
          · exact found.1
          · exact before (Option.some.inj left)
      | act =>
        have acts : expire s.kernel = some .woken := changes
        cases place : s.kernel <;> rw [place] at acts <;> cases acts
      | _ => exact before changes.symm
  exact inv.of_reachable reach woken

/-- The verdict and what main, the waiter and the kernel have to do with it. -/
theorem told_of_exit {v : ℤ} (run : (machine pthreadCreate finds).Run w s)
    (ended : s.loc .main = .main (.exit v)) :
    v = retError ∧ pthreadCreate < 0 ∧ ¬ ComesBack w ∨ 0 ≤ pthreadCreate ∧
      (v = retPass ∧ s.kernel = .woken ∧ ComesBack w ∨ v = retFail ∧ ¬ ComesBack w) := by
  obtain ⟨m, here, waiter, knows⟩ := exists_scene run
  obtain rfl : m = .exit v := Loc.main.inj (here.loc_eq.symm.trans ended)
  rcases knows with ⟨error, refused, unborn⟩ | ⟨told, ⟨zero, -⟩ | ⟨positive, unborn⟩, exits⟩
  · rw [unborn] at waiter
    exact .inl ⟨error, refused, waiter.2.2⟩
  · -- main has joined the waiter
    rw [exits zero] at waiter
    refine .inr ⟨zero.ge, ?_⟩
    rcases told with ⟨pass, woken⟩ | ⟨fail, not_woken⟩
    · refine .inl ⟨pass, woken, ?_⟩
      rcases waiter with ⟨-, back⟩ | ⟨late | expired, -⟩
      · exact back
      · rw [woken] at late
        cases late
      · rw [woken] at expired
        cases expired
    · refine .inr ⟨fail, ?_⟩
      rcases waiter with ⟨woken, -⟩ | ⟨-, quiet⟩
      · exact absurd woken not_woken
      · exact quiet
  · -- there is nobody to wake
    rw [unborn] at waiter
    obtain ⟨-, away, quiet⟩ := waiter
    refine .inr ⟨positive.le, ?_⟩
    rcases told with ⟨-, woken⟩ | ⟨fail, -⟩
    · rw [away] at woken
      cases woken
    · exact .inr ⟨fail, quiet⟩

/-- **What the test tells.** Under a kernel whose wakes find the waiter or not, a run has at
most ten steps, and when nobody can move main has printed its verdict. This is an error exactly
if the creation has failed with a negative number, and a pass exactly if the wait of the waiter
has returned because of the wake, which a kernel with the fault never lets happen. -/
theorem passes_iff_comesBack (pthreadCreate : ℤ) (finds : Bool) :
    (machine pthreadCreate finds).Bounded (fun _ => true) 10 0 ∧
    (∀ w s, (machine pthreadCreate finds).Run w s → Quiet pthreadCreate finds s →
      ∃ v, s.loc .main = .main (.exit v)) ∧
    ∀ w s v, (machine pthreadCreate finds).Run w s → s.loc .main = .main (.exit v) →
      (v = retPass ∨ v = retFail ∨ v = retError) ∧ (v = retError ↔ pthreadCreate < 0) ∧
        (v = retPass ↔ ComesBack w) ∧ (v = retPass → finds = true) := by
  have ranks : boot.total Loc.rank Loc.rankInside Place.rank = 10 := rfl
  refine ⟨ranks ▸ (descends pthreadCreate finds).bounded, fun w s run => exit_of_quiet run, ?_⟩
  intro w s v run ended
  rcases told_of_exit run ended with ⟨rfl, refused, quiet⟩ |
    ⟨created, ⟨rfl, woken, back⟩ | ⟨rfl, quiet⟩⟩
  · exact ⟨.inr (.inr rfl), iff_of_true rfl refused, iff_of_false (by decide) quiet,
      fun pass => absurd pass (by decide)⟩
  · exact ⟨.inl rfl, iff_of_false (by decide) (not_lt.mpr created), iff_of_true rfl back,
      fun _ => finds_of_woken run.reachable woken⟩
  · exact ⟨.inr (.inl rfl), iff_of_false (by decide) (not_lt.mpr created),
      iff_of_false (by decide) quiet, fun pass => absurd pass (by decide)⟩

/-- A waiter that comes after the wake makes the test fail on a kernel without the fault. -/
example : ∃ w s, (machine 0 true).Run w s ∧ s.loc .main = .main (.exit retFail) :=
  exists_run (kernel true) (program 0) boot
    (Choice.ops .main 2 ++ Choice.calls .main (.ok 0) ++ Choice.calls .waiter (.error ewouldblock) ++
      Choice.ops .main 2)
    (fun _ s => s.loc .main = .main (.exit retFail)) (by decide +kernel)

end PrivateMappedFile
