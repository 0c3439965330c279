import Futextest.MismatchedOps.Join
import Futextest.Syscalls.Potential

/-!
# How the mismatch test ends

Under its kernel no run of the test is longer than fifteen steps. Whoever moves first, when
nobody can move any more main has printed its verdict, or it joins a child that is asleep;
there is no third way to stop. If main only goes to its join over a wake that has reached the
child, it has printed its verdict.

## Main definitions

* `Loc.rank`, `Loc.rankInside` — how far a thread still has to go

## Main results

* `descends` — every step leads nearer to the end
* `test_ends_or_sticks` — the two ends of a run
-/

namespace MismatchedOps

open Syscalls

instance : Fintype Party := ⟨{.main, .child}, fun t => by cases t <;> simp⟩

/-! ## The length of a run -/

/-- How many steps main still takes. -/
def MainPc.rank : MainPc → ℕ
  | .create => 9
  | .load => 8
  | .requeue _ => 7
  | .wake => 5
  | .report _ => 3
  | .join _ => 2
  | .createFailed | .out _ => 1
  | .exit _ => 0

/-- How many steps the child still takes. -/
def ChildPc.rank : ChildPc → ℕ
  | .load => 6
  | .wait _ => 5
  | .store _ => 2
  | .failed _ => 1
  | .exit => 0

/-- The ranks of both. -/
def Loc.rank : Loc → ℕ
  | .main pc => pc.rank
  | .child pc => pc.rank

/-- The entry of a call is one step, and that of the child's wait pays for the wake too. -/
def Loc.rankInside : Loc → ℕ
  | .child pc => pc.rank - 2
  | .main pc => pc.rank - 1

/-- The kernel wakes a child that is asleep. -/
def KernelState.rank (κ : KernelState) : ℕ := if κ.child = .asleep then 1 else 0

variable {pthreadCreate : ℤ} {κ κ' : KernelState} {s s' : TestState} {m : MainPc}
  {w : List TestEvent} {e : TestEvent}

theorem KernelState.rank_le_one (κ : KernelState) : κ.rank ≤ 1 := by
  unfold rank
  split_ifs
  · exact le_rfl
  · exact zero_le_one

/-- Every act of the kernel is one of those it had left. -/
theorem rank_act (acts : wakeChild κ = some κ') : κ'.rank < κ.rank := by
  unfold wakeChild at acts
  rw [Option.ite_none_right_eq_some] at acts
  obtain ⟨⟨-, asleep⟩, same⟩ := acts
  cases same
  simp [KernelState.rank, asleep]

/-- A call that returns leaves the child where it is. -/
theorem rank_leave {c : Call} (leaves : leaveCall κ c = some κ') : κ'.rank = κ.rank := by
  cases c with
  | wait expected =>
    rw [leaveCall, Option.ite_none_left_eq_some] at leaves
    cases leaves.2
    rfl
  | cmpRequeuePi expected | wake =>
    cases leaves
    rfl

theorem requeued_rank (r : SysResult) : (requeued r).rank ≤ 5 := by
  unfold requeued
  split_ifs <;> simp [MainPc.rank]

theorem woken_rank (r : SysResult) : (woken r).rank ≤ 3 := by
  unfold woken
  split_ifs <;> simp [MainPc.rank]

/-- **The test descends.** Every step leads nearer to its end. -/
theorem descends (pthreadCreate : ℤ) : Descends kernel (program pthreadCreate) Loc.rank
    Loc.rankInside KernelState.rank (fun _ => true) 0 := by
  constructor
  · exact fun _ _ => rfl
  · intro t κ κ' acts
    exact rank_act acts
  · intro mem κ t l c k κ' op enters
    obtain rfl : enterCall mem κ c = κ' := Option.some.inj enters
    cases t with
    | main =>
      cases l with
      | main m =>
        rcases main_call op with ⟨expected, rfl, rfl, -⟩ | ⟨rfl, rfl, -⟩
        · exact Nat.add_lt_add_right (Nat.lt_succ_self 6) _
        · exact Nat.add_lt_add_right (Nat.lt_succ_self 4) _
      | child p => cases op
    | child =>
      cases l with
      | main m => cases op
      | child p =>
        cases p with
        | wait expected =>
          have most := (enterCall mem κ c).rank_le_one
          simp only [Loc.rank, Loc.rankInside, ChildPc.rank]
          omega
        | _ => cases op
  · intro κ t l c k r κ' op leaves
    have same := rank_leave leaves
    simp only [if_true]
    cases t with
    | main =>
      cases l with
      | main m =>
        rcases main_call op with ⟨expected, rfl, rfl, rfl⟩ | ⟨rfl, rfl, rfl⟩
        · have after := requeued_rank r
          change (requeued r).rank + κ'.rank + 1 ≤ 6 + κ.rank + 0
          omega
        · have after := woken_rank r
          change (woken r).rank + κ'.rank + 1 ≤ 4 + κ.rank + 0
          omega
      | child p => cases op
    | child =>
      cases l with
      | main m => cases op
      | child p =>
        cases p <;> cases op
        simp only [Loc.rank, Loc.rankInside, ChildPc.rank]
        omega
  · intro t l mem loc access mem' l' next quiet
    cases t with
    | main =>
      cases l with
      | main m =>
        cases m with
        | create =>
          rw [program, main] at next
          split_ifs at next <;> cases next <;> simp [Loc.rank, MainPc.rank]
        | out ret =>
          rw [program, main] at next
          split_ifs at next <;> cases next <;> exact Nat.lt_succ_self _
        | requeue expected | wake => exact absurd rfl (quiet _ _)
        | exit ret => cases next
        | _ =>
          cases next
          exact Nat.lt_succ_self _
      | child p => cases next
    | child =>
      cases l with
      | main m => cases next
      | child p =>
        cases p with
        | wait expected => exact absurd rfl (quiet _ _)
        | store r =>
          cases next
          simp only [Loc.rank]
          split_ifs <;> simp [ChildPc.rank]
        | exit => cases next
        | _ =>
          cases next
          exact Nat.lt_succ_self _

/-! ## When nobody can move -/

/-- Main does not come back to its first step. -/
theorem not_next_create {mem mem' : Cell → ℤ} {loc : Party → Loc}
    {access : Access Cell Call Party} : ¬ (main pthreadCreate m).Next (program pthreadCreate)
      mem loc access mem' (.main .create) := by
  intro next
  generalize back : Loc.main .create = l at next
  cases m with
  | create | out ret =>
    rw [main] at next
    split_ifs at next <;> cases next <;> cases back
  | requeue expected =>
    cases next with
    | leave c k r =>
      have low := requeued_rank r
      rw [← Loc.main.inj back] at low
      exact absurd low (by decide)
  | wake =>
    cases next with
    | leave c k r =>
      have low := woken_rank r
      rw [← Loc.main.inj back] at low
      exact absurd low (by decide)
  | exit ret => cases next
  | _ =>
    cases next
    cases back

/-- Main creates the child in its first step. -/
theorem unborn_at_create (reach : (machine pthreadCreate).Reachable s)
    (here : s.thread .main = .ready (.main .create)) : ∃ l, s.thread .child = .unborn l := by
  have inv : (machine pthreadCreate).Invariant fun s =>
      s.thread .main = .ready (.main .create) → ∃ l, s.thread .child = .unborn l := by
    constructor
    · rintro s rfl _
      exact ⟨_, rfl⟩
    · intro s e s' reach before step after
      obtain ⟨m, known⟩ := exists_inv reach
      by_cases main : e.thread = .main
      · rcases Step.own step with ⟨-, same, -⟩ | ⟨c, k, -, -, -, -, enters⟩ | ⟨l, next, running, goes⟩
        · rw [same] at after ⊢
          exact before after
        · rw [main, after] at enters
          cases enters
        · rw [main] at next running goes
          rw [known.pc_eq (running.imp And.left And.left)] at next
          obtain rfl := Status.ready.inj (after.symm.trans goes)
          exact absurd next not_next_create
      · have same : s'.thread .main = s.thread .main := by
          rcases Step.other step (Ne.symm main) with ⟨-, same⟩ | ⟨-, l, unborn, -⟩
          · exact same
          · have at_main := known.atMain
            rw [unborn] at at_main
            rcases at_main with ready | ⟨calling, -⟩
            · cases ready
            · cases calling
        have unborn := before (same ▸ after)
        by_contra born
        have creates := Step.creates step unborn fun l there => born ⟨l, there⟩
        -- a child that is not created takes no step
        obtain ⟨l, unborn⟩ := unborn
        have child : e.thread = .child := by
          cases there : e.thread with
          | main => exact absurd there main
          | child => rfl
        exact Step.started step (by simp [creates]) l (child ▸ unborn)
  exact inv.of_reachable reach here

/-- Nobody can move. -/
abbrev Quiet (pthreadCreate : ℤ) (s : TestState) : Prop :=
  (machine pthreadCreate).Stuck (fun _ => true) s

/-- Where nobody can move, a call that has been entered is that of a child that is asleep. -/
theorem asleep_of_calling (quiet : Quiet pthreadCreate s) {t : Party} {l : Loc} {c : Call}
    {k : SysResult → Loc} (calling : s.thread t = .calling l)
    (op : program pthreadCreate t l = .call c k) :
    s.kernel.child = .asleep ∧ ∃ expected, c = .wait expected := by
  have refused : leaveCall s.kernel c = none := by
    by_contra returns
    obtain ⟨κ, leaves⟩ := Option.ne_none_iff_exists'.mp returns
    cases quiet _ _ (.leave (r := .ok 0) calling op leaves)
  cases c with
  | wait expected =>
    rw [leaveCall] at refused
    split_ifs at refused with asleep
    exact ⟨asleep, expected, rfl⟩
  | cmpRequeuePi expected | wake => cases refused

/-- A thread that is awake then has another one to wait for, or has finished. -/
theorem waits_of_quiet (quiet : Quiet pthreadCreate s) {t : Party} {l : Loc}
    (ready : s.thread t = .ready l) : (program pthreadCreate t l).isLocal = false ∧
      ∀ c k, program pthreadCreate t l ≠ .call c k := by
  obtain ⟨idle, calls⟩ := waits_of_stuck (descends pthreadCreate) quiet ready
  exact ⟨idle, fun c k op => absurd (calls c k op) (by simp [kernel])⟩

/-- A child that main has created has finished, or it is asleep. -/
theorem child_of_quiet (quiet : Quiet pthreadCreate s) (inv : Inv pthreadCreate s m)
    (born : ChildBorn s) :
    s.thread .child = .ready (.child .exit) ∨ s.kernel.child = .asleep := by
  have child := inv.child
  cases there : s.thread .child with
  | unborn l => exact absurd there (born l)
  | ready l =>
    obtain ⟨idle, no_call⟩ := waits_of_quiet quiet there
    rw [there] at child
    cases place : s.kernel.child with
    | asleep => exact .inr rfl
    | away =>
      rw [place] at child
      rcases child with rfl | rfl
      · cases idle
      · exact absurd rfl (no_call _ _)
    | awake =>
      rw [place] at child
      obtain ⟨pc, rfl, -⟩ := child
      cases pc with
      | wait expected => exact absurd rfl (no_call _ _)
      | exit => exact .inl rfl
      | _ => cases idle
  | calling l =>
    rw [there] at child
    have op : l = .child (.wait 0) := by
      cases place : s.kernel.child with
      | away =>
        rw [place] at child
        exact child.elim
      | asleep | awake =>
        rw [place] at child
        exact child
    subst op
    exact .inr (asleep_of_calling quiet there rfl).1

/-- Where nobody can move main has printed its verdict, or it joins a child that is asleep. -/
theorem exit_or_stuck (quiet : Quiet pthreadCreate s) (inv : Inv pthreadCreate s m)
    (reach : (machine pthreadCreate).Reachable s) :
    (∃ v, s.loc .main = .main (.exit v)) ∨ Stuck s := by
  rcases inv.atMain with ready | ⟨calling, c, k, op⟩
  · obtain ⟨idle, no_call⟩ := waits_of_quiet quiet ready
    cases m with
    | create =>
      obtain ⟨l, unborn⟩ := unborn_at_create reach ready
      rw [program, main] at idle
      split_ifs at idle with fine
      · have performed : (program pthreadCreate .main (.main .create)).perform
            (program pthreadCreate) s .main =
              some (.create .child, (s.put .child (.ready l)).put .main (.ready (.main .load))) := by
          rw [program, main, if_pos fine, Op.perform, unborn]
        cases quiet _ _ (.run ready performed)
      · cases idle
    | join ret =>
      have at_join : s.loc .main = .main (.join ret) := inv.loc_main
      rcases child_of_quiet quiet inv inv.main with ended | asleep
      · have finished : s.finished (program pthreadCreate) .child = true := by
          rw [State.finished, ended]
          rfl
        have joins : program pthreadCreate .main (.main (.join ret)) =
            .join .child (.main (.out ret)) := rfl
        obtain ⟨s', step, -⟩ := exists_join (Q := kernel) ready joins finished
        cases quiet _ _ step
      · exact .inr ⟨⟨ret, at_join⟩, asleep⟩
    | out ret =>
      rw [program, main] at idle
      split_ifs at idle <;> cases idle
    | exit v => exact .inl ⟨v, inv.loc_main⟩
    | requeue expected | wake => exact absurd rfl (no_call _ _)
    | _ => cases idle
  · -- a call of main can return
    obtain ⟨-, expected, rfl⟩ := asleep_of_calling quiet calling op
    rcases main_call op with ⟨expected', -, wrong, -⟩ | ⟨-, wrong, -⟩ <;> cases wrong

/-- **How the test ends.** A run has at most fifteen steps, and it can be continued until
nobody can move. Then main has printed its verdict, or it joins a child that is asleep; and
only the first, if main goes to its join over a wake that has reached the child. -/
theorem test_ends_or_sticks (pthreadCreate : ℤ) :
    (machine pthreadCreate).Bounded (fun _ => true) 15 0 ∧
    (∀ w s, (machine pthreadCreate).Run w s → ∃ w' t,
      (machine pthreadCreate).Run (w ++ w') t ∧ Quiet pthreadCreate t) ∧
    (∀ s, (machine pthreadCreate).Reachable s → Quiet pthreadCreate s →
      (∃ v, s.loc .main = .main (.exit v)) ∨ Stuck s) ∧
    ∀ s, ((machine pthreadCreate).restrict WakesChild).Reachable s → Quiet pthreadCreate s →
      ∃ v, s.loc .main = .main (.exit v) := by
  have ranks : (start boot).total Loc.rank Loc.rankInside KernelState.rank = 15 := rfl
  have bounded : (machine pthreadCreate).Bounded (fun _ => true) 15 0 :=
    ranks ▸ (descends pthreadCreate).bounded
  refine ⟨bounded, ?_, ?_, ?_⟩
  · intro w s run
    obtain ⟨w', t, further, -, quiet⟩ := bounded.exists_stuck run
    exact ⟨w', t, further, quiet⟩
  · intro s reach quiet
    obtain ⟨m, inv⟩ := exists_inv reach
    exact exit_or_stuck quiet inv reach
  · intro s reach quiet
    obtain ⟨m, inv, reached⟩ := exists_reached reach
    rcases exit_or_stuck quiet inv reach.of_restrict with ended | ⟨⟨ret, joins⟩, asleep⟩
    · exact ended
    · -- main would have come to its join without the wake
      obtain rfl := Loc.main.inj (inv.loc_main.symm.trans joins)
      have awake : s.kernel.child = .awake := reached
      rw [awake] at asleep
      cases asleep

end MismatchedOps
