import Futextest.Syscalls.Pair
import Futextest.Syscalls.Potential
import Futextest.WaitTests

/-!
# What `futex_wait_uninitialized_heap` tells

The page that `buf` points to has never been written, so that the word is 0, and a wait that
expects 1 is to return at once. The fault that the test is about is a wait that does not come
back.

Main does not join the child. It looks once, after a while, whether the child has come back,
and then what it has left in `child_ret`. But the child clears `child_blocked` before it stores
an error, and it may be slow. So a failure tells nothing of the kernel, a pass only that the
wait has come back, and an error that it has come back with one that was not expected.

## Main definitions

* `kernel` — the kernel, with what it answers to the wait, if anything
* `Tells` — what a verdict says of this answer
* `Scene` — the child and the cells, by where main is

## Main results

* `descends` — every step leads nearer to the end
* `verdict_iff_tells` — the test ends, and its verdicts are those that tell what is so
-/

namespace UninitializedHeap

open Syscalls

/-! ## The kernel -/

/-- The kernel of the test, which returns this from the wait, if anything. -/
def kernel (answer : Option SysResult) : Kernel Cell Call Party Unit where
  enter _ _ _ _ := some ()
  leave _ _ _ r := if answer = some r then some () else none
  act _ _ := none

/-- The test under this kernel. -/
abbrev machine (pthreadCreate : ℤ) (answer : Option SysResult) :
    System (State Cell Party Loc Unit) TestEvent :=
  Syscalls.machine (kernel answer) (program pthreadCreate) start

instance : Fintype Party := ⟨{.main, .child}, fun t => by cases t <;> simp⟩

variable {pthreadCreate : ℤ} {answer : Option SysResult}

/-- What a verdict says: of the creation, and of the answer of the kernel. -/
def Tells (pthreadCreate : ℤ) (answer : Option SysResult) (v : ℤ) : Prop :=
  v = retError ∧ pthreadCreate ≠ 0 ∨
  pthreadCreate = 0 ∧ (v = retFail ∨ v = retPass ∧ (∃ r, answer = some r) ∨
    v = retError ∧ ∃ r, answer = some r ∧ Fails r)

/-! ## The length of a run -/

/-- How many steps main still takes. -/
def MainPc.rank : MainPc → ℕ
  | .create => 3
  | .test => 2
  | .createFailed | .blocked | .readRet => 1
  | .exit _ => 0

/-- How many steps the child still takes. -/
def ChildPc.rank : ChildPc → ℕ
  | .init => 5
  | .wait => 4
  | .unblock _ => 2
  | .failed => 1
  | .exit => 0

/-- The ranks of both. -/
def Loc.rank : Loc → ℕ
  | .main pc => pc.rank
  | .child pc => pc.rank

/-- The entry of a call is one step. -/
def Loc.rankInside (l : Loc) : ℕ := l.rank - 1

/-- Main makes no call. -/
theorem main_ne_call {m : MainPc} {c : Call} {k : SysResult → Loc} :
    main pthreadCreate m ≠ .call c k := by
  intro op
  cases m with
  | create =>
    unfold main at op
    split_ifs at op
  | _ => cases op

/-- **The test descends.** Every step leads nearer to its end. -/
theorem descends (pthreadCreate : ℤ) (answer : Option SysResult) : Descends (kernel answer)
    (program pthreadCreate) Loc.rank Loc.rankInside (fun _ => 0) (fun _ => true) 0 := by
  constructor
  · exact fun _ _ => rfl
  · -- the kernel does nothing of its own accord
    intro t κ κ' acts
    cases acts
  · intro mem κ t l c k κ' op _
    cases t with
    | main =>
      cases l with
      | main m => exact absurd op main_ne_call
      | child p => cases op
    | child =>
      cases l with
      | main m => cases op
      | child p =>
        cases p <;> cases op
        exact Nat.lt_succ_self 3
  · intro κ t l c k r κ' op _
    cases t with
    | main =>
      cases l with
      | main m => exact absurd op main_ne_call
      | child p => cases op
    | child =>
      cases l with
      | main m => cases op
      | child p =>
        cases p <;> cases op
        exact le_rfl
  · intro t l mem loc access mem' l' next quiet
    cases t with
    | main =>
      cases l with
      | main m =>
        cases m with
        | create =>
          rw [program, main] at next
          split_ifs at next <;> cases next <;> simp [Loc.rank, MainPc.rank]
        | test =>
          cases next
          simp only [Loc.rank]
          split_ifs <;> exact Nat.lt_succ_self _
        | exit ret => cases next
        | _ =>
          cases next
          exact Nat.lt_succ_self _
      | child p => cases next
    | child =>
      cases l with
      | main m => cases next
      | child p =>
        cases p with
        | wait => exact absurd rfl (quiet _ _)
        | unblock r =>
          cases next
          simp only [Loc.rank]
          split_ifs <;> simp [ChildPc.rank]
        | exit => cases next
        | _ =>
          cases next
          exact Nat.lt_succ_self _

/-! ## Where everybody is -/

/-- Where the child is, and what it has left in the cells. -/
def ChildAt (answer : Option SysResult) (blocked ret : ℤ) : Status Loc → Prop
  | .unborn l => l = .child .init ∧ blocked = 1 ∧ ret = retPass
  | .ready (.child .init) | .ready (.child .wait) => blocked = 1 ∧ ret = retPass
  | .calling l => l = .child .wait ∧ blocked = 1 ∧ ret = retPass
  | .ready (.child (.unblock r)) => answer = some r ∧ blocked = 1 ∧ ret = retPass
  -- from here on main finds the child back
  | .ready (.child .failed) => (∃ r, answer = some r ∧ Fails r) ∧ ret = retPass
  | .ready (.child .exit) =>
      ∃ r, answer = some r ∧ (ret = retPass ∨ ret = retError ∧ Fails r)
  | _ => False

/-- Whether the child has come back from its wait and has said so. -/
def Status.Back (x : Status Loc) : Prop := x = .ready (.child .failed) ∨ x = .ready (.child .exit)

/-- What main has found out. -/
def MainPc.Knows (pthreadCreate : ℤ) (answer : Option SysResult) (x : Status Loc) : MainPc → Prop
  | .create => x = .unborn (.child .init)
  | .createFailed => pthreadCreate ≠ 0
  | .test | .blocked => pthreadCreate = 0
  | .readRet => pthreadCreate = 0 ∧ Status.Back x
  | .exit v => Tells pthreadCreate answer v

/-- What ties main, the child and the cells together. -/
def Scene (pthreadCreate : ℤ) (answer : Option SysResult) (mem : Cell → ℤ)
    (x y : Status Loc) : Prop :=
  ∃ m, x.At (.main m) ∧ ChildAt answer (mem .childBlocked) (mem .childRet) y ∧
    m.Knows pthreadCreate answer y

variable {w : List TestEvent} {x y y' : Status Loc} {m : MainPc} {mem mem' : Cell → ℤ}
  {loc : Party → Loc} {access : Access Cell Call Party} {l l' : Loc}

/-- A child that goes on does not go back into its wait. -/
theorem MainPc.Knows.frame (knows : m.Knows pthreadCreate answer x) (born : ∀ l, x ≠ .unborn l)
    (back : Status.Back x → Status.Back y) : m.Knows pthreadCreate answer y := by
  cases m with
  | create => exact absurd knows (born _)
  | readRet => exact ⟨knows.1, back knows.2⟩
  | _ => exact knows

/-- A child that is found back has come back. -/
theorem ChildAt.back {ret : ℤ} (child : ChildAt answer 0 ret x) : Status.Back x := by
  -- only the last two control points leave `child_blocked` open
  unfold ChildAt at child
  split at child
  · cases child.2.1
  · cases child.1
  · cases child.1
  · cases child.2.1
  · cases child.2.1
  · exact .inl rfl
  · exact .inr rfl
  · exact child.elim

/-- What it has left is a verdict. -/
theorem ChildAt.tells {blocked ret : ℤ} (child : ChildAt answer blocked ret x)
    (back : Status.Back x) (created : pthreadCreate = 0) : Tells pthreadCreate answer ret := by
  right
  rcases back with rfl | rfl
  · obtain ⟨⟨r, comes, -⟩, pass⟩ := child
    exact ⟨created, .inr (.inl ⟨pass, r, comes⟩)⟩
  · obtain ⟨r, comes, pass | ⟨error, fails⟩⟩ := child
    · exact ⟨created, .inr (.inl ⟨pass, r, comes⟩)⟩
    · exact ⟨created, .inr (.inr ⟨error, r, comes, fails⟩)⟩

/-- An operation of main. -/
theorem main_next (child : ChildAt answer (mem .childBlocked) (mem .childRet) y)
    (knows : m.Knows pthreadCreate answer y)
    (next : (main pthreadCreate m).Next (program pthreadCreate) mem loc access mem' l')
    (keeps : Keeps .child access y y') :
    ∃ m', l' = .main m' ∧ ChildAt answer (mem' .childBlocked) (mem' .childRet) y' ∧
      m'.Knows pthreadCreate answer y' := by
  cases m with
  | create =>
    obtain rfl := knows
    unfold main at next
    dsimp only at next
    split_ifs at next with refused
    · cases next
      obtain rfl := keeps.same (by simp)
      exact ⟨_, rfl, child, refused⟩
    · cases next
      -- the child is born
      rcases keeps with ⟨no_create, -⟩ | ⟨-, l, unborn, rfl⟩
      · exact absurd rfl no_create
      · cases unborn
        exact ⟨_, rfl, child.2, not_not.mp refused⟩
  | createFailed =>
    cases next
    obtain rfl := keeps.same (by simp)
    exact ⟨_, rfl, child, .inl ⟨rfl, knows⟩⟩
  | test =>
    cases next
    obtain rfl := keeps.same (by simp)
    dsimp only
    split_ifs with blocked
    · exact ⟨_, rfl, child, knows⟩
    · refine ⟨_, rfl, child, knows, ?_⟩
      -- `child_blocked` is 0, so that the child has come back
      rw [not_not.mp blocked] at child
      exact child.back
  | blocked =>
    cases next
    obtain rfl := keeps.same (by simp)
    exact ⟨_, rfl, child, .inr ⟨knows, .inl rfl⟩⟩
  | readRet =>
    cases next
    obtain rfl := keeps.same (by simp)
    exact ⟨_, rfl, child, child.tells knows.2 knows.1⟩
  | exit v => cases next

/-- An operation of the child. -/
theorem child_next (child : ChildAt answer (mem .childBlocked) (mem .childRet) y)
    (knows : m.Knows pthreadCreate answer y)
    (runs : Runs (program pthreadCreate) .child l access y)
    (next : (program pthreadCreate .child l).Next (program pthreadCreate) mem loc access mem' l')
    (changes : (kernel answer).Changes mem () .child access ()) :
    ChildAt answer (mem' .childBlocked) (mem' .childRet) (.ready l') ∧
      m.Knows pthreadCreate answer (.ready l') := by
  rcases runs with ⟨rfl, no_call⟩ | ⟨rfl, c, r, rfl⟩
  · cases l with
    | main m => cases next
    | child p =>
      cases p with
      | init =>
        cases next
        exact ⟨⟨child.1, Function.update_self _ _ _⟩,
          knows.frame (by simp) (by simp [Status.Back])⟩
      | wait => exact absurd rfl (no_call _ _)
      | unblock r =>
        obtain ⟨comes, -, pass⟩ := child
        cases next
        -- it clears `child_blocked` before it looks at the result
        split_ifs with fails
        · exact ⟨⟨⟨r, comes, fails⟩, pass⟩, knows.frame (by simp) (by simp [Status.Back])⟩
        · exact ⟨⟨r, comes, .inl pass⟩, knows.frame (by simp) (by simp [Status.Back])⟩
      | failed =>
        obtain ⟨⟨r, comes, fails⟩, -⟩ := child
        cases next
        exact ⟨⟨r, comes, .inr ⟨Function.update_self _ _ _, fails⟩⟩,
          knows.frame (by simp) fun _ => .inr rfl⟩
      | exit => cases next
  · -- the wait returns what the kernel answers
    obtain ⟨rfl, rest⟩ := child
    cases next
    have leaves : (if answer = some r then some () else none) = some () := changes
    rw [Option.ite_none_right_eq_some] at leaves
    exact ⟨⟨leaves.1, rest⟩, knows.frame (by simp) (by simp [Status.Back])⟩

/-- Every run ends in a scene. -/
theorem exists_scene {s : State Cell Party Loc Unit}
    (run : (machine pthreadCreate answer).Run w s) :
    Scene pthreadCreate answer s.mem (s.thread .main) (s.thread .child) := by
  refine Run.pair_invariant (t := .main) (u := .child)
    (P := fun _ mem x y _ => Scene pthreadCreate answer mem x y)
    (fun v => by cases v <;> simp) (by simp) (by simp [start]) ?_ ?_ ?_ ?_ ?_ ?_ run
  · exact ⟨.create, rfl, ⟨rfl, rfl, rfl⟩, rfl⟩
  · rintro w mem x y κ v l κ' - acts
    cases acts
  · rintro w mem y κ l c k κ' ⟨m, here, -⟩ op -
    obtain rfl : l = .main m := here
    exact absurd op main_ne_call
  · rintro w mem x κ l c k κ' ⟨m, here, child, knows⟩ op -
    refine ⟨m, here, ?_, knows.frame (by simp) ?_⟩
    · cases l with
      | main m => cases op
      | child p =>
        cases p <;> cases op
        exact ⟨rfl, child⟩
    · rintro (back | back) <;> cases back <;> cases op
  · rintro w mem loc x y y' κ l access mem' l' κ' ⟨m, here, child, knows⟩ runs - next - keeps
    obtain rfl := runs.at_eq here
    obtain ⟨m', rfl, after⟩ := main_next child knows next keeps
    exact ⟨m', rfl, after⟩
  · rintro w mem loc x y κ l access mem' l' κ' ⟨m, here, child, knows⟩ runs next changes
    exact ⟨m, here, child_next child knows runs next changes⟩

/-! ## The end -/

/-- Nobody can move. -/
abbrev Quiet (pthreadCreate : ℤ) (answer : Option SysResult) (s : State Cell Party Loc Unit) :
    Prop :=
  (machine pthreadCreate answer).Stuck (fun _ => true) s

variable {s : State Cell Party Loc Unit}

/-- Where nobody can move main has printed its verdict, whatever the child does. -/
theorem exit_of_quiet (run : (machine pthreadCreate answer).Run w s)
    (quiet : Quiet pthreadCreate answer s) : ∃ v, s.loc .main = .main (.exit v) := by
  obtain ⟨m, here, child, knows⟩ := exists_scene run
  cases there : s.thread .main with
  | unborn l =>
    rw [there] at here
    exact here.elim
  | ready l =>
    rw [there] at here
    obtain rfl : l = .main m := here
    obtain ⟨idle, -⟩ := waits_of_stuck (descends pthreadCreate answer) quiet there
    cases m with
    | create =>
      rw [program, main] at idle
      split_ifs at idle with refused
      · cases idle
      · -- the creation could go on
        have unborn : s.thread .child = .unborn (.child .init) := knows
        have performed : (program pthreadCreate .main (.main .create)).perform
            (program pthreadCreate) s .main = some (.create .child,
              (s.put .child (.ready (.child .init))).put .main (.ready (.main .test))) := by
          rw [program, main, if_neg refused, Op.perform, unborn]
        cases quiet _ _ (.run there performed)
    | exit v => exact ⟨v, by simp [State.loc, there]⟩
    | _ => cases idle
  | calling l =>
    rw [there] at here
    obtain rfl : l = .main m := here
    obtain ⟨c, k, op⟩ := calling_at_call (fun t l => by cases t <;> simp [start])
      run.reachable there
    exact absurd op main_ne_call

/-! ## Every verdict that tells what is so -/

/-- The state with both threads and cells as given. -/
def stage (m : MainPc) (x : Status Loc) (blocked ret : ℤ) : State Cell Party Loc Unit where
  mem
    | .childBlocked => blocked
    | .childRet => ret
  thread
    | .main => .ready (.main m)
    | .child => x
  kernel := ()

theorem eq_stage {m : MainPc} {x : Status Loc} {blocked ret : ℤ}
    (main : s.thread .main = .ready (.main m)) (child : s.thread .child = x)
    (cells : s.mem .childBlocked = blocked ∧ s.mem .childRet = ret) :
    s = stage m x blocked ret := by
  have mem : s.mem = (stage m x blocked ret).mem := by
    funext a
    cases a with
    | childBlocked => exact cells.1
    | childRet => exact cells.2
  have thread : s.thread = (stage m x blocked ret).thread := by
    funext t
    cases t with
    | main => exact main
    | child => exact child
  exact congr (congr (congrArg State.mk mem) thread) rfl

section Later

variable {m m' : MainPc} {x x' : Status Loc} {p p' : ChildPc} {blocked ret blocked' ret' : ℤ}

theorem later_of_step {e : TestEvent} {s' : State Cell Party Loc Unit}
    (step : Step (kernel answer) (program pthreadCreate) s e s')
    (after : s' = stage m x blocked ret) :
    (machine pthreadCreate answer).Later s (stage m x blocked ret) :=
  after ▸ .single ⟨e, step⟩

/-- An operation of main leads on. -/
theorem later_main {access : Access Cell Call Party}
    (performed : (main pthreadCreate m).perform (program pthreadCreate)
      (stage m x blocked ret) .main = some (access, s))
    (after : s = stage m' x' blocked' ret') :
    (machine pthreadCreate answer).Later (stage m x blocked ret) (stage m' x' blocked' ret') :=
  later_of_step (.run (l := .main m) rfl performed) after

/-- And one of the child. -/
theorem later_child {access : Access Cell Call Party}
    (performed : (waitThread p).perform (program pthreadCreate)
      (stage m (.ready (.child p)) blocked ret) .child = some (access, s))
    (after : s = stage m x' blocked' ret') :
    (machine pthreadCreate answer).Later (stage m (.ready (.child p)) blocked ret)
      (stage m x' blocked' ret') :=
  later_of_step (.run (l := .child p) rfl performed) after

/-- The wait comes back with what the kernel answers. -/
theorem later_wait {r : SysResult} (comes : answer = some r) :
    (machine pthreadCreate answer).Later (stage m (.ready (.child .wait)) blocked ret)
      (stage m (.ready (.child (.unblock r))) blocked ret) := by
  have enters : (machine pthreadCreate answer).Later
      (stage m (.ready (.child .wait)) blocked ret)
      (stage m (.calling (.child .wait)) blocked ret) :=
    later_of_step (.enter (t := .child) (l := .child .wait) rfl rfl rfl)
      (eq_stage rfl rfl ⟨rfl, rfl⟩)
  have leaves : (machine pthreadCreate answer).Later
      (stage m (.calling (.child .wait)) blocked ret)
      (stage m (.ready (.child (.unblock r))) blocked ret) :=
    later_of_step (.leave (t := .child) (l := .child .wait) rfl rfl (if_pos comes))
      (eq_stage rfl rfl ⟨rfl, rfl⟩)
  exact enters.trans leaves

/-- The child comes back and clears `child_blocked`. -/
theorem later_back {r : SysResult} (comes : answer = some r) :
    (machine pthreadCreate answer).Later (stage m (.ready (.child .init)) blocked ret)
      (stage m (.ready (.child (if Fails r then .failed else .exit))) 0 retPass) := by
  have init : (machine pthreadCreate answer).Later (stage m (.ready (.child .init)) blocked ret)
      (stage m (.ready (.child .wait)) blocked retPass) :=
    later_child rfl (eq_stage rfl rfl ⟨rfl, rfl⟩)
  have unblock : (machine pthreadCreate answer).Later
      (stage m (.ready (.child (.unblock r))) blocked retPass)
      (stage m (.ready (.child (if Fails r then .failed else .exit))) 0 retPass) :=
    later_child rfl (eq_stage rfl rfl ⟨rfl, rfl⟩)
  exact init.trans ((later_wait comes).trans unblock)

/-- Main finds it back and takes what it has left. -/
theorem later_found :
    (machine pthreadCreate answer).Later (stage .test x 0 ret) (stage (.exit ret) x 0 ret) := by
  have test : (machine pthreadCreate answer).Later (stage .test x 0 ret) (stage .readRet x 0 ret) :=
    later_main rfl (eq_stage rfl rfl ⟨rfl, rfl⟩)
  have readRet : (machine pthreadCreate answer).Later (stage .readRet x 0 ret)
      (stage (.exit ret) x 0 ret) :=
    later_main rfl (eq_stage rfl rfl ⟨rfl, rfl⟩)
  exact test.trans readRet

end Later

/-- Main creates the child. -/
theorem later_test (created : pthreadCreate = 0) :
    (machine pthreadCreate answer).Later start (stage .test (.ready (.child .init)) 1 retPass) := by
  rw [show start = stage .create (.unborn (.child .init)) 1 retPass from
    eq_stage rfl rfl ⟨rfl, rfl⟩]
  have performed : (main pthreadCreate .create).perform (program pthreadCreate)
      (stage .create (.unborn (.child .init)) 1 retPass) .main =
      some (.create .child, ((stage .create (.unborn (.child .init)) 1 retPass).put .child
        (.ready (.child .init))).put .main (.ready (.main .test))) := by
    rw [main, if_neg (not_not.mpr created)]
    rfl
  exact later_main performed (eq_stage rfl rfl ⟨rfl, rfl⟩)

/-- There is a run to every verdict that tells what is so. -/
theorem exists_later_of_tells {v : ℤ} (tells : Tells pthreadCreate answer v) :
    ∃ s, (machine pthreadCreate answer).Later start s ∧ s.loc .main = .main (.exit v) := by
  rcases tells with ⟨rfl, refused⟩ | ⟨created, rfl | ⟨rfl, r, comes⟩ | ⟨rfl, r, comes, fails⟩⟩
  · refine ⟨stage (.exit retError) (.unborn (.child .init)) 1 retPass, ?_, rfl⟩
    rw [show start = stage .create (.unborn (.child .init)) 1 retPass from
      eq_stage rfl rfl ⟨rfl, rfl⟩]
    -- the creation fails
    have performed : (main pthreadCreate .create).perform (program pthreadCreate)
        (stage .create (.unborn (.child .init)) 1 retPass) .main =
        some (.tau, (stage .create (.unborn (.child .init)) 1 retPass).put .main
          (.ready (.main .createFailed))) := by
      rw [main, if_pos refused]
      rfl
    have failed : (machine pthreadCreate answer).Later
        (stage .create (.unborn (.child .init)) 1 retPass)
        (stage .createFailed (.unborn (.child .init)) 1 retPass) :=
      later_main performed (eq_stage rfl rfl ⟨rfl, rfl⟩)
    exact failed.trans (later_main rfl (eq_stage rfl rfl ⟨rfl, rfl⟩))
  · -- main looks before the child has begun
    refine ⟨stage (.exit retFail) (.ready (.child .init)) 1 retPass, ?_, rfl⟩
    have blocked : (machine pthreadCreate answer).Later
        (stage .test (.ready (.child .init)) 1 retPass)
        (stage .blocked (.ready (.child .init)) 1 retPass) :=
      later_main rfl (eq_stage rfl rfl ⟨rfl, rfl⟩)
    exact (later_test created).trans
      (blocked.trans (later_main rfl (eq_stage rfl rfl ⟨rfl, rfl⟩)))
  · -- and here between the two stores of the child
    exact ⟨_, (later_test created).trans ((later_back comes).trans later_found), rfl⟩
  · have back : (machine pthreadCreate answer).Later
        (stage .test (.ready (.child .init)) 1 retPass)
        (stage .test (.ready (.child (if Fails r then .failed else .exit))) 0 retPass) :=
      later_back comes
    rw [if_pos fails] at back
    have failed : (machine pthreadCreate answer).Later
        (stage .test (.ready (.child .failed)) 0 retPass)
        (stage .test (.ready (.child .exit)) 0 retError) :=
      later_child rfl (eq_stage rfl rfl ⟨rfl, rfl⟩)
    exact ⟨_, (later_test created).trans (back.trans (failed.trans later_found)), rfl⟩

/-- **What the test tells.** Whatever the kernel answers to the wait, if anything, a run has at
most eight steps, and when nobody can move main has printed its verdict. The verdicts that it
may print are exactly those that tell what is so: an error if the creation has failed, and
otherwise a failure in any case, a pass if the wait comes back, with whatever result, and an
error if it comes back with one that is not expected. -/
theorem verdict_iff_tells (pthreadCreate : ℤ) (answer : Option SysResult) :
    (machine pthreadCreate answer).Bounded (fun _ => true) 8 0 ∧
    (∀ w s, (machine pthreadCreate answer).Run w s → Quiet pthreadCreate answer s →
      ∃ v, s.loc .main = .main (.exit v)) ∧
    ∀ v, (∃ w s, (machine pthreadCreate answer).Run w s ∧ s.loc .main = .main (.exit v)) ↔
      Tells pthreadCreate answer v := by
  have ranks : (start).total Loc.rank Loc.rankInside (fun _ => 0) = 8 := rfl
  refine ⟨ranks ▸ (descends pthreadCreate answer).bounded, fun w s run => exit_of_quiet run, ?_⟩
  intro v
  constructor
  · rintro ⟨w, s, run, ended⟩
    obtain ⟨m, here, child, knows⟩ := exists_scene run
    obtain rfl : m = .exit v := Loc.main.inj (here.loc_eq.symm.trans ended)
    exact knows
  · intro tells
    obtain ⟨s, later, ended⟩ := exists_later_of_tells tells
    obtain ⟨w, run⟩ := System.Run.exists_append (.start rfl) later
    exact ⟨_, s, run, ended⟩

end UninitializedHeap
