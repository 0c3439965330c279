import Futextest.Locktest.Components

/-!
# The course of a run

What one step of main can do, and from it what the position of main says about a
run so far: which threads exist, which have been joined, and which of the two
times have been taken.

## Main definitions

* `MainStep` — what a step of main does to these
* `RunInv` — what the position of main says

## Main results

* `exists_main` — main and the workers are where they belong
* `runInv` — the invariant, for every run
-/

open FutexMachine

namespace Locktest

variable {A F : Type} (c : Locktest A F) (k : ℕ)

/-- How many threads exist while main is at this control point. -/
def createdBy : MainPc c.n → ℕ
  | .create i => i
  | _ => k

/-- Whether main has joined worker `j`. -/
def JoinedBy (j : Fin c.n) : MainPc c.n → Prop
  | .abortJoin i => i.val ≤ j.val ∧ j.val < k
  | .join i => j.val < i.val
  | .ret _ => j.val < k
  | _ => False

/-- Main has taken `before`. -/
def pastBefore {n : ℕ} : MainPc n → Bool
  | .unblockBefore _ => true
  | .waitAfter _ => true
  | .timesAfter => true
  | .unblockAfter _ => true
  | .join _ => true
  | .ret result => result = retPass
  | _ => false

/-- Main has taken `after`. -/
def pastAfter {n : ℕ} : MainPc n → Bool
  | .unblockAfter _ => true
  | .join _ => true
  | .ret result => result = retPass
  | _ => false

/-- What a step of main from `pc` to `pc'` does to what its position says. -/
structure MainStep (pc : MainPc c.n) (access : Access (LocktestAddr A) (Team c.threads))
    (pc' : MainPc c.n) : Prop where
  creates : ∀ j : Fin c.n, c.createdBy k pc' ≤ j ↔
    c.createdBy k pc ≤ j ∧ access ≠ .create (.worker j)
  joins : ∀ j : Fin c.n, c.JoinedBy k j pc' ↔ c.JoinedBy k j pc ∨ access = .join (.worker j)
  once : ∀ j : Fin c.n, c.JoinedBy k j pc → access ≠ .join (.worker j)
  before : pastBefore pc' = true ↔ pastBefore pc = true ∨ pc = .timesBefore
  after : pastAfter pc' = true ↔ pastAfter pc = true ∨ pc = .timesAfter

variable {c k}

/-- A step that neither creates nor joins. -/
theorem MainStep.quiet {pc pc' : MainPc c.n} {access : Access (LocktestAddr A) (Team c.threads)}
    (creates : ∀ u, access ≠ .create u) (joins : ∀ u, access ≠ .join u)
    (created : c.createdBy k pc' = c.createdBy k pc)
    (joined : ∀ j, c.JoinedBy k j pc' ↔ c.JoinedBy k j pc)
    (before : pastBefore pc' = true ↔ pastBefore pc = true ∨ pc = .timesBefore)
    (after : pastAfter pc' = true ↔ pastAfter pc = true ∨ pc = .timesAfter) :
    c.MainStep k pc access pc' where
  creates j := by simp [created, creates]
  joins j := by simp [joined, joins]
  once j _ := joins _
  before := before
  after := after

/-- Main and the workers are where they belong. -/
theorem exists_main [DecidableEq A] {s : c.RunState} (created : c.Creates k)
    (reach : c.machine.Reachable s) : ∃ pc, s.loc .main = .main pc ∧ c.PcOk k pc := by
  obtain ⟨u, -, proj⟩ := exists_before created reach
  have view := proj.loc .main
  cases hl : s.loc .main with
  | main pc =>
    rw [hl] at view
    exact ⟨pc, rfl, view.1⟩
  | worker pc =>
    rw [hl] at view
    exact view.elim

theorem exists_worker [DecidableEq A] {s : c.RunState} (created : c.Creates k)
    (reach : c.machine.Reachable s) (i : Fin c.n) : ∃ pc, s.loc (.worker i) = .worker pc := by
  obtain ⟨u, -, proj⟩ := exists_before created reach
  have view := proj.loc (.worker i)
  cases hl : s.loc (.worker i) with
  | main pc =>
    rw [hl] at view
    exact view.elim
  | worker pc => exact ⟨pc, rfl⟩

/-- The instructions of main. -/
theorem MainStep.of_instr [DecidableEq A] (created : c.Creates k) {pc : MainPc c.n}
    (ok : c.PcOk k pc) {i : Instr (LocktestAddr A) (LocktestLoc F c.n)}
    (op : c.main pc = .instr i) (mem : LocktestAddr A → UInt32) (woken : Finset (Team c.threads)) :
    ∃ pc', (i.effect mem).2 = .main pc' ∧ c.MainStep k pc (i.shows mem woken) pc' := by
  have step : ∀ pc', c.createdBy k pc' = c.createdBy k pc →
      (∀ j, c.JoinedBy k j pc' ↔ c.JoinedBy k j pc) →
      (pastBefore pc' = true ↔ pastBefore pc = true ∨ pc = .timesBefore) →
      (pastAfter pc' = true ↔ pastAfter pc = true ∨ pc = .timesAfter) →
      c.MainStep k pc (i.shows mem woken) pc' := fun pc' =>
    .quiet (fun u => Instr.shows_ne_create) (fun u => Instr.shows_ne_join)
  -- a call of a barrier procedure stays in it or returns
  have call : ∀ {P R : Type} (i₀ : Instr BarrierAddr (P ⊕ R)) (f : BarrierAddr → LocktestAddr A)
      (stay : P → MainPc c.n) (next : MainPc c.n),
      i = i₀.map f (Sum.elim (fun p => .main (stay p)) fun _ => .main next) →
      (∀ p, c.MainStep k pc (i.shows mem woken) (stay p)) →
      c.MainStep k pc (i.shows mem woken) next →
      ∃ pc', (i.effect mem).2 = .main pc' ∧ c.MainStep k pc (i.shows mem woken) pc' := by
    intro P R i₀ f stay next mapped inside returns
    have loc : (i.effect mem).2 =
        Sum.elim (fun p => .main (stay p)) (fun _ => .main next) (i₀.effect (mem ∘ f)).2 := by
      rw [mapped, Instr.effect_map]
    rcases hx : (i₀.effect (mem ∘ f)).2 with p | r
    · exact ⟨stay p, by rw [loc, hx]; rfl, inside p⟩
    · exact ⟨next, by rw [loc, hx]; rfl, returns⟩
  cases pc with
  | create i =>
    rcases create_cases created i ok with ⟨more, less, op'⟩ | ⟨last, fails, op'⟩ | ⟨last, all, op'⟩
    · simp [op'] at op
    · obtain rfl := by simpa [op'] using op
      exact ⟨_, rfl, step _ last.symm (fun j => Iff.rfl) (by simp [pastBefore])
        (by simp [pastAfter])⟩
    · obtain rfl := by simpa [op'] using op
      exact ⟨_, rfl, step _ (all.trans last.symm) (fun j => Iff.rfl) (by simp [pastBefore])
        (by simp [pastAfter])⟩
  | abort i pc =>
    refine call _ _ _ _ (Op.instr.inj op).symm (fun p => ?_) ?_
    · exact step _ rfl (fun j => Iff.rfl) (by simp [pastBefore]) (by simp [pastAfter])
    · have last : i.val = k := ok.1
      refine step _ rfl (fun j => ?_) (by simp [pastBefore]) (by simp [pastAfter])
      simp only [JoinedBy, iff_false]
      omega
  | abortJoin i =>
    rcases abortJoin_cases (c := c) i with ⟨zero, op'⟩ | ⟨j, less, pred, op'⟩
    · obtain rfl := by simpa [op'] using op
      -- by its result main is known not to have read the times
      have differs : retError ≠ retPass := by decide
      refine ⟨_, rfl, step _ rfl (fun j => ?_) (by simp [pastBefore, differs])
        (by simp [pastAfter, differs])⟩
      simp [JoinedBy, zero]
    · simp [op'] at op
  | waitBefore pc | unblockBefore pc | waitAfter pc =>
    refine call _ _ _ _ (Op.instr.inj op).symm (fun p => ?_) ?_
    · exact step _ rfl (fun j => Iff.rfl) (by simp [pastBefore]) (by simp [pastAfter])
    · exact step _ rfl (fun j => Iff.rfl) (by simp [pastBefore]) (by simp [pastAfter])
  | timesBefore | timesAfter =>
    obtain rfl := Op.instr.inj op
    exact ⟨_, rfl, step _ rfl (fun j => Iff.rfl) (by simp [pastBefore]) (by simp [pastAfter])⟩
  | unblockAfter pc =>
    refine call _ _ _ _ (Op.instr.inj op).symm (fun p => ?_) ?_
    · exact step _ rfl (fun j => Iff.rfl) (by simp [pastBefore]) (by simp [pastAfter])
    · refine step _ rfl (fun j => ?_) (by simp [pastBefore]) (by simp [pastAfter])
      simp [JoinedBy]
  | join i =>
    rcases join_cases (c := c) i with ⟨more, op'⟩ | ⟨last, op'⟩
    · simp [op'] at op
    · obtain rfl := by simpa [op'] using op
      have all : k = c.n := ok
      refine ⟨_, rfl, step _ rfl (fun j => ?_) (by simp [pastBefore]) (by simp [pastAfter])⟩
      simp [JoinedBy, all, last]
  | ret result => simp [main] at op

/-- The creations and joins of main. -/
theorem MainStep.of_thread (created : c.Creates k) {pc : MainPc c.n} (ok : c.PcOk k pc)
    {u : Team c.threads} {l : LocktestLoc F c.n} {access : Access (LocktestAddr A) (Team c.threads)}
    (op : c.main pc = .create u l ∧ access = .create u ∨
      c.main pc = .join u l ∧ access = .join u) :
    ∃ pc', l = .main pc' ∧ c.MainStep k pc access pc' := by
  cases pc with
  | create i =>
    rcases create_cases created i ok with ⟨more, less, op'⟩ | ⟨-, -, op'⟩ | ⟨-, -, op'⟩
    · simp only [op', Op.create.injEq, reduceCtorEq, false_and, or_false] at op
      obtain ⟨⟨rfl, rfl⟩, rfl⟩ := op
      refine ⟨_, rfl, ⟨fun j => ?_, by simp [JoinedBy], by simp, by simp [pastBefore],
        by simp [pastAfter]⟩⟩
      simp only [createdBy, ne_eq, Access.create.injEq, Thread.worker.injEq, Fin.ext_iff]
      omega
    · simp [op'] at op
    · simp [op'] at op
  | abortJoin i =>
    rcases abortJoin_cases (c := c) i with ⟨-, op'⟩ | ⟨j, less, pred, op'⟩
    · simp [op'] at op
    · simp only [op', Op.join.injEq, reduceCtorEq, false_and, false_or] at op
      obtain ⟨⟨rfl, rfl⟩, rfl⟩ := op
      have bound : i.val ≤ k := ok.1
      refine ⟨_, rfl, ⟨by simp [createdBy], fun m => ?_, fun m => ?_, by simp [pastBefore],
        by simp [pastAfter]⟩⟩
      · simp only [JoinedBy, Access.join.injEq, Thread.worker.injEq, Fin.ext_iff]
        omega
      · simp only [JoinedBy, ne_eq, Access.join.injEq, Thread.worker.injEq, Fin.ext_iff]
        omega
  | join i =>
    rcases join_cases (c := c) i with ⟨more, op'⟩ | ⟨-, op'⟩
    · simp only [op', Op.join.injEq, reduceCtorEq, false_and, false_or] at op
      obtain ⟨⟨rfl, rfl⟩, rfl⟩ := op
      refine ⟨_, rfl, ⟨by simp [createdBy], fun m => ?_, fun m => ?_, by simp [pastBefore],
        by simp [pastAfter]⟩⟩
      · simp only [JoinedBy, Access.join.injEq, Thread.worker.injEq, Fin.ext_iff]
        omega
      · simp only [JoinedBy, ne_eq, Access.join.injEq, Thread.worker.injEq, Fin.ext_iff]
        omega
    · simp [op'] at op
  | abort i pc | waitBefore pc | timesBefore | unblockBefore pc | waitAfter pc | timesAfter
  | unblockAfter pc | ret result => simp [main] at op

/-! ## Who sleeps where -/

/-- Each thread waits on the words of the barriers that are for it, and in the
function under test on the words of that. -/
theorem program_wait {t : Team c.threads} {pc l : LocktestLoc F c.n} {a : LocktestAddr A}
    {v : UInt32} (wait : c.program t pc = .instr (.wait a v l)) :
    (t = .main ∧ (a = .before .threads ∧ l = .main (.waitBefore .read) ∨
      a = .after .threads ∧ l = .main (.waitAfter .read))) ∨
    ∃ i, t = .worker i ∧ (a = .before .unblock ∧ l = .worker (.before .test) ∨
      a = .after .unblock ∧ l = .worker (.after .test) ∨
      ∃ b, a = .user b ∧ ((∃ f, l = .worker (.body f)) ∨ l = .worker (.after .dec))) := by
  rcases t with _ | i <;> rcases pc with pc | pc <;> simp only [program, reduceCtorEq] at wait
  · cases pc with
    | create i =>
      simp only [main] at wait
      split at wait
      · split at wait <;> simp at wait
      · simp at wait
    | abort i pc | unblockBefore pc | unblockAfter pc => cases pc <;> simp [main] at wait
    | abortJoin i =>
      rcases abortJoin_cases (c := c) i with ⟨-, op⟩ | ⟨j, less, -, op⟩ <;> simp [op] at wait
    | waitBefore pc =>
      cases pc with
      | read => simp [main] at wait
      | sleep m =>
        simp [main] at wait
        exact .inl ⟨rfl, .inl ⟨wait.1.symm, wait.2.2.symm⟩⟩
    | waitAfter pc =>
      cases pc with
      | read => simp [main] at wait
      | sleep m =>
        simp [main] at wait
        exact .inl ⟨rfl, .inr ⟨wait.1.symm, wait.2.2.symm⟩⟩
    | timesBefore | timesAfter | ret result => simp [main] at wait
    | join i =>
      rcases join_cases (c := c) i with ⟨more, op⟩ | ⟨-, op⟩ <;> simp [op] at wait
  · refine .inr ⟨i, rfl, ?_⟩
    cases pc with
    | before pc =>
      cases pc <;> simp [thread] at wait
      exact .inl ⟨wait.1.symm, wait.2.2.symm⟩
    | after pc =>
      cases pc <;> simp [thread] at wait
      exact .inr (.inl ⟨wait.1.symm, wait.2.2.symm⟩)
    | body pc =>
      simp only [thread, Op.instr.injEq] at wait
      cases hi : c.locktestFunction pc with
      | wait b w k =>
        rw [hi] at wait
        simp only [Instr.map, Instr.wait.injEq] at wait
        refine .inr (.inr ⟨b, wait.1.symm, ?_⟩)
        rcases k with f | _
        · exact .inl ⟨f, wait.2.2.symm⟩
        · exact .inr wait.2.2.symm
      | tau k | load b k | store b w k | cmpxchg b o w k | dec b k | wake b m k =>
        simp [hi] at wait
    | test result | call | ret ran => simp [thread] at wait

section Machine

variable [DecidableEq A] {s s' : c.RunState} {e : c.RunEvent}

theorem locktest_asleep (reach : c.machine.Reachable s) {t : Team c.threads} {a : LocktestAddr A}
    {l : LocktestLoc F c.n} (asleep : s.thread t = .asleep a l) :
    (t = .main ∧ (a = .before .threads ∧ l = .main (.waitBefore .read) ∨
      a = .after .threads ∧ l = .main (.waitAfter .read))) ∨
    ∃ i, t = .worker i ∧ (a = .before .unblock ∧ l = .worker (.before .test) ∨
      a = .after .unblock ∧ l = .worker (.after .test) ∨
      ∃ b, a = .user b ∧ ((∃ f, l = .worker (.body f)) ∨ l = .worker (.after .dec))) := by
  have awake : ∀ t a l, c.start.thread t ≠ .asleep a l := by
    intro t a l
    cases t <;> simp [start]
  obtain ⟨pc, v, wait⟩ := asleep_at_wait awake reach asleep
  exact program_wait wait

/-- A step of main. -/
theorem main_step (created : c.Creates k) (reach : c.machine.Reachable s)
    (step : Step c.program s e s') (mover : e.thread = .main) :
    ∃ pc pc', e.pc = .main pc ∧ s.loc .main = .main pc ∧ s'.loc .main = .main pc' ∧
      c.MainStep k pc e.access pc' := by
  obtain ⟨pc, at_pc, ok⟩ := exists_main created reach
  have here : e.pc = .main pc := by rw [step.pc_eq, mover, at_pc]
  refine ⟨pc, ?_⟩
  rcases step.effect with ⟨i, woken, hop, -, shown, -, loc⟩ |
    ⟨-, ⟨resumed, ⟨a, asleep⟩, loc⟩ | ⟨u, l, hop, loc⟩⟩
  · have op : c.main pc = .instr i := by simpa [mover, here, program] using hop
    obtain ⟨pc', next, moved⟩ := MainStep.of_instr created ok op s.mem woken
    refine ⟨pc', here, at_pc, ?_, shown ▸ moved⟩
    rw [loc, mover, Function.update_self, next]
  · -- a spurious return leaves main in one of its two waits
    have waiting : pc = .waitBefore .read ∨ pc = .waitAfter .read := by
      rw [mover, here] at asleep
      rcases locktest_asleep reach asleep with ⟨-, ⟨-, at_wait⟩ | ⟨-, at_wait⟩⟩ | ⟨i, other, -⟩
      · exact .inl (LocktestLoc.main.inj at_wait)
      · exact .inr (LocktestLoc.main.inj at_wait)
      · simp at other
    refine ⟨pc, here, at_pc, loc ▸ at_pc, .quiet (by simp [resumed]) (by simp [resumed]) rfl
      (fun j => Iff.rfl) ?_ ?_⟩
    · rcases waiting with rfl | rfl <;> simp
    · rcases waiting with rfl | rfl <;> simp
  · have op : c.main pc = .create u l ∧ e.access = .create u ∨
        c.main pc = .join u l ∧ e.access = .join u := by
      rcases hop with ⟨hop, shown⟩ | ⟨hop, shown, -⟩
      · exact .inl ⟨by simpa [mover, here, program] using hop, shown⟩
      · exact .inr ⟨by simpa [mover, here, program] using hop, shown⟩
    obtain ⟨pc', rfl, moved⟩ := MainStep.of_thread created ok op
    refine ⟨pc', here, at_pc, ?_, moved⟩
    rw [loc, mover, Function.update_self]

/-- Workers create and join nobody. -/
theorem worker_step (created : c.Creates k) (reach : c.machine.Reachable s)
    (step : Step c.program s e s') {i : Fin c.n} (mover : e.thread = .worker i) :
    (∀ u, e.access ≠ .create u) ∧ ∀ u, e.access ≠ .join u := by
  obtain ⟨pc, at_pc⟩ := exists_worker created reach i
  have here : e.pc = .worker pc := by rw [step.pc_eq, mover, at_pc]
  rcases step.effect with ⟨i, woken, -, -, shown, -⟩ | ⟨-, ⟨resumed, -⟩ | ⟨u, l, hop, -⟩⟩
  · rw [shown]
    exact ⟨fun u => Instr.shows_ne_create, fun u => Instr.shows_ne_join⟩
  · simp [resumed]
  · exfalso
    rw [mover, here] at hop
    cases pc <;> simp [program, thread] at hop

/-- Where a step of a worker leads: by its statement, or, if it sleeps, back to it. -/
theorem worker_next (created : c.Creates k) (reach : c.machine.Reachable s)
    (step : Step c.program s e s') {i : Fin c.n} (mover : e.thread = .worker i) :
    ∃ pc, e.pc = .worker pc ∧ s.loc (.worker i) = .worker pc ∧
      ((∃ j, c.thread pc = .instr j ∧ s'.loc (.worker i) = (j.effect s.mem).2) ∨
        (∃ a, s.thread (.worker i) = .asleep a (.worker pc)) ∧
          s'.loc (.worker i) = .worker pc) := by
  obtain ⟨pc, at_pc⟩ := exists_worker created reach i
  have here : e.pc = .worker pc := by rw [step.pc_eq, mover, at_pc]
  refine ⟨pc, here, at_pc, ?_⟩
  rcases step.effect with ⟨j, woken, hop, -, -, -, loc⟩ |
    ⟨-, ⟨-, ⟨a, asleep⟩, loc⟩ | ⟨u, l, hop, -⟩⟩
  · rw [mover, here] at hop
    rw [mover] at loc
    refine .inl ⟨j, hop, ?_⟩
    rw [loc, Function.update_self]
  · rw [mover, here] at asleep
    exact .inr ⟨⟨a, asleep⟩, loc ▸ at_pc⟩
  · rw [mover, here] at hop
    cases pc <;> simp [program, thread] at hop

/-! ## What the position of main says -/

/-- What the position of main says about the run `w` that led to it. -/
structure RunInv (k : ℕ) (w : List c.RunEvent) (s : c.RunState) (pc : MainPc c.n) : Prop where
  born : ∀ j : Fin c.n, (∃ l, s.thread (.worker j) = .unborn l) ↔ c.createdBy k pc ≤ j
  finished : ∀ j, c.JoinedBy k j pc → s.finished c.program (.worker j) = true
  joins : ∀ j, (c.JoinedBy k j pc → w.countP (fun e => e.access = .join (.worker j)) = 1) ∧
    (¬ c.JoinedBy k j pc → w.countP (fun e => e.access = .join (.worker j)) = 0)
  before : pastBefore pc = true ↔ ∃ e ∈ w, e.pc = .main .timesBefore
  after : pastAfter pc = true ↔ ∃ e ∈ w, e.pc = .main .timesAfter

/-- A step of a worker changes nothing of this. -/
theorem RunInv.worker {w : List c.RunEvent} {pc : MainPc c.n} (inv : RunInv k w s pc)
    (created : c.Creates k) (reach : c.machine.Reachable s) (step : Step c.program s e s')
    {i : Fin c.n} (mover : e.thread = .worker i) : RunInv k (w ++ [e]) s' pc := by
  obtain ⟨creates, joins⟩ := worker_step created reach step mover
  obtain ⟨pc', at_pc⟩ := exists_worker created reach i
  have here : e.pc = .worker pc' := by rw [step.pc_eq, mover, at_pc]
  refine ⟨fun j => ?_, fun j joined => step.finished (inv.finished j joined), fun j => ?_, ?_, ?_⟩
  · rw [step.unborn_iff, ← inv.born j]
    simp [creates]
  · simpa [List.countP_append, joins] using inv.joins j
  · rw [inv.before]
    simp [here]
  · rw [inv.after]
    simp [here]

/-- A step of main changes it with its position. -/
theorem RunInv.main {w : List c.RunEvent} {pc pc' : MainPc c.n} (inv : RunInv k w s pc)
    (step : Step c.program s e s') (here : e.pc = .main pc)
    (moved : c.MainStep k pc e.access pc') : RunInv k (w ++ [e]) s' pc' := by
  refine ⟨fun j => ?_, fun j joined => ?_, fun j => ?_, ?_, ?_⟩
  · rw [step.unborn_iff, moved.creates, inv.born j]
  · rcases (moved.joins j).mp joined with before | now
    · exact step.finished (inv.finished j before)
    · exact step.finished (step.finished_of_join now)
  · have past := inv.joins j
    have once := moved.once j
    have joins := moved.joins j
    by_cases now : e.access = .join (.worker j)
    · -- a worker is joined once, so this is the first time
      have first : ¬ c.JoinedBy k j pc := fun joined => once joined now
      simpa [List.countP_append, now, joins.mpr (.inr now)] using past.2 first
    · simpa [List.countP_append, now, joins] using past
  · rw [moved.before, inv.before]
    simp [here, or_comm]
  · rw [moved.after, inv.after]
    simp [here, or_comm]

/-- What the position of main says holds after every run. -/
theorem runInv (created : c.Creates k) {w : List c.RunEvent} (run : c.machine.Run w s) :
    ∃ pc, s.loc .main = .main pc ∧ c.PcOk k pc ∧ RunInv k w s pc := by
  refine run.induction (P := fun w s => ∃ pc, s.loc .main = .main pc ∧ c.PcOk k pc ∧
    RunInv k w s pc) ?_ ?_
  · rintro s rfl
    refine ⟨.create 0, rfl, Nat.zero_le k, ⟨fun j => ?_, ?_, ?_, ?_, ?_⟩⟩
    · simp [start, createdBy]
    · simp [JoinedBy]
    · simp [JoinedBy]
    · simp [pastBefore]
    · simp [pastAfter]
  · rintro w s e s' before ⟨pc, at_pc, ok, inv⟩ step
    obtain ⟨pc', at_pc', ok'⟩ := exists_main created (before.reachable.next step)
    refine ⟨pc', at_pc', ok', ?_⟩
    cases mover : e.thread with
    | main =>
      obtain ⟨pc₀, pc₁, here, at_pc₀, at_pc₁, moved⟩ :=
        main_step created before.reachable step mover
      obtain rfl : pc = pc₀ := by simpa [at_pc] using at_pc₀
      obtain rfl : pc' = pc₁ := by simpa [at_pc'] using at_pc₁
      exact inv.main step here moved
    | worker i =>
      obtain rfl : pc' = pc := by
        have same : s'.loc .main = s.loc .main := Step.loc_other step (by simp [mover])
        simpa [at_pc, at_pc'] using same
      exact inv.worker created before.reachable step mover

end Machine

end Locktest
