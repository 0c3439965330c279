import Mathlib.Algebra.BigOperators.Group.Finset.Basic
import Futextest.CInt
import Futextest.Locktest.Benchmark

/-!
# What the result line counts

`futex_wait` takes any two ints for the iterations and the threads. `locktest` divides
the one by the other, hands the quotient to each worker, which counts it down to 0, and
reports the product of quotient and threads. The report is the number of lock/unlock
pairs that the workers have made, provided that there are workers and that the quotient
is not negative; otherwise the division or the count-down is undefined, or the report is
of pairs that nobody made.

## Main definitions

* `Half` — the two calls of a pass, and how many of them a worker still has to make
* `Honest` — the arithmetic of a run is defined and its report true

## Main results

* `calls_of_result` — a run that comes to the result line has made the calls
* `benchmark_honest_iff` — for which iterations and threads the report is true
-/

open FutexMachine

/-- The two calls of a pass. -/
inductive Half
  | lock
  | unlock
  deriving DecidableEq

/-- The first statement of the call. -/
def Half.begins : Half → TestPc → Bool
  | .lock, .lock _ .read => true
  | .unlock, .unlock _ .read => true
  | _, _ => false

/-- The local `loops` of `futex_wait_test`. -/
@[simp] def TestPc.loops : TestPc → ℤ
  | .head loops => loops
  | .lock loops _ => loops
  | .unlock loops _ => loops

/-- How many of these calls are still to be made. -/
def Half.left : Half → TestPc → ℤ
  | _, .head loops => loops
  | .lock, .lock loops .read => loops + 1
  | .lock, .lock loops _ => loops
  | .lock, .unlock loops _ => loops
  | .unlock, .lock loops _ => loops + 1
  | .unlock, .unlock loops .read => loops + 1
  | .unlock, .unlock loops _ => loops

/-- Where a statement of `futex_wait_test` leads. -/
theorem futexWaitTest_next (mem : Unit → UInt32) (pc : TestPc) :
    (∃ loops, pc = .head loops ∧ loops ≠ 0 ∧
      ((futexWaitTest pc).effect mem).2 = .inl (.lock (loops - 1) .read)) ∨
    (pc = .head 0 ∧ ((futexWaitTest pc).effect mem).2 = .inr ()) ∨
    (∃ loops p, pc = .lock loops p ∧
      (((futexWaitTest pc).effect mem).2 = .inl (.unlock loops .read) ∨
        ∃ p', p' ≠ .read ∧ ((futexWaitTest pc).effect mem).2 = .inl (.lock loops p'))) ∨
    ∃ loops p, pc = .unlock loops p ∧
      (((futexWaitTest pc).effect mem).2 = .inl (.head loops) ∨
        ∃ p', p' ≠ .read ∧ ((futexWaitTest pc).effect mem).2 = .inl (.unlock loops p')) := by
  cases pc with
  | head loops =>
    by_cases zero : loops = 0
    · exact .inr (.inl (by simp [zero]))
    · exact .inl ⟨loops, rfl, zero, by simp [zero]⟩
  | lock loops pc =>
    refine .inr (.inr (.inl ⟨loops, pc, rfl, ?_⟩))
    cases pc with
    | read | reread => simp
    | fast status | loop status | sleep status | take status =>
      by_cases zero : status = 0 <;> simp [zero]
    | mark status => by_cases one : status = 1 <;> simp [one]
  | unlock loops pc =>
    refine .inr (.inr (.inr ⟨loops, pc, rfl, ?_⟩))
    cases pc with
    | read | wake => simp
    | clear status => by_cases one : status = 1 <;> simp [one]
    | clearMarked status => by_cases two : status = 2 <;> simp [two]

section Statement

variable (half : Half) {mem : Unit → UInt32} {pc pc' : TestPc}

/-- A statement of `futex_wait_test` begins one of the calls that are left, or none. -/
theorem Half.left_step (next : ((futexWaitTest pc).effect mem).2 = .inl pc') :
    half.left pc = half.left pc' + if half.begins pc then 1 else 0 := by
  -- the head enters the lock, the lock leads to the unlock, and that back to the head
  rcases futexWaitTest_next mem pc with ⟨loops, rfl, -, there⟩ | ⟨-, there⟩ |
    ⟨loops, p, rfl, there | ⟨p', later, there⟩⟩ | ⟨loops, p, rfl, there | ⟨p', later, there⟩⟩
  · cases there.symm.trans next
    cases half <;> simp [left, begins]
  · cases there.symm.trans next
  · cases there.symm.trans next
    cases half <;> cases p <;> simp [left, begins]
  · cases there.symm.trans next
    cases half <;> cases p <;> cases p' <;> simp [left, begins] at later ⊢
  · cases there.symm.trans next
    cases half <;> cases p <;> simp [left, begins]
  · cases there.symm.trans next
    cases half <;> cases p <;> cases p' <;> simp [left, begins] at later ⊢

/-- It returns when none is left. -/
theorem Half.left_return (next : ((futexWaitTest pc).effect mem).2 = .inr ()) :
    half.left pc = 0 ∧ half.begins pc = false := by
  rcases futexWaitTest_next mem pc with ⟨loops, -, -, there⟩ | ⟨rfl, -⟩ |
    ⟨loops, p, -, there | ⟨p', -, there⟩⟩ | ⟨loops, p, -, there | ⟨p', -, there⟩⟩
  · cases there.symm.trans next
  · cases half <;> exact ⟨rfl, rfl⟩
  · cases there.symm.trans next
  · cases there.symm.trans next
  · cases there.symm.trans next
  · cases there.symm.trans next

/-- The local `loops` does not go below 0. -/
theorem TestPc.loops_nonneg (nonneg : 0 ≤ pc.loops)
    (next : ((futexWaitTest pc).effect mem).2 = .inl pc') : 0 ≤ pc'.loops := by
  rcases futexWaitTest_next mem pc with ⟨loops, rfl, nonzero, there⟩ | ⟨-, there⟩ |
    ⟨loops, p, rfl, there | ⟨p', -, there⟩⟩ | ⟨loops, p, rfl, there | ⟨p', -, there⟩⟩
  · cases there.symm.trans next
    change 0 ≤ loops at nonneg
    change 0 ≤ loops - 1
    omega
  · cases there.symm.trans next
  · cases there.symm.trans next
    exact nonneg
  · cases there.symm.trans next
    exact nonneg
  · cases there.symm.trans next
    exact nonneg
  · cases there.symm.trans next
    exact nonneg

end Statement

namespace Locktest

variable {c : Locktest Unit TestPc} {k : ℕ}

/-! ## The calls of a worker -/

/-- How many of the calls a worker still has to make. -/
def callsLeft (c : Locktest Unit TestPc) (half : Half) : WorkerPc TestPc → ℤ
  | .body pc => half.left pc
  | .after _ => 0
  | .ret true => 0
  | _ => c.loops.toInt

/-- Whether a worker begins such a call at this control point. -/
def begins (half : Half) : WorkerPc TestPc → Bool
  | .body pc => half.begins pc
  | _ => false

/-- The event is the begin of such a call by worker `i`. -/
def BeginsCall (half : Half) (i : Fin c.n) (e : c.RunEvent) : Bool :=
  match e.thread, e.pc with
  | .worker j, .worker pc => j = i ∧ begins half pc
  | _, _ => false

theorem beginsCall_other {half : Half} {i : Fin c.n} {e : c.RunEvent}
    (other : e.thread ≠ .worker i) : BeginsCall half i e = false := by
  unfold BeginsCall
  split
  · rename_i j pc by_j _
    have different : j ≠ i := by
      rintro rfl
      exact other by_j
    simp [different]
  · rfl

variable {w : List c.RunEvent} {s s' : c.RunState} {e : c.RunEvent} {i : Fin c.n}

theorem beginsCall_self {half : Half} {i : Fin c.n} {e : c.RunEvent} {pc : WorkerPc TestPc}
    (self : e.thread = .worker i) (here : e.pc = .worker pc) :
    BeginsCall half i e = begins half pc := by
  simp [BeginsCall, self, here]

/-- A statement of a worker begins one of the calls that it has left, or none. -/
theorem callsLeft_step (locks : c.LocksAndUnlocks) (half : Half) {pc : WorkerPc TestPc}
    (mem : LocktestAddr Unit → UInt32)
    {j : Instr (LocktestAddr Unit) (LocktestLoc TestPc c.n)} (op : c.thread pc = .instr j) :
    ∃ pc', (j.effect mem).2 = .worker pc' ∧
      c.callsLeft half pc = c.callsLeft half pc' + (if begins half pc then 1 else 0) ∧
      (0 ≤ c.loops.toInt → (∀ p, pc = .body p → 0 ≤ p.loops) →
        ∀ p', pc' = .body p' → 0 ≤ p'.loops) := by
  cases pc with
  | before pc =>
    obtain rfl := (Op.instr.inj op).symm
    rw [Instr.effect_map]
    rcases ((barrierSync pc).effect (mem ∘ .before)).2 with pc' | result
    · exact ⟨.before pc', rfl, by simp [callsLeft, begins], by simp⟩
    · exact ⟨.test result, rfl, by simp [callsLeft, begins], by simp⟩
  | test result =>
    obtain rfl := (Op.instr.inj op).symm
    by_cases positive : 0 < result
    · exact ⟨.call, by simp [positive], by simp [callsLeft, begins], by simp⟩
    · refine ⟨.ret false, ?_, by simp [callsLeft, begins], by simp⟩
      simp [Int32.not_lt.mp positive]
  | call =>
    obtain rfl := (Op.instr.inj op).symm
    refine ⟨.body (c.entry c.loops), rfl, ?_, ?_⟩
    · simp [callsLeft, begins, locks.entry, Half.left]
    · intro nonneg _ p' same
      cases same
      rw [locks.entry]
      exact nonneg
  | body pc =>
    obtain rfl := (Op.instr.inj op).symm
    rw [Instr.effect_map, locks.code]
    -- the function goes on or returns
    rcases next : ((futexWaitTest pc).effect (mem ∘ .user)).2 with pc' | _
    · refine ⟨.body pc', rfl, half.left_step next, ?_⟩
      intro _ nonneg p' same
      cases same
      exact TestPc.loops_nonneg (nonneg pc rfl) next
    · obtain ⟨left, none⟩ := half.left_return next
      exact ⟨.after .dec, rfl, by simp [callsLeft, begins, left, none], by simp⟩
  | after pc =>
    obtain rfl := (Op.instr.inj op).symm
    rw [Instr.effect_map]
    rcases ((barrierSync pc).effect (mem ∘ .after)).2 with pc' | result
    · exact ⟨.after pc', rfl, by simp [callsLeft, begins], by simp⟩
    · exact ⟨.ret true, rfl, by simp [callsLeft, begins], by simp⟩
  | ret ran => cases op

/-- A worker that sleeps in the function under test is about to read the word again. -/
theorem asleep_in_lock (locks : c.LocksAndUnlocks) (reach : c.machine.Reachable s)
    {a : LocktestAddr Unit} {pc : TestPc}
    (asleep : s.thread (.worker i) = .asleep a (.worker (.body pc))) :
    ∃ loops, pc = .lock loops .reread := by
  rcases locktest_asleep reach asleep with ⟨other, -⟩ |
    ⟨j, -, ⟨-, other⟩ | ⟨-, other⟩ | ⟨b, rfl, -⟩⟩
  · cases other
  · cases other
  · cases other
  · obtain ⟨u, reach', proj⟩ := exists_lock locks reach
    have tracks := proj.thread (.worker i)
    rw [asleep] at tracks
    obtain ⟨l', asleep', view⟩ := tracks.asleep_embed (by intro a b _; rfl)
    obtain ⟨loops, rfl⟩ := asleep_at_reread reach' asleep'
    exact ⟨loops, (Sum.inl.inj view).symm⟩

/-- After every run, the calls that a worker has begun and those it has left are its
passes; and its `loops` is not below 0, if it was not at the start. -/
theorem calls_run (locks : c.LocksAndUnlocks) (created : c.Creates k) (run : c.machine.Run w s)
    (half : Half) (i : Fin c.n) :
    ∃ pc, s.loc (.worker i) = .worker pc ∧
      (w.countP (BeginsCall half i) : ℤ) + c.callsLeft half pc = c.loops.toInt ∧
      (0 ≤ c.loops.toInt → ∀ pc', pc = .body pc' → 0 ≤ pc'.loops) := by
  refine run.induction (P := fun w s => ∃ pc, s.loc (.worker i) = .worker pc ∧
    (w.countP (BeginsCall half i) : ℤ) + c.callsLeft half pc = c.loops.toInt ∧
    (0 ≤ c.loops.toInt → ∀ pc', pc = .body pc' → 0 ≤ pc'.loops)) ?_ ?_
  · intro s initial
    rw [machine_init.mp initial]
    exact ⟨.before .dec, rfl, by simp [callsLeft], by simp⟩
  · rintro w s e s' before ⟨pc, at_pc, count, nonneg⟩ step
    rw [List.countP_append, List.countP_singleton]
    by_cases mover : e.thread = .worker i
    swap
    · have same : s'.loc (.worker i) = s.loc (.worker i) := Step.loc_other step (Ne.symm mover)
      refine ⟨pc, same ▸ at_pc, ?_, nonneg⟩
      simpa [beginsCall_other mover] using count
    obtain ⟨pc₀, here, at_pc₀, moves⟩ := worker_next created before.reachable step mover
    obtain rfl : pc = pc₀ := by simpa [at_pc] using at_pc₀
    rcases moves with ⟨j, op, next⟩ | ⟨⟨a, asleep⟩, stays⟩
    · obtain ⟨pc', there, left, keeps⟩ := callsLeft_step locks half s.mem op
      refine ⟨pc', next.trans there, ?_, fun least => keeps least (nonneg least)⟩
      rw [beginsCall_self mover here]
      rw [left] at count
      cases hbegins : begins half pc with
      | false => simpa [hbegins] using count
      | true =>
        simp only [hbegins, ↓reduceIte] at count ⊢
        omega
    · -- a spurious return begins no call
      have none : begins half pc = false := by
        cases pc with
        | body pc =>
          obtain ⟨loops, rfl⟩ := asleep_in_lock locks before.reachable asleep
          cases half <;> rfl
        | before pc | test result | call | after pc | ret ran => rfl
      rw [beginsCall_self mover here, none]
      exact ⟨pc, stays, by simpa using count, nonneg⟩

/-- In a run that has come to the result line all workers have run. -/
theorem ran_of_result (positive : 0 < c.threads) (reach : c.machine.Reachable s)
    (result : s.loc .main = .main (.ret retPass)) :
    c.Creates c.n ∧ ∀ i, s.thread (.worker i) = .ready (.worker (.ret true)) := by
  obtain ⟨w, run⟩ := id reach
  obtain ⟨k, created⟩ := c.exists_creates
  obtain ⟨pc, at_pc, ok, inv⟩ := runInv created run
  obtain rfl : pc = .ret retPass := by simpa [result] using at_pc.symm
  -- the abort returns an error, so all threads were created, and joined
  obtain rfl : k = c.n := by
    by_contra fewer
    have le := created.le
    have ret : retPass = retError := by simpa [show k < c.n by omega] using ok
    cases ret
  exact ⟨created, fun i => ready_of_finished created positive reach (inv.finished i i.isLt)⟩

/-- **The calls of a run.** A run that has come to the result line has begun, in each
worker, as many calls of lock and of unlock as `loops` says. -/
theorem calls_of_result (locks : c.LocksAndUnlocks) (positive : 0 < c.threads)
    (run : c.machine.Run w s) (result : s.loc .main = .main (.ret retPass)) (half : Half)
    (i : Fin c.n) : (w.countP (BeginsCall half i) : ℤ) = c.loops.toInt := by
  obtain ⟨created, ready⟩ := ran_of_result positive run.reachable result
  obtain ⟨pc', at_pc', count, -⟩ := calls_run locks created run half i
  obtain rfl : pc' = .ret true := by simpa [State.loc, ready i] using at_pc'.symm
  simpa [callsLeft] using count

/-! ## The arithmetic of a run -/

/-- The arithmetic of `locktest(futex_wait_test, iterations, threads)` is defined, the
count-down of every worker ends, and what the result line counts is the passes of all
workers, somewhere from 0 to `iterations`. The language gives the array `thread` of
`threads` elements no meaning unless there are some; `anyLength` says whether the
implementation does so nevertheless. -/
def Honest (anyLength : Bool) (iterations threads : Int32) : Prop :=
  (0 < threads.toInt ∨ anyLength = true) ∧
    ∃ (loops product : BitVec 32) (passes : Fin (workers threads) → ℕ),
      CInt.div iterations.toBitVec threads.toBitVec = some loops ∧
      (∀ i, CInt.CountDown loops (passes i)) ∧
      CInt.mul threads.toBitVec loops = some product ∧
      product.toInt = ∑ i, (passes i : ℤ) ∧ product.toInt ∈ Set.uIcc 0 iterations.toInt

/-- There are workers and the quotient is not negative. Or, if the implementation accepts
the array, the quotient is 0 and there is no worker. -/
def Sensible (anyLength : Bool) (iterations threads : Int32) : Prop :=
  (0 < threads.toInt ∧ -threads.toInt < iterations.toInt) ∨
    (anyLength = true ∧ threads.toInt < 0 ∧ iterations.toInt.natAbs < threads.toInt.natAbs)

instance (anyLength : Bool) (iterations threads : Int32) :
    Decidable (Sensible anyLength iterations threads) :=
  inferInstanceAs (Decidable (_ ∨ _))

variable {anyLength : Bool} {iterations threads : Int32}

/-- The quotient and the product fit. -/
theorem exists_quotient (iterations : Int32) (nonzero : threads.toInt ≠ 0)
    (fits : -2 ^ 31 ≤ iterations.toInt.tdiv threads.toInt ∧
      iterations.toInt.tdiv threads.toInt < 2 ^ 31) :
    ∃ loops product, CInt.div iterations.toBitVec threads.toBitVec = some loops ∧
      CInt.mul threads.toBitVec loops = some product ∧
      product.toInt ∈ Set.uIcc 0 iterations.toInt := by
  obtain ⟨loops, quotient⟩ := (CInt.exists_checked_iff (w := 32) (by decide)).mpr fits
  have value := CInt.checked_eq_some_iff.mp quotient
  have between := CInt.mul_tdiv_mem_uIcc iterations.toInt threads.toInt
  -- the product does not leave the way from 0 to `iterations`
  have product_fits : -2 ^ 31 ≤ threads.toInt * loops.toInt ∧
      threads.toInt * loops.toInt < 2 ^ 31 := by
    rw [value]
    have low := iterations.le_toInt
    have high := iterations.toInt_lt
    rcases Set.mem_uIcc.mp between with ⟨least, most⟩ | ⟨least, most⟩
    · omega
    · omega
  obtain ⟨product, multiplied⟩ := (CInt.exists_checked_iff (w := 32) (by decide)).mpr product_fits
  refine ⟨loops, product, CInt.div_eq_some_iff.mpr ⟨nonzero, value⟩, multiplied, ?_⟩
  rw [CInt.checked_eq_some_iff.mp multiplied, value]
  exact between

theorem workers_eq (threads : Int32) : workers threads = threads.toInt.toNat := rfl

/-- A defined and true report needs workers, or nothing to do for nobody. -/
theorem Honest.sensible (honest : Honest anyLength iterations threads) :
    Sensible anyLength iterations threads := by
  obtain ⟨length, loops, product, passes, quotient, counts, multiplied, total, -⟩ := honest
  obtain ⟨nonzero, value⟩ := CInt.div_eq_some_iff.mp quotient
  simp only [Int32.toInt_toBitVec] at nonzero value
  rcases lt_or_gt_of_ne nonzero with negative | positive
  · -- no worker, so the product has to be 0, and then the quotient is
    have accepted := length.resolve_left (by omega)
    have nobody : workers threads = 0 := by rw [workers_eq]; omega
    have zero : product.toInt = 0 := by
      rw [total]
      exact Finset.sum_eq_zero fun i => absurd i.isLt (by omega)
    rw [CInt.mul_eq_some_iff.mp multiplied, mul_eq_zero] at zero
    have none := zero.resolve_left nonzero
    rw [value] at none
    exact .inr ⟨accepted, negative, (CInt.tdiv_eq_zero_iff nonzero).mp none⟩
  · -- the first worker counts down to 0
    have first : 0 < workers threads := by rw [workers_eq]; omega
    have count := (CInt.countDown_iff (by decide)).mp (counts ⟨0, first⟩)
    rw [value] at count
    exact .inl ⟨positive, (CInt.tdiv_nonneg_iff positive).mp (by omega)⟩

theorem Sensible.honest (sensible : Sensible anyLength iterations threads) :
    Honest anyLength iterations threads := by
  have low := iterations.le_toInt
  have high := threads.toInt_lt
  rcases sensible with ⟨positive, above⟩ | ⟨accepted, negative, small⟩
  · -- every worker makes the passes that the quotient says
    have nonneg := (CInt.tdiv_nonneg_iff positive).mpr above
    have most := Int.natAbs_tdiv_le_natAbs iterations.toInt threads.toInt
    have highest := iterations.toInt_lt
    obtain ⟨loops, product, quotient, multiplied, between⟩ :=
      exists_quotient iterations positive.ne' ⟨by omega, by omega⟩
    have value := (CInt.div_eq_some_iff.mp quotient).2
    simp only [Int32.toInt_toBitVec] at value
    have count : loops.toInt = loops.toInt.toNat := by omega
    refine ⟨.inl positive, loops, product, fun _ => loops.toInt.toNat, quotient, ?_, multiplied,
      ?_, between⟩
    · intro i
      exact (CInt.countDown_iff (by decide)).mpr count
    · rw [Finset.sum_const, Finset.card_univ, Fintype.card_fin, nsmul_eq_mul, ← count,
        CInt.mul_eq_some_iff.mp multiplied, Int32.toInt_toBitVec, workers_eq,
        Int.toNat_of_nonneg positive.le]
  · -- nobody has to do anything
    have zero := (CInt.tdiv_eq_zero_iff negative.ne).mpr small
    obtain ⟨loops, product, quotient, multiplied, between⟩ :=
      exists_quotient iterations negative.ne (by rw [zero]; decide)
    have value := (CInt.div_eq_some_iff.mp quotient).2
    simp only [Int32.toInt_toBitVec, zero] at value
    have nobody : workers threads = 0 := by rw [workers_eq]; omega
    refine ⟨.inr accepted, loops, product, fun _ => 0, quotient, ?_, multiplied, ?_, between⟩
    · intro i
      exact absurd i.isLt (by omega)
    · rw [CInt.mul_eq_some_iff.mp multiplied, value]
      simp

/-- **The result line.** For all ints: the arithmetic of the benchmark is defined and its
report true exactly for sensible arguments. Then `loops` is never tested below 0 in any run
on the quotient, and a run that comes to the result line has made, in each worker, the
passes of its count-down, by as many calls of lock and of unlock. -/
theorem benchmark_honest_iff (anyLength : Bool) (iterations threads : Int32) :
    (Honest anyLength iterations threads ↔ Sensible anyLength iterations threads) ∧
    ∀ (loops : BitVec 32) (passes : Fin (workers threads) → ℕ),
      CInt.div iterations.toBitVec threads.toBitVec = some loops →
      (∀ i, CInt.CountDown loops (passes i)) →
      ∀ (pthreadCreate : ℕ → Int32) (w : _) (s : _),
        (futexWaitLocktest threads (.ofBitVec loops) pthreadCreate).machine.Run w s →
        (∀ i l, s.loc (.worker i) = .worker (.body (.head l)) → 0 ≤ l ∧ l ≤ loops.toInt) ∧
        (s.loc .main = .main (.ret retPass) →
          ∀ half i, w.countP (BeginsCall half i) = passes i) := by
  refine ⟨⟨Honest.sensible, Sensible.honest⟩, ?_⟩
  intro loops passes quotient counts pthreadCreate w s run
  have locks : (futexWaitLocktest threads (.ofBitVec loops) pthreadCreate).LocksAndUnlocks :=
    ⟨rfl, rfl, rfl⟩
  have value : ∀ i, loops.toInt = passes i := by
    intro i
    exact (CInt.countDown_iff (by decide)).mp (counts i)
  constructor
  · intro i l at_head
    obtain ⟨k, created⟩ :=
      exists_creates (futexWaitLocktest threads (.ofBitVec loops) pthreadCreate)
    obtain ⟨pc, at_pc, count, nonneg⟩ := calls_run locks created run .lock i
    obtain rfl : pc = .body (.head l) := by simpa [at_head] using at_pc.symm
    -- at the head, `loops` is the calls that are left
    have least : 0 ≤ l := nonneg (show 0 ≤ loops.toInt by rw [value i]; omega) _ rfl
    have most : (w.countP (BeginsCall .lock i) : ℤ) + l = loops.toInt := count
    exact ⟨least, by omega⟩
  · intro result half i
    have positive : 0 < threads := by
      have some := i.isLt
      rw [Int32.lt_iff_toInt_lt]
      change 0 < threads.toInt
      have bound : i.val < threads.toInt.toNat := some
      omega
    have calls := calls_of_result locks positive run result half i
    have same : (w.countP (BeginsCall half i) : ℤ) = loops.toInt := calls
    rw [value i] at same
    exact_mod_cast same

theorem benchmark_honest_iff_wholeRun :
    Honest false 2 2 ∧ ∃ w s, (futexWaitLocktest 2 1 fun _ => 0).machine.Run w s ∧
      ∀ half i, w.countP (BeginsCall half i) = 1 := by
  obtain ⟨honest, calls⟩ := benchmark_honest_iff false 2 2
  obtain ⟨w, s, run, returned⟩ := exists_run (futexWaitLocktest 2 1 fun _ => 0).program
    (futexWaitLocktest 2 1 fun _ => 0).start wholeRun
    (fun _ s => s.loc .main = .main (.ret retPass)) (by decide)
  have counts : ∀ i : Fin (workers 2), CInt.CountDown (1 : BitVec 32) 1 :=
    fun _ => (CInt.countDown_iff (by decide)).mpr (by decide)
  refine ⟨honest.mpr (by decide), w, s, run, ?_⟩
  exact (calls 1 (fun _ => 1) (by decide) counts (fun _ => 0) w s run).2 returned

/-- `-n 0` divides by 0, `-i -1 -n 1` counts down from -1, and `-i 1 -n -1` reports one
iteration where there is no worker. -/
theorem benchmark_not_honest :
    ¬ Honest true 100000000 0 ∧ ¬ Honest true (-1) 1 ∧ ¬ Honest true 1 (-1) := by
  refine ⟨?_, ?_, ?_⟩
  · intro honest
    exact absurd honest.sensible (by decide)
  · intro honest
    exact absurd honest.sensible (by decide)
  · intro honest
    exact absurd honest.sensible (by decide)

end Locktest
