import Mathlib.Data.Fintype.Sum
import Mathlib.Tactic.DeriveFintype
import Futextest.Constants
import Futextest.FutexWait

/-!
# The barrier of `harness.h`

A one-shot barrier between a main thread and its workers: a counter of the
workers still to come and a gate that main opens with a value of its choice. The
four procedures are the C functions statement by statement, on the two words of
the barrier.

## Main definitions

* `barrierInit`, `barrierSync`, `barrierWait`, `barrierUnblock` — the procedures
* `barrierMachine` — one main thread and as many workers as the counter says
* `BarrierInv` — the counter and the gate, tied to where everybody is

## Main results

* `barrier_correct` — counter, gate, returned values and sleepers in every run
-/

open FutexMachine

/-- The words of `struct thread_barrier`. -/
inductive BarrierAddr
  | threads
  | unblock
  deriving DecidableEq

/-- `barrier_init(barrier, threads)`: the words it leaves. -/
def barrierInit (threads : Int32) : BarrierAddr → UInt32
  | .threads => threads.toUInt32
  | .unblock => 0

/-- Where a worker is in `barrier_sync`. -/
inductive SyncPc
  /-- `futex_dec(&barrier->threads);` -/
  | dec
  /-- `if (barrier->threads == 0)` -/
  | check
  /-- `futex_wake(&barrier->threads, 1, FUTEX_PRIVATE_FLAG);` -/
  | wake
  /-- `while (barrier->unblock == 0)` -/
  | test
  /-- `futex_wait(&barrier->unblock, 0, NULL, FUTEX_PRIVATE_FLAG);` -/
  | wait
  /-- `return barrier->unblock;` -/
  | read
  deriving DecidableEq

/-- `barrier_sync(barrier)`. It returns the unsigned word as an int. -/
@[simp] def barrierSync : Procedure BarrierAddr SyncPc Int32
  -- the result of the decrement is not used: the word is read once more
  | .dec => .dec .threads fun _ => .inl .check
  | .check => .load .threads fun v => if v = 0 then .inl .wake else .inl .test
  | .wake => .wake .threads 1 (.inl .test)
  | .test => .load .unblock fun v => if v = 0 then .inl .wait else .inl .read
  | .wait => .wait .unblock 0 (.inl .test)
  | .read => .load .unblock fun v => .inr v.toInt32

/-- Where main is in `barrier_wait`. -/
inductive WaitPc
  /-- `while ((threads = barrier->threads) > 0)` -/
  | read
  /-- `futex_wait(&barrier->threads, threads, NULL, FUTEX_PRIVATE_FLAG);` -/
  | sleep (threads : Int32)
  deriving DecidableEq

/-- `barrier_wait(barrier)`. The unsigned word is read into an int. -/
@[simp] def barrierWait : Procedure BarrierAddr WaitPc Unit
  | .read => .load .threads fun v => if 0 < v.toInt32 then .inl (.sleep v.toInt32) else .inr ()
  | .sleep threads => .wait .threads threads.toUInt32 (.inl .read)

/-- Where main is in `barrier_unblock`. -/
inductive UnblockPc
  /-- `barrier->unblock = value;` -/
  | store
  /-- `futex_wake(&barrier->unblock, INT_MAX, FUTEX_PRIVATE_FLAG);` -/
  | wake
  deriving DecidableEq

/-- `barrier_unblock(barrier, value)`. -/
@[simp] def barrierUnblock (value : Int32) : Procedure BarrierAddr UnblockPc Unit
  | .store => .store .unblock value.toUInt32 (.inl .wake)
  | .wake => .wake .unblock intMax (.inr ())

/-- The main thread and its workers. -/
inductive Thread (ι : Type)
  | main
  | worker (i : ι)
  deriving DecidableEq, Fintype

/-- The number of workers that a counter of `threads` stands for. -/
abbrev workers (threads : Int32) : ℕ := threads.toNatClampNeg

/-- Main and the workers of a barrier for `threads` workers. -/
abbrev Team (threads : Int32) := Thread (Fin (workers threads))

/-- Where a thread of the barrier machine is. -/
inductive BarrierLoc
  | sync (pc : SyncPc)
  /-- A worker whose `barrier_sync` has returned. -/
  | returned (result : Int32)
  | wait (pc : WaitPc)
  | unblock (pc : UnblockPc)
  /-- Main after `barrier_unblock`. -/
  | done
  deriving DecidableEq

/-- Each worker calls `barrier_sync` once. Main calls `barrier_wait` and then
`barrier_unblock(value)`. -/
@[simp] def barrierProgram (ι : Type) (value : Int32) : Program BarrierAddr (Thread ι) BarrierLoc
  | .worker _, .sync pc => .instr ((barrierSync pc).map id (Sum.elim .sync .returned))
  | .main, .wait pc => .instr ((barrierWait pc).map id (Sum.elim .wait fun _ => .unblock .store))
  | .main, .unblock pc =>
      .instr ((barrierUnblock value pc).map id (Sum.elim .unblock fun _ => .done))
  | _, _ => .exit

/-- The words as `barrier_init` leaves them, every worker before its call, and
main before `barrier_wait`, or past it on a path that skips it. -/
def barrierStart (threads : Int32) (waits : Bool) :
    State BarrierAddr (Team threads) BarrierLoc where
  mem := barrierInit threads
  thread
    | .main => .ready (if waits then .wait .read else .unblock .store)
    | .worker _ => .ready (.sync .dec)

/-- One barrier with all who use it. -/
abbrev barrierMachine (threads value : Int32) (waits : Bool) :
    System (State BarrierAddr (Team threads) BarrierLoc)
      (Event BarrierAddr (Team threads) BarrierLoc) :=
  machine (barrierProgram _ value) (barrierStart threads waits)

/-! ## The counter and the gate -/

/-- A worker that has executed its `futex_dec`. -/
def BarrierLoc.arrived (l : BarrierLoc) : Bool := l ≠ .sync .dec

/-- Main is in `barrier_wait`. -/
def BarrierLoc.waiting : BarrierLoc → Bool
  | .wait _ => true
  | _ => false

/-- Main has stored its value to `unblock`. -/
def BarrierLoc.opened : BarrierLoc → Bool
  | .unblock .wake => true
  | .done => true
  | _ => false

variable {threads value : Int32} {waits : Bool}
variable {s s' : State BarrierAddr (Team threads) BarrierLoc}
variable {e : Event BarrierAddr (Team threads) BarrierLoc}

/-- The workers that have executed their `futex_dec`. -/
def arrivals (s : State BarrierAddr (Team threads) BarrierLoc) : Finset (Fin (workers threads)) :=
  Finset.univ.filter fun i => (s.loc (.worker i)).arrived

theorem mem_arrivals {i : Fin (workers threads)} :
    i ∈ arrivals s ↔ (s.loc (.worker i)).arrived = true := by
  simp [arrivals]

/-- What a step of the barrier machine does to the words and the control points. -/
inductive BarrierMove (value : Int32) (mem mem' : BarrierAddr → UInt32)
    (loc loc' : Team threads → BarrierLoc) : Prop
  /-- A worker decrements the counter. -/
  | dec (i : Fin (workers threads)) (before : loc (.worker i) = .sync .dec)
      (word : mem' = Function.update mem .threads (mem .threads - 1))
      (after : loc' = Function.update loc (.worker i) (.sync .check))
  /-- A worker goes on after its decrement. -/
  | sync (i : Fin (workers threads)) (l : BarrierLoc) (before : (loc (.worker i)).arrived = true)
      (arrived : l.arrived = true) (gate : l = .sync .read → mem .unblock ≠ 0)
      (result : ∀ r, l = .returned r → loc (.worker i) = .sync .read ∧ r = (mem .unblock).toInt32)
      (word : mem' = mem) (after : loc' = Function.update loc (.worker i) l)
  /-- Main goes on in `barrier_wait`. -/
  | wait (l : BarrierLoc) (before : (loc .main).waiting = true) (shut : l.opened = false)
      (leaves : l.waiting = false → ¬ 0 < (mem .threads).toInt32)
      (sleeps : ∀ n, l = .wait (.sleep n) → 0 < n) (word : mem' = mem)
      (after : loc' = Function.update loc .main l)
  /-- Main opens the gate. -/
  | store (before : loc .main = .unblock .store)
      (word : mem' = Function.update mem .unblock value.toUInt32)
      (after : loc' = Function.update loc .main (.unblock .wake))
  /-- Main has issued its wake. -/
  | wake (before : loc .main = .unblock .wake) (word : mem' = mem)
      (after : loc' = Function.update loc .main .done)
  /-- A sleeper returns by itself. -/
  | resume (word : mem' = mem) (after : loc' = loc)

theorem barrierMove_of_step (step : Step (barrierProgram _ value) s e s') :
    BarrierMove value s.mem s'.mem s.loc s'.loc := by
  rcases step.effect with ⟨i, woken, hop, ready, -, mem, loc⟩ | ⟨mem, ⟨-, -, loc⟩ | ⟨u, k, hop, -⟩⟩
  · have before : s.loc e.thread = e.pc := by simp [State.loc, ready]
    rcases ht : e.thread with _ | t <;> rw [ht] at hop before loc <;> rcases hpc : e.pc with
      pc | r | pc | pc | _ <;> rw [hpc] at hop before <;>
      simp only [barrierProgram, Op.instr.injEq, reduceCtorEq] at hop <;> subst hop
    · -- main in `barrier_wait`
      cases pc with
      | read =>
        by_cases h : 0 < (s.mem .threads).toInt32 <;> simp [h] at mem loc <;>
          exact .wait _ (by rw [before]; rfl) rfl (by simp [BarrierLoc.waiting, h]) (by simp [h])
            mem loc
      | sleep n =>
        simp at mem loc
        exact .wait _ (by rw [before]; rfl) rfl (by simp [BarrierLoc.waiting]) (by simp) mem loc
    · -- main in `barrier_unblock`
      cases pc with
      | store => exact .store before (by simpa using mem) (by simpa using loc)
      | wake => exact .wake before (by simpa using mem) (by simpa using loc)
    · have arrived : pc ≠ .dec → (s.loc (.worker t)).arrived = true := by
        intro ne
        simpa [before, BarrierLoc.arrived] using ne
      cases pc with
      | dec => exact .dec t before (by simpa using mem) (by simpa using loc)
      | check =>
        by_cases h : s.mem .threads = 0 <;> simp [h] at mem loc <;>
          exact .sync t _ (arrived (by simp)) rfl (by simp) (by simp) mem loc
      | wake =>
        simp at mem loc
        exact .sync t _ (arrived (by simp)) rfl (by simp) (by simp) mem loc
      | test =>
        by_cases h : s.mem .unblock = 0 <;> simp [h] at mem loc <;>
          exact .sync t _ (arrived (by simp)) rfl (by simp [h]) (by simp) mem loc
      | wait =>
        simp at mem loc
        exact .sync t _ (arrived (by simp)) rfl (by simp) (by simp) mem loc
      | read =>
        simp at mem loc
        exact .sync t _ (arrived (by simp)) rfl (by simp) (by simp [before]) mem loc
  · exact .resume mem loc
  · rcases ht : e.thread with _ | t <;> rcases hpc : e.pc with pc | r | pc | pc | _ <;>
      simp [ht, hpc] at hop

/-- The counter counts the workers still to come, the gate is shut until main
opens it, and whoever has passed one of the two did so for a reason. -/
structure BarrierInv (value : Int32) (waits : Bool)
    (s : State BarrierAddr (Team threads) BarrierLoc) : Prop where
  count : (s.mem .threads).toNat + (arrivals s).card = workers threads
  shut : (s.loc .main).opened = false → s.mem .unblock = 0
  gate : (s.loc .main).opened = true → s.mem .unblock = value.toUInt32
  passed : ∀ i, s.loc (.worker i) = .sync .read → (s.loc .main).opened = true
  returned : ∀ i r, s.loc (.worker i) = .returned r →
    (s.loc .main).opened = true ∧ r = value
  pending : ∀ n, s.loc .main = .wait (.sleep n) → 0 < n
  awaited : waits = true → (s.loc .main).waiting = false →
    ∀ i, (s.loc (.worker i)).arrived = true

/-- The counter is a small number, so it is positive as an int unless it is 0. -/
theorem workers_lt (threads : Int32) : workers threads < 2 ^ 31 := by
  have upper := threads.toInt_lt
  change threads.toInt.toNat < 2 ^ 31
  omega

/-- Everybody has come when the counter is 0, and only then. -/
theorem BarrierInv.all_arrived (inv : BarrierInv value waits s) :
    s.mem .threads = 0 ↔ ∀ i, (s.loc (.worker i)).arrived = true := by
  have total := inv.count
  have size : (Finset.univ : Finset (Fin (workers threads))).card = workers threads := by simp
  constructor
  · intro zero i
    -- a counter of 0 leaves room for nobody else
    have full : arrivals s = Finset.univ := by
      apply Finset.eq_univ_of_card
      simpa [zero] using total
    exact mem_arrivals.mp (full ▸ Finset.mem_univ i)
  · intro all
    have full : arrivals s = Finset.univ := by
      ext i
      simpa using mem_arrivals.mpr (all i)
    rw [full, size] at total
    rw [← UInt32.toNat_inj]
    change _ = 0
    omega

theorem BarrierInv.pos_iff (inv : BarrierInv value waits s) :
    0 < (s.mem .threads).toInt32 ↔ s.mem .threads ≠ 0 := by
  have total := inv.count
  have small := workers_lt threads
  exact toInt32_pos (by omega)

/-- A worker that arrives is new among those who have, and one less is to come. -/
theorem BarrierInv.count_dec (inv : BarrierInv value waits s) {i : Fin (workers threads)}
    (before : s.loc (.worker i) = .sync .dec)
    (word : s'.mem = Function.update s.mem .threads (s.mem .threads - 1))
    (after : s'.loc = Function.update s.loc (.worker i) (.sync .check)) :
    (s'.mem .threads).toNat + (arrivals s').card = workers threads := by
  have new : i ∉ arrivals s := by simp [mem_arrivals, before, BarrierLoc.arrived]
  have joined : arrivals s' = insert i (arrivals s) := by
    ext j
    by_cases hj : j = i
    · simp [mem_arrivals, after, hj, BarrierLoc.arrived]
    · simp [mem_arrivals, after, hj]
  -- the counter counts this worker, so the decrement does not wrap around
  have nonzero : s.mem .threads ≠ 0 := by
    intro zero
    have all := inv.all_arrived.mp zero i
    simp [before, BarrierLoc.arrived] at all
  have positive : 1 ≤ s.mem .threads := by
    rw [UInt32.le_iff_toNat_le, UInt32.toNat_one]
    have ne : (s.mem .threads).toNat ≠ 0 := fun h => nonzero (UInt32.toNat_inj.mp h)
    omega
  have less : (s.mem .threads - 1).toNat = (s.mem .threads).toNat - 1 :=
    UInt32.toNat_sub_of_le _ _ positive
  have pos : 1 ≤ (s.mem .threads).toNat := UInt32.le_iff_toNat_le.mp positive
  have total := inv.count
  rw [joined, Finset.card_insert_of_notMem new, word, Function.update_self, less]
  omega

/-- A move of main leaves the workers where they are. -/
theorem BarrierInv.main_move (inv : BarrierInv value waits s) {l : BarrierLoc}
    (word : s'.mem .threads = s.mem .threads) (after : s'.loc = Function.update s.loc .main l)
    (shut : l.opened = false → s'.mem .unblock = 0)
    (gate : l.opened = true → s'.mem .unblock = value.toUInt32)
    (stays : (s.loc .main).opened = true → l.opened = true)
    (pending : ∀ n, l = .wait (.sleep n) → 0 < n)
    (awaited : waits = true → l.waiting = false →
      (s.loc .main).waiting = false ∨ s.mem .threads = 0) : BarrierInv value waits s' := by
  have main : s'.loc .main = l := by simp [after]
  have worker : ∀ i, s'.loc (.worker i) = s.loc (.worker i) := by simp [after]
  have same : arrivals s' = arrivals s := by
    ext i
    simp [mem_arrivals, worker]
  refine ⟨?_, by rwa [main], by rwa [main], ?_, ?_, by rwa [main], ?_⟩
  · rw [same, word]
    exact inv.count
  · intro i passed
    rw [main]
    exact stays (inv.passed i (worker i ▸ passed))
  · intro i r returned
    rw [main]
    obtain ⟨opened, value⟩ := inv.returned i r (worker i ▸ returned)
    exact ⟨stays opened, value⟩
  · intro start left i
    rw [worker i]
    rcases awaited start (main ▸ left) with gone | zero
    · exact inv.awaited start gone i
    · exact inv.all_arrived.mp zero i

/-- Every kind of step keeps the invariant. -/
theorem BarrierInv.move (inv : BarrierInv value waits s)
    (move : BarrierMove value s.mem s'.mem s.loc s'.loc) : BarrierInv value waits s' := by
  cases move with
  | dec i before word after =>
    have main : s'.loc .main = s.loc .main := by simp [after]
    have gate_word : s'.mem .unblock = s.mem .unblock := by simp [word]
    refine ⟨inv.count_dec before word after, ?_, ?_, ?_, ?_, by rw [main]; exact inv.pending, ?_⟩
    · rw [main, gate_word]
      exact inv.shut
    · rw [main, gate_word]
      exact inv.gate
    · intro j passed
      by_cases hj : j = i
      · simp [after, hj] at passed
      · rw [main]
        exact inv.passed j (by simpa [after, hj] using passed)
    · intro j r returned
      by_cases hj : j = i
      · simp [after, hj] at returned
      · rw [main]
        exact inv.returned j r (by simpa [after, hj] using returned)
    · intro start left j
      by_cases hj : j = i
      · simp [after, hj, BarrierLoc.arrived]
      · simpa [after, hj] using inv.awaited start (main ▸ left) j
  | sync i l before arrived gate result word after =>
    have main : s'.loc .main = s.loc .main := by simp [after]
    -- only main stores to the gate
    have opened : s.mem .unblock ≠ 0 → (s.loc .main).opened = true := by
      intro nonzero
      by_contra shut
      exact nonzero (inv.shut (by simpa using shut))
    have same : arrivals s' = arrivals s := by
      ext j
      by_cases hj : j = i
      · simp [mem_arrivals, after, hj, before, arrived]
      · simp [mem_arrivals, after, hj]
    refine ⟨by rw [same, word]; exact inv.count, ?_, ?_, ?_, ?_,
      by rw [main]; exact inv.pending, ?_⟩
    · rw [main, word]
      exact inv.shut
    · rw [main, word]
      exact inv.gate
    · intro j passed
      rw [main]
      by_cases hj : j = i
      · exact opened (gate (by simpa [after, hj] using passed))
      · exact inv.passed j (by simpa [after, hj] using passed)
    · intro j r returned
      rw [main]
      by_cases hj : j = i
      · -- it reads the gate that it has seen open
        obtain ⟨at_read, rfl⟩ := result r (by simpa [after, hj] using returned)
        have isOpen := inv.passed i at_read
        exact ⟨isOpen, by rw [inv.gate isOpen, Int32.toInt32_toUInt32]⟩
      · exact inv.returned j r (by simpa [after, hj] using returned)
    · intro start left j
      by_cases hj : j = i
      · simpa [after, hj] using arrived
      · simpa [after, hj] using inv.awaited start (main ▸ left) j
  | wait l before shut leaves sleeps word after =>
    -- main waits before it opens the gate
    have closed : (s.loc .main).opened = false := by
      cases hl : s.loc .main <;> simp [hl, BarrierLoc.waiting] at before ⊢
      rfl
    refine inv.main_move (by rw [word]) after ?_ ?_ ?_ sleeps ?_
    · rw [word]
      exact fun _ => inv.shut closed
    · simp [shut]
    · simp [closed]
    · intro _ left
      have settled := leaves left
      rw [inv.pos_iff] at settled
      exact .inr (not_not.mp settled)
  | store before word after =>
    refine inv.main_move (by simp [word]) after ?_ ?_ ?_ (by simp) ?_
    · simp [BarrierLoc.opened]
    · simp [word]
    · simp [BarrierLoc.opened]
    · simp [before, BarrierLoc.waiting]
  | wake before word after =>
    have isOpen : (s.loc .main).opened = true := by rw [before]; rfl
    refine inv.main_move (by rw [word]) after ?_ ?_ ?_ (by simp) ?_
    · simp [BarrierLoc.opened]
    · rw [word]
      exact fun _ => inv.gate isOpen
    · simp [BarrierLoc.opened]
    · simp [before, BarrierLoc.waiting]
  | resume word after =>
    have same : arrivals s' = arrivals s := by simp [arrivals, after]
    exact ⟨by rw [same, word]; exact inv.count, by rw [word, after]; exact inv.shut,
      by rw [word, after]; exact inv.gate, by rw [after]; exact inv.passed,
      by rw [after]; exact inv.returned, by rw [after]; exact inv.pending,
      by rw [after]; exact inv.awaited⟩

/-- The invariant in every reachable state of the barrier machine. -/
theorem barrierInv (positive : 0 < threads)
    (reach : (barrierMachine threads value waits).Reachable s) : BarrierInv value waits s := by
  have inv : (barrierMachine threads value waits).Invariant (BarrierInv value waits) := by
    refine ⟨?_, ?_⟩
    · rintro s rfl
      have nobody : arrivals (barrierStart threads waits) = ∅ := by
        ext i
        simp [mem_arrivals, barrierStart, State.loc, BarrierLoc.arrived]
      have counter : threads.toUInt32.toNat = workers threads :=
        Int32.toNat_toUInt32_of_le (Int32.le_of_lt positive)
      have main : (barrierStart threads waits).loc .main =
          if waits then .wait .read else .unblock .store := rfl
      refine ⟨?_, ?_, ?_, ?_, ?_, ?_, ?_⟩
      · rw [nobody]
        simpa [barrierStart, barrierInit] using counter
      · simp [barrierStart, barrierInit]
      · rw [main]
        cases waits <;> simp [BarrierLoc.opened]
      · simp [barrierStart, State.loc]
      · simp [barrierStart, State.loc]
      · rw [main]
        cases waits <;> simp
      · rw [main]
        rintro rfl
        simp [BarrierLoc.waiting]
    · intro s e s' _ inv step
      exact inv.move (barrierMove_of_step step)
  exact inv.of_reachable reach

/-! ## Who sleeps, and who will wake them -/

/-- Main waits on the counter and a worker on the shut gate. -/
theorem barrierProgram_wait {ι : Type} {t : Thread ι} {pc l : BarrierLoc} {a : BarrierAddr}
    {v : UInt32} (wait : barrierProgram ι value t pc = .instr (.wait a v l)) :
    (t = .main ∧ a = .threads ∧ l = .wait .read ∧ ∃ n, pc = .wait (.sleep n) ∧ v = n.toUInt32) ∨
    ((∃ i, t = .worker i) ∧ a = .unblock ∧ v = 0 ∧ l = .sync .test) := by
  rcases t with _ | i <;> rcases pc with pc | r | pc | pc | _ <;> try simp at wait
  · cases pc with
    | read => simp at wait
    | sleep n =>
      simp at wait
      obtain ⟨rfl, rfl, rfl⟩ := wait
      exact .inl ⟨rfl, rfl, rfl, n, rfl, rfl⟩
  · cases pc <;> simp at wait
  · cases pc <;> simp at wait
    obtain ⟨rfl, rfl, rfl⟩ := wait
    exact .inr ⟨⟨i, rfl⟩, rfl, rfl, rfl⟩

theorem barrier_asleep (reach : (barrierMachine threads value waits).Reachable s)
    {t : Team threads} {a : BarrierAddr} {l : BarrierLoc} (asleep : s.thread t = .asleep a l) :
    (t = .main ∧ a = .threads ∧ l = .wait .read) ∨
    ((∃ i, t = .worker i) ∧ a = .unblock ∧ l = .sync .test) := by
  have awake : ∀ t a l, (barrierStart threads waits).thread t ≠ .asleep a l := by
    intro t a l
    cases t <;> simp [barrierStart]
  obtain ⟨pc, v, wait⟩ := asleep_at_wait awake reach asleep
  rcases barrierProgram_wait wait with ⟨rfl, rfl, rfl, -⟩ | ⟨worker, rfl, -, rfl⟩
  · exact .inl ⟨rfl, rfl, rfl⟩
  · exact .inr ⟨worker, rfl, rfl⟩

/-- A worker whose `barrier_sync` is anywhere but before its second wait is awake. -/
theorem barrier_ready (reach : (barrierMachine threads value waits).Reachable s)
    {t : Team threads} {l : BarrierLoc} (at_l : s.loc t = l) (busy : l ≠ .wait .read)
    (outside : l ≠ .sync .test) : s.thread t = .ready l := by
  cases ht : s.thread t with
  | ready l' => simpa [State.loc, ht] using at_l
  | unborn l' =>
    have born : ∀ l, (barrierStart threads waits).thread t ≠ .unborn l := by
      intro l
      cases t <;> simp [barrierStart]
    exact absurd ht (not_unborn born reach l')
  | asleep a l' =>
    obtain rfl : l' = l := by simpa [State.loc, ht] using at_l
    rcases barrier_asleep reach ht with ⟨-, -, rfl⟩ | ⟨-, -, rfl⟩
    · exact absurd rfl busy
    · exact absurd rfl outside

/-- After the counter has reached 0 somebody is on the way to its wake as long as
main sleeps. -/
def Alarmed (s : State BarrierAddr (Team threads) BarrierLoc) : Prop :=
  ∃ i, s.loc (.worker i) = .sync .check ∨ s.loc (.worker i) = .sync .wake

theorem barrierMove_threads {mem mem' : BarrierAddr → UInt32}
    {loc loc' : Team threads → BarrierLoc} (move : BarrierMove value mem mem' loc loc') :
    (∃ i, loc' (.worker i) = .sync .check) ∨ mem' .threads = mem .threads := by
  cases move with
  | dec i before word after => exact .inl ⟨i, by simp [after]⟩
  | sync i l before arrived gate result word after => exact .inr (by rw [word])
  | wait l before shut leaves sleeps word after => exact .inr (by rw [word])
  | store before word after => exact .inr (by simp [word])
  | wake before word after => exact .inr (by rw [word])
  | resume word after => exact .inr (by rw [word])

/-- The worker that answers for main re-reads 0 and wakes it, or leaves that to
the worker that takes the counter to 0 now. -/
theorem Alarmed.step (reach : (barrierMachine threads value waits).Reachable s)
    (step : Step (barrierProgram _ value) s e s') (alarmed : Alarmed s)
    (zero : s.mem .threads = 0) {l : BarrierLoc} (asleep : s.thread .main = .asleep .threads l) :
    Alarmed s' ∨ ∃ l, s'.thread .main = .ready l := by
  obtain ⟨i, at_pc⟩ := alarmed
  by_cases mover : e.thread = .worker i
  · have pc := step.pc_eq
    rw [mover] at pc
    have ready : s.thread e.thread = .ready e.pc := by
      rw [mover]
      apply barrier_ready reach pc.symm
      · rcases at_pc with at_pc | at_pc <;> simp [pc, at_pc]
      · rcases at_pc with at_pc | at_pc <;> simp [pc, at_pc]
    rcases at_pc with at_check | at_wake
    · have check : barrierProgram _ value e.thread e.pc = .instr
          ((barrierSync .check).map id (Sum.elim .sync .returned)) := by
        rw [mover, pc, at_check]
        rfl
      -- it reads 0 and goes on to its wake
      have next := (step.effect_of_instr check ready).2
      exact .inl ⟨i, .inr (by simpa [mover, zero] using congrFun next e.thread)⟩
    · have wake : barrierProgram _ value e.thread e.pc =
          .instr (.wake .threads 1 (.sync .test)) := by
        rw [mover, pc, at_wake]
        rfl
      -- nobody but main sleeps on the counter, so main is the thread that it wakes
      obtain ⟨u, l', slept, roused⟩ := step.exists_roused wake ready one_pos asleep
      rcases barrier_asleep reach slept with ⟨rfl, -⟩ | ⟨-, elsewhere, -⟩
      · exact .inr ⟨l', roused⟩
      · simp at elsewhere
  · have other : s'.loc (.worker i) = s.loc (.worker i) := step.loc_other (Ne.symm mover)
    exact .inl ⟨i, by rwa [other]⟩

theorem main_alarmed (positive : 0 < threads)
    (reach : (barrierMachine threads value waits).Reachable s) {l : BarrierLoc}
    (asleep : s.thread .main = .asleep .threads l) (zero : s.mem .threads = 0) : Alarmed s := by
  have inv : (barrierMachine threads value waits).Invariant fun s =>
      ∀ l, s.thread .main = .asleep .threads l → s.mem .threads = 0 → Alarmed s := by
    refine ⟨?_, ?_⟩
    · rintro s rfl l asleep
      simp [barrierStart] at asleep
    · intro s e s' reach held step l asleep zero
      have inv := barrierInv positive reach
      by_cases main : e.thread = .main
      · -- main itself has just fallen asleep, on a counter that is not 0
        rw [← main] at asleep
        obtain ⟨v, wait, word, same⟩ := Step.asleep_self step asleep
        rcases barrierProgram_wait wait with ⟨-, -, -, n, at_sleep, rfl⟩ | ⟨⟨i, worker⟩, -⟩
        · have at_n : s.loc .main = .wait (.sleep n) := by
            rw [← main, ← Step.pc_eq step, at_sleep]
          have pending := inv.pending n at_n
          rw [same, word, toUInt32_eq_zero] at zero
          simp [zero] at pending
        · simp [main] at worker
      · have before := Step.asleep_other step (Ne.symm main) asleep
        rcases barrierMove_threads (barrierMove_of_step step) with ⟨i, at_check⟩ | same
        · exact ⟨i, .inl at_check⟩
        · have alarmed := held l before (same ▸ zero)
          rcases alarmed.step reach step (same ▸ zero) before with on | ⟨l', awake⟩
          · exact on
          · simp [asleep] at awake
  exact inv.of_reachable reach l asleep zero

/-- Main asleep on the counter is waiting for a worker that has yet to decrement
it, or that has taken it to 0 and has yet to wake main. -/
theorem main_asleep (positive : 0 < threads)
    (reach : (barrierMachine threads value waits).Reachable s) {l : BarrierLoc}
    (asleep : s.thread .main = .asleep .threads l) :
    ∃ i, s.thread (.worker i) = .ready (.sync .dec) ∨
      s.mem .threads = 0 ∧ (s.thread (.worker i) = .ready (.sync .check) ∨
        s.thread (.worker i) = .ready (.sync .wake)) := by
  by_cases zero : s.mem .threads = 0
  · obtain ⟨i, at_pc⟩ := main_alarmed positive reach asleep zero
    refine ⟨i, .inr ⟨zero, ?_⟩⟩
    rcases at_pc with at_pc | at_pc
    · exact .inl (barrier_ready reach at_pc (by simp) (by simp))
    · exact .inr (barrier_ready reach at_pc (by simp) (by simp))
  · -- somebody has not come yet, and before its decrement a worker never sleeps
    have someone := (barrierInv positive reach).all_arrived.not.mp zero
    push Not at someone
    obtain ⟨i, missing⟩ := someone
    have at_dec : s.loc (.worker i) = .sync .dec := by simpa [BarrierLoc.arrived] using missing
    exact ⟨i, .inl (barrier_ready reach at_dec (by simp) (by simp))⟩

/-- Such a worker is in its `barrier_sync`, and not at the gate. -/
theorem main_asleep_sync (positive : 0 < threads)
    (reach : (barrierMachine threads value waits).Reachable s) {l : BarrierLoc}
    (asleep : s.thread .main = .asleep .threads l) :
    ∃ i pc, s.loc (.worker i) = .sync pc ∧ pc ≠ .test := by
  obtain ⟨i, ready | ⟨-, ready | ready⟩⟩ := main_asleep positive reach asleep
  · exact ⟨i, .dec, by rw [State.loc, ready]; rfl, by simp⟩
  · exact ⟨i, .check, by rw [State.loc, ready]; rfl, by simp⟩
  · exact ⟨i, .wake, by rw [State.loc, ready]; rfl, by simp⟩

/-- Only workers sleep on the gate, so a wake of `INT_MAX` threads is one of all. -/
theorem gate_sleepers_le (reach : (barrierMachine threads value waits).Reachable s) :
    (s.sleepers .unblock).card ≤ intMax := by
  have subset : s.sleepers .unblock ⊆ Finset.univ.image Thread.worker := by
    intro t sleeper
    obtain ⟨l, asleep⟩ := State.mem_sleepers s |>.mp sleeper
    rcases barrier_asleep reach asleep with ⟨-, elsewhere, -⟩ | ⟨⟨i, rfl⟩, -⟩
    · simp at elsewhere
    · simp
  have few : (s.sleepers .unblock).card ≤ workers threads := by
    calc (s.sleepers .unblock).card
        ≤ (Finset.univ.image (@Thread.worker (Fin (workers threads)))).card :=
          Finset.card_le_card subset
      _ ≤ (Finset.univ : Finset (Fin (workers threads))).card := Finset.card_image_le
      _ = workers threads := by simp
  have small := workers_lt threads
  unfold intMax
  omega

/-- Once main has issued its wake no worker sleeps any more: it was for all of
them, and the gate has been open ever since. -/
theorem awake_of_done (positive : 0 < threads) (nonzero : value ≠ 0)
    (reach : (barrierMachine threads value waits).Reachable s) (finished : s.loc .main = .done)
    (i : Fin (workers threads)) (a : BarrierAddr) (l : BarrierLoc) :
    s.thread (.worker i) ≠ .asleep a l := by
  have inv : (barrierMachine threads value waits).Invariant fun s =>
      s.loc .main = .done → ∀ i a l, s.thread (.worker i) ≠ .asleep a l := by
    refine ⟨?_, ?_⟩
    · rintro s rfl finished
      cases waits <;> simp [barrierStart, State.loc] at finished
    · intro s e s' reach held step finished i a l asleep
      have reach' := reach.next step
      have gate := (barrierInv positive reach).gate
      rcases barrier_asleep reach' asleep with ⟨main, -⟩ | ⟨-, rfl, rfl⟩
      · simp at main
      by_cases mover : e.thread = .worker i
      · -- a worker falls asleep only while the gate is shut
        have main : s.loc .main = .done := by
          rw [← finished]
          exact (Step.loc_other step (by simp [mover])).symm
        rw [← mover] at asleep
        obtain ⟨v, wait, word, -⟩ := Step.asleep_self step asleep
        rcases barrierProgram_wait wait with ⟨-, sleeps, -⟩ | ⟨-, -, rfl, -⟩
        · simp at sleeps
        · rw [gate (by rw [main]; rfl)] at word
          simp [nonzero] at word
      · have before := Step.asleep_other step (Ne.symm mover) asleep
        have main : s.loc .main ≠ .done := fun main => held main i _ _ before
        have mover : e.thread = .main := by
          by_contra other
          exact main (finished ▸ (Step.loc_other step (Ne.symm other)).symm)
        -- main has just taken its last step
        have at_wake : s.loc .main = .unblock .wake := by
          cases barrierMove_of_step step with
          | wake before word after => exact before
          | dec j before word after => simp [after, main] at finished
          | sync j l before arrived gate result word after => simp [after, main] at finished
          | wait l before shut leaves sleeps word after =>
            obtain rfl : l = .done := by simpa [after] using finished
            simp [BarrierLoc.opened] at shut
          | store before word after => simp [after] at finished
          | resume word after => simp [after, main] at finished
        have pc := Step.pc_eq step
        rw [mover, at_wake] at pc
        have ready : s.thread e.thread = .ready e.pc := by
          rw [mover, pc]
          exact barrier_ready reach at_wake (by simp) (by simp)
        have wake : barrierProgram _ value e.thread e.pc =
            .instr (.wake .unblock intMax .done) := by
          rw [mover, pc]
          rfl
        exact Step.all_roused step wake ready (gate_sleepers_le reach) _ _ asleep
  exact inv.of_reachable reach finished i a l

/-- A worker asleep on the gate is waiting for main to open it, or for the wake
that follows. -/
theorem worker_asleep (positive : 0 < threads) (nonzero : value ≠ 0)
    (reach : (barrierMachine threads value waits).Reachable s) {i : Fin (workers threads)}
    {a : BarrierAddr} {l : BarrierLoc} (asleep : s.thread (.worker i) = .asleep a l) :
    s.mem .unblock = 0 ∨ s.thread .main = .ready (.unblock .wake) := by
  by_cases isOpen : (s.loc .main).opened = true
  · have pending : s.loc .main ≠ .done := fun finished =>
      awake_of_done positive nonzero reach finished i a l asleep
    have at_wake : s.loc .main = .unblock .wake := by
      cases hl : s.loc .main with
      | unblock pc => cases pc <;> simp [hl, BarrierLoc.opened] at isOpen ⊢
      | done => exact absurd hl pending
      | sync pc => simp [hl, BarrierLoc.opened] at isOpen
      | returned r => simp [hl, BarrierLoc.opened] at isOpen
      | wait pc => simp [hl, BarrierLoc.opened] at isOpen
    exact .inr (barrier_ready reach at_wake (by simp) (by simp))
  · exact .inl ((barrierInv positive reach).shut (by simpa using isOpen))

/-- **The barrier is correct.** With `threads` workers, main in `barrier_wait` and
then in `barrier_unblock(value)`, after every run: the counter and the workers
that have decremented it make `threads` together; main has left `barrier_wait`
only if all of them have; a worker that has returned did so after main's store,
with exactly `value`; while main sleeps some worker is before its decrement, or
the counter is 0 and some worker is before its re-read or its wake; once all have
decremented the counter reads 0; and while a worker sleeps the gate is still shut
or main has yet to issue its wake. -/
theorem barrier_correct (threads value : Int32) (positive : 0 < threads) (nonzero : value ≠ 0)
    {w : List (Event BarrierAddr (Team threads) BarrierLoc)}
    {s : State BarrierAddr (Team threads) BarrierLoc}
    (run : (barrierMachine threads value true).Run w s) :
    (s.mem .threads).toNat + (arrivals s).card = workers threads ∧
    ((s.loc .main).waiting = false → ∀ i, (s.loc (.worker i)).arrived = true) ∧
    (∀ i r, s.loc (.worker i) = .returned r → (s.loc .main).opened = true ∧ r = value) ∧
    (∀ l, s.thread .main = .asleep .threads l →
      ∃ i, s.thread (.worker i) = .ready (.sync .dec) ∨
        s.mem .threads = 0 ∧ (s.thread (.worker i) = .ready (.sync .check) ∨
          s.thread (.worker i) = .ready (.sync .wake))) ∧
    ((∀ i, (s.loc (.worker i)).arrived = true) → s.mem .threads = 0) ∧
    (∀ i l, s.thread (.worker i) = .asleep .unblock l →
      s.mem .unblock = 0 ∨ s.thread .main = .ready (.unblock .wake)) := by
  have reach := run.reachable
  have inv := barrierInv positive reach
  refine ⟨inv.count, inv.awaited rfl, inv.returned, ?_, inv.all_arrived.mpr, ?_⟩
  · intro l asleep
    exact main_asleep positive reach asleep
  · intro i l asleep
    exact worker_asleep positive nonzero reach asleep

theorem workers_two_pos : 0 < workers 2 := by decide

/-- Two workers and the value -1: main and the first worker sleep, and the second
has yet to come. -/
def firstOfTwo : List (Choice (Team 2)) :=
  let w : Choice (Team 2) := .run (.worker ⟨0, workers_two_pos⟩) ∅
  [.run .main ∅, w, .run .main ∅, .run .main ∅, .run .main ∅, w, w, w]

theorem barrier_correct_firstOfTwo :
    ∃ w s, (barrierMachine 2 (-1) true).Run w s ∧ (s.mem .threads).toNat = 1 ∧
      (arrivals s).card = 1 ∧
      ∃ i, s.thread (.worker i) = .ready (.sync .dec) ∨
        s.mem .threads = 0 ∧ (s.thread (.worker i) = .ready (.sync .check) ∨
          s.thread (.worker i) = .ready (.sync .wake)) := by
  obtain ⟨w, s, run, word, asleep⟩ := exists_run (barrierProgram _ (-1)) (barrierStart 2 true)
    firstOfTwo (fun _ s => s.mem .threads = 1 ∧ s.thread .main = .asleep .threads (.wait .read))
    (by decide)
  obtain ⟨count, -, -, alarmed, -⟩ := barrier_correct 2 (-1) (by decide) (by decide) run
  refine ⟨w, s, run, by simp [word], ?_, alarmed _ asleep⟩
  rw [word] at count
  change 1 + (arrivals s).card = 2 at count
  omega
