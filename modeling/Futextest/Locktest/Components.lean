import Futextest.Locktest
import Futextest.Projection

/-!
# The two barriers inside a run

Seen from either barrier, a run of `locktest` is a run of the barrier machine:
main and the workers call its procedures in their order and touch its words
nowhere else. So what is proved of the barrier alone holds inside the run. Where
main skips `barrier_wait` because a thread could not be created, the first
barrier is the one with the value -1.

## Main definitions

* `BeforeView`, `AfterView` — how a control point of the run shows in a barrier

## Main results

* `exists_before`, `exists_after` — the barriers in a reachable state of the run
-/

open FutexMachine

namespace Locktest

variable {A F : Type} (c : Locktest A F) (k : ℕ)

/-- Which control points of main belong to a run in which `k` threads are
created. -/
@[simp] def PcOk : MainPc c.n → Prop
  | .create i => i.val ≤ k
  | .abort i _ => i.val = k ∧ k < c.n
  | .abortJoin i => i.val ≤ k ∧ k < c.n
  | .ret result => result = (if k < c.n then retError else retPass)
  | _ => k = c.n

/-- The value that main opens the first barrier with. -/
def gateValue : Int32 := if k < c.n then -1 else 1

/-- Whether main waits at the first barrier. -/
def waits : Bool := decide (k = c.n)

/-- Main, seen from `barrier_before`. -/
@[simp] def mainBefore : MainPc c.n → BarrierLoc
  | .create _ => if c.waits k then .wait .read else .unblock .store
  | .abort _ pc => .unblock pc
  | .waitBefore pc => .wait pc
  | .timesBefore => .unblock .store
  | .unblockBefore pc => .unblock pc
  | _ => .done

/-- Main, seen from `barrier_after`. -/
@[simp] def mainAfter : MainPc c.n → BarrierLoc
  | .waitAfter pc => .wait pc
  | .timesAfter => .unblock .store
  | .unblockAfter pc => .unblock pc
  | .join _ => .done
  | .ret result => if result = retPass then .done else .wait .read
  | _ => .wait .read

/-- A worker, seen from `barrier_before`. -/
@[simp] def WorkerBefore : WorkerPc F → BarrierLoc → Prop
  | .before pc, l => l = .sync pc
  | .test result, l => l = .returned result
  | .ret false, l => ∃ result, ¬ 0 < result ∧ l = .returned result
  | _, l => ∃ result, 0 < result ∧ l = .returned result

/-- A worker, seen from `barrier_after`. -/
@[simp] def WorkerAfter : WorkerPc F → BarrierLoc → Prop
  | .after pc, l => l = .sync pc
  | .ret true, l => ∃ result, l = .returned result
  | _, l => l = .sync .dec

/-- How a control point of the run shows in `barrier_before`. -/
@[simp] def BeforeView : Team c.threads → LocktestLoc F c.n → BarrierLoc → Prop
  | .main, .main pc, l => c.PcOk k pc ∧ l = c.mainBefore k pc
  | .worker _, .worker pc, l => WorkerBefore pc l
  | _, _, _ => False

/-- How a control point of the run shows in `barrier_after`. -/
@[simp] def AfterView : Team c.threads → LocktestLoc F c.n → BarrierLoc → Prop
  | .main, .main pc, l => c.PcOk k pc ∧ l = c.mainAfter pc
  | .worker _, .worker pc, l => WorkerAfter pc l
  | _, _, _ => False

variable {c k}

/-- The first call of `pthread_create` that fails, or all succeed. -/
theorem exists_creates (c : Locktest A F) : ∃ k, c.Creates k := by
  by_cases fails : ∃ i, i < c.n ∧ c.pthreadCreate i ≠ 0
  · obtain ⟨less, failed⟩ := Nat.find_spec fails
    refine ⟨Nat.find fails, less.le, ?_, fun _ => failed⟩
    intro i before
    by_contra other
    exact Nat.find_min fails before ⟨before.trans less, other⟩
  · push Not at fails
    exact ⟨c.n, le_rfl, fails, fun less => absurd less (lt_irrefl _)⟩

/-- The loop of main that creates the workers: it goes on, fails at `k`, or is done. -/
theorem create_cases (created : c.Creates k) (i : Fin (c.n + 1)) (ok : i.val ≤ k) :
    (∃ more : i.val < c.n, i.val < k ∧ c.main (.create i) =
      .create (.worker ⟨i, more⟩) (.main (.create ⟨i + 1, Nat.succ_lt_succ more⟩))) ∨
    (i.val = k ∧ k < c.n ∧ c.main (.create i) = .instr (.tau (.main (.abort i .store)))) ∨
    (i.val = c.n ∧ k = c.n ∧ c.main (.create i) = .instr (.tau (.main (.waitBefore .read)))) := by
  have le := created.le
  by_cases more : i.val < c.n
  · by_cases success : c.pthreadCreate i = 0
    · -- call `k` is the first to fail
      have before : i.val < k := by
        by_contra last
        have at_k : i.val = k := by omega
        exact created.fails (at_k ▸ more) (at_k ▸ success)
      exact .inl ⟨more, before, by simp [main, more, success]⟩
    · have at_k : i.val = k := by
        by_contra early
        exact success (created.succeed i (by omega))
      exact .inr (.inl ⟨at_k, at_k ▸ more, by simp [main, more, success]⟩)
  · exact .inr (.inr ⟨by omega, by omega, by simp [main, more]⟩)

/-- The first join loop counts down to 0. -/
theorem abortJoin_cases (i : Fin (c.n + 1)) :
    (i.val = 0 ∧ c.main (.abortJoin i) = .instr (.tau (.main (.ret retError)))) ∨
    ∃ (j : Fin (c.n + 1)) (less : j.val < c.n), i.val = j.val + 1 ∧
      c.main (.abortJoin i) = .join (.worker ⟨j, less⟩) (.main (.abortJoin j)) := by
  obtain ⟨_ | j, bound⟩ := i
  · exact .inl ⟨rfl, rfl⟩
  · exact .inr ⟨⟨j, by omega⟩, by simpa using bound, rfl, rfl⟩

/-- The second join loop counts up to the number of threads. -/
theorem join_cases (i : Fin (c.n + 1)) :
    (∃ more : i.val < c.n, c.main (.join i) =
      .join (.worker ⟨i, more⟩) (.main (.join ⟨i + 1, Nat.succ_lt_succ more⟩))) ∨
    (i.val = c.n ∧ c.main (.join i) = .instr (.tau (.main (.ret retPass)))) := by
  by_cases more : i.val < c.n
  · exact .inl ⟨more, by simp [main, more]⟩
  · exact .inr ⟨by omega, by simp [main, more]⟩

/-- Every operation of the run is one of `barrier_before` or none of its business. -/
theorem tracks_before (created : c.Creates k) (t : Team c.threads) (l : LocktestLoc F c.n)
    (l' : BarrierLoc) (view : c.BeforeView k t l l') :
    Tracks LocktestAddr.before (c.BeforeView k t) l' (c.program t l)
      (barrierProgram _ (c.gateValue k) t l') := by
  -- the other barrier and the function under test use words of their own
  have outside : ∀ a b, LocktestAddr.after (A := A) a ≠ .before b := by simp
  rcases t with _ | i <;> rcases l with pc | pc <;> simp only [BeforeView] at view
  · obtain ⟨ok, rfl⟩ := view
    cases pc with
    | create i =>
      simp only [PcOk] at ok
      rcases create_cases created i ok with ⟨more, less, op⟩ | ⟨last, fails, op⟩ | ⟨-, all, op⟩
      · rw [program, op]
        exact .create _ _ _ ⟨less, rfl⟩
      · -- the abort opens the gate without waiting for anybody
        have skips : c.waits k = false := by simp [waits, fails.ne]
        rw [program, op]
        exact .tau _ _ ⟨⟨last, fails⟩, by simp [skips]⟩
      · have stays : c.waits k = true := by simp [waits, all]
        rw [program, op]
        exact .tau _ _ ⟨all, by simp [stays]⟩
    | abort i pc =>
      have value : c.gateValue k = -1 := if_pos ok.2
      rw [program, main, mainBefore, barrierProgram, value]
      apply Tracks.call
      rintro (pc | _)
      · exact ⟨ok, rfl⟩
      · exact ⟨⟨ok.1.le, ok.2⟩, rfl⟩
    | abortJoin i =>
      simp only [PcOk] at ok
      rcases abortJoin_cases i with ⟨-, op⟩ | ⟨j, less, pred, op⟩
      · rw [program, op]
        exact .tau _ _ ⟨by simp [ok.2], rfl⟩
      · rw [program, op]
        exact .join _ _ _ ⟨⟨by omega, ok.2⟩, rfl⟩
    | waitBefore pc =>
      rw [program, main, mainBefore, barrierProgram]
      apply Tracks.call
      rintro (pc | _)
      · exact ⟨ok, rfl⟩
      · exact ⟨ok, rfl⟩
    | timesBefore | timesAfter => exact .tau _ _ ⟨ok, rfl⟩
    | unblockBefore pc =>
      have value : c.gateValue k = 1 := if_neg (by simp only [PcOk] at ok; omega)
      rw [program, main, mainBefore, barrierProgram, value]
      apply Tracks.call
      rintro (pc | _)
      · exact ⟨ok, rfl⟩
      · exact ⟨ok, rfl⟩
    | waitAfter pc | unblockAfter pc =>
      rw [program, main]
      apply Tracks.away _ _ _ _ outside
      rintro (pc | _)
      · exact ⟨ok, rfl⟩
      · exact ⟨ok, rfl⟩
    | join i =>
      simp only [PcOk] at ok
      rcases join_cases i with ⟨more, op⟩ | ⟨-, op⟩
      · rw [program, op]
        exact .join _ _ _ ⟨ok, rfl⟩
      · rw [program, op]
        exact .tau _ _ ⟨by simp [ok], rfl⟩
    | ret result => exact .exit _
  · cases pc with
    | before pc =>
      obtain rfl := view
      rw [program, thread, barrierProgram]
      apply Tracks.call
      rintro (pc | result)
      · exact rfl
      · exact rfl
    | test result =>
      obtain rfl := view
      apply Tracks.tau
      by_cases positive : 0 < result
      · simp [positive]
      · simp [positive, Int32.not_lt.mp positive]
    | call => exact .tau _ _ view
    | body pc =>
      rw [program, thread]
      apply Tracks.away _ _ _ _ (by simp)
      rintro (pc | _)
      · exact view
      · exact view
    | after pc =>
      rw [program, thread]
      apply Tracks.away _ _ _ _ outside
      rintro (pc | _)
      · exact view
      · exact view
    | ret ran => exact .exit _

/-- Every operation of the run is one of `barrier_after` or none of its business. -/
theorem tracks_after (created : c.Creates k) (t : Team c.threads) (l : LocktestLoc F c.n)
    (l' : BarrierLoc) (view : c.AfterView k t l l') :
    Tracks LocktestAddr.after (c.AfterView k t) l' (c.program t l)
      (barrierProgram _ 1 t l') := by
  have outside : ∀ a b, LocktestAddr.before (A := A) a ≠ .after b := by simp
  rcases t with _ | i <;> rcases l with pc | pc <;> simp only [AfterView] at view
  · obtain ⟨ok, rfl⟩ := view
    cases pc with
    | create i =>
      simp only [PcOk] at ok
      rcases create_cases created i ok with ⟨more, less, op⟩ | ⟨last, fails, op⟩ | ⟨-, all, op⟩
      · rw [program, op]
        exact .create _ _ _ ⟨less, rfl⟩
      · rw [program, op]
        exact .tau _ _ ⟨⟨last, fails⟩, rfl⟩
      · rw [program, op]
        exact .tau _ _ ⟨all, rfl⟩
    | abort i pc =>
      rw [program, main]
      apply Tracks.away _ _ _ _ outside
      rintro (pc | _)
      · exact ⟨ok, rfl⟩
      · exact ⟨⟨ok.1.le, ok.2⟩, rfl⟩
    | abortJoin i =>
      simp only [PcOk] at ok
      rcases abortJoin_cases i with ⟨-, op⟩ | ⟨j, less, pred, op⟩
      · rw [program, op]
        exact .tau _ _ ⟨by simp [ok.2], rfl⟩
      · rw [program, op]
        exact .join _ _ _ ⟨⟨by omega, ok.2⟩, rfl⟩
    | waitBefore pc | unblockBefore pc =>
      rw [program, main]
      apply Tracks.away _ _ _ _ outside
      rintro (pc | _)
      · exact ⟨ok, rfl⟩
      · exact ⟨ok, rfl⟩
    | timesBefore | timesAfter => exact .tau _ _ ⟨ok, rfl⟩
    | waitAfter pc | unblockAfter pc =>
      rw [program, main, mainAfter, barrierProgram]
      apply Tracks.call
      rintro (pc | _)
      · exact ⟨ok, rfl⟩
      · exact ⟨ok, rfl⟩
    | join i =>
      simp only [PcOk] at ok
      rcases join_cases i with ⟨more, op⟩ | ⟨-, op⟩
      · rw [program, op]
        exact .join _ _ _ ⟨ok, rfl⟩
      · rw [program, op]
        exact .tau _ _ ⟨by simp [ok], rfl⟩
    | ret result => exact .exit _
  · cases pc with
    | before pc =>
      rw [program, thread]
      apply Tracks.away _ _ _ _ outside
      rintro (pc | result)
      · exact view
      · exact view
    | test result =>
      apply Tracks.tau
      by_cases positive : 0 < result
      · simpa [positive] using view
      · simpa [positive] using view
    | call => exact .tau _ _ view
    | body pc =>
      rw [program, thread]
      apply Tracks.away _ _ _ _ (by simp)
      rintro (pc | _)
      · exact view
      · exact view
    | after pc =>
      obtain rfl := view
      rw [program, thread, barrierProgram]
      apply Tracks.call
      rintro (pc | result)
      · exact rfl
      · exact ⟨result, rfl⟩
    | ret ran => exact .exit _

section Machine

variable [DecidableEq A] {s : c.RunState}

/-- `barrier_before` in a reachable state of the run. -/
theorem exists_before (created : c.Creates k) (reach : c.machine.Reachable s) :
    ∃ u, (barrierMachine c.threads (c.gateValue k) (c.waits k)).Reachable u ∧
      Projects LocktestAddr.before (c.BeforeView k) s u := by
  refine exists_component (by intro a b same; simpa using same) (tracks_before created) ?_ reach
  refine ⟨fun a => rfl, fun t => ?_⟩
  cases t with
  | main => exact .ready ⟨Nat.zero_le k, rfl⟩
  | worker i => exact .unborn rfl

/-- `barrier_after` in a reachable state of the run. -/
theorem exists_after (created : c.Creates k) (reach : c.machine.Reachable s) :
    ∃ u, (barrierMachine c.threads 1 true).Reachable u ∧
      Projects LocktestAddr.after (c.AfterView k) s u := by
  refine exists_component (by intro a b same; simpa using same) (tracks_after created) ?_ reach
  refine ⟨fun a => rfl, fun t => ?_⟩
  cases t with
  | main => exact .ready ⟨Nat.zero_le k, rfl⟩
  | worker i => exact .unborn rfl

end Machine

end Locktest
