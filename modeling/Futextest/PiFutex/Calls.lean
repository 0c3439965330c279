import Futextest.PiFutex
import Futextest.Syscalls

/-!
# Threads on priority-inheritance futexes, under any kernel

The threads of a machine with PI futexes, when nothing is known of what their futex
calls do: the calls become calls of a kernel that is a parameter.

## Main definitions

* `PiFutex.Call` — the futex calls
* `Op.toSyscalls` — an operation, as an operation on a kernel
-/

namespace PiFutex

/-- The futex calls. -/
inductive Call (A P : Type)
  | wait (a : A) (v : ℤ)
  | wake (a : A) (n : ℕ)
  | lockPi (p : P)
  | unlockPi (p : P)
  | waitRequeuePi (a : A) (v : ℤ) (p : P) (timeout : Timeout)
  | cmpRequeuePi (a : A) (v : ℤ) (p : P) (nrWake nrRequeue : ℕ)
  deriving DecidableEq

variable {A P T L : Type}

/-- The operation with its futex call left to the kernel. -/
@[simp] def Op.toSyscalls : Op A P T L → Syscalls.Op A (Call A P) T L
  | .tau k => .tau k
  | .load a k => .load a k
  | .store a v k => .store a v k
  | .inc a k => .inc a k
  | .wait a v k => .call (.wait a v) k
  | .wake a n k => .call (.wake a n) fun _ => k
  | .lockPi p k => .call (.lockPi p) k
  | .unlockPi p k => .call (.unlockPi p) k
  | .waitRequeuePi a v p timeout k => .call (.waitRequeuePi a v p timeout) k
  | .cmpRequeuePi a v p nrWake nrRequeue k => .call (.cmpRequeuePi a v p nrWake nrRequeue) k
  | .create t k => .create t k
  | .join t k => .join t k
  | .exit => .exit

/-- A creation is no futex call. -/
theorem Op.toSyscalls_eq_create {op : Op A P T L} {t : T} {k : L} :
    op.toSyscalls = .create t k ↔ op = .create t k := by
  cases op <;> simp

theorem Op.isFutex_of_call {op : Op A P T L} {c : Call A P} {k : SysResult → L}
    (calls : op.toSyscalls = .call c k) : op.isFutex = true := by
  cases op <;> first | rfl | cases calls

/-- The program with its futex calls left to the kernel. -/
def Program.toSyscalls (M : Program A P T L) : Syscalls.Program A (Call A P) T L :=
  fun t l => (M t l).toSyscalls

/-- The same cells and the same threads, in a state where nobody is in a call. -/
def State.toSyscalls (s : State A P T L) : Syscalls.State A T L Unit where
  mem := s.mem
  thread t :=
    match s.thread t with
    | .unborn l => .unborn l
    | status => .ready status.loc
  kernel := ()

end PiFutex
