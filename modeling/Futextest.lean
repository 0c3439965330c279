import Futextest.System
import Futextest.FutexMachine
import Futextest.Projection
import Futextest.Mutex
import Futextest.FutexWait
import Futextest.FutexWait.Exclusion
import Futextest.FutexWait.Wakeup
import Futextest.Barrier
import Futextest.Locktest
import Futextest.Locktest.Components
import Futextest.Locktest.Run
import Futextest.Locktest.Progress
import Futextest.Locktest.Benchmark
import Futextest.Locktest.Window
import Futextest.Locktest.Abort
import Futextest.PiFutex
import Futextest.Deadline
import Futextest.PiFutex.Faulty
import Futextest.RequeuePi
import Futextest.RequeuePi.Waiters
import Futextest.RequeuePi.Wakers
import Futextest.RequeuePi.Stranding
import Futextest.RequeuePi.GiveUp
import Futextest.RequeuePi.ThirdParty
import Futextest.RequeuePi.Untimed
import Futextest.PiFutex.Ownership
import Futextest.RequeuePi.Ownership
import Futextest.SignalRestart
import Futextest.SignalRestart.Signals
import Futextest.SignalRestart.Loop
import Futextest.MismatchedOps
import Futextest.WaitTests
import Futextest.FunctionalTest
import Futextest.Syscalls.Alone
import Futextest.PiFutex.Calls
import Futextest.Scan
import Futextest.RequeuePi.Verdict
import Futextest.RequeuePi.FirstError
import Futextest.RequeuePi.WakerReport
import Futextest.SignalRestart.Verdict
import Futextest.MismatchedOps.Join
import Futextest.MismatchedOps.Verdict
import Futextest.WaitTests.Verdict
import Futextest.Verdicts
import Futextest.RequeuePi.Options
import Futextest.RequeuePi.CreateFails
import Futextest.CInt
import Futextest.FutexWait.Unlock
import Futextest.Locktest.Iterations
import Futextest.Timeouts
import Futextest.FutexMachine.Potential
import Futextest.FutexWait.Termination
import Futextest.FutexWait.Kernel
import Futextest.Locktest.Lock
import Futextest.Locktest.Termination
import Futextest.PiFutex.Potential
import Futextest.RequeuePi.Bounded
import Futextest.RequeuePi.Deadlocks
import Futextest.PiFutex.Refinement
import Futextest.RequeuePi.Passes
import Futextest.RequeuePi.Correct
import Futextest.RequeuePi.Modes
import Futextest.SignalRestart.Termination
import Futextest.RequeuePi.Accounts
import Futextest.FutexMachine.Alone
import Futextest.FutexWait.Fairness
import Futextest.MismatchedOps.Termination
import Futextest.WaitTests.MappedFile
import Futextest.WaitTests.UninitializedHeap
