import Mathlib.Data.Int.Basic

/-!
# Results of system calls
-/

/-- What a system call returns, and `errno` as the caller sees it afterwards. -/
structure SysResult where
  ret : ℤ
  errno : ℕ
  deriving DecidableEq

/-- A count. -/
def SysResult.ok (value : ℕ) : SysResult := ⟨value, 0⟩

/-- -1, with an error number. -/
def SysResult.error (errno : ℕ) : SysResult := ⟨-1, errno⟩

@[simp] theorem SysResult.ok_ret (value : ℕ) : (SysResult.ok value).ret = value := rfl

@[simp] theorem SysResult.error_ret (errno : ℕ) : (SysResult.error errno).ret = -1 := rfl

@[simp] theorem SysResult.error_errno (errno : ℕ) : (SysResult.error errno).errno = errno := rfl

/-- `EPERM`. -/
def eperm : ℕ := 1

/-- `EWOULDBLOCK`. -/
def ewouldblock : ℕ := 11

/-- `EINVAL`. -/
def einval : ℕ := 22

/-- `EDEADLK`. -/
def edeadlk : ℕ := 35

/-- `ETIMEDOUT`. -/
def etimedout : ℕ := 110
