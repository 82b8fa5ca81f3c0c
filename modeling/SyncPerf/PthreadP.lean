import SyncPerf.RecordEntries

namespace SyncPerf

/-!
# Mutex data, kinds and return codes

The parts of `pthreadP.h` and `errno.h` that the mutex operations share.

* `Tid` — kernel thread ids, positive and within `pid_t`;
* `MutexData` — the `__data` of a real mutex;
* `KindCase`, `switchKind` — which case of a `switch` on `__kind` is taken;
* `Cell`, `Flow` — what one step of an operation reads and writes, and where it leads.
-/

/-! ### Return codes -/

/-- `EPERM`. -/
def ePERM : ℕ := 1

/-- `EAGAIN`. -/
def eAGAIN : ℕ := 11

/-- `EBUSY`. -/
def eBUSY : ℕ := 16

/-- `EINVAL`. -/
def eINVAL : ℕ := 22

/-- `EDEADLK`. -/
def eDEADLK : ℕ := 35

/-- `ENOTSUP`. -/
def eNOTSUP : ℕ := 95

/-! ### Threads and mutexes -/

/-- A thread id of the kernel: a positive `pid_t`. -/
def Tid : Type := { n : ℕ // 0 < n ∧ n < 2 ^ 31 }

namespace Tid

instance : Coe Tid ℕ := ⟨Subtype.val⟩

/-- No thread has the id 0, which stands for no owner. -/
theorem ne_zero (t : Tid) : t.val ≠ 0 := Nat.pos_iff_ne_zero.mp t.property.1

end Tid

/-- `struct __pthread_mutex_s`: `__lock`, `__count` and `__nusers` (`unsigned int`), `__owner`,
    `__kind` and `__spins`.  A word of a basic kind is 0, 1 or 2. -/
structure MutexData where
  lock : ℕ := 0
  count : BitVec 32 := 0
  owner : ℕ := 0
  nusers : BitVec 32 := 0
  kind : BitVec 32 := 0
  spins : ℤ := 0
  deriving DecidableEq

/-- An `unsigned int` below its maximum counts up without wrapping. -/
theorem toNat_add_one {x : BitVec 32} (h : x + 1 ≠ 0) : (x + 1).toNat = x.toNat + 1 := by
  have hone : BitVec.toNat (1 : BitVec 32) = 1 := rfl
  have hne : (x + 1).toNat ≠ 0 := fun h0 => h (BitVec.eq_of_toNat_eq h0)
  have hlt := x.isLt
  rw [BitVec.toNat_add, hone] at hne ⊢
  omega

/-- A counter in the lower half of its range does not wrap. -/
theorem add_one_ne_zero {x : BitVec 32} (h : x.toNat < 2 ^ 31) : x + 1 ≠ 0 := by
  intro h0
  have hone : BitVec.toNat (1 : BitVec 32) = 1 := rfl
  have hsum : (x + 1).toNat = 0 := congrArg BitVec.toNat h0
  rw [BitVec.toNat_add, hone] at hsum
  omega

/-- A positive `unsigned int` counts down without wrapping. -/
theorem toNat_sub_one {x : BitVec 32} (h : 0 < x.toNat) : (x - 1).toNat = x.toNat - 1 := by
  have hone : BitVec.toNat (1 : BitVec 32) = 1 := rfl
  have hlt := x.isLt
  rw [BitVec.toNat_sub, hone]
  omega

/-- `LLL_LOCK_INITIALIZER`, `_LOCKED` and `_WAITERS`. -/
def lllLockInitializer : ℕ := 0

/-- `LLL_LOCK_INITIALIZER_LOCKED`. -/
def lllLockInitializerLocked : ℕ := 1

/-- `LLL_LOCK_INITIALIZER_WAITERS`. -/
def lllLockInitializerWaiters : ℕ := 2

/-! ### Kinds -/

/-- The kinds that are implemented in `mutex_lock.c`, `mutex_trylock.c` and `mutex_unlock.c`
    themselves, not by robust lists, priority inheritance or priority protection. -/
inductive BasicKind
  | timed
  | recursive
  | errorcheck
  | adaptive
  deriving DecidableEq

/-- `PTHREAD_MUTEX_TIMED_NP`, `_RECURSIVE_NP`, `_ERRORCHECK_NP` and `_ADAPTIVE_NP`. -/
def BasicKind.code : BasicKind → BitVec 32
  | .timed => 0
  | .recursive => 1
  | .errorcheck => 2
  | .adaptive => 3

/-- `PTHREAD_MUTEX_KIND_MASK_NP`. -/
def kindMask : BitVec 32 := 3

/-- `PTHREAD_MUTEX_ROBUST_NORMAL_NP`. -/
def robustNormal : BitVec 32 := 16

/-- `PTHREAD_MUTEX_PRIO_INHERIT_NP`. -/
def prioInherit : BitVec 32 := 32

/-- `PTHREAD_MUTEX_PRIO_PROTECT_NP`. -/
def prioProtect : BitVec 32 := 64

/-- `PTHREAD_MUTEX_PSHARED_BIT`. -/
def psharedBit : BitVec 32 := 128

/-- `PTHREAD_MUTEX_ELISION_NP`. -/
def elisionNp : BitVec 32 := 256

/-- `PTHREAD_MUTEX_ELISION_FLAGS_NP`. -/
def elisionFlags : BitVec 32 := 768

/-- `PTHREAD_MUTEX_TYPE`. -/
def pthreadMutexType (kind : BitVec 32) : BitVec 32 := kind &&& 127

/-- `PTHREAD_MUTEX_TYPE_ELISION`. -/
def pthreadMutexTypeElision (kind : BitVec 32) : BitVec 32 := kind &&& (127 ||| elisionNp)

/-- The kind that `pthread_mutex_destroy` leaves behind. -/
def destroyedKind : BitVec 32 := -1

/-- The cases of the `switch` statements: a basic kind, a robust, priority-inheritance or
    priority-protect kind, or no kind at all. -/
inductive KindCase
  | basic (κ : BasicKind)
  | special
  | invalid
  deriving DecidableEq

/-- The robust, priority-inheritance (robust or not) and priority-protect case labels. -/
def specialKinds : List (BitVec 32) :=
  [16, 17, 18, 19, 32, 33, 34, 35, 48, 49, 50, 51, 64, 65, 66, 67]

/-- Which case label a value meets. -/
def switchKind (type : BitVec 32) : KindCase :=
  if type = 0 then .basic .timed
  else if type = 1 then .basic .recursive
  else if type = 2 then .basic .errorcheck
  else if type = 3 then .basic .adaptive
  else if type ∈ specialKinds then .special
  else .invalid

/-- A basic kind meets its own case label. -/
@[simp] theorem switchKind_code (κ : BasicKind) : switchKind κ.code = .basic κ := by
  cases κ <;> rfl

/-- The kind of a destroyed mutex meets none. -/
@[simp] theorem switchKind_destroyed : switchKind destroyedKind = .invalid := by decide

/-- `PTHREAD_MUTEX_TYPE_ELISION` keeps a basic kind. -/
@[simp] theorem typeElision_code (κ : BasicKind) : pthreadMutexTypeElision κ.code = κ.code := by
  cases κ <;> rfl

/-- `PTHREAD_MUTEX_TYPE` keeps a basic kind. -/
@[simp] theorem type_code (κ : BasicKind) : pthreadMutexType κ.code = κ.code := by
  cases κ <;> rfl

/-- Basic kinds have different numbers. -/
theorem code_inj {κ κ' : BasicKind} : κ.code = κ'.code ↔ κ = κ' := by
  cases κ <;> cases κ' <;> decide

/-- None of them is the number of a destroyed mutex. -/
theorem code_ne_destroyed (κ : BasicKind) : κ.code ≠ destroyedKind := by
  cases κ <;> decide

/-! ### Steps of an operation -/

/-- The counters of a `GET_STATISTICS` build (`unsigned long`, incremented atomically). -/
structure Stats where
  totalLocks : ℕ := 0
  totalCondWaits : ℕ := 0
  totalConflicts : ℕ := 0
  deriving DecidableEq

/-- One atomic increment of an `unsigned long`. -/
def inc64 (x : ℕ) : ℕ := (x + 1) % 2 ^ 64

/-- What a step of an operation of one thread on one mutex can touch: the mutex, the thread's
    own record of that mutex, and the statistics. -/
structure Cell where
  mutex : MutexData
  record : ThreadMutex
  stats : Stats
  deriving DecidableEq

/-- The assertions of the operations. -/
inductive Assert
  | owner
  | type
  | elision
  deriving DecidableEq

/-- Where a step leads: on to another point of the operation, to its return, or to a failed
    assertion. -/
inductive Flow (P : Type)
  | goto (p : P)
  | ret (code : ℕ)
  | abort (a : Assert)
  deriving DecidableEq

/-- What an operation on a robust, priority-inheritance or priority-protect mutex did: the new
    mutex data and the return code.  None of that code touches a record or the statistics. -/
structure Special where
  mutex : MutexData
  code : ℕ

/-- The two builds of `pthread_mutex_lock`: as itself, and as `__pthread_mutex_cond_lock` with
    `NO_INCR` defined. -/
inductive Build
  | incr
  | noIncr
  deriving DecidableEq

end SyncPerf
