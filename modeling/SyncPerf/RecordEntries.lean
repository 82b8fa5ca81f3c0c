import Mathlib.Logic.Function.Basic
import Mathlib.Algebra.Ring.Nat

namespace SyncPerf

/-!
# The slot pool and the per-thread records

* `RecordEntries` — the pool of `recordentries.hh`: a preallocated array of entries and a
  cursor that `getNextIndex` advances by an atomic fetch-and-add;
* `ThreadMutex` — one per-thread record of a mutex (`thread_mutex_t`) with its counters;
* `getThreadMutexData` — where the record of a (mutex, thread) pair lies in the mapped
  array `thread_sync_data`, in the arithmetic of the C code.
-/

/-! ### Constants of `xdefines.h` -/

/-- `MAX_THREADS`. -/
def maxThreads : ℕ := 2048

/-- `MAX_NUM_SYNC_ENTRIES`. -/
def maxSyncEntries : ℕ := 1000000

/-- The pool fits in an `int`. -/
theorem maxSyncEntries_lt : maxSyncEntries < 2 ^ 31 := by decide

/-- `MAX_ALIVE_THREADS`. -/
def maxAliveThreads : ℕ := 128

/-- `MAX_THREAD_LEVELS`. -/
def maxThreadLevels : ℕ := 256

/-! ### `RecordEntries` -/

/-- `RecordEntries<Entry>`: the entries `_start`, their number `_total` and the cursor `_cur`
    (a `size_t`).  `initialize` takes the number as an `int`, hence `total_lt`. -/
structure RecordEntries (Entry : Type) where
  start : ℕ → Entry
  total : ℕ
  cur : ℕ
  total_lt : total < 2 ^ 31

namespace RecordEntries

variable {Entry : Type}

/-- `get_next_index`: fetch-and-add on `_cur`; the fetched value goes through the local
    `int val` and is compared with the `size_t` bound.  `none` is the `abort()` branch. -/
def getNextIndex (r : RecordEntries Entry) : Option ℕ × RecordEntries Entry :=
  let val : ℕ := ((BitVec.ofNat 32 r.cur).signExtend 64).toNat
  let r' : RecordEntries Entry := { r with cur := (r.cur + 1) % 2 ^ 64 }
  if val < r.total then (some val, r') else (none, r')

/-- `getEntry`, written: apply `f` to entry `i`. -/
def modifyEntry (r : RecordEntries Entry) (i : ℕ) (f : Entry → Entry) : RecordEntries Entry :=
  { r with start := Function.update r.start i (f (r.start i)) }

/-- A change of an entry keeps the size of the pool. -/
@[simp] theorem modifyEntry_total (r : RecordEntries Entry) (i : ℕ) (f : Entry → Entry) :
    (r.modifyEntry i f).total = r.total := rfl

/-- A change of an entry keeps the number of entries in use. -/
@[simp] theorem modifyEntry_cur (r : RecordEntries Entry) (i : ℕ) (f : Entry → Entry) :
    (r.modifyEntry i f).cur = r.cur := rfl

/-- What the entry is then. -/
@[simp] theorem modifyEntry_start_self (r : RecordEntries Entry) (i : ℕ) (f : Entry → Entry) :
    (r.modifyEntry i f).start i = f (r.start i) := by
  simp [modifyEntry]

/-- The other entries stay. -/
theorem modifyEntry_start_ne (r : RecordEntries Entry) {i j : ℕ} (f : Entry → Entry)
    (h : j ≠ i) : (r.modifyEntry i f).start j = r.start j := by
  simp [modifyEntry, h]

/-- A cursor within `int` range survives the conversions of `get_next_index`. -/
theorem val_eq {n : ℕ} (h : n < 2 ^ 31) : ((BitVec.ofNat 32 n).signExtend 64).toNat = n := by
  have hmsb : (BitVec.ofNat 32 n).msb = false := by
    rw [BitVec.msb_eq_false_iff_two_mul_lt, BitVec.toNat_ofNat]
    omega
  rw [BitVec.signExtend_eq_setWidth_of_msb_false hmsb, BitVec.toNat_setWidth,
    BitVec.toNat_ofNat]
  omega

/-- While the pool is not used up the fetched index is the cursor itself. -/
theorem getNextIndex_of_lt (r : RecordEntries Entry) (h : r.cur < r.total) :
    r.getNextIndex = (some r.cur, { r with cur := r.cur + 1 }) := by
  have hlt := r.total_lt
  have hmod : (r.cur + 1) % 2 ^ 64 = r.cur + 1 := Nat.mod_eq_of_lt (by omega)
  simp only [getNextIndex, val_eq (show r.cur < 2 ^ 31 by omega), hmod, if_pos h]

/-- A used-up pool aborts; the cursor has advanced all the same. -/
theorem getNextIndex_of_eq (r : RecordEntries Entry) (h : r.cur = r.total) :
    r.getNextIndex = (none, { r with cur := r.cur + 1 }) := by
  have hlt := r.total_lt
  have hval := val_eq (show r.cur < 2 ^ 31 by omega)
  have hmod : (r.cur + 1) % 2 ^ 64 = r.cur + 1 := Nat.mod_eq_of_lt (by omega)
  simp only [getNextIndex, hval, hmod]
  rw [if_neg (by omega)]

/-- The cursor advances in any case. -/
theorem getNextIndex_cur (r : RecordEntries Entry) :
    r.getNextIndex.2.cur = (r.cur + 1) % 2 ^ 64 := by
  simp only [getNextIndex]
  split <;> rfl

end RecordEntries

/-! ### Per-thread records -/

/-- One step of an `unsigned int` counter. -/
def inc32 (x : ℕ) : ℕ := (x + 1) % 2 ^ 32

/-- A counter that does not wrap. -/
theorem inc32_eq {x : ℕ} (h : x + 1 < 2 ^ 32) : inc32 x = x + 1 := Nat.mod_eq_of_lt h

/-- `thread_mutex_t`: the counters (`UINT32`) of one thread on one mutex. -/
structure ThreadMutex where
  accessCount : ℕ := 0
  failCount : ℕ := 0
  condWaits : ℕ := 0
  trylockFailCount : ℕ := 0
  deriving DecidableEq

/-- The four counters of a record. -/
inductive Counter
  | access
  | fail
  | condWaits
  | trylockFail
  deriving DecidableEq

namespace ThreadMutex

/-- Read a counter. -/
def get (r : ThreadMutex) : Counter → ℕ
  | .access => r.accessCount
  | .fail => r.failCount
  | .condWaits => r.condWaits
  | .trylockFail => r.trylockFailCount

/-- Write a counter. -/
def set (r : ThreadMutex) (k : Counter) (v : ℕ) : ThreadMutex :=
  match k with
  | .access => { r with accessCount := v }
  | .fail => { r with failCount := v }
  | .condWaits => { r with condWaits := v }
  | .trylockFail => { r with trylockFailCount := v }

/-- A counter that was stored. -/
@[simp] theorem get_set_self (r : ThreadMutex) (k : Counter) (v : ℕ) : (r.set k v).get k = v := by
  cases k <;> rfl

/-- The other counters stay. -/
theorem get_set_ne (r : ThreadMutex) {k k' : Counter} (v : ℕ) (h : k' ≠ k) :
    (r.set k v).get k' = r.get k' := by
  cases k <;> cases k' <;> first | rfl | exact absurd rfl h

end ThreadMutex

/-- `get_thread_mutex_data`: the index into `thread_sync_data`.  The product is an `int`
    product (32 bits, signed), the sum a `size_t` sum. -/
def getThreadMutexData (mutIndex thdIndex : ℕ) : ℕ :=
  ((BitVec.ofNat 32 thdIndex * BitVec.ofNat 32 maxSyncEntries).signExtend 64 +
    BitVec.ofNat 64 mutIndex).toNat

/-- **No overflow.**  For every thread index below `MAX_THREADS` the `int` product fits, so
    the address computation is the exact one. -/
theorem getThreadMutexData_eq {m t : ℕ} (hm : m < maxSyncEntries) (ht : t < maxThreads) :
    getThreadMutexData m t = t * maxSyncEntries + m := by
  simp only [maxSyncEntries, maxThreads] at *
  have hprod : BitVec.ofNat 32 t * BitVec.ofNat 32 1000000 = BitVec.ofNat 32 (t * 1000000) := by
    rw [← BitVec.ofNat_mul]
  simp only [getThreadMutexData, maxSyncEntries]
  rw [hprod, BitVec.toNat_add, RecordEntries.val_eq (by omega), BitVec.toNat_ofNat]
  omega

/-- Distinct (mutex, thread) pairs use distinct records. -/
theorem getThreadMutexData_inj {m m' t t' : ℕ} (hm : m < maxSyncEntries) (ht : t < maxThreads)
    (hm' : m' < maxSyncEntries) (ht' : t' < maxThreads)
    (h : getThreadMutexData m t = getThreadMutexData m' t') : m = m' ∧ t = t' := by
  rw [getThreadMutexData_eq hm ht, getThreadMutexData_eq hm' ht'] at h
  simp only [maxSyncEntries] at *
  omega

/-- The record lies inside the array that `initializer` maps. -/
theorem getThreadMutexData_lt {m t : ℕ} (hm : m < maxSyncEntries) (ht : t < maxThreads) :
    getThreadMutexData m t < maxSyncEntries * maxThreads := by
  rw [getThreadMutexData_eq hm ht]
  simp only [maxSyncEntries, maxThreads] at *
  omega

end SyncPerf
