import SyncPerf.MutexInit
import SyncPerf.MutexLock
import SyncPerf.Tpp

namespace SyncPerf.Calls

/-!
# Whole calls

`pthread_mutex_lock`, `pthread_mutex_trylock` and `pthread_mutex_unlock` from the point where the
real mutex is known, each as one function: what the call does when no other thread interferes.
All kinds are here, the robust, priority-inheritance and priority-protect ones with the code that
is left of them.  The records and the statistics, which no branch reads, are left out, and so are
the list of robust mutexes and the private flag of the futex system calls.

* `Protocol`, `protocolOf`, `basicOf` — the parts of a `__kind`;
* `Sys`, `State`, `Outcome` — what a call asks for, works on and ends with;
* `pthreadMutexLock`, `resume` — a lock call, and its end after it had to wait;
* `doMutexTrylock`, `pthreadMutexUnlock` — the other two.
-/

/-! ### Words and kinds -/

/-- `FUTEX_WAITERS`, `FUTEX_OWNER_DIED` and `FUTEX_TID_MASK`. -/
def futexWaiters : ℕ := 0x80000000

/-- The bit of a word whose owner died. -/
def futexOwnerDied : ℕ := 0x40000000

/-- The bits of a word for the id of its owner. -/
def futexTidMask : ℕ := 0x3fffffff

/-- The owner's part of a lock word: what is left under the mask. -/
theorem and_futexTidMask (x : ℕ) : x &&& futexTidMask = x % 2 ^ 30 :=
  Nat.and_two_pow_sub_one_eq_mod x 30

/-- A word without flags is the id of its owner. -/
theorem and_futexTidMask_of_le {x : ℕ} (h : x ≤ futexTidMask) : x &&& futexTidMask = x := by
  rw [and_futexTidMask]
  apply Nat.mod_eq_of_lt
  rw [futexTidMask] at h
  omega

/-- The id in a word that is marked for waiters. -/
theorem tid_of_waiters {id : ℕ} (hid : id ≤ futexTidMask) :
    (id ||| futexWaiters) &&& futexTidMask = id := by
  have hmask : futexWaiters &&& futexTidMask = 0 := by decide
  rw [Nat.and_or_distrib_right, and_futexTidMask_of_le hid, hmask, Nat.or_zero]

/-- A word that holds an id only is not marked for a dead owner. -/
theorem and_futexOwnerDied {lock : ℕ} (h : lock ≤ futexTidMask) :
    lock &&& futexOwnerDied = 0 := by
  have hmask : futexTidMask &&& futexOwnerDied = 0 := by decide
  rw [← and_futexTidMask_of_le h, Nat.and_assoc, hmask, Nat.and_zero]

/-- `PTHREAD_MUTEX_INCONSISTENT` and `PTHREAD_MUTEX_NOTRECOVERABLE`. -/
def mutexInconsistent : ℕ := 2 ^ 31 - 1

/-- The owner of a mutex that was given up. -/
def mutexNotrecoverable : ℕ := 2 ^ 31 - 2

/-- `PTHREAD_MUTEX_PRIO_CEILING_MASK`. -/
def prioCeilingMask : ℕ := 0xfff80000

/-- `PTHREAD_MUTEX_PRIO_CEILING_SHIFT`. -/
def prioCeilingShift : ℕ := 19

/-- The ceiling has the upper 13 bits of a word. -/
theorem testBit_prioCeilingMask (i : ℕ) : prioCeilingMask.testBit i = decide (19 ≤ i ∧ i < 32) := by
  have hmask : prioCeilingMask = (2 ^ 13 - 1) <<< 19 := by decide
  rw [hmask, Nat.testBit_shiftLeft, Nat.testBit_two_pow_sub_one]
  by_cases h : 19 ≤ i
  · simp only [h, decide_true, Bool.true_and, true_and]
    exact decide_eq_decide.mpr ⟨fun h' => by omega, fun h' => by omega⟩
  · simp [h]

/-- The ceiling bits of a lock word. -/
theorem and_prioCeilingMask {x : ℕ} (hx : x < 2 ^ 32) :
    x &&& prioCeilingMask = x / 2 ^ 19 * 2 ^ 19 := by
  rw [← Nat.shiftRight_eq_div_pow, ← Nat.shiftLeft_eq]
  apply Nat.eq_of_testBit_eq
  intro i
  rw [Nat.testBit_and, testBit_prioCeilingMask, Nat.testBit_shiftLeft, Nat.testBit_shiftRight]
  by_cases h19 : 19 ≤ i
  · by_cases h32 : i < 32
    · simp [h19, h32, show 19 + (i - 19) = i by omega]
    · have hbig : x.testBit i = false :=
        Nat.testBit_lt_two_pow (lt_of_lt_of_le hx (Nat.pow_le_pow_right (by decide) (by omega)))
      simp [h19, h32, show 19 + (i - 19) = i by omega, hbig]
  · simp [h19]

/-- `EOWNERDEAD`. -/
def eOWNERDEAD : ℕ := 130

/-- `ENOTRECOVERABLE`. -/
def eNOTRECOVERABLE : ℕ := 131

/-- `ESRCH`. -/
def eSRCH : ℕ := 3

/-- `EWOULDBLOCK`, which is `EAGAIN`. -/
def eWOULDBLOCK : ℕ := eAGAIN

/-- Which of the special kinds a kind is. -/
inductive Protocol
  | robust
  | inherit
  | inheritRobust
  | protect
  deriving DecidableEq

/-- The bits of the protocol, for a kind that meets one of the special case labels. -/
def protocolOf (kind : BitVec 32) : Protocol :=
  if kind &&& prioProtect ≠ 0 then .protect
  else if kind &&& prioInherit = 0 then .robust
  else if kind &&& robustNormal ≠ 0 then .inheritRobust
  else .inherit

/-- `__kind & PTHREAD_MUTEX_KIND_MASK_NP`. -/
def basicOf (kind : BitVec 32) : BasicKind :=
  if kind &&& kindMask = BasicKind.recursive.code then .recursive
  else if kind &&& kindMask = BasicKind.errorcheck.code then .errorcheck
  else if kind &&& kindMask = BasicKind.adaptive.code then .adaptive
  else .timed

/-- The kind of a protocol and a basic kind. -/
def Protocol.code (π : Protocol) (κ : BasicKind) : BitVec 32 :=
  match π with
  | .robust => robustNormal ||| κ.code
  | .inherit => prioInherit ||| κ.code
  | .inheritRobust => prioInherit ||| robustNormal ||| κ.code
  | .protect => prioProtect ||| κ.code

/-- The kind of a protocol meets one of the special case labels. -/
@[simp] theorem switchKind_protocol (π : Protocol) (κ : BasicKind) :
    switchKind (π.code κ) = .special := by
  cases π <;> cases κ <;> decide

/-- The protocol of a kind is the one that it was made with. -/
@[simp] theorem protocolOf_code (π : Protocol) (κ : BasicKind) : protocolOf (π.code κ) = π := by
  cases π <;> cases κ <;> decide

/-- The basic part of a kind is the one that it was made with. -/
@[simp] theorem basicOf_code (π : Protocol) (κ : BasicKind) : basicOf (π.code κ) = κ := by
  cases π <;> cases κ <;> decide

/-- `PTHREAD_MUTEX_TYPE` keeps the kind of a protocol. -/
@[simp] theorem type_protocol (π : Protocol) (κ : BasicKind) :
    pthreadMutexType (π.code κ) = π.code κ := by
  cases π <;> cases κ <;> decide

/-- `PTHREAD_MUTEX_TYPE_ELISION` keeps the kind of a protocol. -/
@[simp] theorem typeElision_protocol (π : Protocol) (κ : BasicKind) :
    pthreadMutexTypeElision (π.code κ) = π.code κ := by
  cases π <;> cases κ <;> decide

/-! ### Calls -/

/-- What `FUTEX_LOCK_PI` does for a thread on a lock word: it returns with an error number (0 for
    none) or sleeps, and leaves a lock word. -/
inductive FutexLockPi
  | returns (errno lock : ℕ)
  | sleeps (lock : ℕ)

/-- What is asked of the kernel and the C library. -/
structure Sys extends Sched where
  futexLockPi : ℕ → ℕ → FutexLockPi
  futexTrylockPi : ℕ → ℕ → ℕ × ℕ
  futexUnlockPi : ℕ → ℕ → ℕ
  /-- What a caller sees of a call that ends without a `return`. -/
  noReturn : ℕ

/-- The assertions of the three calls, `get_mutex` included. -/
inductive Fault
  | getMutex
  | owner
  | type
  | elision
  | robustAdaptive
  | lockPi (errno : ℕ)
  | ownerDied
  | robust
  | prio (a : PrioAssert)
  deriving DecidableEq

/-- Where a lock call sleeps: in `lll_lock`, in `FUTEX_LOCK_PI`, or in the loop of a mutex with the
    priority ceiling in its word. -/
inductive Wait
  | lll (t : LockTarget)
  | futexLockPi
  | ceiling (ceilval : ℕ)
  deriving DecidableEq

/-- How a call ends: it returns, sleeps, delays its thread for ever, or fails an assertion. -/
inductive Outcome
  | ret (code : ℕ)
  | sleeps (w : Wait)
  | hangs
  | abort (f : Fault)
  deriving DecidableEq

/-- Where one step of a call leads, when other threads may come in between: to another point of
    the call, or to its end. -/
inductive Next (P : Type)
  | goto (p : P)
  | done (o : Outcome)

/-- The system calls that hand a mutex over. -/
inductive FutexOp
  | wake
  | unlockPi
  deriving DecidableEq

/-- What a call works on: the mutex, and the calling thread's scheduling data; with the system
    calls made so far. -/
structure State where
  mutex : MutexData
  prio : Prio := {}
  futexOps : List FutexOp := []

/-- The state with another mutex. -/
def State.set (s : State) (m : MutexData) : State := { s with mutex := m }

/-- "Record the ownership." -/
def recordOwner (id : ℕ) (m : MutexData) : MutexData := { m with owner := id, nusers := m.nusers + 1 }

/-- "Just bump the counter." -/
def bumpCount (s : State) : Outcome × State :=
  if s.mutex.count + 1 = 0 then (.ret eAGAIN, s)
  else (.ret 0, s.set { s.mutex with count := s.mutex.count + 1 })

/-! ### `pthread_mutex_lock` -/

/-- The end of a lock call on a basic kind that has the lock word. -/
def lockTaken (id : ℕ) (t : LockTarget) (s : State) : Outcome × State :=
  let m := s.mutex
  let m := match t with
    | .adaptive cnt => { m with spins := m.spins + ((cnt : ℤ) - m.spins).tdiv 8 }
    | _ => m
  if m.owner ≠ 0 then (.abort .owner, s.set m)
  else
    let m := if t = .recursive then { m with count := 1 } else m
    (.ret 0, s.set (recordOwner id m))

/-- `LLL_MUTEX_LOCK`: a taken word is set to 2 before the thread sleeps. -/
def lllLock (id : ℕ) (t : LockTarget) (s : State) : Outcome × State :=
  if s.mutex.lock = lllLockInitializer then
    lockTaken id t (s.set { s.mutex with lock := lllLockInitializerLocked })
  else (.sleeps (.lll t), s.set { s.mutex with lock := lllLockInitializerWaiters })

/-- The adaptive case: while no other thread runs, the word stays taken, and the spin loop goes
    round until its count is used up. -/
def lockAdaptive (id : ℕ) (s : State) : Outcome × State :=
  if s.mutex.lock = lllLockInitializer then
    lockTaken id .simple (s.set { s.mutex with lock := lllLockInitializerLocked })
  else
    let maxCnt := min maxAdaptiveCount (s.mutex.spins * 2 + 10)
    lllLock id (.adaptive (maxCnt.toNat + 1)) s

/-- The end of a lock call with priority inheritance: `oldval` is what the compare-and-exchange
    found, or the lock word after the system call. -/
def lockPiTaken (S : Sys) (id : ℕ) (robust : Bool) (oldval : ℕ) (s : State) : Outcome × State :=
  let m := s.mutex
  if oldval &&& futexOwnerDied ≠ 0 then
    (.ret eOWNERDEAD, s.set { m with
      lock := m.lock - (m.lock &&& futexOwnerDied), count := 1, owner := mutexInconsistent })
  else if robust ∧ m.owner = mutexNotrecoverable then
    (.ret eNOTRECOVERABLE, { s with
      mutex := { m with count := 0, lock := S.futexUnlockPi id m.lock }
      futexOps := s.futexOps ++ [.unlockPi] })
  else (.ret 0, s.set (recordOwner id { m with count := 1 }))

/-- "The mutex is locked.  The kernel will now take care of everything." -/
def lockPiWait (S : Sys) (id : ℕ) (robust : Bool) (κ : BasicKind) (s : State) : Outcome × State :=
  match S.futexLockPi id s.mutex.lock with
  | .sleeps lock => (.sleeps .futexLockPi, s.set { s.mutex with lock := lock })
  | .returns errno lock =>
    let s := s.set { s.mutex with lock := lock }
    if errno = eSRCH ∨ errno = eDEADLK then
      if errno = eDEADLK ∧ (κ = .errorcheck ∨ κ = .recursive) then (.abort (.lockPi errno), s)
      else if errno = eSRCH ∧ robust then (.abort (.lockPi errno), s)
      else (.hangs, s)
    else if ¬ robust ∧ lock &&& futexOwnerDied ≠ 0 then (.abort .ownerDied, s)
    else lockPiTaken S id robust lock s

/-- The priority-inheritance case. -/
def lockPi (S : Sys) (id : ℕ) (robust : Bool) (κ : BasicKind) (s : State) : Outcome × State :=
  let oldval := s.mutex.lock
  if oldval &&& futexTidMask = id ∧ κ = .errorcheck then (.ret eDEADLK, s)
  else if oldval &&& futexTidMask = id ∧ κ = .recursive then bumpCount s
  else if oldval = 0 then lockPiTaken S id robust 0 (s.set { s.mutex with lock := id })
  else lockPiWait S id robust κ s

/-- The end of a lock call on a mutex with a ceiling. -/
def lockPpTaken (id : ℕ) (s : State) : Outcome × State :=
  if s.mutex.owner ≠ 0 then (.abort .owner, s)
  else (.ret 0, s.set (recordOwner id { s.mutex with count := 1 }))

/-- The inner loop: a taken word is marked, and the thread sleeps. -/
def lockPpWait (ceilval : ℕ) (s : State) : Outcome × State :=
  let lock := s.mutex.lock
  (.sleeps (.ceiling ceilval),
    s.set { s.mutex with lock := if lock = ceilval ||| 1 then ceilval ||| 2 else lock })

/-- The priority-protect case.  While no other thread runs, the ceiling in the word stays the same,
    so the outer loop goes round once. -/
def lockPp (S : Sys) (id : ℕ) (κ : BasicKind) (s : State) : Outcome × State :=
  let oldval := s.mutex.lock
  if s.mutex.owner = id ∧ κ = .errorcheck then (.ret eDEADLK, s)
  else if s.mutex.owner = id ∧ κ = .recursive then bumpCount s
  else
    let ceiling := (oldval &&& prioCeilingMask) >>> prioCeilingShift
    let (current, prio) := pthreadCurrentPriority S.toSched s.prio
    let s := { s with prio := prio }
    if current > ceiling then (.ret eINVAL, s)
    else match tppChangePriority S.toSched (-1) ceiling s.prio with
      | .error a => (.abort (.prio a), s)
      | .ok (retval, prio) =>
        let s := { s with prio := prio }
        if retval ≠ 0 then (.ret retval, s)
        else
          let ceilval := ceiling <<< prioCeilingShift
          if oldval = ceilval then lockPpTaken id (s.set { s.mutex with lock := ceilval ||| 1 })
          else lockPpWait ceilval s

/-- `pthread_mutex_lock`: the `switch` is on `__kind`, unmasked. -/
def pthreadMutexLock (S : Sys) (id : ℕ) (s : State) : Outcome × State :=
  let kind := s.mutex.kind
  match switchKind kind with
  | .basic .recursive => if s.mutex.owner = id then bumpCount s else lllLock id .recursive s
  | .basic .errorcheck => if s.mutex.owner = id then (.ret eDEADLK, s) else lllLock id .simple s
  | .basic .timed => lllLock id .simple s
  | .basic .adaptive => lockAdaptive id s
  | .special =>
    match protocolOf kind with
    -- all that is left of the robust case is its assertion
    | .robust =>
      if basicOf kind = .adaptive then (.abort .robustAdaptive, s)
      else (.ret 0, s.set (recordOwner id s.mutex))
    | .inherit => lockPi S id false (basicOf kind) s
    | .inheritRobust => lockPi S id true (basicOf kind) s
    | .protect => lockPp S id (basicOf kind) s
  | .invalid => (.ret eINVAL, s)

/-- A sleeping lock call goes on: it takes a free word, or sleeps again. -/
def resume (S : Sys) (id : ℕ) (w : Wait) (s : State) : Outcome × State :=
  match w with
  | .lll t =>
    if s.mutex.lock = lllLockInitializer then
      lockTaken id t (s.set { s.mutex with lock := lllLockInitializerWaiters })
    else (.sleeps w, s.set { s.mutex with lock := lllLockInitializerWaiters })
  | .futexLockPi =>
    lockPiWait S id (protocolOf s.mutex.kind = .inheritRobust) (basicOf s.mutex.kind) s
  | .ceiling ceilval =>
    if s.mutex.lock = ceilval then lockPpTaken id (s.set { s.mutex with lock := ceilval ||| 2 })
    else lockPpWait ceilval s

/-! ### `do_mutex_trylock` -/

/-- The recursive case. -/
def trylockRecursive (id : ℕ) (s : State) : Outcome × State :=
  if s.mutex.owner = id then bumpCount s
  else if s.mutex.lock = lllLockInitializer then
    (.ret 0, s.set { recordOwner id { s.mutex with lock := lllLockInitializerLocked } with count := 1 })
  else (.ret eBUSY, s)

/-- The other basic kinds. -/
def trylockSimple (id : ℕ) (s : State) : Outcome × State :=
  if s.mutex.lock = lllLockInitializer then
    (.ret 0, s.set (recordOwner id { s.mutex with lock := lllLockInitializerLocked }))
  else (.ret eBUSY, s)

/-- The robust case. -/
def trylockRobust (id : ℕ) (κ : BasicKind) (s : State) : Outcome × State :=
  let m := s.mutex
  let oldval := m.lock
  if oldval &&& futexOwnerDied ≠ 0 then
    -- the previous owner died
    (.ret eOWNERDEAD, s.set { m with
      lock := id ||| (oldval &&& futexWaiters), count := 1, owner := mutexInconsistent })
  else if oldval &&& futexTidMask = id ∧ κ = .errorcheck then (.ret eDEADLK, s)
  else if oldval &&& futexTidMask = id ∧ κ = .recursive then bumpCount s
  -- the compare-and-exchange of 0 with the thread id
  else if oldval ≠ 0 then (.ret eBUSY, s)
  else
    let m := { m with lock := id }
    if m.owner = mutexNotrecoverable then
      (.ret eNOTRECOVERABLE, s.set { m with
        count := 0, lock := if oldval = id then lllLockInitializer else m.lock })
    else (.ret 0, s.set { recordOwner id m with count := 1 })

/-- The priority-inheritance case. -/
def trylockPi (S : Sys) (id : ℕ) (robust : Bool) (κ : BasicKind) (s : State) : Outcome × State :=
  let oldval := s.mutex.lock
  if oldval &&& futexTidMask = id ∧ κ = .errorcheck then (.ret eDEADLK, s)
  else if oldval &&& futexTidMask = id ∧ κ = .recursive then bumpCount s
  else if oldval = 0 then after 0 (s.set { s.mutex with lock := id })
  else if oldval &&& futexOwnerDied = 0 then (.ret eBUSY, s)
  else if ¬ robust then (.abort .robust, s)
  else
    -- "The mutex owner died.  The kernel will now take care of everything."
    let (errno, lock) := S.futexTrylockPi id oldval
    let s := s.set { s.mutex with lock := lock }
    if errno = eWOULDBLOCK then (.ret eBUSY, s) else after lock s
where
  /-- What follows the acquisition. -/
  after (oldval : ℕ) (s : State) : Outcome × State :=
    let m := s.mutex
    if oldval &&& futexOwnerDied ≠ 0 then
      (.ret eOWNERDEAD, s.set { m with
        lock := m.lock - (m.lock &&& futexOwnerDied), count := 1, owner := mutexInconsistent })
    else if robust ∧ m.owner = mutexNotrecoverable then
      (.ret eNOTRECOVERABLE, { s with
        mutex := { m with count := 0, lock := S.futexUnlockPi id m.lock }
        futexOps := s.futexOps ++ [.unlockPi] })
    else (.ret 0, s.set { recordOwner id m with count := 1 })

/-- The priority-protect case; its loop goes round once, as in `lockPp`. -/
def trylockPp (S : Sys) (id : ℕ) (κ : BasicKind) (s : State) : Outcome × State :=
  let oldval := s.mutex.lock
  if s.mutex.owner = id ∧ κ = .errorcheck then (.ret eDEADLK, s)
  else if s.mutex.owner = id ∧ κ = .recursive then bumpCount s
  else
    let ceiling := (oldval &&& prioCeilingMask) >>> prioCeilingShift
    let (current, prio) := pthreadCurrentPriority S.toSched s.prio
    let s := { s with prio := prio }
    if current > ceiling then (.ret eINVAL, s)
    else match tppChangePriority S.toSched (-1) ceiling s.prio with
      | .error a => (.abort (.prio a), s)
      | .ok (retval, prio) =>
        let s := { s with prio := prio }
        if retval ≠ 0 then (.ret retval, s)
        else
          let ceilval := ceiling <<< prioCeilingShift
          if oldval ≠ ceilval then
            match tppChangePriority S.toSched ceiling (-1) s.prio with
            | .error a => (.abort (.prio a), s)
            | .ok (_, prio) => (.ret eBUSY, { s with prio := prio })
          else
            let m : MutexData := { s.mutex with lock := ceilval ||| 1 }
            if m.owner ≠ 0 then (.abort .owner, s.set m)
            else (.ret 0, s.set { recordOwner id m with count := 1 })

/-- `do_mutex_trylock`: the `switch` is on `PTHREAD_MUTEX_TYPE_ELISION`. -/
def doMutexTrylock (S : Sys) (id : ℕ) (s : State) : Outcome × State :=
  let type := pthreadMutexTypeElision s.mutex.kind
  if type = elisionNp then (.abort .elision, s)
  else if type = BasicKind.recursive.code ||| elisionNp then trylockRecursive id s
  else match switchKind type with
    | .basic .recursive => trylockRecursive id s
    | .basic _ => trylockSimple id s
    | .special =>
      match protocolOf type with
      | .robust => trylockRobust id (basicOf type) s
      | .inherit => trylockPi S id false (basicOf type) s
      | .inheritRobust => trylockPi S id true (basicOf type) s
      | .protect => trylockPp S id (basicOf type) s
    | .invalid => (.ret eINVAL, s)

/-! ### `pthread_mutex_unlock` -/

/-- `normal:` of `__pthread_mutex_unlock_usercnt`. -/
def unlockNormal (s : State) : Outcome × State :=
  (.ret 0, s.set { s.mutex with owner := 0, nusers := s.mutex.nusers - 1, lock := lllLockInitializer })

/-- `robust:` of `__pthread_mutex_unlock_full`; `lll_robust_unlock` clears the word. -/
def unlockRobust (newowner : ℕ) (s : State) : Outcome × State :=
  (.ret 0, s.set { s.mutex with owner := newowner, nusers := s.mutex.nusers - 1, lock := 0 })

/-- `pp:` of `__pthread_mutex_unlock_full`. -/
def unlockPp (S : Sys) (s : State) : Outcome × State :=
  let m : MutexData := { s.mutex with owner := 0, nusers := s.mutex.nusers - 1 }
  let oldval := m.lock
  let newval := oldval &&& prioCeilingMask
  let s := { s with
    mutex := { m with lock := newval }
    futexOps := if oldval - newval > 1 then s.futexOps ++ [.wake] else s.futexOps }
  -- a shift of an `int`
  let oldprio : ℤ := (BitVec.ofNat 32 newval).toInt >>> prioCeilingShift
  match tppChangePriority S.toSched oldprio (-1) s.prio with
  | .error a => (.abort (.prio a), s)
  | .ok (code, prio) => (.ret code, { s with prio := prio })

/-- `case PTHREAD_MUTEX_PP_RECURSIVE_NP:` of `__pthread_mutex_unlock_full`. -/
def unlockPpRecursive (S : Sys) (id : ℕ) (s : State) : Outcome × State :=
  if s.mutex.owner ≠ id then (.ret ePERM, s)
  else
    let s := s.set { s.mutex with count := s.mutex.count - 1 }
    if s.mutex.count ≠ 0 then (.ret 0, s) else unlockPp S s

/-- `__pthread_mutex_unlock_full`.  What the priority-inheritance cases did is compiled out, the
    `break` at their end included: they run on into the case that follows. -/
def pthreadMutexUnlockFull (S : Sys) (id : ℕ) (s : State) : Outcome × State :=
  let m := s.mutex
  let type := pthreadMutexType m.kind
  match switchKind type with
  | .special =>
    match protocolOf type, basicOf type with
    | .robust, .recursive =>
      let m' := { m with count := m.count - 1 }
      if m.lock &&& futexTidMask = id ∧ m.owner = mutexInconsistent then
        if m'.count ≠ 0 then (.ret eNOTRECOVERABLE, s.set m')
        else unlockRobust mutexNotrecoverable (s.set m')
      else if m.owner ≠ id then (.ret ePERM, s)
      else if m'.count ≠ 0 then (.ret 0, s.set m')
      else unlockRobust 0 (s.set m')
    | .robust, _ =>
      if m.lock &&& futexTidMask ≠ id ∨ m.lock = lllLockInitializer then (.ret ePERM, s)
      else if m.owner = mutexInconsistent then unlockRobust mutexNotrecoverable s
      else unlockRobust 0 s
    | .inherit, .recursive =>
      if m.owner ≠ id then (.ret ePERM, s)
      else
        let s := s.set { m with count := m.count - 1 }
        if s.mutex.count ≠ 0 then (.ret 0, s) else unlockPpRecursive S id s
    | .inherit, _ | .inheritRobust, _ => unlockPpRecursive S id s
    | .protect, .recursive => unlockPpRecursive S id s
    | .protect, .errorcheck =>
      if m.owner ≠ id ∨ m.lock - (m.lock &&& prioCeilingMask) = 0 then (.ret ePERM, s)
      else unlockPp S s
    | .protect, _ => unlockPp S s
  | _ => (.ret eINVAL, s)

/-- `pthread_mutex_unlock`: `__pthread_mutex_unlock_usercnt` with `decr` set. -/
def pthreadMutexUnlock (S : Sys) (id : ℕ) (s : State) : Outcome × State :=
  let m := s.mutex
  let type := pthreadMutexTypeElision m.kind
  if type &&& ~~~(kindMask ||| elisionFlags) ≠ 0 then pthreadMutexUnlockFull S id s
  else if type = BasicKind.timed.code then unlockNormal s
  else if type = elisionNp then (.ret S.noReturn, s)
  else if pthreadMutexType m.kind = BasicKind.recursive.code then
    if m.owner ≠ id then (.ret ePERM, s)
    else
      let s := s.set { m with count := m.count - 1 }
      if s.mutex.count ≠ 0 then (.ret 0, s) else unlockNormal s
  else if pthreadMutexType m.kind = BasicKind.adaptive.code then unlockNormal s
  else if type ≠ BasicKind.errorcheck.code then (.abort .type, s)
  else if m.owner ≠ id ∨ m.lock = lllLockInitializer then (.ret ePERM, s)
  else unlockNormal s

/-! ### Dispatch -/

/-- A trylock of a basic kind. -/
theorem doMutexTrylock_basic {S : Sys} {id : ℕ} {κ : BasicKind} {s : State}
    (hkind : pthreadMutexTypeElision s.mutex.kind = κ.code) :
    doMutexTrylock S id s =
      if κ = .recursive then trylockRecursive id s else trylockSimple id s := by
  have hne : κ.code ≠ elisionNp ∧ κ.code ≠ BasicKind.recursive.code ||| elisionNp := by
    cases κ <;> decide
  simp only [doMutexTrylock, hkind, if_neg hne.1, if_neg hne.2, switchKind_code]
  cases κ <;> rfl

/-- A trylock of a kind with a protocol. -/
theorem doMutexTrylock_protocol {S : Sys} {id : ℕ} {π : Protocol} {κ : BasicKind} {s : State}
    (hkind : pthreadMutexTypeElision s.mutex.kind = π.code κ) :
    doMutexTrylock S id s =
      match π with
      | .robust => trylockRobust id κ s
      | .inherit => trylockPi S id false κ s
      | .inheritRobust => trylockPi S id true κ s
      | .protect => trylockPp S id κ s := by
  have hne : π.code κ ≠ elisionNp ∧ π.code κ ≠ BasicKind.recursive.code ||| elisionNp := by
    cases π <;> cases κ <;> decide
  simp only [doMutexTrylock, hkind, if_neg hne.1, if_neg hne.2, switchKind_protocol,
    protocolOf_code, basicOf_code]
  cases π <;> rfl

/-- An unlock of a kind with a protocol is one of `__pthread_mutex_unlock_full`. -/
theorem pthreadMutexUnlock_protocol {S : Sys} {id : ℕ} {π : Protocol} {κ : BasicKind} {s : State}
    (htype : pthreadMutexType s.mutex.kind = π.code κ) :
    pthreadMutexUnlock S id s = pthreadMutexUnlockFull S id s := by
  have hcode : π.code κ &&& ~~~(kindMask ||| elisionFlags) ≠ 0 := by
    cases π <;> cases κ <;> decide
  have hfull : pthreadMutexTypeElision s.mutex.kind &&& ~~~(kindMask ||| elisionFlags) ≠ 0 := by
    intro h0
    apply hcode
    calc π.code κ &&& ~~~(kindMask ||| elisionFlags)
        = pthreadMutexTypeElision s.mutex.kind &&& ~~~(kindMask ||| elisionFlags) &&& 127 := by
          simp only [← htype, pthreadMutexType, pthreadMutexTypeElision, BitVec.and_assoc]
          rfl
      _ = 0 := by rw [h0]; exact BitVec.zero_and
  simp only [pthreadMutexUnlock, if_pos hfull]

/-! ### A system -/

/-- The real-time priorities of Linux, a thread of priority 0 that may be given any other, and
    `FUTEX_LOCK_PI` on words that nobody has died with. -/
def linuxSys : Sys where
  fifoMinPrio := 1
  fifoMaxPrio := 99
  calloc := true
  schedGetparam := .ok 0
  schedGetscheduler := .ok 1
  schedSetscheduler _ _ := .ok ()
  futexLockPi id lock :=
    if lock &&& futexTidMask = 0 then .returns 0 id
    else if lock &&& futexTidMask = id then .returns eDEADLK lock
    else .sleeps (lock ||| futexWaiters)
  futexTrylockPi id lock := if lock &&& futexTidMask = 0 then (0, id) else (eWOULDBLOCK, lock)
  futexUnlockPi _ _ := 0
  noReturn := 0

end SyncPerf.Calls
