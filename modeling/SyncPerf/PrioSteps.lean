import Mathlib.Data.Finset.Insert
import SyncPerf.Interleaving
import SyncPerf.MutexCalls

namespace SyncPerf.PrioProtect

open Interleaving Calls

/-!
# The steps of priority-protect mutexes

The calls on mutexes with a priority ceiling, one access to a shared mutex at a time.  The code of
`tpp.c` works on data of the calling thread alone, so that a call of it is part of one step.

* `AcquirePC`, `acquireStep` — the priority-protect case of `pthread_mutex_lock`, of the same text
  as `__pthread_mutex_cond_lock`, and of `do_mutex_trylock`;
* `ReleasePC`, `releaseStep` — that of `__pthread_mutex_unlock_full`, for `pthread_mutex_unlock`
  and for the release in `pthread_cond_wait`;
* `Local`, `next`, `system` — threads that call in any order, on any number of mutexes.
-/

/-! ### Program points -/

/-- Which of the calls acquires the mutex. -/
inductive Mode
  | lock (build : Build)
  | trylock
  deriving DecidableEq

/-- The points of an acquisition.  `oldval` and `oldprio` are the locals of those names; from the
    first compare-and-exchange on `oldprio` is the `ceiling`, and `ceilval` its shift. -/
inductive AcquirePC
  | word
  | owner (oldval : ℕ)
  | bump
  | bumpLoad
  | bumpStore (v : BitVec 32)
  | raise (oldprio : ℤ) (oldval : ℕ)
  | cas (ceiling : ℕ)
  | waiters (ceiling : ℕ)
  | futexWait (ceiling : ℕ)
  | casWaiters (ceiling : ℕ)
  | lower (ceiling : ℕ)
  | assertOwner
  | setOwner
  | nusers
  | nusersStore (v : BitVec 32)
  | setCount
  deriving DecidableEq

/-- The points of a release. -/
inductive ReleasePC
  | recOwner
  | recCount
  | recCountStore (v : BitVec 32)
  | errOwner
  | errLocked
  | owner
  | nusers
  | nusersStore (v : BitVec 32)
  | word
  | cas (oldval : ℕ)
  | lower (oldprio : ℤ)
  deriving DecidableEq

/-! ### The steps of an acquisition -/

/-- `(oldval & PTHREAD_MUTEX_PRIO_CEILING_MASK) >> PTHREAD_MUTEX_PRIO_CEILING_SHIFT`. -/
def ceilingOf (oldval : ℕ) : ℕ := (oldval &&& prioCeilingMask) >>> prioCeilingShift

/-- `ceiling << PTHREAD_MUTEX_PRIO_CEILING_SHIFT`. -/
def ceilvalOf (ceiling : ℕ) : ℕ := ceiling <<< prioCeilingShift

/-- The label of a priority-protect kind; the `switch` of a lock is on `__kind`, that of a trylock
    on `PTHREAD_MUTEX_TYPE_ELISION`.  The other labels lead elsewhere. -/
def acquireSwitch (mode : Mode) (kind : BitVec 32) : Option AcquirePC :=
  let type := match mode with
    | .lock _ => kind
    | .trylock => pthreadMutexTypeElision kind
  if switchKind type = .special ∧ protocolOf type = .protect then some .word else none

/-- The upper part of the outer loop: the thread's priority is raised to the ceiling, from
    `oldprio` where the loop comes round again. -/
def raiseStep (S : Sched) (oldprio : ℤ) (oldval : ℕ) (prio : Prio) : Next AcquirePC × Prio :=
  let ceiling := ceilingOf oldval
  let (current, prio) := pthreadCurrentPriority S prio
  if current > ceiling then
    if oldprio ≠ -1 then
      match tppChangePriority S oldprio (-1) prio with
      | .error a => (.done (.abort (.prio a)), prio)
      | .ok (_, prio) => (.done (.ret eINVAL), prio)
    else (.done (.ret eINVAL), prio)
  else match tppChangePriority S oldprio ceiling prio with
    | .error a => (.done (.abort (.prio a)), prio)
    | .ok (retval, prio) =>
      (if retval ≠ 0 then .done (.ret retval) else .goto (.cas ceiling), prio)

/-- What the first compare-and-exchange of a call writes into the low bits. -/
def Mode.taken : Mode → ℕ
  | .lock .noIncr => 2
  | _ => 1

/-- One step of thread `id`, whose scheduling data are `prio`. -/
def acquireStep (S : Sched) (id : ℕ) (mode : Mode) (p : AcquirePC) (prio : Prio) (m : MutexData) :
    Next AcquirePC × Prio × MutexData :=
  let κ := basicOf m.kind
  match p with
  | .word => (.goto (.owner m.lock), prio, m)
  | .owner oldval =>
    (if m.owner = id ∧ κ = .errorcheck then .done (.ret eDEADLK)
      else if m.owner = id ∧ κ = .recursive then .goto .bump
      else .goto (.raise (-1) oldval), prio, m)
  | .bump => (if m.count + 1 = 0 then .done (.ret eAGAIN) else .goto .bumpLoad, prio, m)
  | .bumpLoad => (.goto (.bumpStore m.count), prio, m)
  | .bumpStore v => (.done (.ret 0), prio, { m with count := v + 1 })
  | .raise oldprio oldval =>
    let r := raiseStep S oldprio oldval prio
    (r.1, r.2, m)
  | .cas ceiling =>
    let ceilval := ceilvalOf ceiling
    if m.lock = ceilval then (.goto .assertOwner, prio, { m with lock := ceilval ||| mode.taken })
    else match mode with
      | .lock _ => (.goto (.waiters ceiling), prio, m)
      | .trylock =>
        (.goto (if m.lock &&& prioCeilingMask ≠ ceilval then .raise ceiling m.lock
          else .lower ceiling), prio, m)
  -- the inner loop of a lock
  | .waiters ceiling =>
    let ceilval := ceilvalOf ceiling
    let oldval := m.lock
    (.goto (if oldval &&& prioCeilingMask ≠ ceilval then .raise ceiling oldval
      else if oldval ≠ ceilval then .futexWait ceiling else .casWaiters ceiling),
      prio, if oldval = ceilval ||| 1 then { m with lock := ceilval ||| 2 } else m)
  -- `lll_futex_wait` may return at any time
  | .futexWait ceiling => (.goto (.casWaiters ceiling), prio, m)
  -- the ceiling was seen to be the same, so that the outer loop ends with the inner one
  | .casWaiters ceiling =>
    let ceilval := ceilvalOf ceiling
    if m.lock = ceilval then (.goto .assertOwner, prio, { m with lock := ceilval ||| 2 })
    else (.goto (.waiters ceiling), prio, m)
  -- a trylock gives up
  | .lower ceiling =>
    match tppChangePriority S ceiling (-1) prio with
    | .error a => (.done (.abort (.prio a)), prio, m)
    | .ok (_, prio) => (.done (.ret eBUSY), prio, m)
  -- the mutex is taken; a lock sets the count first, a trylock last
  | .assertOwner =>
    (if m.owner ≠ 0 then .done (.abort .owner)
      else .goto (if mode = .trylock then .setOwner else .setCount), prio, m)
  | .setOwner =>
    (if mode = .lock .noIncr then .done (.ret 0) else .goto .nusers, prio, { m with owner := id })
  | .nusers => (.goto (.nusersStore m.nusers), prio, m)
  | .nusersStore v =>
    (if mode = .trylock then .goto .setCount else .done (.ret 0), prio, { m with nusers := v + 1 })
  | .setCount =>
    (if mode = .trylock then .done (.ret 0) else .goto .setOwner, prio, { m with count := 1 })

/-! ### The steps of a release -/

/-- The labels of the priority-protect kinds in `__pthread_mutex_unlock_full`. -/
def releaseSwitch (kind : BitVec 32) : Option ReleasePC :=
  let type := pthreadMutexType kind
  if switchKind type = .special ∧ protocolOf type = .protect then
    match basicOf type with
    | .recursive => some .recOwner
    | .errorcheck => some .errOwner
    | _ => some .owner
  else none

/-- One step of thread `id`; without `decr` the thread stays a user. -/
def releaseStep (S : Sched) (id : ℕ) (decr : Bool) (p : ReleasePC) (prio : Prio) (m : MutexData) :
    Next ReleasePC × Prio × MutexData :=
  match p with
  | .recOwner => (if m.owner ≠ id then .done (.ret ePERM) else .goto .recCount, prio, m)
  -- `if (--mutex->__data.__count != 0) return 0;`
  | .recCount => (.goto (.recCountStore m.count), prio, m)
  | .recCountStore v =>
    (if v - 1 ≠ 0 then .done (.ret 0) else .goto .owner, prio, { m with count := v - 1 })
  | .errOwner => (if m.owner ≠ id then .done (.ret ePERM) else .goto .errLocked, prio, m)
  | .errLocked =>
    (if m.lock - (m.lock &&& prioCeilingMask) = 0 then .done (.ret ePERM) else .goto .owner,
      prio, m)
  -- `pp:`
  | .owner => (.goto (if decr then .nusers else .word), prio, { m with owner := 0 })
  | .nusers => (.goto (.nusersStore m.nusers), prio, m)
  | .nusersStore v => (.goto .word, prio, { m with nusers := v - 1 })
  | .word => (.goto (.cas m.lock), prio, m)
  | .cas oldval =>
    let newval := oldval &&& prioCeilingMask
    -- a shift of an `int`
    let oldprio : ℤ := (BitVec.ofNat 32 newval).toInt >>> prioCeilingShift
    if m.lock = oldval then (.goto (.lower oldprio), prio, { m with lock := newval })
    else (.goto .word, prio, m)
  | .lower oldprio =>
    match tppChangePriority S oldprio (-1) prio with
    | .error a => (.done (.abort (.prio a)), prio, m)
    | .ok (code, prio) => (.done (.ret code), prio, m)

/-! ### The system -/

variable {ι M : Type}

/-- Where a thread is. -/
inductive Stage (M : Type)
  | outside
  | acquire (mode : Mode) (n : M) (p : AcquirePC)
  | release (decr : Bool) (n : M) (p : ReleasePC)
  | stopped (o : Outcome)

/-- A thread: its place and its scheduling data.  No call reads the other fields: the mutexes whose
    word it has taken and not given up; how many of its acquisitions of each mutex that returned 0
    no release that returned 0 has matched yet; what its counters were when it began its last
    acquisition, and how that ended. -/
structure Local (M : Type) where
  stage : Stage M := .outside
  prio : Prio := {}
  held : Finset M := ∅
  depth : M → ℕ := fun _ => 0
  entry : PriorityProtectionData
  result : Option ℕ := none

/-- What a thread does next: a call, or a step of the call that it is in; `S` is what the
    environment answers. -/
inductive Action (M : Type)
  | acquire (mode : Mode) (n : M)
  | release (decr : Bool) (n : M)
  | run (S : Sched)

/-- With this step an acquisition takes the mutex. -/
def AcquirePC.takes (p : AcquirePC) (m : MutexData) : Bool :=
  match p with
  | .cas ceiling | .casWaiters ceiling => m.lock = ceilvalOf ceiling
  | _ => false

/-- With this step a release gives it up. -/
def ReleasePC.gives (p : ReleasePC) (m : MutexData) : Bool :=
  match p with
  | .cas oldval => m.lock = oldval
  | _ => false

variable [DecidableEq M]

/-- The thread after a step of an acquisition of `n`.  One that returns 0 is one more to match. -/
def Local.afterAcquire (l : Local M) (mode : Mode) (n : M) : Next AcquirePC → Local M
  | .goto p => { l with stage := .acquire mode n p }
  | .done (.ret code) =>
    { l with
        stage := .outside
        depth := if code = 0 then Function.update l.depth n (l.depth n + 1) else l.depth
        result := some code }
  | .done o => { l with stage := .stopped o }

/-- The thread after a step of a release of `n`.  One that returns 0 matches an acquisition. -/
def Local.afterRelease (l : Local M) (decr : Bool) (n : M) : Next ReleasePC → Local M
  | .goto p => { l with stage := .release decr n p }
  | .done (.ret code) =>
    { l with
        stage := .outside
        depth := if code = 0 then Function.update l.depth n (l.depth n - 1) else l.depth }
  | .done o => { l with stage := .stopped o }

/-- One step of thread `t`, whose id is `id t`; the counters of a thread that has none yet are those
    of no mutex, for a range of priorities that begins with `fifoMinPrio`. -/
def next (id : ι → ℕ) (fifoMinPrio : ℤ) (t : ι) (a : Action M) (l : Local M)
    (s : M → MutexData) : Option (Local M × (M → MutexData)) :=
  match a, l.stage with
  | .acquire mode n, .outside =>
    (acquireSwitch mode (s n).kind).map fun p =>
      ({ l with
          stage := .acquire mode n p
          entry := l.prio.bookkeeping fifoMinPrio
          result := none }, s)
  | .release decr n, .outside =>
    (releaseSwitch (s n).kind).map fun p =>
      ({ l with stage := .release decr n p, result := none }, s)
  | .run S, .acquire mode n p =>
    let r := acquireStep S (id t) mode p l.prio (s n)
    let l := { l with prio := r.2.1, held := if p.takes (s n) then insert n l.held else l.held }
    some (l.afterAcquire mode n r.1, Function.update s n r.2.2)
  | .run S, .release decr n p =>
    let r := releaseStep S (id t) decr p l.prio (s n)
    let l := { l with prio := r.2.1, held := if p.gives (s n) then l.held.erase n else l.held }
    some (l.afterRelease decr n r.1, Function.update s n r.2.2)
  | _, _ => none

/-- The threads over the mutexes. -/
def system (id : ι → ℕ) (fifoMinPrio : ℤ) : System ι (Action M) (Local M) (M → MutexData) :=
  ⟨next id fifoMinPrio⟩

end SyncPerf.PrioProtect
