import SyncPerf.Interleaving
import SyncPerf.MutexCalls

namespace SyncPerf.Robust

open Interleaving Calls

/-!
# The steps of robust mutexes

The calls on a robust mutex, with or without priority inheritance, one access to the shared mutex
at a time.  `pthread_mutex_init` stores such a kind with the process-shared bit, so that a lock
call ends at its `switch`; trylock and unlock mask the bit.

* `TryPC`, `trylockStep` and `UnlockPC`, `unlockStep` — the program points and the steps of
  `do_mutex_trylock` and `__pthread_mutex_unlock_full`;
* `Local`, `next`, `system` — threads that call in any order, with the acquisitions that they have
  not given back;
* `LocksFree`, `Excludes` — a lock call on a free mutex, and exclusion.
-/

/-! ### Program points -/

/-- The points of `do_mutex_trylock` in its robust cases.  `oldval` is the local of that name; a
    `v` is a counter that was read and is not stored yet. -/
inductive TryPC
  | word
  | test (oldval : ℕ)
  | inherit (oldval : ℕ)
  | inheritCount
  | inheritOwner
  | bump
  | bumpLoad
  | bumpStore (v : BitVec 32)
  | cas
  | recoverable (oldval : ℕ)
  | giveUp (oldval : ℕ)
  | giveUpWord (oldval : ℕ)
  | piWord
  | piCas
  | piFutex
  | piReload
  | piAnd
  | piRecoverable
  | piGiveUp
  | piGiveUpFutex
  | owner
  | nusers
  | nusersStore (v : BitVec 32)
  | count
  deriving DecidableEq

/-- The points of `__pthread_mutex_unlock_full`; `pp` tells the code for priority protection, which
    unlocks a mutex with priority inheritance, from the one at `robust:`. -/
inductive UnlockPC
  | recTid
  | recInconsistent
  | lost
  | lostStore (v : BitVec 32)
  | recOwner (pp : Bool)
  | recCount (pp : Bool)
  | recCountStore (pp : Bool) (v : BitVec 32)
  | tid
  | locked
  | inconsistent
  | owner (pp : Bool) (newowner : ℕ)
  | nusers (pp : Bool)
  | nusersStore (pp : Bool) (v : BitVec 32)
  | word
  | ppWord
  | ppCas (oldval : ℕ)
  deriving DecidableEq

/-! ### The steps of a trylock -/

/-- The test for the calling thread's own id in the word, which comes before a
    compare-and-exchange. -/
def ownWord (id : ℕ) (κ : BasicKind) (oldval : ℕ) (p : TryPC) : Next TryPC :=
  if oldval &&& futexTidMask = id ∧ κ = .errorcheck then .done (.ret eDEADLK)
  else if oldval &&& futexTidMask = id ∧ κ = .recursive then .goto .bump
  else .goto p

/-- The `switch` of `do_mutex_trylock`.  For the other kinds that it knows there are no points
    here. -/
def trylockSwitch (kind : BitVec 32) : Option (Next TryPC) :=
  let type := pthreadMutexTypeElision kind
  if type = elisionNp ∨ type = BasicKind.recursive.code ||| elisionNp then none
  else match switchKind type with
    | .special =>
      match protocolOf type with
      | .robust => some (.goto .word)
      | .inheritRobust => some (.goto .piWord)
      | _ => none
    | .invalid => some (.done (.ret eINVAL))
    | _ => none

/-- One step of thread `id`. -/
def trylockStep (S : Sys) (id : ℕ) (p : TryPC) (m : MutexData) : Next TryPC × MutexData :=
  let κ := basicOf (pthreadMutexTypeElision m.kind)
  match p with
  | .word => (.goto (.test m.lock), m)
  -- `again:`
  | .test oldval =>
    (if oldval &&& futexOwnerDied ≠ 0 then .goto (.inherit oldval) else ownWord id κ oldval .cas, m)
  | .inherit oldval =>
    if m.lock = oldval then
      (.goto .inheritCount, { m with lock := id ||| (oldval &&& futexWaiters) })
    else (.goto (.test m.lock), m)
  | .inheritCount => (.goto .inheritOwner, { m with count := 1 })
  | .inheritOwner => (.done (.ret eOWNERDEAD), { m with owner := mutexInconsistent })
  | .bump => (if m.count + 1 = 0 then .done (.ret eAGAIN) else .goto .bumpLoad, m)
  | .bumpLoad => (.goto (.bumpStore m.count), m)
  | .bumpStore v => (.done (.ret 0), { m with count := v + 1 })
  | .cas =>
    let oldval := m.lock
    (if oldval ≠ 0 ∧ oldval &&& futexOwnerDied = 0 then .done (.ret eBUSY)
      else .goto (.recoverable oldval),
      if oldval = 0 then { m with lock := id } else m)
  | .recoverable oldval =>
    (if m.owner = mutexNotrecoverable then .goto (.giveUp oldval)
      else if oldval &&& futexOwnerDied ≠ 0 then .goto (.test oldval)
      else .goto .owner, m)
  | .giveUp oldval => (.goto (.giveUpWord oldval), { m with count := 0 })
  | .giveUpWord oldval =>
    (.done (.ret eNOTRECOVERABLE), if oldval = id then { m with lock := lllLockInitializer } else m)
  -- with priority inheritance
  | .piWord => (ownWord id κ m.lock .piCas, m)
  | .piCas =>
    let oldval := m.lock
    if oldval = 0 then (.goto .piRecoverable, { m with lock := id })
    else if oldval &&& futexOwnerDied = 0 then (.done (.ret eBUSY), m)
    else if m.kind &&& robustNormal = 0 then (.done (.abort .robust), m)
    else (.goto .piFutex, m)
  | .piFutex =>
    let (errno, lock) := S.futexTrylockPi id m.lock
    (if errno = eWOULDBLOCK then .done (.ret eBUSY) else .goto .piReload, { m with lock := lock })
  | .piReload =>
    (.goto (if m.lock &&& futexOwnerDied ≠ 0 then .piAnd else .piRecoverable), m)
  | .piAnd => (.goto .inheritCount, { m with lock := m.lock - (m.lock &&& futexOwnerDied) })
  | .piRecoverable =>
    (.goto (if m.kind &&& robustNormal ≠ 0 ∧ m.owner = mutexNotrecoverable then .piGiveUp
      else .owner), m)
  | .piGiveUp => (.goto .piGiveUpFutex, { m with count := 0 })
  | .piGiveUpFutex => (.done (.ret eNOTRECOVERABLE), { m with lock := S.futexUnlockPi id m.lock })
  -- both
  | .owner => (.goto .nusers, { m with owner := id })
  | .nusers => (.goto (.nusersStore m.nusers), m)
  | .nusersStore v => (.goto .count, { m with nusers := v + 1 })
  | .count => (.done (.ret 0), { m with count := 1 })

/-! ### The steps of an unlock -/

/-- The `switch` of `__pthread_mutex_unlock_full`, to which an unlock goes for a kind with one of
    the bits of a protocol.  The cases for priority inheritance run on into the one for a recursive
    mutex with priority protection. -/
def unlockSwitch (kind : BitVec 32) : Option (Next UnlockPC) :=
  if pthreadMutexTypeElision kind &&& ~~~(kindMask ||| elisionFlags) = 0 then none
  else
    let type := pthreadMutexType kind
    match switchKind type with
    | .special =>
      match protocolOf type, basicOf type with
      | .robust, .recursive => some (.goto .recTid)
      | .robust, _ => some (.goto .tid)
      | .inheritRobust, _ => some (.goto (.recOwner true))
      | _, _ => none
    | _ => some (.done (.ret eINVAL))

/-- One step of thread `id`, whose scheduling data are `prio`. -/
def unlockStep (S : Sys) (id : ℕ) (p : UnlockPC) (prio : Prio) (m : MutexData) :
    Next UnlockPC × Prio × MutexData :=
  match p with
  | .recTid =>
    (.goto (if m.lock &&& futexTidMask = id then .recInconsistent else .recOwner false), prio, m)
  | .recInconsistent =>
    (.goto (if m.owner = mutexInconsistent then .lost else .recOwner false), prio, m)
  | .lost => (.goto (.lostStore m.count), prio, m)
  | .lostStore v =>
    (if v - 1 ≠ 0 then .done (.ret eNOTRECOVERABLE) else .goto (.owner false mutexNotrecoverable),
      prio, { m with count := v - 1 })
  | .recOwner pp =>
    (if m.owner ≠ id then .done (.ret ePERM) else .goto (.recCount pp), prio, m)
  -- `if (--mutex->__data.__count != 0) return 0;`
  | .recCount pp => (.goto (.recCountStore pp m.count), prio, m)
  | .recCountStore pp v =>
    (if v - 1 ≠ 0 then .done (.ret 0) else .goto (.owner pp 0), prio, { m with count := v - 1 })
  | .tid =>
    (if m.lock &&& futexTidMask ≠ id then .done (.ret ePERM) else .goto .locked, prio, m)
  | .locked =>
    (if m.lock = lllLockInitializer then .done (.ret ePERM) else .goto .inconsistent, prio, m)
  | .inconsistent =>
    (.goto (.owner false (if m.owner = mutexInconsistent then mutexNotrecoverable else 0)), prio, m)
  -- `robust:` and `pp:`
  | .owner pp newowner => (.goto (.nusers pp), prio, { m with owner := newowner })
  | .nusers pp => (.goto (.nusersStore pp m.nusers), prio, m)
  | .nusersStore pp v => (.goto (if pp then .ppWord else .word), prio, { m with nusers := v - 1 })
  -- `lll_robust_unlock`
  | .word => (.done (.ret 0), prio, { m with lock := 0 })
  | .ppWord => (.goto (.ppCas m.lock), prio, m)
  | .ppCas oldval =>
    if m.lock ≠ oldval then (.goto .ppWord, prio, m)
    else
      let newval := oldval &&& prioCeilingMask
      let oldprio : ℤ := (BitVec.ofNat 32 newval).toInt >>> prioCeilingShift
      let m := { m with lock := newval }
      match tppChangePriority S.toSched oldprio (-1) prio with
      | .error a => (.done (.abort (.prio a)), prio, m)
      | .ok (code, prio) => (.done (.ret code), prio, m)

/-! ### The system -/

/-- Where a thread is. -/
inductive Stage
  | outside
  | trylock (p : TryPC)
  | unlock (p : UnlockPC)
  | stopped (o : Outcome)

/-- A thread: its place, its scheduling data, and how many of its calls that returned 0 with the
    mutex no unlock has matched yet. -/
structure Local where
  stage : Stage := .outside
  prio : Prio := {}
  hold : ℕ := 0

/-- What a thread does next: a call, or a step of the call that it is in; `S` is what the
    environment answers. -/
inductive Action
  | lock (S : Sys)
  | trylock
  | unlock
  | run (S : Sys)

/-- A call that returns 0 with the mutex is one more to be matched. -/
def Local.acquired (l : Local) (o : Outcome) : Local :=
  match o with
  | .ret code => { l with stage := .outside, hold := l.hold + (if code = 0 then 1 else 0) }
  | o => { l with stage := .stopped o }

/-- The end of an unlock. -/
def Local.released (l : Local) (o : Outcome) : Local :=
  match o with
  | .ret _ => { l with stage := .outside }
  | o => { l with stage := .stopped o }

/-- With this step an unlock is past its tests of the ownership, and matches the latest
    acquisition. -/
def UnlockPC.matches : UnlockPC → Bool
  | .lostStore _ | .recCountStore _ _ | .inconsistent => true
  | _ => false

/-- The thread after a step of a trylock. -/
def Local.afterTrylock (l : Local) : Next TryPC → Local
  | .goto p => { l with stage := .trylock p }
  | .done o => l.acquired o

/-- The thread after a step of an unlock. -/
def Local.afterUnlock (l : Local) : Next UnlockPC → Local
  | .goto p => { l with stage := .unlock p }
  | .done o => l.released o

variable {ι : Type}

/-- One step of thread `t`, whose id is `id t`.  A lock call on a kind that its `switch` does not
    know reads no more than the kind. -/
def next (id : ι → ℕ) (t : ι) (a : Action) (l : Local) (m : MutexData) :
    Option (Local × MutexData) :=
  match a, l.stage with
  | .lock S, .outside =>
    let r := Calls.pthreadMutexLock S (id t) ⟨m, l.prio, []⟩
    some ({ l with prio := r.2.prio }.acquired r.1, r.2.mutex)
  | .trylock, .outside => (trylockSwitch m.kind).map fun n => (l.afterTrylock n, m)
  | .unlock, .outside => (unlockSwitch m.kind).map fun n => (l.afterUnlock n, m)
  | .run S, .trylock p =>
    let r := trylockStep S (id t) p m
    some (l.afterTrylock r.1, r.2)
  | .run S, .unlock p =>
    let r := unlockStep S (id t) p l.prio m
    let l := { l with prio := r.2.1, hold := if p.matches then l.hold - 1 else l.hold }
    some (l.afterUnlock r.1, r.2.2)
  | _, _ => none

/-- The threads over one robust mutex. -/
def system (id : ι → ℕ) : System ι Action Local MutexData := ⟨next id⟩

/-! ### Locks of a free mutex, and exclusion -/

/-- A lock call on a free mutex that is not inconsistent. -/
def LocksFree (x : Event ι Action Local MutexData) : Prop :=
  (∃ S, x.act = .lock S) ∧ x.pre.sh.lock &&& futexTidMask = 0 ∧
    x.pre.sh.owner ≠ mutexInconsistent ∧ x.pre.sh.owner ≠ mutexNotrecoverable

/-- What a lock call ends with. -/
def lockOutcome (id : ι → ℕ) (x : Event ι Action Local MutexData) : Option Outcome :=
  match x.act with
  | .lock S => some (Calls.pthreadMutexLock S (id x.who) ⟨x.pre.sh, (x.pre.loc x.who).prio, []⟩).1
  | _ => none

/-- A thread with an acquisition to give back has its id in the word, and no two threads have
    one. -/
def Excludes (id : ι → ℕ) (c : Config ι Local MutexData) : Prop :=
  (∀ t, 0 < (c.loc t).hold → c.sh.lock &&& futexTidMask = id t) ∧
    ∀ t u, 0 < (c.loc t).hold → 0 < (c.loc u).hold → t = u

end SyncPerf.Robust
