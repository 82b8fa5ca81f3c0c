import SyncPerf.Interleaving
import SyncPerf.MutexUnlock
import SyncPerf.XThread

namespace SyncPerf

open Interleaving

/-!
# Threads, mutexes and records

The system of any number of threads that run the mutex operations on any number of real mutexes,
with the records they count in.  A real mutex is named by its entry index (how a nominal mutex
comes to its real mutex is the subject of `LazyInstall`); a thread counts under the thread
index that `allocThreadIndex` gave it.

* `PC`, `opStep` — the operations as one step function, with `pthread_cond_wait` put together
  from an unlock without `decr` and the `NO_INCR` build of the lock;
* `Local`, `Shared`, `next`, `machine` — the system;
* `next_eq_some` — what a step of the system does;
* `View` — what a thread is to one mutex;
* `Initial`, `Fresh` — the start.
-/

/-! ### One operation -/

/-- The program points of the operations on one mutex. -/
inductive PC
  | lock (p : LockPC)
  | trylock (p : TryPC)
  | unlock (p : UnlPC)
  | condRelease (p : UnlPC)
  | condCount
  | condCountStore (v : ℕ)
  | condBlocked
  | condRelock (p : LockPC)
  | destroy (p : DesPC)
  deriving DecidableEq

/-- The operations. -/
inductive Op
  | lock
  | trylock
  | unlock
  | condWait
  | destroy
  deriving DecidableEq

/-- Where an operation starts. -/
def Op.entry : Op → PC
  | .lock => .lock .stat
  | .trylock => .trylock .stat
  | .unlock => .unlock .type
  | .condWait => .condRelease .type
  | .destroy => .destroy .kind

/-- What the environment decides for a step: the outcome of a special mutex's code, and whether a
    thread that was woken in `pthread_cond_wait` has to wait again. -/
structure Choice where
  special : Special := ⟨{}, 0⟩
  again : Bool := false

/-- A step seen from the operation that it belongs to. -/
def Flow.map {P Q : Type} (f : P → Q) : Flow P → Flow Q
  | .goto p => .goto (f p)
  | .ret code => .ret code
  | .abort a => .abort a

/-- `pthread_cond_wait` after `__pthread_mutex_unlock_usercnt (mutex, 0)`: an error is returned,
    else the thread goes to wait. -/
def afterRelease : Flow UnlPC → Flow PC
  | .goto p => .goto (.condRelease p)
  | .ret code => if code ≠ 0 then .ret code else .goto .condCount
  | .abort a => .abort a

/-- One step of an operation.  The condition variable itself is left open: a waiting thread may
    wake up at any time. -/
def opStep (id : ℕ) (ch : Choice) (pc : PC) (c : Cell) : Flow PC × Cell :=
  match pc with
  | .lock p =>
    let r := pthreadMutexLock .incr id ch.special p c
    (r.1.map .lock, r.2)
  | .trylock p =>
    let r := pthreadMutexTrylock id ch.special p c
    (r.1.map .trylock, r.2)
  | .unlock p =>
    let r := pthreadMutexUnlockUsercnt true id ch.special p c
    (r.1.map .unlock, r.2)
  | .condRelease p =>
    let r := pthreadMutexUnlockUsercnt false id ch.special p c
    (afterRelease r.1, r.2)
  -- `inc_cond_wait_count`, before every wait
  | .condCount => (.goto (.condCountStore (c.record.get .condWaits)), c)
  | .condCountStore v => (.goto .condBlocked, { c with record := c.record.set .condWaits (inc32 v) })
  | .condBlocked => (.goto (if ch.again then .condCount else .condRelock .stat), c)
  | .condRelock p =>
    let r := pthreadMutexLock .noIncr id ch.special p c
    (r.1.map .condRelock, r.2)
  | .destroy p =>
    let r := pthreadMutexDestroy p c
    (r.1.map .destroy, r.2)

/-- How deep the application holds the mutex after a step: an acquisition that returned 0 adds a
    level, an unlock that returned 0 and the release inside `pthread_cond_wait` take one away. -/
def heldAfter (pc : PC) (f : Flow PC) (held : ℕ) : ℕ :=
  match pc, f with
  | .lock _, .ret code | .trylock _, .ret code | .condRelock _, .ret code =>
    if code = 0 then held + 1 else held
  | .unlock _, .ret code => if code = 0 then held - 1 else held
  | .condRelease _, .goto .condCount => held - 1
  | _, _ => held

/-! ### The system -/

/-- A thread: its index once it has one, the operation it is in, and how deep it holds each
    mutex (which no operation reads). -/
structure Local where
  index : Option ℕ := none
  cur : Option (ℕ × PC) := none
  held : ℕ → ℕ := fun _ => 0

/-- The shared state: the real mutexes, the array of records, the thread bookkeeping, the
    statistics, and the assertion that ended the process, if one did. -/
structure Shared where
  mutexes : ℕ → MutexData
  threadSyncData : ℕ → ThreadMutex
  xthread : XThread
  stats : Stats
  aborted : Option Assert := none

/-- What a thread does next: get its index, end the bookkeeping of a joined thread, call an
    operation on a mutex, or take a step of the one it is in. -/
inductive Action
  | start (current tid : ℕ) (now : XThread.Clock)
  | join (now : XThread.Clock)
  | call (m : ℕ) (op : Op)
  | step (ch : Choice)

/-- What an operation of the thread with index `idx` on mutex `m` can touch. -/
def Shared.cell (s : Shared) (m idx : ℕ) : Cell :=
  ⟨s.mutexes m, s.threadSyncData (getThreadMutexData m idx), s.stats⟩

/-- The shared state after such a step. -/
def Shared.setCell (s : Shared) (m idx : ℕ) (c : Cell) : Shared :=
  { s with
    mutexes := Function.update s.mutexes m c.mutex
    threadSyncData := Function.update s.threadSyncData (getThreadMutexData m idx) c.record
    stats := c.stats }

/-- The thread after a step at `pc` on mutex `m`. -/
def Local.after (l : Local) (m : ℕ) (pc : PC) (f : Flow PC) : Local :=
  { l with
    cur := match f with
      | .goto pc' => some (m, pc')
      | .ret _ => none
      | .abort _ => l.cur
    held := Function.update l.held m (heldAfter pc f (l.held m)) }

/-- The assertion that a step fails. -/
def Flow.failed {P : Type} : Flow P → Option Assert
  | .abort a => some a
  | _ => none

/-- One step of the thread with kernel id `id`. -/
def next (id : ℕ) (a : Action) (l : Local) (s : Shared) : Option (Local × Shared) :=
  if s.aborted.isSome then none else
  match a with
  | .start current tid now =>
    match l.index with
    | some _ => none
    | none =>
      match XThread.allocThreadIndex current tid now s.xthread with
      | .error _ => none
      | .ok (idx, x) => some ({ l with index := some idx }, { s with xthread := x })
  | .join now =>
    match XThread.markThreadExit now s.xthread with
    | .error _ => none
    | .ok x => some (l, { s with xthread := x })
  | .call m op =>
    match l.index, l.cur with
    | some _, none =>
      if m < maxSyncEntries then some ({ l with cur := some (m, op.entry) }, s) else none
    | _, _ => none
  | .step ch =>
    match l.index, l.cur with
    | some idx, some (m, pc) =>
      let r := opStep id ch pc (s.cell m idx)
      some (l.after m pc r.1, { s.setCell m idx r.2 with aborted := r.1.failed })
    | _, _ => none

variable {ι : Type}

/-- The threads `ι` with kernel ids `tid`. -/
def machine (tid : ι ↪ Tid) : System ι Action Local Shared :=
  ⟨fun i => next (tid i).val⟩

/-- What a step of the system does. -/
inductive NextCase (id : ℕ) (l : Local) (s : Shared) : Action → Local → Shared → Prop
  | start {current tid idx : ℕ} {now : XThread.Clock} {x : XThread} (hidx : l.index = none)
      (h : XThread.allocThreadIndex current tid now s.xthread = .ok (idx, x)) :
      NextCase id l s (.start current tid now) { l with index := some idx }
        { s with xthread := x }
  | join {now : XThread.Clock} {x : XThread}
      (h : XThread.markThreadExit now s.xthread = .ok x) :
      NextCase id l s (.join now) l { s with xthread := x }
  | call {m idx : ℕ} {op : Op} (hidx : l.index = some idx) (hcur : l.cur = none)
      (hm : m < maxSyncEntries) :
      NextCase id l s (.call m op) { l with cur := some (m, op.entry) } s
  | step {idx m : ℕ} {pc : PC} {ch : Choice} {f : Flow PC} {c : Cell}
      (hidx : l.index = some idx) (hcur : l.cur = some (m, pc))
      (h : opStep id ch pc (s.cell m idx) = (f, c)) :
      NextCase id l s (.step ch) (l.after m pc f)
        { s.setCell m idx c with aborted := f.failed }

/-- A step is one of the cases, in a process that has not aborted. -/
theorem next_eq_some {id : ℕ} {a : Action} {l l' : Local} {s s' : Shared}
    (h : next id a l s = some (l', s')) : s.aborted = none ∧ NextCase id l s a l' s' := by
  unfold next at h
  split at h
  · exact absurd h (by simp)
  · rename_i hab
    refine ⟨by simpa using hab, ?_⟩
    cases a with
    | start current tid now =>
      simp only at h
      split at h
      · exact absurd h (by simp)
      · rename_i hidx
        split at h
        · exact absurd h (by simp)
        · rename_i idx x hx
          obtain ⟨rfl, rfl⟩ := Prod.mk.inj (Option.some.inj h)
          exact .start hidx hx
    | join now =>
      simp only at h
      split at h
      · exact absurd h (by simp)
      · rename_i x hx
        obtain ⟨rfl, rfl⟩ := Prod.mk.inj (Option.some.inj h)
        exact .join hx
    | call m op =>
      simp only at h
      split at h
      · rename_i hidx hcur
        split at h
        · rename_i hm
          obtain ⟨rfl, rfl⟩ := Prod.mk.inj (Option.some.inj h)
          exact .call hidx hcur hm
        · exact absurd h (by simp)
      · exact absurd h (by simp)
    | step ch =>
      simp only at h
      split at h
      · rename_i hidx hcur
        obtain ⟨rfl, rfl⟩ := Prod.mk.inj (Option.some.inj h)
        exact .step hidx hcur (Prod.mk.eta).symm
      · exact absurd h (by simp)

/-! ### Views

What a thread is to one mutex: the program point of its operation, if that is on the mutex, and
how deep it holds it. -/

/-- What one mutex sees of a thread: its place in an operation on it, and how often it has it. -/
structure View where
  pc : Option PC
  held : ℕ

/-- What mutex `m` sees of a thread. -/
def Local.view (l : Local) (m : ℕ) : View where
  pc := match l.cur with
    | some (m', pc) => if m' = m then some pc else none
    | none => none
  held := l.held m

/-- The view after a step at `pc`. -/
def View.after (pc : PC) (f : Flow PC) (held : ℕ) : View where
  pc := match f with
    | .goto pc' => some pc'
    | .ret _ => none
    | .abort _ => some pc
  held := heldAfter pc f held

/-- The mutex of the operation sees the program point. -/
theorem Local.view_of_cur {l : Local} {m : ℕ} {pc : PC} (h : l.cur = some (m, pc)) :
    l.view m = ⟨some pc, l.held m⟩ := by
  simp [Local.view, h]

/-- Another mutex sees no operation. -/
theorem Local.view_of_ne {l : Local} {m m' : ℕ} {pc : PC} (h : l.cur = some (m, pc))
    (hne : m' ≠ m) : l.view m' = ⟨none, l.held m'⟩ := by
  simp [Local.view, h, hne.symm]

/-- A thread outside is in no operation on any mutex. -/
theorem Local.view_of_none {l : Local} {m : ℕ} (h : l.cur = none) :
    l.view m = ⟨none, l.held m⟩ := by
  simp [Local.view, h]

/-- Whoever sees a program point is the mutex of the operation. -/
theorem Local.cur_of_view {l : Local} {m : ℕ} {pc : PC} (h : (l.view m).pc = some pc) :
    l.cur = some (m, pc) := by
  simp only [Local.view] at h
  split at h
  · rename_i m' pc' hcur
    split at h
    · rename_i hm
      rw [hcur, hm, Option.some.inj h]
    · exact absurd h (by simp)
  · exact absurd h (by simp)

/-- What the mutex of the operation sees of a step. -/
theorem Local.view_after_self {l : Local} {m : ℕ} {pc : PC} (h : l.cur = some (m, pc))
    (f : Flow PC) : (l.after m pc f).view m = View.after pc f (l.held m) := by
  cases f <;> simp [Local.view, Local.after, View.after, h]

/-- Other mutexes see nothing of a step. -/
theorem Local.view_after_ne {l : Local} {m m' : ℕ} {pc : PC} (h : l.cur = some (m, pc))
    (hne : m' ≠ m) (f : Flow PC) : (l.after m pc f).view m' = l.view m' := by
  cases f <;> simp [Local.view, Local.after, h, hne, hne.symm]

/-! ### The start -/

/-- The process starts with no thread running, all bookkeeping zeroed, and the records as `mmap`
    left them. -/
structure Initial (c : Config ι Local Shared) : Prop where
  loc : ∀ i, c.loc i = {}
  records : ∀ a, c.sh.threadSyncData a = {}
  xthread : c.sh.xthread = {}
  stats : c.sh.stats = {}
  aborted : c.sh.aborted = none

/-- Every mutex is as `pthread_mutex_init` left it, mutex `m` with kind `kinds m`. -/
def Fresh (kinds : ℕ → BasicKind) (c : Config ι Local Shared) : Prop :=
  ∀ m, c.sh.mutexes m = { kind := (kinds m).code }

/-- Two threads. -/
def pairTid : Bool ↪ Tid where
  toFun
    | false => ⟨1, by decide⟩
    | true => ⟨2, by decide⟩
  inj' := by
    intro a b h
    have hval := congrArg Subtype.val h
    cases a <;> cases b <;> simp_all

/-- The start of the process, all mutexes normal. -/
def pairStart : Config Bool Local Shared where
  loc := fun _ => {}
  sh := {
    mutexes := fun _ => { kind := BasicKind.timed.code }
    threadSyncData := fun _ => {}
    xthread := {}
    stats := {} }

/-- Two threads before anything has happened. -/
theorem pairStart_initial : Initial pairStart := ⟨fun _ => rfl, fun _ => rfl, rfl, rfl, rfl⟩

/-- Their mutexes are as `pthread_mutex_init` leaves them. -/
theorem pairStart_fresh : Fresh (fun _ => .timed) pairStart := fun _ => rfl

/-- Both threads get their index. -/
def pairSetup : List (Bool × Action) :=
  [(false, .start 0 1 ⟨0, 0, 0⟩), (true, .start 0 2 ⟨0, 0, 0⟩)]

end SyncPerf
