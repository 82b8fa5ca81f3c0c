import SyncPerf.PiUnlock

namespace SyncPerf.Calls

/-!
# Sequences of calls

Any threads call `pthread_mutex_lock`, `pthread_mutex_trylock` and `pthread_mutex_unlock` on one
nominal mutex, one call after the other.  A call that has to wait sleeps, while the other threads
go on, until it is woken and tries again.

* `Process` — the mutex and the threads;
* `Event`, `serve` — a call or a wake-up, and the answer that the thread gets;
* `trace` — the answers of a sequence, with the states that they leave;
* `static`, `initialised` — a mutex with a static initialiser, and one of `pthread_mutex_init`.
-/

variable {ι : Type} [DecidableEq ι]

/-- What a thread sees of the end of a call. -/
inductive Answer
  | ret (code : ℕ)
  | blocks
  | abort (f : Fault)
  deriving DecidableEq

/-- What the caller sees of the end of a call. -/
def Outcome.answer : Outcome → Answer
  | .ret code => .ret code
  | .sleeps _ | .hangs => .blocks
  | .abort f => .abort f

/-- Where a thread is between two events. -/
inductive Status
  | outside
  | sleeping (w : Wait)
  | hanging
  deriving DecidableEq

/-- Where the end of a call leaves its thread. -/
def Outcome.status : Outcome → Status
  | .ret _ | .abort _ => .outside
  | .sleeps w => .sleeping w
  | .hangs => .hanging

/-- A nominal mutex with the `__kind` of its initialiser, which no call reads; the real mutex, once
    the first word of the nominal one points to it; the threads, and whether the process was
    aborted. -/
structure Process (ι : Type) where
  nominalKind : BitVec 32
  real : Option MutexData
  prio : ι → Prio := fun _ => {}
  status : ι → Status := fun _ => .outside
  gone : Bool := false

/-- The calls. -/
inductive CallOp
  | lock
  | trylock
  | unlock
  deriving DecidableEq

/-- What happens next. -/
inductive Event (ι : Type)
  | call (t : ι) (op : CallOp)
  | wake (t : ι)
  deriving DecidableEq

/-- A call of a thread has ended. -/
def Process.finish (p : Process ι) (t : ι) (r : Outcome × State) : Option Answer × Process ι :=
  (some r.1.answer, { p with
    real := some r.2.mutex
    prio := Function.update p.prio t r.2.prio
    status := Function.update p.status t r.1.status
    gone := match r.1 with
      | .abort _ => true
      | _ => false })

/-- One event, and the answer if there is one: a thread that sleeps makes no call.  Lock and
    trylock start with `create_mutex` on a nominal mutex without a real one: the slot is as `mmap`
    left it. -/
def serve (S : Sys) (id : ι → ℕ) (e : Event ι) (p : Process ι) : Option Answer × Process ι :=
  if p.gone then (none, p)
  else match e with
    | .call t op =>
      match p.status t, op, p.real with
      | .outside, .lock, real => p.finish t (pthreadMutexLock S (id t) ⟨real.getD {}, p.prio t, []⟩)
      | .outside, .trylock, real =>
        p.finish t (doMutexTrylock S (id t) ⟨real.getD {}, p.prio t, []⟩)
      -- the assertion of `get_mutex`
      | .outside, .unlock, none => (some (.abort .getMutex), { p with gone := true })
      | .outside, .unlock, some m =>
        p.finish t (pthreadMutexUnlock S (id t) ⟨m, p.prio t, []⟩)
      | _, _, _ => (none, p)
    | .wake t =>
      match p.status t, p.real with
      | .sleeping w, some m => p.finish t (resume S (id t) w ⟨m, p.prio t, []⟩)
      | _, _ => (none, p)

/-- The answers of a sequence, with the states after them. -/
def trace (S : Sys) (id : ι → ℕ) : List (Event ι) → Process ι → List (Option Answer × Process ι)
  | [], _ => []
  | e :: es, p => serve S id e p :: trace S id es (serve S id e p).2

/-- A mutex with a static initialiser. -/
def static (kind : BitVec 32) : Process ι := { nominalKind := kind, real := none }

/-- A mutex that `pthread_mutex_init` was called on. -/
def initialised (mutexkind : BitVec 32) : Process ι where
  nominalKind := 0
  real := some (mutexInit mutexkind {}).2

end SyncPerf.Calls
