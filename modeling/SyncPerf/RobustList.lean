import Mathlib.Data.Fintype.Card
import SyncPerf.LinkedRing
import SyncPerf.RobustSteps

namespace SyncPerf.RobustList

open Interleaving Calls Robust LinkedRing

/-!
# The list of robust mutexes

A thread keeps the robust mutexes that it has in a doubly linked list, of which the kernel finds
the head when the thread dies; `list_op_pending` names a mutex that is being taken or released.
The steps are those of `RobustSteps`, for any number of mutexes, with the stores to the lists in
between.  A thread may die at any of them.

* `Node`, `Link`, `Links` — the pointers;
* `enqueueStep`, `dequeueStep` — `ENQUEUE_MUTEX_BOTH` and `DEQUEUE_MUTEX`, one store at a time;
* `TryPoint`, `afterTry`, `UnlockPoint`, `afterUnlock` — where trylock and unlock use them;
* `exitRobustList` — what the kernel does for a dead thread;
* `next`, `system` — threads that call, step and die in any order.
-/

/-! ### Pointers -/

variable {ι M : Type}

/-- What is linked: the `robust_head` of a thread, with `robust_prev` before it, and the `__list` of
    a mutex. -/
inductive Node (ι M : Type)
  | head (i : ι)
  | mutex (m : M)
  deriving DecidableEq

/-- A pointer to the `__next` of a node, with its lowest bit. -/
structure Link (ι M : Type) where
  node : Node ι M
  bit : Bool := false

/-- The `__next` and `__prev` of all nodes; `none` is `NULL`. -/
structure Links (ι M : Type) where
  next : Node ι M → Option (Link ι M)
  prev : Node ι M → Option (Link ι M)

variable [DecidableEq ι] [DecidableEq M]

/-- The links with another `__next`. -/
def Links.setNext (s : Links ι M) (n : Node ι M) (v : Option (Link ι M)) : Links ι M :=
  { s with next := Function.update s.next n v }

/-- The links with another `__prev`. -/
def Links.setPrev (s : Links ι M) (n : Node ι M) (v : Option (Link ι M)) : Links ι M :=
  { s with prev := Function.update s.prev n v }

/-- The four stores of an enqueue, named for what they write. -/
inductive EnqueuePC
  | nextPrev
  | next
  | prev
  | list
  deriving DecidableEq

/-- The four stores of a dequeue. -/
inductive DequeuePC
  | nextPrev
  | prevNext
  | prev
  | next
  deriving DecidableEq

/-- `ENQUEUE_MUTEX_BOTH (mutex, val)` of thread `i`; `none` is the access through a null pointer. -/
def enqueueStep (i : ι) (m : M) (val : Bool) (p : EnqueuePC) (s : Links ι M) :
    Option (Links ι M) :=
  match p with
  | .nextPrev => (s.next (.head i)).map fun next => s.setPrev next.node (some ⟨.mutex m, false⟩)
  | .next => some (s.setNext (.mutex m) (s.next (.head i)))
  | .prev => some (s.setPrev (.mutex m) (some ⟨.head i, false⟩))
  | .list => some (s.setNext (.head i) (some ⟨.mutex m, val⟩))

/-- `DEQUEUE_MUTEX (mutex)`. -/
def dequeueStep (m : M) (p : DequeuePC) (s : Links ι M) : Option (Links ι M) :=
  match p with
  | .nextPrev => (s.next (.mutex m)).map fun next => s.setPrev next.node (s.prev (.mutex m))
  | .prevNext => (s.prev (.mutex m)).map fun prev => s.setNext prev.node (s.next (.mutex m))
  | .prev => some (s.setPrev (.mutex m) none)
  | .next => some (s.setNext (.mutex m) none)

/-- The store that follows in an enqueue. -/
def EnqueuePC.succ : EnqueuePC → Option EnqueuePC
  | .nextPrev => some .next
  | .next => some .prev
  | .prev => some .list
  | .list => none

/-- The store that follows in a dequeue. -/
def DequeuePC.succ : DequeuePC → Option DequeuePC
  | .nextPrev => some .prevNext
  | .prevNext => some .prev
  | .prev => some .next
  | .next => none

/-! ### Points of the calls -/

/-- The points of a trylock: `list_op_pending` is set; a step on the mutex; an enqueue, and the
    clearing of `list_op_pending`, with what comes after them. -/
inductive TryPoint
  | pending
  | run (p : Robust.TryPC)
  | enqueue (e : EnqueuePC) (rest : Next Robust.TryPC)
  | clear (rest : Next Robust.TryPC)

/-- The points of an unlock, in the same way. -/
inductive UnlockPoint
  | run (p : UnlockPC)
  | pending (rest : UnlockPC)
  | dequeue (e : DequeuePC) (rest : UnlockPC)
  | clear (o : Outcome)

/-- What follows a step of `do_mutex_trylock` on the mutex: before the counter of a mutex that is
    ours is bumped, and before a return with nothing taken, `list_op_pending` is cleared; a mutex
    that was taken is enqueued. -/
def afterTry (p : Robust.TryPC) (n : Next Robust.TryPC) : TryPoint ⊕ Outcome :=
  match n with
  | .goto .bump => .inl (.clear n)
  | .goto .owner => .inl (.enqueue .nextPrev n)
  | .goto p' => .inl (.run p')
  | .done o =>
    match p with
    | .inheritOwner => .inl (.enqueue .nextPrev n)
    | .bump | .bumpStore _ | .count => .inr o
    | _ => .inl (.clear n)

/-- What follows a step of `__pthread_mutex_unlock_full`: at `robust:` the mutex is dequeued, and
    after the word is given up `list_op_pending` is cleared. -/
def afterUnlock (p : UnlockPC) (n : Next UnlockPC) : UnlockPoint ⊕ Outcome :=
  match n with
  | .goto (.owner pp newowner) => .inl (.pending (.owner pp newowner))
  | .goto p' => .inl (.run p')
  | .done o =>
    match p with
    | .word => .inl (.clear o)
    | _ => .inr o

/-! ### The system -/

/-- Where a thread is; it has crashed when it went through a null pointer. -/
inductive Stage (M : Type)
  | outside
  | trylock (m : M) (p : TryPoint)
  | unlock (m : M) (p : UnlockPoint)
  | stopped (o : Outcome)
  | crashed
  | dead

/-- A thread: its place, its scheduling data, and `list_op_pending`. -/
structure Local (M : Type) where
  stage : Stage M := .outside
  prio : Prio := {}
  pending : Option M := none

/-- The mutexes, and the links of all lists. -/
structure Shared (ι M : Type) where
  mutexes : M → MutexData
  links : Links ι M

/-- What a thread does next: a call, a step of the call that it is in, or its last one. -/
inductive Action (M : Type)
  | trylock (m : M)
  | unlock (m : M)
  | run (S : Sys)
  | die

/-- The thread after a step of a trylock that leads to `r`. -/
def Local.atTry (l : Local M) (m : M) (r : TryPoint ⊕ Outcome) : Local M :=
  match r with
  | .inl p => { l with stage := .trylock m p }
  | .inr (.ret _) => { l with stage := .outside }
  | .inr o => { l with stage := .stopped o }

/-- The thread after a step of an unlock that leads to `r`. -/
def Local.atUnlock (l : Local M) (m : M) (r : UnlockPoint ⊕ Outcome) : Local M :=
  match r with
  | .inl p => { l with stage := .unlock m p }
  | .inr (.ret _) => { l with stage := .outside }
  | .inr o => { l with stage := .stopped o }

/-- Where `rest` of a trylock leads. -/
def restTry : Next Robust.TryPC → TryPoint ⊕ Outcome
  | .goto p => .inl (.run p)
  | .done o => .inr o

/-- A mutex with another value. -/
def Shared.setMutex (s : Shared ι M) (m : M) (v : MutexData) : Shared ι M :=
  { s with mutexes := Function.update s.mutexes m v }

/-- The mutexes that the kernel finds for thread `i`, `limit` list entries at most. -/
def found (limit : ℕ) (i : ι) (pending : Option M) (s : Links ι M) : List M :=
  ((follow (fun n => (s.next n).map Link.node) (.head i) limit (.head i)).filterMap fun
    | .mutex m => some m
    | .head _ => none) ++ pending.toList

/-- A word with the id of a dead thread is marked. -/
def handleDeath (id : ℕ) (v : MutexData) : MutexData :=
  if v.lock &&& futexTidMask = id then
    { v with lock := (v.lock &&& futexWaiters) ||| futexOwnerDied }
  else v

/-- The kernel marks the mutexes that it finds. -/
def exitRobustList (limit : ℕ) (id : ℕ) (i : ι) (pending : Option M) (s : Shared ι M) :
    Shared ι M :=
  { s with mutexes := fun m =>
      if m ∈ found limit i pending s.links then handleDeath id (s.mutexes m) else s.mutexes m }

/-- One step of thread `i`, whose id is `id i`. -/
def next (limit : ℕ) (id : ι → ℕ) (i : ι) (a : Action M) (l : Local M) (s : Shared ι M) :
    Option (Local M × Shared ι M) :=
  match a, l.stage with
  | .trylock m, .outside =>
    match trylockSwitch (s.mutexes m).kind with
    | some (.goto .word) => some ({ l with stage := .trylock m .pending }, s)
    | _ => none
  | .unlock m, .outside =>
    match unlockSwitch (s.mutexes m).kind with
    | some (.goto p) => some ({ l with stage := .unlock m (.run p) }, s)
    | _ => none
  | .die, .dead => none
  | .die, _ =>
    some ({ l with stage := .dead }, exitRobustList limit (id i) i l.pending s)
  | .run _, .trylock m .pending =>
    some ({ l with stage := .trylock m (.run .word), pending := some m }, s)
  | .run S, .trylock m (.run p) =>
    let r := trylockStep S (id i) p (s.mutexes m)
    some (l.atTry m (afterTry p r.1), s.setMutex m r.2)
  | .run _, .trylock m (.enqueue e rest) =>
    match enqueueStep i m false e s.links with
    | none => some ({ l with stage := .crashed }, s)
    | some links =>
      some (match e.succ with
        | some e' => { l with stage := .trylock m (.enqueue e' rest) }
        | none => { l with stage := .trylock m (.clear rest) }, { s with links := links })
  | .run _, .trylock m (.clear rest) =>
    some ({ l with pending := none }.atTry m (restTry rest), s)
  | .run S, .unlock m (.run p) =>
    let r := unlockStep S (id i) p l.prio (s.mutexes m)
    some ({ l with prio := r.2.1 }.atUnlock m (afterUnlock p r.1), s.setMutex m r.2.2)
  | .run _, .unlock m (.pending rest) =>
    some ({ l with stage := .unlock m (.dequeue .nextPrev rest), pending := some m }, s)
  | .run _, .unlock m (.dequeue e rest) =>
    match dequeueStep m e s.links with
    | none => some ({ l with stage := .crashed }, s)
    | some links =>
      some (match e.succ with
        | some e' => { l with stage := .unlock m (.dequeue e' rest) }
        | none => { l with stage := .unlock m (.run rest) }, { s with links := links })
  | .run _, .unlock m (.clear o) => some ({ l with pending := none }.atUnlock m (.inr o), s)
  | _, _ => none

/-- The threads over the mutexes and the lists. -/
def system (limit : ℕ) (id : ι → ℕ) : System ι (Action M) (Local M) (Shared ι M) :=
  ⟨next limit id⟩

end SyncPerf.RobustList
