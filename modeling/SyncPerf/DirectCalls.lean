import SyncPerf.Slots

namespace SyncPerf

open Interleaving

/-!
# Calls without the indirection

The same calls on the nominal mutexes themselves, with nothing counted: the library as the program
would find it without the profiler.  What an operation does to a mutex is a parameter again, which
`plainOps` instantiates with the operations of `realOps` less their counting.

* `PC.plain`, `cellStep_erased` — the counting steps change nothing but counters, and no other step
  depends on these;
* `MutexOps`, `DirectStage`, `directNext`, `direct` — the system of direct calls;
* `Shown`, `shown`, `directShown` — what the program sees of either system;
* `Runs` — an implementation on slots runs the operations, with silent steps in between;
* `plainOps`, `realOps_runs` — the interposed operations run those without counters.
-/

/-! ### The operations without their counting -/

/-- A lock that is about to count is where it will be then. -/
def LockPC.plain : LockPC → LockPC
  | .stat | .access | .accessStore _ => .kind
  | .probe | .fail | .failStore _ | .conflictStat => .cas .simple
  | .adFail cnt maxCnt | .adFailStore cnt maxCnt _ => adCheck cnt maxCnt
  | p => p

/-- A trylock that counts its failure is about to return. -/
def TryPC.plain : TryPC → TryPC
  | .stat | .access | .accessStore _ => .kind
  | .fail | .failStore _ | .trylockFail | .trylockFailStore _ => .trylockFailStore 0
  | p => p

def PC.plain : PC → PC
  | .lock p => .lock p.plain
  | .trylock p => .trylock p.plain
  | .condRelock p => .condRelock p.plain
  | .condCountStore _ => .condCountStore 0
  | pc => pc

/-- A step of an operation of `realOps`, on its cell. -/
def cellStep (id : ℕ) (ch : Choice) (pc : PC) (c : Cell) : Flow PC × Cell :=
  match pc with
  | .condRelease q =>
    let r := pthreadMutexUnlockUsercnt false id ch.special q c
    (r.1.map PC.condRelease, r.2)
  | pc => opStep id ch pc c

/-- The step `r` from `p` is the step `o`, but for the counting, or only counts. -/
inductive Erased {A : Type} (plain : A → A) (p : A) (m : MutexData) (r o : Flow A × Cell) : Prop
  | silent {p' : A} (h : r.1 = .goto p') (hp : plain p' = plain p) (hm : r.2.mutex = m)
  | one (h : r.1.map plain = o.1.map plain) (hm : r.2.mutex = o.2.mutex)

/-- The test of the spin loop has nothing of the record. -/
theorem adCheck_plain (cnt : ℕ) (maxCnt : ℤ) :
    (adCheck cnt maxCnt).plain = adCheck cnt maxCnt := by
  unfold adCheck
  split <;> rfl

/-- A step of a lock does to the mutex what it does without records. -/
theorem pthreadMutexLock_erased (b : Build) (id : ℕ) (env : Special) (p : LockPC) (c : Cell) :
    Erased LockPC.plain p c.mutex (pthreadMutexLock b id env p c)
      (pthreadMutexLock b id env p.plain ⟨c.mutex, {}, {}⟩) := by
  cases p with
  | stat => cases b <;> exact .silent rfl rfl rfl
  | access | accessStore v | fail | failStore v | conflictStat => exact .silent rfl rfl rfl
  | probe =>
    refine .silent rfl ?_ rfl
    split <;> rfl
  | adFail cnt maxCnt => exact .silent rfl rfl rfl
  | adFailStore cnt maxCnt v => exact .silent rfl (adCheck_plain cnt maxCnt) rfl
  | _ =>
    simp only [pthreadMutexLock, LockPC.plain]
    repeat' split
    all_goals exact .one rfl rfl

/-- A step of a trylock does to the mutex what it does without records. -/
theorem pthreadMutexTrylock_erased (id : ℕ) (env : Special) (p : TryPC) (c : Cell) :
    Erased TryPC.plain p c.mutex (pthreadMutexTrylock id env p c)
      (pthreadMutexTrylock id env p.plain ⟨c.mutex, {}, {}⟩) := by
  cases p with
  | stat | access | accessStore v | fail | failStore v | trylockFail => exact .silent rfl rfl rfl
  | _ =>
    simp only [pthreadMutexTrylock, TryPC.plain]
    repeat' split
    all_goals exact .one rfl rfl

/-- A step of an unlock does to the mutex what it does without records. -/
theorem pthreadMutexUnlockUsercnt_erased (decr : Bool) (id : ℕ) (env : Special) (p : UnlPC)
    (c : Cell) : Erased (fun p => p) p c.mutex (pthreadMutexUnlockUsercnt decr id env p c)
      (pthreadMutexUnlockUsercnt decr id env p ⟨c.mutex, {}, {}⟩) := by
  cases p
  all_goals
    simp only [pthreadMutexUnlockUsercnt]
    repeat' split
  all_goals exact .one rfl rfl

/-- A step of a destroy does to the mutex what it does without records. -/
theorem pthreadMutexDestroy_erased (p : DesPC) (c : Cell) :
    Erased (fun p => p) p c.mutex (pthreadMutexDestroy p c)
      (pthreadMutexDestroy p ⟨c.mutex, {}, {}⟩) := by
  cases p
  all_goals
    simp only [pthreadMutexDestroy]
    repeat' split
  all_goals exact .one rfl rfl

/-- Two maps of the program points in a row. -/
theorem Flow.map_map {A B C : Type} (f : A → B) (g : B → C) (r : Flow A) :
    (r.map f).map g = r.map fun a => g (f a) := by
  cases r <;> rfl

/-- The steps of an operation, as steps of the thread. -/
theorem Erased.map {A B : Type} {plain : A → A} {plain' : B → B} {p : A} {m : MutexData}
    {r o : Flow A × Cell} (h : Erased plain p m r o) (f : A → B)
    (hf : ∀ a, plain' (f a) = f (plain a)) :
    Erased plain' (f p) m (r.1.map f, r.2) (o.1.map f, o.2) := by
  cases h with
  | @silent p' h hp hm =>
    refine @Erased.silent _ _ _ _ _ _ (f p') ?_ ?_ hm
    · rw [h]
      rfl
    · rw [hf, hp, hf]
  | one h hm =>
    refine .one ?_ hm
    simp only [Flow.map_map, hf]
    rw [← Flow.map_map plain f, h, Flow.map_map]

/-- **Counting is all that the counters are for.** -/
theorem cellStep_erased (id : ℕ) (ch : Choice) (pc : PC) (c : Cell) :
    Erased PC.plain pc c.mutex (cellStep id ch pc c)
      (cellStep id ch pc.plain ⟨c.mutex, {}, {}⟩) := by
  cases pc with
  | lock p => exact (pthreadMutexLock_erased .incr id ch.special p c).map PC.lock fun _ => rfl
  | trylock p => exact (pthreadMutexTrylock_erased id ch.special p c).map PC.trylock fun _ => rfl
  | unlock p =>
    exact (pthreadMutexUnlockUsercnt_erased true id ch.special p c).map PC.unlock fun _ => rfl
  | condRelease p =>
    exact (pthreadMutexUnlockUsercnt_erased false id ch.special p c).map PC.condRelease fun _ => rfl
  | condRelock p =>
    exact (pthreadMutexLock_erased .noIncr id ch.special p c).map PC.condRelock fun _ => rfl
  | destroy p => exact (pthreadMutexDestroy_erased p c).map PC.destroy fun _ => rfl
  | condCount | condCountStore v => exact .one rfl rfl
  | condBlocked =>
    simp only [cellStep, opStep, PC.plain]
    split <;> exact .one rfl rfl

namespace Interpose

/-! ### The system -/

/-- The operations on one mutex: states `M`, program points `Q`. -/
structure MutexOps (ι M Q : Type) where
  /-- The mutex before it is used. -/
  fresh : M
  init : BitVec 32 → M → ℕ × M
  entry : RealOp → Q
  step : ι → Choice → Q → M → Flow Q × M

/-- Where a thread stands in a direct call. -/
inductive DirectStage (N Q : Type)
  | idle
  | op (o : RealOp) (n : N) (q : Q)
  | waiting (n : N)
  | init (n : N) (mutexkind : BitVec 32)
  deriving DecidableEq

/-- The mutexes, and the assertion that ended the process, if one did. -/
structure DirectShared (N M : Type) where
  mutexes : N → M
  abort : Option Assert := none

variable {N M P Q σ ι : Type} [DecidableEq N]

/-- Where a direct call starts. -/
def Call.direct (O : MutexOps ι M Q) (call : Call) (n : N) : DirectStage N Q :=
  match call with
  | .lock => .op .lock n (O.entry .lock)
  | .trylock => .op .trylock n (O.entry .trylock)
  | .unlock => .op .unlock n (O.entry .unlock)
  | .condWait => .op .condRelease n (O.entry .condRelease)
  | .destroy => .op .destroy n (O.entry .destroy)
  | .init mutexkind => .init n mutexkind

/-- A call is over when its operation is, but for a wait that has given the mutex up. -/
def DirectStage.returned (o : RealOp) (n : N) (code : ℕ) : DirectStage N Q :=
  if o = .condRelease ∧ code = 0 then .waiting n else .idle

def DirectShared.set (s : DirectShared N M) (n : N) (m : M) : DirectShared N M :=
  { s with mutexes := Function.update s.mutexes n m }

/-- One step of thread `t`. -/
def directNext (O : MutexOps ι M Q) (t : ι) (a : Action N) (l : DirectStage N Q)
    (s : DirectShared N M) : Option (DirectStage N Q × DirectShared N M) :=
  if s.abort.isSome then none else
  match l, a with
  | .idle, .call call n => some (call.direct O n, s)
  | .op o n q, .step ch =>
    match O.step t ch q (s.mutexes n) with
    | (.goto q', m) => some (.op o n q', s.set n m)
    | (.ret code, m) => some (.returned o n code, s.set n m)
    | (.abort x, m) => some (.op o n q, { s.set n m with abort := some x })
  -- the mutex is re-acquired after a wait, also by a thread that was cancelled in it
  | .waiting n, .wake | .waiting n, .cancel => some (.op .condRelock n (O.entry .condRelock), s)
  | .init n mutexkind, .run => some (.idle, s.set n (O.init mutexkind (s.mutexes n)).2)
  | _, _ => none

/-- The threads over one set of mutexes. -/
def direct (O : MutexOps ι M Q) : System ι (Action N) (DirectStage N Q) (DirectShared N M) :=
  ⟨directNext O⟩

/-! ### What the program sees -/

/-- A call, what it returns, the end of a wait, or a failed assertion of the library. -/
inductive Shown (N : Type)
  | call (call : Call) (n : N)
  | woken (cancelled : Bool)
  | ret (o : RealOp) (n : N) (code : ℕ)
  | initialised (n : N) (code : ℕ)
  | abort (x : Assert)
  deriving DecidableEq

/-- What a step of operation `o` on `n` shows. -/
def RealOp.shown (o : RealOp) (n : N) : Flow P → Option (Shown N)
  | .goto _ => none
  | .ret code => if o = .condRelease ∧ code = 0 then none else some (.ret o n code)
  | .abort x => some (.abort x)

/-- What a step of the interposed calls shows. -/
def shown (R : RealOps ι σ P) (x : Event ι (Action N) (Local N P) (Shared N σ)) :
    List (ι × Shown N) :=
  let o : Option (Shown N) := match x.act, (x.pre.loc x.who).stage with
    | .call call n, _ => some (.call call n)
    | .wake, _ => some (.woken false)
    | .cancel, _ => some (.woken true)
    | .step ch, .real k _ p => k.realOp.shown k.nominal (R.step x.who ch p x.pre.sh.real).1
    | .run, .initReal n mutexkind i =>
      some (.initialised n (R.init i mutexkind x.pre.sh.real).1)
    | _, _ => none
  (o.map (x.who, ·)).toList

/-- What a step of the direct calls shows. -/
def directShown (O : MutexOps ι M Q) (x : Event ι (Action N) (DirectStage N Q) (DirectShared N M)) :
    List (ι × Shown N) :=
  let o : Option (Shown N) := match x.act, x.pre.loc x.who with
    | .call call n, _ => some (.call call n)
    | .wake, _ => some (.woken false)
    | .cancel, _ => some (.woken true)
    | .step ch, .op o n q => o.shown n (O.step x.who ch q (x.pre.sh.mutexes n)).1
    | .run, .init n mutexkind =>
      some (.initialised n (O.init mutexkind (x.pre.sh.mutexes n)).1)
    | _, _ => none
  (o.map (x.who, ·)).toList

/-! ### An implementation on slots -/

/-- The step `r` of the implementation is the step `o` of the operation at place `q`, or none. -/
inductive StepRuns (view : σ → ℕ → M) (place : P → ℕ × Q) (p : P) (s : σ) (r : Flow P × σ)
    (o : Flow Q × M) : Prop
  | silent {p' : P} (h : r.1 = .goto p') (hp : place p' = place p) (hs : view r.2 = view s)
  | one (h : r.1.map place = o.1.map (Prod.mk (place p).1))
      (hs : view r.2 = Function.update (view s) (place p).1 o.2)

/-- `R` runs the operations `O` on the mutex in each slot below `bound`: `view s i` is the mutex,
    and `place p` is the slot that a thread at `p` works on, with its place in the operation. -/
structure Runs (R : RealOps ι σ P) (O : MutexOps ι M Q) (view : σ → ℕ → M) (place : P → ℕ × Q)
    (bound : ℕ) : Prop where
  entry : ∀ o i, place (R.entry o i) = (i, O.entry o)
  init : ∀ i mutexkind s, i < bound → view s i = O.fresh →
    (R.init i mutexkind s).1 = (O.init mutexkind O.fresh).1 ∧
    view (R.init i mutexkind s).2 = Function.update (view s) i (O.init mutexkind O.fresh).2
  step : ∀ t ch p s, (place p).1 < bound → StepRuns view place p s (R.step t ch p s)
    (O.step t ch (place p).2 (view s (place p).1))

/-! ### The operations of the other modules -/

/-- The operations on a mutex by itself. -/
def plainOps (id : ι → ℕ) : MutexOps ι MutexData PC where
  fresh := {}
  init := mutexInit
  entry o := ((realOps id id).entry o 0).2.plain
  step t ch pc m :=
    let r := cellStep (id t) ch pc ⟨m, {}, {}⟩
    (r.1.map PC.plain, r.2.mutex)

/-- **The profiler runs the operations of the library.** -/
theorem realOps_runs (id index : ι → ℕ) (bound : ℕ) :
    Runs (realOps id index) (plainOps id) (fun s => s.mutexes) (fun p => (p.1, p.2.plain))
      bound where
  entry o i := by cases o <;> rfl
  init i mutexkind s _ hfresh := hfresh ▸ ⟨rfl, rfl⟩
  step t ch p s _ := by
    have hcell := cellStep_erased (id t) ch p.2 (s.cell p.1 (index t))
    have hstep : (realOps id index).step t ch p s =
        ((cellStep (id t) ch p.2 (s.cell p.1 (index t))).1.map (Prod.mk p.1),
          s.setCell p.1 (index t) (cellStep (id t) ch p.2 (s.cell p.1 (index t))).2) := by
      obtain ⟨i, pc⟩ := p
      cases pc <;> rfl
    rw [hstep]
    cases hcell with
    | @silent p' h hp hm =>
      refine @StepRuns.silent _ _ _ _ _ _ _ _ _ _ (p.1, p') ?_ (by simp only [hp]) ?_
      · rw [h]
        rfl
      · show Function.update s.mutexes p.1 _ = s.mutexes
        rw [hm]
        exact Function.update_eq_self ..
    | one h hm =>
      refine .one ?_ ?_
      · show ((cellStep (id t) ch p.2 (s.cell p.1 (index t))).1.map (Prod.mk p.1)).map
          (fun p => (p.1, p.2.plain)) = _
        rw [Flow.map_map, ← Flow.map_map PC.plain (Prod.mk p.1), h]
        rfl
      · show Function.update s.mutexes p.1 _ = _
        rw [hm]
        rfl

end Interpose

end SyncPerf
