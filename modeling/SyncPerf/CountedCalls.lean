import Mathlib.Data.List.DropRight
import SyncPerf.Contention
import SyncPerf.Transparent

namespace SyncPerf

open Interleaving

/-!
# What the report says of the program's mutexes

The records are kept by slot, and the report has a line for each slot.  By the simulation of
`Transparent`, this time with the counters, they are what direct calls on the nominal mutexes would
count; and that is what the program sees of its own calls.

* `cellStep_sameButStats`, `cellStep_counts` — a step of an operation on its record;
* `CountedMutex`, `countingOps`, `realOps_runs_counting` — the operations with their counters;
* `Counted`, `Counted.run` — direct calls count what the program sees;
* `report_of_program` — the totals of a line of the report, for a nominal mutex.
-/

/-! ### A step of an operation -/

/-- The same step, but for the statistics. -/
structure SameButStats {A : Type} (r o : Flow A × Cell) : Prop where
  flow : r.1 = o.1
  mutex : r.2.mutex = o.2.mutex
  record : r.2.record = o.2.record

/-- The same with other program points. -/
theorem SameButStats.map {A B : Type} {r o : Flow A × Cell} (h : SameButStats r o)
    (f : Flow A → Flow B) : SameButStats (f r.1, r.2) (f o.1, o.2) :=
  ⟨congrArg f h.flow, h.mutex, h.record⟩

/-- A step of a lock does the same whatever the statistics are. -/
theorem pthreadMutexLock_sameButStats (b : Build) (id : ℕ) (env : Special) (p : LockPC) (c : Cell) :
    SameButStats (pthreadMutexLock b id env p c)
      (pthreadMutexLock b id env p { c with stats := {} }) := by
  cases p
  all_goals
    simp only [pthreadMutexLock]
    repeat' split
  all_goals exact ⟨rfl, rfl, rfl⟩

/-- A step of a trylock does the same whatever the statistics are. -/
theorem pthreadMutexTrylock_sameButStats (id : ℕ) (env : Special) (p : TryPC) (c : Cell) :
    SameButStats (pthreadMutexTrylock id env p c)
      (pthreadMutexTrylock id env p { c with stats := {} }) := by
  cases p
  all_goals
    simp only [pthreadMutexTrylock]
    repeat' split
  all_goals exact ⟨rfl, rfl, rfl⟩

/-- A step of an unlock does the same whatever the statistics are. -/
theorem pthreadMutexUnlockUsercnt_sameButStats (decr : Bool) (id : ℕ) (env : Special) (p : UnlPC)
    (c : Cell) : SameButStats (pthreadMutexUnlockUsercnt decr id env p c)
      (pthreadMutexUnlockUsercnt decr id env p { c with stats := {} }) := by
  cases p
  all_goals
    simp only [pthreadMutexUnlockUsercnt]
    repeat' split
  all_goals exact ⟨rfl, rfl, rfl⟩

/-- A step of a destroy does the same whatever the statistics are. -/
theorem pthreadMutexDestroy_sameButStats (p : DesPC) (c : Cell) :
    SameButStats (pthreadMutexDestroy p c) (pthreadMutexDestroy p { c with stats := {} }) := by
  cases p
  all_goals
    simp only [pthreadMutexDestroy]
    repeat' split
  all_goals exact ⟨rfl, rfl, rfl⟩

/-- No step depends on the statistics. -/
theorem cellStep_sameButStats (id : ℕ) (ch : Choice) (pc : PC) (c : Cell) :
    SameButStats (cellStep id ch pc c) (cellStep id ch pc { c with stats := {} }) := by
  cases pc with
  | lock p => exact (pthreadMutexLock_sameButStats .incr id ch.special p c).map _
  | trylock p => exact (pthreadMutexTrylock_sameButStats id ch.special p c).map _
  | unlock p => exact (pthreadMutexUnlockUsercnt_sameButStats true id ch.special p c).map _
  | condRelease p => exact (pthreadMutexUnlockUsercnt_sameButStats false id ch.special p c).map _
  | condRelock p => exact (pthreadMutexLock_sameButStats .noIncr id ch.special p c).map _
  | destroy p => exact (pthreadMutexDestroy_sameButStats p c).map _
  | condCount | condCountStore v | condBlocked => exact ⟨rfl, rfl, rfl⟩

/-- A step of an operation counts what its place says. -/
theorem cellStep_counts {id : ℕ} {ch : Choice} {pc : PC} {c : Cell} (hp : pc.Loaded c.record) :
    Counts pc.stores PC.Loaded PC.phase (pc.Retried c.mutex) pc c (cellStep id ch pc c) := by
  cases pc with
  | condRelease p =>
    refine .of_settled rfl rfl (pthreadMutexUnlockUsercnt_record ..) trivial fun pc' h => ?_
    simp only [cellStep] at h
    cases hr : (pthreadMutexUnlockUsercnt false id ch.special p c).1 <;> rw [hr] at h <;> cases h
    exact ⟨trivial, rfl⟩
  | _ => exact @opStep_counts id ch _ c hp

/-- The operation is a trylock. -/
def PC.isTrylock : PC → Bool
  | .trylock _ => true
  | _ => false

/-- A thread stays in its trylock, and gets into one only by its call. -/
theorem cellStep_isTrylock {id : ℕ} {ch : Choice} {pc pc' : PC} {c : Cell}
    (h : (cellStep id ch pc c).1.target pc = some pc') : pc'.isTrylock = pc.isTrylock := by
  cases pc with
  | lock p | trylock p | condRelease p | condRelock p | destroy p | unlock p =>
    simp only [cellStep, opStep, Flow.target_map] at h
    obtain ⟨p', -, rfl⟩ := Option.map_eq_some_iff.mp h
    rfl
  | condCount | condCountStore v =>
    cases h
    rfl
  | condBlocked =>
    simp only [cellStep, opStep] at h
    split at h <;> cases h <;> rfl

/-- A trylock returns `EBUSY` where it has stored that. -/
theorem pthreadMutexTrylock_ret_busy (id : ℕ) (env : Special) (p : TryPC) (c : Cell) :
    (pthreadMutexTrylock id env p c).1 = .ret eBUSY ↔ p.stores = some .trylockFail := by
  have hne : ∀ result, tryResult result ≠ .ret eBUSY := by
    intro result h
    unfold tryResult at h
    split at h
    · cases h
    · rename_i hne
      exact hne (Flow.ret.inj h)
  have hdispatch : ∀ kind, tryDispatch kind ≠ .ret eBUSY := by
    intro kind h
    simp only [tryDispatch] at h
    repeat' split at h
    all_goals first | exact hne _ h | cases h
  cases p with
  | trylockFailStore v => exact ⟨fun _ => rfl, fun _ => rfl⟩
  | kind => simp [pthreadMutexTrylock, TryPC.stores, hdispatch]
  | recCount | cas recursive =>
    simp only [pthreadMutexTrylock, TryPC.stores]
    split <;> simp [hne]
  | _ => simp [pthreadMutexTrylock, TryPC.stores, hne]

namespace Interpose

variable {N ι : Type} [DecidableEq N] [DecidableEq ι]

/-! ### The operations with their counters -/

/-- A mutex, with the records of the threads on it. -/
@[ext] structure CountedMutex (ι : Type) where
  mutex : MutexData := {}
  records : ι → ThreadMutex := fun _ => {}

/-- The operations on a mutex and the records on it. -/
def countingOps (id : ι → ℕ) : MutexOps ι (CountedMutex ι) PC where
  fresh := {}
  init mutexkind m :=
    let r := mutexInit mutexkind m.mutex
    (r.1, { mutex := r.2 })
  entry o := ((realOps id id).entry o 0).2
  step t ch pc m :=
    let r := cellStep (id t) ch pc ⟨m.mutex, m.records t, {}⟩
    (r.1, ⟨r.2.mutex, Function.update m.records t r.2.record⟩)

/-- The mutex and the records of a slot. -/
def countedView (index : ι → ℕ) (s : SyncPerf.Shared) (i : ℕ) : CountedMutex ι :=
  if i < maxSyncEntries then
    ⟨s.mutexes i, fun t => s.threadSyncData (getThreadMutexData i (index t))⟩
  else {}

omit [DecidableEq ι] in
/-- A slot of the pool has its mutex and its records. -/
theorem countedView_of_lt (index : ι → ℕ) (s : SyncPerf.Shared) {i : ℕ}
    (hi : i < maxSyncEntries) : countedView index s i =
      ⟨s.mutexes i, fun t => s.threadSyncData (getThreadMutexData i (index t))⟩ := if_pos hi

omit [DecidableEq ι] in
/-- Behind the pool there is nothing. -/
theorem countedView_of_not_lt (index : ι → ℕ) (s : SyncPerf.Shared) {i : ℕ}
    (hi : ¬ i < maxSyncEntries) : countedView index s i = {} := if_neg hi

/-- Before anything has happened, every slot holds a fresh mutex. -/
theorem countedView_fresh {id index : ι → ℕ} {s : SyncPerf.Shared} (hzero : ∀ i, s.mutexes i = {})
    (hrecords : ∀ a, s.threadSyncData a = {}) (i : ℕ) :
    countedView index s i = (countingOps id).fresh := by
  unfold countedView
  split
  · rw [hzero i]
    exact CountedMutex.ext rfl (funext fun t => hrecords _)
  · rfl

/-- A step on one slot, by one thread. -/
theorem countedView_setCell {index : ι → ℕ} (hindex : ∀ t, index t < maxThreads)
    (hinj : Function.Injective index) (s : SyncPerf.Shared) {i : ℕ} (hi : i < maxSyncEntries)
    (t : ι) (c : Cell) : countedView index (s.setCell i (index t) c) =
      Function.update (countedView index s) i
        ⟨c.mutex, Function.update (countedView index s i).records t c.record⟩ := by
  funext j
  by_cases hj : j < maxSyncEntries
  · rw [countedView_of_lt _ _ hj]
    by_cases hji : j = i
    · subst hji
      rw [Function.update_self, countedView_of_lt _ _ hi]
      refine CountedMutex.ext (Function.update_self ..) (funext fun u => ?_)
      by_cases hu : u = t
      · subst hu
        simp only [Shared.setCell, Function.update_self]
      · have haddr : getThreadMutexData j (index u) ≠ getThreadMutexData j (index t) := by
          intro h
          exact hu (hinj (getThreadMutexData_inj hi (hindex u) hi (hindex t) h).2)
        simp only [Shared.setCell, Function.update_of_ne haddr, Function.update_of_ne hu]
    · have haddr : ∀ u, getThreadMutexData j (index u) ≠ getThreadMutexData i (index t) :=
        fun u h => hji (getThreadMutexData_inj hj (hindex u) hi (hindex t) h).1
      rw [Function.update_of_ne hji, countedView_of_lt _ _ hj]
      simp only [Shared.setCell, Function.update_of_ne hji, Function.update_of_ne (haddr _)]
  · have hne : j ≠ i := by
      rintro rfl
      exact hj hi
    rw [Function.update_of_ne hne, countedView_of_not_lt _ _ hj, countedView_of_not_lt _ _ hj]

/-- **The profiler runs the operations and their counting**, on the slots that have records. -/
theorem realOps_runs_counting (id : ι → ℕ) {index : ι → ℕ} (hindex : ∀ t, index t < maxThreads)
    (hinj : Function.Injective index) :
    Runs (realOps id index) (countingOps id) (countedView index) (fun p => p) maxSyncEntries where
  entry o i := by cases o <;> rfl
  init i mutexkind s hi hfresh := by
    rw [countedView_of_lt _ _ hi] at hfresh
    have hmutex : s.mutexes i = {} := congrArg CountedMutex.mutex hfresh
    have hrecords := congrArg CountedMutex.records hfresh
    simp only at hrecords
    refine ⟨?_, funext fun j => ?_⟩
    · show (mutexInit mutexkind (s.mutexes i)).1 = (mutexInit mutexkind {}).1
      rw [hmutex]
    · by_cases hji : j = i
      · subst hji
        rw [Function.update_self, countedView_of_lt _ _ hi]
        refine CountedMutex.ext ?_ ?_
        · simp only [realOps, Function.update_self, hmutex]
          rfl
        · exact hrecords
      · rw [Function.update_of_ne hji]
        simp only [countedView, realOps, Function.update_of_ne hji]
  step t ch p s hp := by
    obtain ⟨i, pc⟩ := p
    have hsame := cellStep_sameButStats (id t) ch pc (s.cell i (index t))
    have hstep : (realOps id index).step t ch (i, pc) s =
        ((cellStep (id t) ch pc (s.cell i (index t))).1.map (Prod.mk i),
          s.setCell i (index t) (cellStep (id t) ch pc (s.cell i (index t))).2) := by
      cases pc <;> rfl
    have hview : countedView index s i =
        ⟨s.mutexes i, fun t => s.threadSyncData (getThreadMutexData i (index t))⟩ :=
      countedView_of_lt index s hp
    have hone : (countingOps id).step t ch pc (countedView index s i) =
        ((cellStep (id t) ch pc (s.cell i (index t))).1,
          ⟨(cellStep (id t) ch pc (s.cell i (index t))).2.mutex,
            Function.update (countedView index s i).records t
              (cellStep (id t) ch pc (s.cell i (index t))).2.record⟩) := by
      rw [hsame.flow, hsame.mutex, hsame.record, hview]
      rfl
    refine .one ?_ ?_
    · rw [hstep, hone, Flow.map_map]
    · rw [hstep, hone]
      exact countedView_setCell hindex hinj s hp t _

/-! ### What the program sees of its calls -/

/-- Counter `k` of the records on `n` counts this. -/
def Shown.counted (k : Counter) (n : N) : Shown N → Bool
  | .call .lock m | .call .trylock m => k = .access ∧ m = n
  | .ret .trylock m code => k = .trylockFail ∧ m = n ∧ code = eBUSY
  | _ => false

/-- `n` is initialised. -/
def Shown.isInit (n : N) : Shown N → Bool
  | .initialised m _ => m = n
  | _ => false

/-- What is seen after the last initialisation of `n`. -/
def sinceInit (n : N) (seen : List (ι × Shown N)) : List (ι × Shown N) :=
  seen.rtakeWhile fun x => !x.2.isInit n

/-- What counter `k` of the record of thread `t` on `n` counts. -/
def countedBy (t : ι) (n : N) (k : Counter) (x : ι × Shown N) : Bool :=
  x.1 = t ∧ x.2.counted k n

/-! ### Direct calls count what the program sees -/

/-- The operation on `n` that a thread is in, and its place there. -/
def DirectStage.at (n : N) : DirectStage N PC → Option (RealOp × PC)
  | .op o m q => if m = n then some (o, q) else none
  | _ => none

/-- The record `r` counts what its thread has been `seen` to do, but for the access of a call that
    is still pending. -/
structure Counted (t : ι) (n : N) (seen : List (ι × Shown N)) (at' : Option (RealOp × PC))
    (r : ThreadMutex) : Prop where
  access : (r.get .access + (phaseAt (at'.map Prod.snd)).pending) % 2 ^ 32 =
    seen.countP (countedBy t n .access) % 2 ^ 32
  trylockFail : r.get .trylockFail % 2 ^ 32 =
    seen.countP (countedBy t n .trylockFail) % 2 ^ 32
  loaded : LoadedAt r (at'.map Prod.snd)
  trylock : ∀ o q, at' = some (o, q) → (o = .trylock ↔ PC.isTrylock q)

/-- The thread has not been on the mutex. -/
theorem Counted.zero (t : ι) (n : N) : Counted t n [] none {} where
  access := rfl
  trylockFail := rfl
  loaded p hp := absurd hp (by simp)
  trylock o q h := absurd h (by simp)

/-- Something else is seen. -/
theorem Counted.other {t : ι} {n : N} {seen o : List (ι × Shown N)} {at' : Option (RealOp × PC)}
    {r : ThreadMutex} (h : Counted t n seen at' r) (ho : ∀ x ∈ o, ∀ k, countedBy t n k x = false) :
    Counted t n (seen ++ o) at' r := by
  have hnone : ∀ k, o.countP (countedBy t n k) = 0 := fun k =>
    List.countP_eq_zero.mpr fun x hx => by simp [ho x hx k]
  refine ⟨?_, ?_, h.loaded, h.trylock⟩
  · rw [List.countP_append, hnone, Nat.add_zero]
    exact h.access
  · rw [List.countP_append, hnone, Nat.add_zero]
    exact h.trylockFail

/-- Locks and trylocks count their access. -/
def RealOp.isAccess : RealOp → Bool
  | .lock | .trylock => true
  | _ => false

/-- An operation starts. -/
theorem Counted.enter {t : ι} {n : N} {seen : List (ι × Shown N)} {r : ThreadMutex}
    (h : Counted t n seen none r) (id : ι → ℕ) (o : RealOp) {x : ι × Shown N}
    (haccess : countedBy t n .access x = o.isAccess)
    (hfail : countedBy t n .trylockFail x = false) :
    Counted t n (seen ++ [x]) (some (o, (countingOps id).entry o)) r where
  access := by
    have hold : r.get .access % 2 ^ 32 = seen.countP (countedBy t n .access) % 2 ^ 32 := h.access
    have hpend : (phaseAt (some ((countingOps id).entry o))).pending =
        if o.isAccess then 1 else 0 := by cases o <;> rfl
    rw [List.countP_append, List.countP_singleton, haccess]
    show (_ + (phaseAt (some ((countingOps id).entry o))).pending) % _ = _
    rw [hpend, Nat.add_mod, hold, ← Nat.add_mod]
  trylockFail := by
    rw [List.countP_append, List.countP_singleton, hfail]
    exact h.trylockFail
  loaded p hp := by
    cases hp
    cases o <;> trivial
  trylock o' q hq := by
    cases hq
    cases o <;> simp [countingOps, realOps, PC.isTrylock]

/-- A trylock shows `EBUSY` where it has stored that. -/
theorem RealOp.shown_busy {id : ℕ} {ch : Choice} {t : ι} {n : N} {o : RealOp} {pc : PC} {c : Cell}
    (htry : o = .trylock ↔ pc.isTrylock) :
    ((o.shown n (cellStep id ch pc c).1).map (t, ·)).toList.countP (countedBy t n .trylockFail) =
      if pc.stores = some .trylockFail then 1 else 0 := by
  by_cases ho : o = .trylock
  · subst ho
    cases pc with
    | trylock p =>
      have hbusy := pthreadMutexTrylock_ret_busy id ch.special p c
      have hstores : (PC.trylock p).stores = p.stores := rfl
      simp only [cellStep, opStep, hstores, ← hbusy]
      cases (pthreadMutexTrylock id ch.special p c).1 with
      | goto p' => simp [Flow.map, RealOp.shown]
      | abort x => simp [Flow.map, RealOp.shown, countedBy, Shown.counted]
      | ret code => simp [Flow.map, RealOp.shown, countedBy, Shown.counted, List.countP_singleton]
    | _ => exact absurd (htry.mp rfl) (by simp [PC.isTrylock])
  · -- no other operation stores that count, or returns from a trylock
    have hstores : pc.stores ≠ some .trylockFail := by
      cases pc with
      | trylock p => exact absurd (htry.mpr rfl) ho
      | lock p => cases p <;> simp [PC.stores, LockPC.stores]
      | _ => simp [PC.stores]
    rw [if_neg hstores, List.countP_eq_zero]
    intro x hx
    cases hf : (cellStep id ch pc c).1 with
    | goto p' => simp [hf, RealOp.shown] at hx
    | abort a =>
      simp only [hf, RealOp.shown, Option.map_some, Option.toList_some, List.mem_singleton] at hx
      simp [hx, countedBy, Shown.counted]
    | ret code =>
      simp only [hf, RealOp.shown] at hx
      split at hx
      · simp at hx
      · simp only [Option.map_some, Option.toList_some, List.mem_singleton] at hx
        cases o <;> simp_all [countedBy, Shown.counted]

/-- The end of an operation is no access. -/
theorem RealOp.shown_access {P : Type} {t : ι} {n : N} {o : RealOp} (f : Flow P) :
    ((o.shown n f).map (t, ·)).toList.countP (countedBy t n .access) = 0 := by
  cases f with
  | goto p => rfl
  | abort x => simp [RealOp.shown, countedBy, Shown.counted]
  | ret code =>
    simp only [RealOp.shown]
    split
    · rfl
    · cases o <;> simp [countedBy, Shown.counted]

/-- An operation takes a step. -/
theorem Counted.step {t : ι} {n : N} {seen : List (ι × Shown N)} {o : RealOp} {pc : PC} {c : Cell}
    (h : Counted t n seen (some (o, pc)) c.record) (id : ℕ) (ch : Choice) :
    Counted t n (seen ++ ((o.shown n (cellStep id ch pc c).1).map (t, ·)).toList)
      (((cellStep id ch pc c).1.target pc).map (Prod.mk o)) (cellStep id ch pc c).2.record := by
  have htry := h.trylock o pc rfl
  have hcounts := @cellStep_counts id ch pc c (h.loaded pc rfl)
  have hpend := hcounts.phase.pending
  have hat : (((cellStep id ch pc c).1.target pc).map (Prod.mk o)).map Prod.snd =
      (cellStep id ch pc c).1.target pc := by
    rw [Option.map_map]
    exact Option.map_id' ..
  have hold : (c.record.get .access + pc.phase.pending) % 2 ^ 32 =
    seen.countP (countedBy t n .access) % 2 ^ 32 := h.access
  have hfail : c.record.get .trylockFail % 2 ^ 32 =
    seen.countP (countedBy t n .trylockFail) % 2 ^ 32 := h.trylockFail
  refine ⟨?_, ?_, ?_, ?_⟩
  · rw [hat, phaseAt_target, hcounts.record, ThreadMutex.get_count, List.countP_append,
      RealOp.shown_access, Nat.add_zero, ← hold, hpend]
    -- the store of the access count is where it stops to be pending
    by_cases hacc : pc.stores = some .access
    · simp only [hacc, if_true, inc32]
      omega
    · simp only [if_neg hacc, Nat.add_zero]
  · rw [hcounts.record, ThreadMutex.get_count, List.countP_append, RealOp.shown_busy htry,
      Nat.add_mod, ← hfail]
    by_cases hbusy : pc.stores = some .trylockFail
    · simp only [hbusy, if_true, inc32]
      omega
    · simp only [if_neg hbusy]
      omega
  · rw [hat, hcounts.record]
    exact fun p hp => hcounts.loaded p hp
  · intro o' q hq
    obtain ⟨pc', hpc', hq⟩ := Option.map_eq_some_iff.mp hq
    cases hq
    rw [cellStep_isTrylock hpc']
    exact htry

/-! ### Runs of direct calls -/

/-- Where a step from `q` leaves the thread. -/
def DirectStage.after {Q : Type} (o : RealOp) (n : N) (q : Q) : Flow Q → DirectStage N Q
  | .goto q' => .op o n q'
  | .ret code => .returned o n code
  | .abort _ => .op o n q

/-- The steps of direct calls, one by one: where the thread is then, and the mutexes. -/
inductive DirectCase {M Q : Type} (O : MutexOps ι M Q) (t : ι) (l : DirectStage N Q) (w : N → M) :
    Action N → DirectStage N Q → (N → M) → Prop
  | call {call : Call} {n : N} (h : l = .idle) :
      DirectCase O t l w (.call call n) (call.direct O n) w
  | step {o : RealOp} {n : N} {q : Q} {ch : Choice} (h : l = .op o n q) :
      DirectCase O t l w (.step ch) (.after o n q (O.step t ch q (w n)).1)
        (Function.update w n (O.step t ch q (w n)).2)
  | wake {n : N} (h : l = .waiting n) :
      DirectCase O t l w .wake (.op .condRelock n (O.entry .condRelock)) w
  | cancel {n : N} (h : l = .waiting n) :
      DirectCase O t l w .cancel (.op .condRelock n (O.entry .condRelock)) w
  | init {n : N} {mutexkind : BitVec 32} (h : l = .init n mutexkind) :
      DirectCase O t l w .run .idle (Function.update w n (O.init mutexkind (w n)).2)

omit [DecidableEq ι] in
/-- A step of the direct calls is one of the cases. -/
theorem directNext_eq_some {M Q : Type} {O : MutexOps ι M Q} {t : ι} {a : Action N}
    {l l' : DirectStage N Q} {s s' : DirectShared N M}
    (h : directNext O t a l s = some (l', s')) : DirectCase O t l s.mutexes a l' s'.mutexes := by
  unfold directNext at h
  split at h
  · cases h
  · split at h
    · cases h
      exact .call rfl
    · rename_i o n q ch
      have hcase : DirectCase O t (.op o n q) s.mutexes (.step ch)
          (.after o n q (O.step t ch q (s.mutexes n)).1)
          (Function.update s.mutexes n (O.step t ch q (s.mutexes n)).2) := .step rfl
      split at h
      all_goals
        rename_i hstep
        cases h
        rw [hstep] at hcase
        exact hcase
    · cases h
      exact .wake rfl
    · cases h
      exact .cancel rfl
    · cases h
      exact .init rfl
    · cases h

/-- The mutex of an operation is at its program point. -/
@[simp] theorem DirectStage.at_op (o : RealOp) (n : N) (q : PC) :
    (DirectStage.op o n q).at n = some (o, q) := if_pos rfl

/-- The others are at none. -/
theorem DirectStage.at_op_ne (o : RealOp) {m n : N} (q : PC) (h : m ≠ n) :
    (DirectStage.op o m q).at n = none := if_neg h

/-- Where the mutex is after a step. -/
theorem DirectStage.at_after (o : RealOp) (n : N) (q : PC) (f : Flow PC) :
    (DirectStage.after o n q f).at n = (f.target q).map (Prod.mk o) := by
  cases f with
  | goto q' => exact if_pos rfl
  | abort x => exact if_pos rfl
  | ret code =>
    simp only [DirectStage.after, DirectStage.returned]
    split <;> rfl

/-- The others are still at none. -/
theorem DirectStage.at_after_ne (o : RealOp) {m n : N} (q : PC) (f : Flow PC) (h : m ≠ n) :
    (DirectStage.after o m q f).at n = none := by
  cases f with
  | goto q' => exact if_neg h
  | abort x => exact if_neg h
  | ret code =>
    simp only [DirectStage.after, DirectStage.returned]
    split <;> rfl

/-- A call by another thread, or on another mutex, is not counted here. -/
theorem RealOp.shown_elsewhere {P : Type} {t u : ι} {n m : N} (h : ¬ (u = t ∧ m = n)) (o : RealOp)
    (f : Flow P) (k : Counter) :
    ∀ x ∈ ((o.shown m f).map (u, ·)).toList, countedBy t n k x = false := by
  intro x hx
  cases f with
  | goto p => cases hx
  | abort a =>
    obtain rfl : x = (u, .abort a) := by simpa [RealOp.shown] using hx
    simp [countedBy, Shown.counted]
  | ret code =>
    simp only [RealOp.shown] at hx
    split at hx
    · cases hx
    · obtain rfl : x = (u, .ret o m code) := by simpa using hx
      by_cases hu : u = t
      · have hm : m ≠ n := fun hm => h ⟨hu, hm⟩
        cases o <;> simp [countedBy, Shown.counted, hm]
      · simp [countedBy, hu]

/-- A step elsewhere: the thread does not take it, or is not on the mutex before or after it. -/
theorem Counted.elsewhere {t : ι} {n : N} {seen o : List (ι × Shown N)}
    {loc : ι → DirectStage N PC} {u : ι} {l' : DirectStage N PC} {r r' : ThreadMutex}
    (h : Counted t n seen ((loc t).at n) r)
    (hat : u = t → (loc t).at n = none ∧ l'.at n = none) (hr : r' = r)
    (ho : ∀ k, ∀ x ∈ o, countedBy t n k x = false) :
    Counted t n (seen ++ o) ((Function.update loc u l' t).at n) r' := by
  have hsame : (Function.update loc u l' t).at n = (loc t).at n := by
    by_cases hu : u = t
    · subst hu
      rw [Function.update_self, (hat rfl).1, (hat rfl).2]
    · rw [Function.update_of_ne (Ne.symm hu)]
  rw [hsame, hr]
  exact h.other fun x hx k => ho k x hx

/-- **A step of direct calls.** -/
theorem Counted.directStep {id : ι → ℕ} {t : ι} {n : N} {seen : List (ι × Shown N)}
    {c d : Config ι (DirectStage N PC) (DirectShared N (CountedMutex ι))} {u : ι} {a : Action N}
    (h : Counted t n seen ((c.loc t).at n) ((c.sh.mutexes n).records t))
    (hstep : (direct (countingOps id)).step c u a = some d)
    (hinit : ∀ x ∈ directShown (countingOps id) ⟨c, u, a⟩, x.2.isInit n = false) :
    Counted t n (seen ++ directShown (countingOps id) ⟨c, u, a⟩) ((d.loc t).at n)
      ((d.sh.mutexes n).records t) := by
  obtain ⟨l', s', hnext, rfl⟩ := System.step_eq_some.mp hstep
  have hcase := directNext_eq_some hnext
  simp only [directShown] at hinit ⊢
  generalize s'.mutexes = w' at hcase ⊢
  cases hcase with
  | @call call m hl =>
    simp only [Option.map_some, Option.toList_some] at hinit ⊢
    by_cases here : u = t ∧ m = n
    · obtain ⟨rfl, rfl⟩ := here
      rw [hl] at h
      rw [Function.update_self]
      cases call with
      | init mutexkind => exact h.other fun x hx k => by simp_all [countedBy, Shown.counted]
      | lock | trylock | unlock | condWait | destroy =>
        simp only [Call.direct, DirectStage.at_op]
        exact h.enter id _ (by simp [countedBy, Shown.counted, RealOp.isAccess])
          (by simp [countedBy, Shown.counted])
    · refine h.elsewhere (fun hu => ?_) rfl fun k x hx => ?_
      · rw [← hu, hl]
        have hm : m ≠ n := fun hm => here ⟨hu, hm⟩
        refine ⟨rfl, ?_⟩
        cases call with
        | init mutexkind => rfl
        | _ => exact DirectStage.at_op_ne _ _ hm
      · obtain rfl := List.mem_singleton.mp hx
        rw [not_and] at here
        cases call <;> simp_all [countedBy, Shown.counted]
  | @step o m q ch hl =>
    simp only [hl] at hinit ⊢
    by_cases here : u = t ∧ m = n
    · obtain ⟨rfl, rfl⟩ := here
      rw [hl, DirectStage.at_op] at h
      rw [Function.update_self, Function.update_self, DirectStage.at_after]
      have hstep := @Counted.step N ι _ _ u m seen o q
        ⟨(c.sh.mutexes m).mutex, (c.sh.mutexes m).records u, {}⟩ h (id u) ch
      simpa only [countingOps, Function.update_self] using hstep
    · refine h.elsewhere (fun hu => ?_) ?_ fun k => RealOp.shown_elsewhere here o _ k
      · rw [← hu, hl]
        have hm : m ≠ n := fun hm => here ⟨hu, hm⟩
        exact ⟨DirectStage.at_op_ne _ _ hm, DirectStage.at_after_ne _ _ _ hm⟩
      · by_cases hm : m = n
        · subst hm
          have hu : t ≠ u := fun hu => here ⟨hu.symm, rfl⟩
          simp only [Function.update_self, countingOps, Function.update_of_ne hu]
        · rw [Function.update_of_ne (Ne.symm hm)]
  | @wake m hl | @cancel m hl =>
    simp only [Option.map_some, Option.toList_some] at hinit ⊢
    by_cases here : u = t ∧ m = n
    · obtain ⟨rfl, rfl⟩ := here
      rw [hl] at h
      rw [Function.update_self, DirectStage.at_op]
      exact h.enter id .condRelock (by simp [countedBy, Shown.counted, RealOp.isAccess])
        (by simp [countedBy, Shown.counted])
    · refine h.elsewhere (fun hu => ?_) rfl fun k x hx => ?_
      · rw [← hu, hl]
        exact ⟨rfl, DirectStage.at_op_ne _ _ fun hm => here ⟨hu, hm⟩⟩
      · obtain rfl := List.mem_singleton.mp hx
        simp [countedBy, Shown.counted]
  | @init m mutexkind hl =>
    simp only [hl, Option.map_some, Option.toList_some] at hinit ⊢
    have hm : m ≠ n := by
      simpa [Shown.isInit] using hinit _ List.mem_cons_self
    refine h.elsewhere (fun hu => ?_) (by rw [Function.update_of_ne (Ne.symm hm)]) fun k x hx => ?_
    · rw [← hu, hl]
      exact ⟨rfl, rfl⟩
    · obtain rfl := List.mem_singleton.mp hx
      simp [countedBy, Shown.counted]

/-- **Direct calls count what the program sees.** -/
theorem Counted.run {id : ι → ℕ} {t : ι} {n : N}
    {c d : Config ι (DirectStage N PC) (DirectShared N (CountedMutex ι))}
    {tr : List (Event ι (Action N) (DirectStage N PC) (DirectShared N (CountedMutex ι)))}
    (hat : (c.loc t).at n = none) (hrecord : (c.sh.mutexes n).records t = {})
    (hrun : Run (direct (countingOps id)) c tr d)
    (hinit : ∀ x ∈ observed (directShown (countingOps id)) tr, x.2.isInit n = false) :
    Counted t n (observed (directShown (countingOps id)) tr) ((d.loc t).at n)
      ((d.sh.mutexes n).records t) := by
  refine hrun.history (I := fun tr d =>
    (∀ x ∈ observed (directShown (countingOps id)) tr, x.2.isInit n = false) →
      Counted t n (observed (directShown (countingOps id)) tr) ((d.loc t).at n)
        ((d.sh.mutexes n).records t)) ?_ ?_ hinit
  · intro _
    rw [hat, hrecord]
    exact Counted.zero t n
  · intro tr d u a e ih hstep hinit
    rw [observed_append, observed_singleton] at hinit ⊢
    exact (ih fun x hx => hinit x (List.mem_append_left _ hx)).directStep hstep
      fun x hx => hinit x (List.mem_append_right _ hx)

/-! ### After an initialisation -/

omit [DecidableEq ι] in
/-- Without an initialisation everything counts. -/
theorem sinceInit_of_none {n : N} {seen : List (ι × Shown N)}
    (h : ∀ x ∈ seen, x.2.isInit n = false) : sinceInit n seen = seen := by
  rw [sinceInit, List.rtakeWhile_eq_self_iff]
  exact fun x hx => by simp [h x hx]

omit [DecidableEq ι] in
/-- Only what came after the last initialisation counts. -/
theorem sinceInit_append {n : N} {seen seen' : List (ι × Shown N)} {x : ι × Shown N}
    (hx : x.2.isInit n = true) (h : ∀ y ∈ seen', y.2.isInit n = false) :
    sinceInit n (seen ++ [x] ++ seen') = seen' := by
  unfold sinceInit
  induction seen' using List.reverseRecOn with
  | nil => rw [List.append_nil, List.rtakeWhile_concat_neg _ _ _ (by simp [hx])]
  | append_singleton l y ih =>
    have hy : y.2.isInit n = false := h y (by simp)
    rw [← List.append_assoc, List.rtakeWhile_concat_pos _ _ _ (by simp [hy]),
      ih fun z hz => h z (by simp [hz])]

variable {M P Q σ : Type} {R : RealOps ι σ P} {O : MutexOps ι M Q} {view : σ → ℕ → M}
  {place : P → ℕ × Q} {bound : ℕ}

omit [DecidableEq ι] in
/-- What shows an initialisation is its last step. -/
theorem initReal_of_shown {n : N} {x : Event ι (Action N) (Local N P) (Shared N σ)}
    {y : ι × Shown N} (hy : y ∈ shown R x) (hn : y.2.isInit n = true) :
    x.act = .run ∧ shown R x = [y] ∧
      ∃ mutexkind i, (x.pre.loc x.who).stage = .initReal n mutexkind i := by
  obtain ⟨o, ho, rfl⟩ := Option.map_eq_some_iff.mp (Option.mem_toList.mp hy)
  have hone : shown R x = [(x.who, o)] :=
    congrArg (fun o => (o.map (x.who, ·)).toList) ho
  split at ho
  · cases ho
    exact absurd hn (by simp [Shown.isInit])
  · cases ho
    exact absurd hn (by simp [Shown.isInit])
  · cases ho
    exact absurd hn (by simp [Shown.isInit])
  · rename_i k i p hact hst
    unfold RealOp.shown at ho
    repeat' split at ho
    all_goals
      cases ho
      try exact absurd hn (by simp [Shown.isInit])
  · rename_i m mutexkind i hact hst
    cases ho
    obtain rfl : m = n := by simpa [Shown.isInit] using hn
    exact ⟨hact, hone, mutexkind, i, hst⟩
  · cases ho

omit [DecidableEq ι] in
/-- Nothing that was seen is an initialisation. -/
theorem not_isInit_observed {n : N} {tr : List (Event ι (Action N) (Local N P) (Shared N σ))}
    (h : ∀ x ∈ tr, ¬ ∃ y ∈ shown R x, y.2.isInit n = true) :
    ∀ y ∈ observed (shown R) tr, y.2.isInit n = false := by
  intro y hy
  obtain ⟨x, hx, hyx⟩ := List.mem_flatMap.mp hy
  exact Bool.eq_false_iff.mpr fun hyn => h x hx ⟨y, hyx, hyn⟩

omit [DecidableEq ι] in
/-- A thread that is not on the mutex is not on it in the direct calls either. -/
theorem Related.not_on {O : MutexOps ι M PC} {c : Config ι (Local N (ℕ × PC)) (Shared N σ)}
    {b : Config ι (DirectStage N PC) (DirectShared N M)}
    (h : Related O view (fun p => p) bound c b) {t : ι} {n : N} (hn : ¬ (c.loc t).stage.on n)
    (hwild : (c.loc t).stage ≠ .wild) : (b.loc t).at n = none := by
  have hloc := h.loc t
  generalize (c.loc t).stage = st at hloc hn hwild
  cases st with
  | wild => exact absurd rfl hwild
  | isMyMutex k | createMutex k | expected k i | doubleCheck k i e | compareAndSwap k i e
  | getMutexAssert k addr | getMutexReturn k addr | real k i p =>
    rw [hloc _ rfl]
    exact DirectStage.at_op_ne _ _ hn
  | _ =>
    rw [hloc _ rfl]
    rfl

/-- No step leads out of a wild access. -/
theorem wild_run {c d : Config ι (Local N P) (Shared N σ)}
    {tr : List (Event ι (Action N) (Local N P) (Shared N σ))} (hrun : Run (system R) c tr d)
    {t : ι} (h : (c.loc t).stage = .wild) : (d.loc t).stage = .wild := by
  refine hrun.invariant (I := fun c => (c.loc t).stage = .wild) h ?_
  intro c u a d hc hstep
  obtain ⟨l', s', hnext, rfl⟩ := System.step_eq_some.mp hstep
  by_cases hu : t = u
  · subst hu
    change next R t a (c.loc t) c.sh = _ at hnext
    simp only [next, hc] at hnext
    split at hnext <;> cases hnext
  · simpa only [Function.update_of_ne hu] using hc

omit [DecidableEq ι] in
/-- The end of an initialisation is no failure. -/
theorem initReal_abort {t : ι} {n : N} {mutexkind : BitVec 32} {i : ℕ} {l l' : Local N P}
    {s s' : Shared N σ} (hl : l.stage = .initReal n mutexkind i)
    (h : next R t .run l s = some (l', s')) : s'.abort = none := by
  have hab := (next_eq_some h).1
  simp only [next, hab, hl, Option.isSome_none, Bool.false_eq_true, if_false] at h
  obtain ⟨-, rfl⟩ := Prod.mk.inj (Option.some.inj h)
  rfl

/-- The records of a mutex that has just been initialised are empty, and nobody is on it. -/
theorem Related.initialised {id : ι → ℕ} {R : RealOps ι σ (ℕ × PC)}
    {view : σ → ℕ → CountedMutex ι} (hruns : Runs R (countingOps id) view (fun p => p) bound)
    {c : Config ι (Local N (ℕ × PC)) (Shared N σ)}
    {b b' : Config ι (DirectStage N PC) (DirectShared N (CountedMutex ι))}
    (h : Related (countingOps id) view (fun p => p) bound c b) (hab : c.sh.abort = none) {t : ι}
    {n : N} {mutexkind : BitVec 32} {i : ℕ} {l' : Local N (ℕ × PC)} {s' : Shared N σ}
    (hl : (c.loc t).stage = .initReal n mutexkind i)
    (hnext : next R t .run (c.loc t) c.sh = some (l', s'))
    (h' : Related (countingOps id) view (fun p => p) bound ⟨Function.update c.loc t l', s'⟩ b')
    (u : ι) : (b'.sh.mutexes n).records u = {} ∧
      ((Function.update c.loc t l' u).stage ≠ .wild → (b'.loc u).at n = none) := by
  obtain ⟨hw, hfresh, -⟩ : c.sh.word n = some i ∧ view c.sh.real i = (countingOps id).fresh ∧
      ((countingOps id).init mutexkind (countingOps id).fresh).1 = 0 := by
    have hok := h.stage t
    rw [hl] at hok
    exact hok
  have hview := (hruns.init i mutexkind c.sh.real
    (((h.word_lt _ _ hw).trans_le h.cur).trans_le h.total) hfresh).2
  simp only [next, hab, hl, Option.isSome_none, Bool.false_eq_true, if_false] at hnext
  obtain ⟨rfl, rfl⟩ := Prod.mk.inj (Option.some.inj hnext)
  -- no other thread is on the mutex
  have hnot : ∀ v, ¬ (Function.update c.loc t { c.loc t with stage := .idle } v).stage.on n := by
    refine forall_update (P := fun _ (l : Local N (ℕ × PC)) => ¬ l.stage.on n) (fun hn => hn) ?_
    exact fun v hv => (h.apart t v hv.symm).init n (by rw [hl]; rfl)
  refine ⟨?_, fun hwild => h'.not_on (hnot u) hwild⟩
  rw [h'.mutex n fun v hv => hnot v hv.initialising.on]
  simp only [Shared.behind, hw, hview, Function.update_self]
  rfl

/-! ### The report -/

/-- An initialisation that succeeds leaves a fresh mutex. -/
theorem countingOps_resets (id : ι → ℕ) (mutexkind : BitVec 32) (m : CountedMutex ι)
    (h : ((countingOps id).init mutexkind (countingOps id).fresh).1 = 0) :
    (countingOps id).init mutexkind m = (countingOps id).init mutexkind (countingOps id).fresh := by
  simp only [countingOps, mutexInit_resets mutexkind m.mutex h]

/-- From when nobody is on a mutex and its records are empty, these count what is seen, up to when
    nobody is in a call. -/
theorem counted_since {id index : ι → ℕ} (hindex : ∀ t, index t < maxThreads)
    (hinj : Function.Injective index)
    {c d : Config ι (Local N (ℕ × PC)) (Shared N SyncPerf.Shared)}
    {b : Config ι (DirectStage N PC) (DirectShared N (CountedMutex ι))}
    {tr : List (Event ι (Action N) (Local N (ℕ × PC)) (Shared N SyncPerf.Shared))}
    (h : Beside (countingOps id) (countedView index) (fun p => p) maxSyncEntries c b)
    (hrun : Run (system (realOps id index)) c tr d)
    (horderly : ∀ x ∈ tr, Orderly (countingOps id) x) (hab : d.sh.abort = none)
    (hidle : ∀ t, (d.loc t).stage = .idle) {n : N} {i : ℕ} (hword : d.sh.word n = some i)
    (hstart : ∀ t, (b.sh.mutexes n).records t = {} ∧
      ((c.loc t).stage ≠ .wild → (b.loc t).at n = none))
    (hinit : ∀ x ∈ observed (shown (realOps id index)) tr, x.2.isInit n = false) (t : ι) :
    Counted t n (observed (shown (realOps id index)) tr) none
      (d.sh.real.threadSyncData (getThreadMutexData i (index t))) := by
  have hsim := simulates_direct (N := N) (realOps_runs_counting id hindex hinj)
    (countingOps_resets id)
  obtain ⟨tr', e, hrun', hobs, hR⟩ := hsim.run h hrun horderly
  have hrel := hR hab
  have hwild : (c.loc t).stage ≠ .wild := fun hw =>
    absurd ((wild_run hrun hw).symm.trans (hidle t)) (by simp)
  have hcounted := Counted.run ((hstart t).2 hwild) (hstart t).1 hrun' (hobs ▸ hinit)
  have hi : i < maxSyncEntries := ((hrel.word_lt _ _ hword).trans_le hrel.cur).trans_le hrel.total
  have hmutex : e.sh.mutexes n = countedView index d.sh.real i := by
    rw [hrel.mutex n fun u hu => ?_, Shared.behind, hword]
    rw [hidle u] at hu
    exact hu
  have hloc : e.loc t = .idle := hrel.loc t _ (by rw [hidle t]; rfl)
  rw [hobs, hloc, hmutex, countedView_of_lt _ _ hi] at hcounted
  exact hcounted

/-- The sum over the threads is what is seen of all of them. -/
theorem totalCount_of_counted {index : ι → ℕ} {threads : ℕ} (hinj : Function.Injective index)
    (hthreads : ∀ j, j < threads ↔ ∃ t, index t = j) {n : N} {seen : List (ι × Shown N)}
    {perThdData : ℕ → ThreadMutex} (k : Counter)
    (h : ∀ t, (perThdData (index t)).get k % 2 ^ 32 = seen.countP (countedBy t n k) % 2 ^ 32) :
    Report.totalCount k perThdData threads =
      seen.countP (fun x => x.2.counted k n) % 2 ^ 32 := by
  have hby : ∀ x ∈ seen, x.2.counted k n → ∃ j < threads, some (index x.1) = some j :=
    fun x _ _ => ⟨index x.1, (hthreads _).mpr ⟨x.1, rfl⟩, rfl⟩
  rw [Report.totalCount_eq, countP_eq_sum hby, Report.exactCount]
  rw [Finset.sum_nat_mod, Finset.sum_nat_mod _ _ fun j => List.countP _ seen]
  congr 1
  refine Finset.sum_congr rfl fun j hj => ?_
  obtain ⟨t, rfl⟩ := (hthreads j).mp (Finset.mem_range.mp hj)
  rw [h t]
  congr 1
  refine List.countP_congr fun x _ => ?_
  simp only [countedBy, Bool.decide_and, Bool.and_eq_true, decide_eq_true_eq, Option.some.injEq,
    hinj.eq_iff]
  exact and_comm

/-- **The report counts the calls of the program.**  When no thread is in a call, the accesses that
    the report sums for a nominal mutex are the calls of `pthread_mutex_lock` and
    `pthread_mutex_trylock` that the program has made on it since it last initialised it, and the
    failed trylocks are those that returned `EBUSY`: through the slots, the races for them, and the
    waits. -/
theorem report_of_program {id index : ι → ℕ} {threads : ℕ} (hinj : Function.Injective index)
    (hthreads : ∀ j, j < threads ↔ ∃ t, index t = j) (hmax : threads ≤ maxThreads)
    {c d : Config ι (Local N (ℕ × PC)) (Shared N SyncPerf.Shared)}
    {tr : List (Event ι (Action N) (Local N (ℕ × PC)) (Shared N SyncPerf.Shared))}
    (h : Unused c) (htotal : c.sh.syncVars.total ≤ maxSyncEntries)
    (hzero : ∀ i, c.sh.real.mutexes i = {}) (hrecords : ∀ a, c.sh.real.threadSyncData a = {})
    (hrun : Run (system (realOps id index)) c tr d)
    (horderly : ∀ x ∈ tr, Orderly (countingOps id) x) (hab : d.sh.abort = none)
    (hidle : ∀ t, (d.loc t).stage = .idle) {n : N} {i : ℕ} (hword : d.sh.word n = some i) :
    ∀ k, k = .access ∨ k = .trylockFail →
      Report.totalCount k (fun j => d.sh.real.threadSyncData (getThreadMutexData i j)) threads =
        (sinceInit n (observed (shown (realOps id index)) tr)).countP
          (fun x => x.2.counted k n) % 2 ^ 32 := by
  have hindex : ∀ t, index t < maxThreads := fun t =>
    ((hthreads _).mpr ⟨t, rfl⟩).trans_le hmax
  have hstart : Beside (countingOps id) (countedView index) (fun p => p) maxSyncEntries c
      (directStart (countingOps id)) :=
    fun _ => Related.initial h htotal (countedView_fresh hzero hrecords)
  have hruns := realOps_runs_counting id hindex hinj
  -- every record counts what has been seen since the last initialisation
  have hcounted : ∀ t, Counted t n (sinceInit n (observed (shown (realOps id index)) tr)) none
      (d.sh.real.threadSyncData (getThreadMutexData i (index t))) := by
    intro t
    rcases hrun.last fun x => ∃ y ∈ shown (realOps id index) x, y.2.isInit n = true with
      hno | ⟨tr₁, ⟨c₁, u, a⟩, e, tr₂, rfl, ⟨y, hy, hyn⟩, hrun₁, hstep, hrun₂, hlater⟩
    · rw [sinceInit_of_none (not_isInit_observed hno)]
      exact counted_since hindex hinj hstart hrun horderly hab hidle hword
        (fun u => ⟨rfl, fun _ => rfl⟩) (not_isInit_observed hno) t
    · obtain ⟨hact, hshown, mutexkind, j, hl⟩ := initReal_of_shown hy hyn
      obtain rfl : a = .run := hact
      rw [observed_append, observed_append, observed_singleton, hshown,
        sinceInit_append hyn (not_isInit_observed hlater)]
      obtain ⟨l', s', hnext, rfl⟩ := System.step_eq_some.mp hstep
      have hab₁ := (next_eq_some hnext).1
      have hab₂ := initReal_abort hl hnext
      obtain ⟨tr', b, -, -, hR⟩ :=
        (simulates_direct (N := N) hruns (countingOps_resets id)).run hstart hrun₁
          fun x hx => horderly x (by simp [hx])
      obtain ⟨tr'', b', -, -, hR'⟩ :=
        (hR hab₁).initialise hruns (countingOps_resets id) hab₁ hl hnext
      exact counted_since hindex hinj hR' hrun₂ (fun x hx => horderly x (by simp [hx])) hab hidle
        hword ((hR hab₁).initialised hruns hab₁ hl hnext (hR' hab₂)) (not_isInit_observed hlater) t
  rintro k (rfl | rfl)
  · exact totalCount_of_counted hinj hthreads _ fun t => (hcounted t).access
  · exact totalCount_of_counted hinj hthreads _ fun t => (hcounted t).trylockFail

/-- A thread locks a mutex, initialises it and locks it again, and the other thread's trylock
    fails. -/
def reuse : List (Bool × Action Bool) :=
  List.flatten [[(false, .call .lock false)], List.replicate 7 (false, .run),
    List.replicate 9 (false, .step {}), [(false, .call (.init 0) false)],
    List.replicate 3 (false, .run), [(false, .call .lock false)], List.replicate 3 (false, .run),
    List.replicate 9 (false, .step {}), [(true, .call .trylock false)],
    List.replicate 3 (true, .run), List.replicate 8 (true, .step {})]

/-- What the run leads to. -/
def reused := (system pairOps).execute pairUnused reuse (by decide +kernel)

/-- Two accesses and one failed trylock since the last initialisation. -/
theorem report_of_program_reused :
    Report.totalCount .access (fun j => reused.2.sh.real.threadSyncData (getThreadMutexData 1 j)) 2
        = 2 ∧
      Report.totalCount .trylockFail
        (fun j => reused.2.sh.real.threadSyncData (getThreadMutexData 1 j)) 2 = 1 := by
  have hrun : Run (system pairOps) pairUnused reused.1 reused.2 := System.execute_run _ _ _ _
  have hinj : Function.Injective fun t : Bool => if t then 1 else 0 := by decide
  have hthreads : ∀ j, j < 2 ↔ ∃ t : Bool, (if t then 1 else 0) = j := by
    intro j
    rw [Bool.exists_bool]
    simp only [Bool.false_eq_true, if_false, if_true]
    omega
  have hcount := report_of_program hinj hthreads (by decide) pairUnused_unused le_rfl
    (fun _ => rfl) (fun _ => rfl) hrun (by decide +kernel) (by decide +kernel)
    (by decide +kernel) (show reused.2.sh.word false = some 1 by decide +kernel)
  rw [hcount .access (.inl rfl), hcount .trylockFail (.inr rfl)]
  decide +kernel

end Interpose

end SyncPerf
