import SyncPerf.LowLevelLock
import SyncPerf.MutexUnlock
import SyncPerf.Simulation

namespace SyncPerf.LowLevelLock

open Interleaving

/-!
# The low-level lock is an atomic lock word

The steps of `pthread_mutex_lock` and `__pthread_mutex_unlock_usercnt` take `lll_lock`,
`lll_trylock` and `lll_unlock` as atomic accesses of the lock word.  Every run of the instructions
of these macros is a run of those steps: an unlock of a word with waiters takes place when the 0 is
stored, up to which the word counts as 2, although `decl` has left 1 there.

* `atomicNext`, `atomicSystem` — threads at those points of the mutex operations;
* `shown`, `atomicShown` — calls, acquisitions, failures and releases of a run;
* `Refines`, `refines_simulates` — the simulation;
* `refines_atomic_word` — every run of the instructions shows what a run on an atomic word shows.
-/

/-! ### Steps on an atomic word -/

/-- The build of the mutex operations that uses the macro. -/
def Macro.build : Macro → Build
  | .lock | .trylock => .incr
  | .condLock | .condTrylock => .noIncr

/-- Where `pthread_mutex_lock` uses it: in the normal case, or at the head of the adaptive one. -/
def Macro.entry : Macro → LockPC
  | .lock | .condLock => .cas .simple
  | .trylock | .condTrylock => .adTry

/-- A thread of the mutex operations, as far as the lock word is concerned. -/
inductive AtomicPC
  | outside
  | attempt (op : Macro) (p : LockPC)
  | holding
  | unlocking
  deriving DecidableEq

/-- What a thread does next: a call, or a step of the call that it is in. -/
inductive AtomicAction
  | call (op : Macro)
  | unlock
  | run

/-- Where a step of `pthread_mutex_lock` from such a point leads: on waiting, out of a trylock that
    failed, or behind the acquisition. -/
def afterAttempt (op : Macro) : Flow LockPC → AtomicPC
  | .goto (.wait t) => .attempt op (.wait t)
  | .goto .adSpins => .outside
  | _ => .holding

variable {ι : Type}

/-- One step of thread `i`, whose id is `id i`. -/
def atomicNext (id : ι → ℕ) (i : ι) (a : AtomicAction) (l : AtomicPC) (m : MutexData) :
    Option (AtomicPC × MutexData) :=
  match a, l with
  | .call op, .outside => some (.attempt op op.entry, m)
  | .unlock, .holding => some (.unlocking, m)
  | .run, .attempt op p =>
    let r := pthreadMutexLock op.build (id i) ⟨m, 0⟩ p ⟨m, {}, {}⟩
    some (afterAttempt op r.1, r.2.mutex)
  | .run, .unlocking =>
    some (.outside, (pthreadMutexUnlockUsercnt true (id i) ⟨m, 0⟩ .word ⟨m, {}, {}⟩).2.mutex)
  | _, _ => none

/-- Threads that lock, try and unlock one atomic word. -/
def atomicSystem (id : ι → ℕ) : System ι AtomicAction AtomicPC MutexData := ⟨atomicNext id⟩

/-- An attempt on a free word ends with the lock. -/
theorem atomicNext_free {id : ι → ℕ} {i : ι} {op : Macro} {m : MutexData} (h0 : m.lock = 0) :
    atomicNext id i .run (.attempt op op.entry) m =
        some (.holding, { m with lock := op.newval.toNat }) ∧
      atomicNext id i .run (.attempt op (.wait .simple)) m =
        some (.holding, { m with lock := 2 }) := by
  constructor <;> cases op <;>
    simp [atomicNext, pthreadMutexLock, Macro.entry, h0, lllLockInitializer, afterAttempt,
      LockTarget.next, Macro.build, Build.acquired, Macro.newval, lllLockInitializerLocked,
      lllLockInitializerWaiters]

/-- On a word that is not free a lock goes on waiting, and marks the word when it exchanges; a
    trylock fails. -/
theorem atomicNext_locked {id : ι → ℕ} {i : ι} {op : Macro} {m : MutexData} (h0 : m.lock ≠ 0) :
    atomicNext id i .run (.attempt op op.entry) m =
        some (if op.waits then .attempt op (.wait .simple) else .outside, m) ∧
      atomicNext id i .run (.attempt op (.wait .simple)) m =
        some (.attempt op (.wait .simple), { m with lock := 2 }) := by
  constructor <;> cases op <;>
    simp [atomicNext, pthreadMutexLock, Macro.entry, h0, lllLockInitializer, afterAttempt,
      Macro.waits, lllLockInitializerWaiters]

/-! ### Observations -/

/-- What is seen of the use of a lock. -/
inductive Shown (ι : Type)
  | called (i : ι) (op : Macro)
  | acquired (i : ι)
  | failed (i : ι)
  | released (i : ι)

/-- An unlock is seen when it puts 0 into the word. -/
def shown (x : Event ι (Action ι) Local (Shared ι)) : List (Shown ι) :=
  match x.act, (x.pre.loc x.who).pc with
  | .call op, _ => [.called x.who op]
  | .run, .cmpxchg op =>
    if x.pre.sh.futex = 0 then [.acquired x.who]
    else if op.waits then [] else [.failed x.who]
  | .run, .xchg _ => if x.pre.sh.futex = 0 then [.acquired x.who] else []
  | .run, .decl => if x.pre.sh.futex - 1 = 0 then [.released x.who] else []
  | .run, .store => [.released x.who]
  | _, _ => []

/-- What is seen of an attempt on the word. -/
def atomicShown (x : Event ι AtomicAction AtomicPC MutexData) : List (Shown ι) :=
  match x.act, x.pre.loc x.who with
  | .call op, _ => [.called x.who op]
  | .run, .attempt op p =>
    if x.pre.sh.lock = 0 then [.acquired x.who]
    else if op.waits ∨ p = .wait .simple then [] else [.failed x.who]
  | .run, .unlocking => [.released x.who]
  | _, _ => []

/-! ### The simulation -/

/-- Where a thread is for the atomic word: asleep or awake in `__lll_lock_wait` it is waiting, and
    a release is behind it once 0 is stored. -/
def PC.atomic : PC → AtomicPC
  | .outside | .futexWake => .outside
  | .cmpxchg op => .attempt op op.entry
  | .futexWait op | .blocked op | .xchg op => .attempt op (.wait .simple)
  | .holding => .holding
  | .decl | .store => .unlocking

variable [DecidableEq ι]

/-- The atomic word is the futex word, or 2 while a thread is about to store 0. -/
structure Refines (c : Config ι Local (Shared ι)) (b : Config ι AtomicPC MutexData) : Prop where
  inv : Inv c
  loc : ∀ i, b.loc i = (c.loc i).pc.atomic
  releasing : ∀ i, (c.loc i).pc = .store → b.sh.lock = 2
  word : (∀ i, (c.loc i).pc ≠ .store) → b.sh.lock = c.sh.futex.toNat

variable {c d : Config ι Local (Shared ι)} {b : Config ι AtomicPC MutexData} {i : ι}

omit [DecidableEq ι] in
/-- The words are 0 at the same time. -/
theorem Refines.lock_eq_zero (h : Refines c b) : b.sh.lock = 0 ↔ c.sh.futex = 0 := by
  by_cases hs : ∃ i, (c.loc i).pc = .store
  · obtain ⟨i, hi⟩ := hs
    have hne := (h.inv.of_owns (i := i) (by simp [hi, PC.owns])).1
    exact iff_of_false (by simp [h.releasing i hi]) hne
  · have hw := h.word (by simpa using hs)
    rw [hw]
    constructor
    · intro h0
      exact BitVec.eq_of_toNat_eq h0
    · intro h0
      rw [h0]
      rfl

/-- No other thread than the one with the lock is about to store 0. -/
theorem Refines.store_unique (h : Refines c b) (hown : (c.loc i).pc.owns = true) {l : Local}
    (hl : l.pc ≠ .store) : ∀ j, (Function.update c.loc i l j).pc ≠ .store := by
  refine forall_update (P := fun _ (l : Local) => l.pc ≠ .store) hl fun j hj hpc => ?_
  have hnot := (h.inv.of_owns hown).2 j hj
  simp [hpc, PC.owns] at hnot

/-- The local states stay related when both threads step. -/
theorem Refines.loc_update (h : Refines c b) {l : Local} {l' : AtomicPC} (hl : l' = l.pc.atomic) :
    ∀ j, Function.update b.loc i l' j = (Function.update c.loc i l j).pc.atomic := by
  intro j
  by_cases hji : j = i
  · rw [hji, Function.update_self, Function.update_self, hl]
  · rw [Function.update_of_ne hji, Function.update_of_ne hji, h.loc j]

/-- The local states stay related when only the thread of the low-level lock steps. -/
theorem Refines.loc_stay (h : Refines c b) {l : Local} (hl : (c.loc i).pc.atomic = l.pc.atomic) :
    ∀ j, b.loc j = (Function.update c.loc i l j).pc.atomic := by
  have hloc := h.loc_update (i := i) (l := l) (hl ▸ h.loc i)
  rwa [Function.update_eq_self] at hloc

/-- The words stay related when neither changes and the stepping thread was not, and is not, about
    to store 0. -/
theorem Refines.of_same (h : Refines c b) {l : Local} {q : Finset ι} {loc' : ι → AtomicPC}
    (hinv : Inv ⟨Function.update c.loc i l, ⟨c.sh.futex, q⟩⟩)
    (hloc : ∀ j, loc' j = (Function.update c.loc i l j).pc.atomic)
    (hpc : (c.loc i).pc ≠ .store) (hl : l.pc ≠ .store) :
    Refines ⟨Function.update c.loc i l, ⟨c.sh.futex, q⟩⟩ ⟨loc', b.sh⟩ where
  inv := hinv
  loc := hloc
  releasing := by
    refine forall_update (P := fun _ (l : Local) => l.pc = .store → b.sh.lock = 2)
      (fun h => absurd h hl) fun j _ hj => h.releasing j hj
  word := by
    intro hall
    refine h.word fun j => ?_
    by_cases hji : j = i
    · rw [hji]
      exact hpc
    · have hj : (Function.update c.loc i l j).pc ≠ .store := hall j
      rwa [Function.update_of_ne hji] at hj

omit [DecidableEq ι] in
/-- The words are related after a step that writes the same value into both, when no thread is
    about to store 0, or the value is 2. -/
theorem Refines.of_word {loc : ι → Local} {loc' : ι → AtomicPC} {v : BitVec 32} {q : Finset ι}
    {m : MutexData} (hinv : Inv ⟨loc, ⟨v, q⟩⟩) (hloc : ∀ j, loc' j = (loc j).pc.atomic)
    (hstore : (∀ j, (loc j).pc ≠ .store) ∨ v = 2) :
    Refines ⟨loc, ⟨v, q⟩⟩ ⟨loc', { m with lock := v.toNat }⟩ where
  inv := hinv
  loc := hloc
  releasing := by
    intro j hj
    rcases hstore with hnone | rfl
    · exact absurd hj (hnone j)
    · rfl
  word := fun _ => rfl

/-- **Every instruction is a step on the atomic word, or none.** -/
theorem refines_simulates (id : ι → ℕ) :
    Simulates (system : System ι _ _ _) (atomicSystem id) shown atomicShown (fun _ => True)
      Refines := by
  intro c b i a d h _ hstep
  have hinv := h.inv.step hstep
  obtain ⟨l, s, hnext, rfl⟩ := System.step_eq_some.mp hstep
  have hl0 := h.lock_eq_zero
  -- an answer by one step of the same thread, and an answer by no step
  have hone : ∀ a' l' m', atomicNext id i a' (b.loc i) b.sh = some (l', m') →
      atomicShown ⟨b, i, a'⟩ = shown ⟨c, i, a⟩ →
      Refines ⟨Function.update c.loc i l, s⟩ ⟨Function.update b.loc i l', m'⟩ →
      Answered (atomicSystem id) atomicShown b (shown ⟨c, i, a⟩)
        (Refines ⟨Function.update c.loc i l, s⟩) := by
    intro a' l' m' hb hshown hR
    rw [← hshown]
    exact Answered.one (System.step_eq_some.mpr ⟨l', m', hb, rfl⟩) hR
  have hstay : shown ⟨c, i, a⟩ = [] → Refines ⟨Function.update c.loc i l, s⟩ b →
      Answered (atomicSystem id) atomicShown b (shown ⟨c, i, a⟩)
        (Refines ⟨Function.update c.loc i l, s⟩) := by
    intro hshown hR
    rw [hshown]
    exact Answered.stay hR
  have hloc := h.loc i
  cases next_eq_some hnext with
  | @call op hpc =>
    refine hone (.call op) (.attempt op op.entry) b.sh ?_ rfl ?_
    · simp [atomicNext, hloc, hpc, PC.atomic]
    · exact h.of_same hinv (h.loc_update rfl) (by simp [hpc]) (by simp)
  | unlock hpc =>
    refine hone .unlock .unlocking b.sh ?_ ?_ ?_
    · simp [atomicNext, hloc, hpc, PC.atomic]
    · simp [atomicShown, shown]
    · exact h.of_same hinv (h.loc_update rfl) (by simp [hpc]) (by simp)
  | @taken op hpc h0 =>
    have hat : b.loc i = .attempt op op.entry := by rw [hloc, hpc]; rfl
    refine hone .run .holding { b.sh with lock := op.newval.toNat } ?_ ?_ ?_
    · rw [hat]
      exact (atomicNext_free (hl0.mpr h0)).1
    · simp [atomicShown, shown, hpc, hat, h0, hl0]
    · refine .of_word hinv (h.loc_update rfl) (.inl ?_)
      -- nobody has the lock
      refine forall_update (P := fun _ (l : Local) => l.pc ≠ .store) (by simp) fun j _ hj => ?_
      have hnot := h.inv.free.mp h0 j
      simp [hj, PC.owns] at hnot
  | @wait op hpc h0 hop =>
    have hat : b.loc i = .attempt op op.entry := by rw [hloc, hpc]; rfl
    refine hone .run (.attempt op (.wait .simple)) b.sh ?_ ?_ ?_
    · rw [hat, (atomicNext_locked fun hl => h0 (hl0.mp hl)).1, if_pos hop]
    · simp [atomicShown, shown, hpc, hat, hl0, hop]
    · refine h.of_same hinv (h.loc_update ?_) (by simp [hpc]) ?_ <;> split <;> simp [PC.atomic]
  | @failed op hpc h0 hop =>
    have hat : b.loc i = .attempt op op.entry := by rw [hloc, hpc]; rfl
    refine hone .run .outside b.sh ?_ ?_ ?_
    · rw [hat, (atomicNext_locked fun hl => h0 (hl0.mp hl)).1, if_neg (by simp [hop])]
    · have hentry : op.entry ≠ .wait .simple := by cases op <;> simp [Macro.entry]
      simp [atomicShown, shown, hpc, hat, hl0, hop, hentry]
    · exact h.of_same hinv (h.loc_update rfl) (by simp [hpc]) (by simp)
  | sleep hpc h2 =>
    refine hstay (by simp [shown, hpc]) ?_
    exact h.of_same hinv (h.loc_stay (by rw [hpc]; rfl)) (by simp [hpc]) (by simp)
  | again hpc h2 =>
    refine hstay (by simp [shown, hpc]) ?_
    exact h.of_same hinv (h.loc_stay (by rw [hpc]; rfl)) (by simp [hpc]) (by simp)
  | woken hpc hq =>
    refine hstay (by simp [shown, hpc]) ?_
    exact h.of_same hinv (h.loc_stay (by rw [hpc]; rfl)) (by simp [hpc]) (by simp)
  | signal hpc =>
    refine hstay (by simp [shown]) ?_
    exact h.of_same hinv (h.loc_stay (by rw [hpc]; rfl)) (by simp [hpc]) (by simp)
  | @exchanged op hpc h0 =>
    have hat : b.loc i = .attempt op (.wait .simple) := by rw [hloc, hpc]; rfl
    refine hone .run .holding { b.sh with lock := 2 } ?_ ?_ ?_
    · rw [hat]
      exact (atomicNext_free (hl0.mpr h0)).2
    · simp [atomicShown, shown, hpc, hat, h0, hl0]
    · exact .of_word hinv (h.loc_update rfl) (.inr rfl)
  | @marked op hpc h0 =>
    have hat : b.loc i = .attempt op (.wait .simple) := by rw [hloc, hpc]; rfl
    refine hone .run (.attempt op (.wait .simple)) { b.sh with lock := 2 } ?_ ?_ ?_
    · rw [hat]
      exact (atomicNext_locked fun hl => h0 (hl0.mp hl)).2
    · simp [atomicShown, shown, hpc, hat, hl0]
    · exact .of_word hinv (h.loc_update rfl) (.inr rfl)
  | released hpc h1 =>
    refine hone .run .outside { b.sh with lock := 0 } ?_ ?_ ?_
    · simp [atomicNext, hloc, hpc, PC.atomic, pthreadMutexUnlockUsercnt, lllLockInitializer]
    · simp only [atomicShown, shown, hpc, hloc, PC.atomic]
      exact (if_pos h1).symm
    · exact .of_word hinv (h.loc_update rfl)
        (.inl (h.store_unique (by simp [hpc, PC.owns]) (by simp)))
  | releasing hpc h1 =>
    have hshown : shown ⟨c, i, .run⟩ = [] := by
      simp only [shown, hpc]
      exact if_neg h1
    refine hstay hshown ⟨hinv, h.loc_stay (by rw [hpc]; rfl), ?_, ?_⟩
    · -- the word was 2, and nobody was about to store 0
      have hown : (c.loc i).pc.owns = true := by simp [hpc, PC.owns]
      have hno : ∀ j, (c.loc j).pc ≠ .store := by
        intro j hj
        by_cases hji : j = i
        · rw [hji, hpc] at hj
          exact absurd hj (by decide)
        · have hnot := (h.inv.of_owns hown).2 j hji
          simp [hj, PC.owns] at hnot
      have h2 : b.sh.lock = 2 := by
        rw [h.word hno, h.inv.futex_eq_two hown h1]
        rfl
      exact fun _ _ => h2
    · intro hall
      exact absurd (by simp) (hall i)
  | store hpc =>
    refine hone .run .outside { b.sh with lock := 0 } ?_ ?_ ?_
    · simp [atomicNext, hloc, hpc, PC.atomic, pthreadMutexUnlockUsercnt, lllLockInitializer]
    · simp [atomicShown, shown, hpc, hloc, PC.atomic]
    · exact .of_word hinv (h.loc_update rfl)
        (.inl (h.store_unique (by simp [hpc, PC.owns]) (by simp)))
  | nobody hpc hq =>
    refine hstay (by simp [shown, hpc]) ?_
    exact h.of_same hinv (h.loc_stay (by rw [hpc]; rfl)) (by simp [hpc]) (by simp)
  | wake hpc hj =>
    refine hstay (by simp [shown]) ?_
    exact h.of_same hinv (h.loc_stay (by rw [hpc]; rfl)) (by simp [hpc]) (by simp)

/-- **The instructions refine the atomic word.** For every run of the instructions there is a run
    of the steps of the mutex operations in which the same calls, acquisitions, failures and
    releases are seen in the same order, and at whose end every thread is at the same place. -/
theorem refines_atomic_word (id : ι → ℕ) {m : MutexData} (hm : m.lock = 0)
    {tr : List (Event ι (Action ι) Local (Shared ι))} (hrun : Run system start tr d) :
    ∃ tr' e, Run (atomicSystem id) ⟨fun _ => .outside, m⟩ tr' e ∧
      observed atomicShown tr' = observed shown tr ∧ (∀ i, e.loc i = (d.loc i).pc.atomic) ∧
      (e.sh.lock = 0 ↔ d.sh.futex = 0) := by
  have hstart : Refines (start : Config ι Local (Shared ι)) ⟨fun _ => .outside, m⟩ :=
    ⟨start_inv, fun _ => rfl, fun _ h => absurd h (by simp [start]), fun _ => by simp [start, hm]⟩
  obtain ⟨tr', e, hrun', hobs, hR⟩ := (refines_simulates id).run hstart hrun fun _ _ => trivial
  exact ⟨tr', e, hrun', hobs, hR.loc, hR.lock_eq_zero⟩

theorem refines_atomic_word_sleep :
    ∃ tr' e, Run (atomicSystem fun b : Bool => if b then 2 else 1)
        ⟨fun _ => .outside, { kind := BasicKind.timed.code }⟩ tr' e ∧
      observed atomicShown tr' =
        observed shown (system.execute start sleepSchedule sleepSchedule_runs).1 ∧
      (∀ i, e.loc i =
        ((system.execute start sleepSchedule sleepSchedule_runs).2.loc i).pc.atomic) ∧
      (e.sh.lock = 0 ↔ (system.execute start sleepSchedule sleepSchedule_runs).2.sh.futex = 0) :=
  refines_atomic_word _ rfl (system.execute_run start sleepSchedule sleepSchedule_runs)

end SyncPerf.LowLevelLock
