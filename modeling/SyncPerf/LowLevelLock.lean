import SyncPerf.PthreadP
import SyncPerf.Wakeups

namespace SyncPerf.LowLevelLock

open Interleaving Wakeups

/-!
# The low-level lock

`lll_lock`, `lll_cond_lock`, `lll_trylock`, `lll_cond_trylock` and `lll_unlock` of
`lowlevellock.h`, with `__lll_lock_wait` and `__lll_unlock_wake` of `lowlevellock.S` and the futex
system calls they make.  One locked instruction, one store or one system call is a step.  The hard
part is the unlock of a word with waiters: `decl` leaves 1 behind, so that for a moment the word
of a lock that is being given up looks like one without waiters.

* `PC`, `next`, `system` — the instructions;
* `NextCase`, `next_eq_some` — what a step does;
* `Inv`, `Inv.step` — who has the lock, which words there are, and whom the sleeping threads can
  rely on;
* `run_inv` — the invariant of every run;
* `exclusive`, `no_lost_wakeup`, `can_acquire` — at most one thread has the lock, nobody sleeps
  for nothing, and no reachable state keeps a waiting thread from the lock.
-/

/-! ### Program points -/

/-- Which of the macros takes the lock. -/
inductive Macro
  | lock
  | condLock
  | trylock
  | condTrylock
  deriving DecidableEq

/-- What the compare-and-exchange writes: `LLL_LOCK_INITIALIZER_LOCKED`, or `_WAITERS`. -/
def Macro.newval : Macro → BitVec 32
  | .lock | .trylock => 1
  | .condLock | .condTrylock => 2

/-- `lll_lock` and `lll_cond_lock` go on to `__lll_lock_wait`. -/
def Macro.waits : Macro → Bool
  | .lock | .condLock => true
  | .trylock | .condTrylock => false

/-- The points: before the first instruction of an attempt, at the labels 1 and 2 of
    `__lll_lock_wait` and in the kernel, with the lock, before the `decl` of an unlock, and at the
    two steps of `__lll_unlock_wake`. -/
inductive PC
  | outside
  | cmpxchg (op : Macro)
  | futexWait (op : Macro)
  | blocked (op : Macro)
  | xchg (op : Macro)
  | holding
  | decl
  | store
  | futexWake
  deriving DecidableEq

/-- A thread: where it is, and what its last `lll_trylock` returned. -/
structure Local where
  pc : PC := .outside
  ret : BitVec 32 := 0
  deriving DecidableEq

/-- The futex word, and the threads that the kernel has queued up for it. -/
structure Shared (ι : Type) where
  futex : BitVec 32 := 0
  waiters : Finset ι := ∅

/-- What a thread does next: it calls a macro, or takes its next step; a signal ends its system
    call, and a wake-up takes a thread of the kernel's choice out of the queue. -/
inductive Action (ι : Type)
  | call (op : Macro)
  | unlock
  | run
  | signal
  | wake (j : ι)

variable {ι : Type}

/-- One step of thread `i`.  Only the thread with the lock unlocks it. -/
def next [DecidableEq ι] (i : ι) (a : Action ι) (l : Local) (s : Shared ι) :
    Option (Local × Shared ι) :=
  match a, l.pc with
  | .call op, .outside => some ({ l with pc := .cmpxchg op }, s)
  | .unlock, .holding => some ({ l with pc := .decl }, s)
  -- `lock; cmpxchgl` with 0 in `%eax`, and the test for 2 at the entry of `__lll_lock_wait`
  | .run, .cmpxchg op =>
    if s.futex = 0 then some (⟨.holding, 0⟩, { s with futex := op.newval })
    else if op.waits then
      some ({ l with pc := if s.futex = 2 then .futexWait op else .xchg op }, s)
    else some (⟨.outside, s.futex⟩, s)
  -- `FUTEX_WAIT` with the value 2; what it returns is not looked at
  | .run, .futexWait op =>
    if s.futex = 2 then some ({ l with pc := .blocked op }, { s with waiters := insert i s.waiters })
    else some ({ l with pc := .xchg op }, s)
  | .run, .blocked op => if i ∈ s.waiters then none else some ({ l with pc := .xchg op }, s)
  | .signal, .blocked op =>
    some ({ l with pc := .xchg op }, { s with waiters := s.waiters.erase i })
  -- `xchgl` with 2
  | .run, .xchg op =>
    some ({ l with pc := if s.futex = 0 then .holding else .futexWait op }, { s with futex := 2 })
  -- `lock; decl`
  | .run, .decl =>
    some ({ l with pc := if s.futex - 1 = 0 then .outside else .store },
      { s with futex := s.futex - 1 })
  -- `movl $0, (%rdi)`, then `FUTEX_WAKE` of one thread
  | .run, .store => some ({ l with pc := .futexWake }, { s with futex := 0 })
  | .run, .futexWake => if s.waiters = ∅ then some ({ l with pc := .outside }, s) else none
  | .wake j, .futexWake =>
    if j ∈ s.waiters then
      some ({ l with pc := .outside }, { s with waiters := s.waiters.erase j })
    else none
  | _, _ => none

/-- The threads on one lock word, with the futex and the signals. -/
def system [DecidableEq ι] : System ι (Action ι) Local (Shared ι) := ⟨next⟩

/-- Nobody is in the code, and the lock is free. -/
def start : Config ι Local (Shared ι) := ⟨fun _ => {}, {}⟩

/-- What a step of thread `i` does. -/
inductive NextCase [DecidableEq ι] (i : ι) (l : Local) (s : Shared ι) :
    Action ι → Local → Shared ι → Prop
  | call {op : Macro} (hpc : l.pc = .outside) :
      NextCase i l s (.call op) ⟨.cmpxchg op, l.ret⟩ s
  | unlock (hpc : l.pc = .holding) : NextCase i l s .unlock ⟨.decl, l.ret⟩ s
  | taken {op : Macro} (hpc : l.pc = .cmpxchg op) (h : s.futex = 0) :
      NextCase i l s .run ⟨.holding, 0⟩ ⟨op.newval, s.waiters⟩
  | wait {op : Macro} (hpc : l.pc = .cmpxchg op) (h : s.futex ≠ 0) (hop : op.waits = true) :
      NextCase i l s .run ⟨if s.futex = 2 then .futexWait op else .xchg op, l.ret⟩ s
  | failed {op : Macro} (hpc : l.pc = .cmpxchg op) (h : s.futex ≠ 0) (hop : op.waits = false) :
      NextCase i l s .run ⟨.outside, s.futex⟩ s
  | sleep {op : Macro} (hpc : l.pc = .futexWait op) (h : s.futex = 2) :
      NextCase i l s .run ⟨.blocked op, l.ret⟩ ⟨s.futex, insert i s.waiters⟩
  | again {op : Macro} (hpc : l.pc = .futexWait op) (h : s.futex ≠ 2) :
      NextCase i l s .run ⟨.xchg op, l.ret⟩ s
  | woken {op : Macro} (hpc : l.pc = .blocked op) (h : i ∉ s.waiters) :
      NextCase i l s .run ⟨.xchg op, l.ret⟩ s
  | signal {op : Macro} (hpc : l.pc = .blocked op) :
      NextCase i l s .signal ⟨.xchg op, l.ret⟩ ⟨s.futex, s.waiters.erase i⟩
  | exchanged {op : Macro} (hpc : l.pc = .xchg op) (h : s.futex = 0) :
      NextCase i l s .run ⟨.holding, l.ret⟩ ⟨2, s.waiters⟩
  | marked {op : Macro} (hpc : l.pc = .xchg op) (h : s.futex ≠ 0) :
      NextCase i l s .run ⟨.futexWait op, l.ret⟩ ⟨2, s.waiters⟩
  | released (hpc : l.pc = .decl) (h : s.futex - 1 = 0) :
      NextCase i l s .run ⟨.outside, l.ret⟩ ⟨0, s.waiters⟩
  | releasing (hpc : l.pc = .decl) (h : s.futex - 1 ≠ 0) :
      NextCase i l s .run ⟨.store, l.ret⟩ ⟨s.futex - 1, s.waiters⟩
  | store (hpc : l.pc = .store) : NextCase i l s .run ⟨.futexWake, l.ret⟩ ⟨0, s.waiters⟩
  | nobody (hpc : l.pc = .futexWake) (h : s.waiters = ∅) :
      NextCase i l s .run ⟨.outside, l.ret⟩ s
  | wake {j : ι} (hpc : l.pc = .futexWake) (h : j ∈ s.waiters) :
      NextCase i l s (.wake j) ⟨.outside, l.ret⟩ ⟨s.futex, s.waiters.erase j⟩

variable [DecidableEq ι]

/-- A step is one of the cases. -/
theorem next_eq_some {i : ι} {a : Action ι} {l l' : Local} {s s' : Shared ι}
    (h : next i a l s = some (l', s')) : NextCase i l s a l' s' := by
  unfold next at h
  split at h
  next hpc =>
    obtain ⟨rfl, rfl⟩ := Prod.mk.inj (Option.some.inj h)
    exact .call hpc
  next hpc =>
    obtain ⟨rfl, rfl⟩ := Prod.mk.inj (Option.some.inj h)
    exact .unlock hpc
  next op hpc =>
    split at h
    next h0 =>
      obtain ⟨rfl, rfl⟩ := Prod.mk.inj (Option.some.inj h)
      exact .taken hpc h0
    next h0 =>
      split at h
      next hop =>
        obtain ⟨rfl, rfl⟩ := Prod.mk.inj (Option.some.inj h)
        exact .wait hpc h0 hop
      next hop =>
        obtain ⟨rfl, rfl⟩ := Prod.mk.inj (Option.some.inj h)
        exact .failed hpc h0 (by simpa using hop)
  next op hpc =>
    split at h
    next h2 =>
      obtain ⟨rfl, rfl⟩ := Prod.mk.inj (Option.some.inj h)
      exact .sleep hpc h2
    next h2 =>
      obtain ⟨rfl, rfl⟩ := Prod.mk.inj (Option.some.inj h)
      exact .again hpc h2
  next op hpc =>
    split at h
    next => exact absurd h (by simp)
    next hi =>
      obtain ⟨rfl, rfl⟩ := Prod.mk.inj (Option.some.inj h)
      exact .woken hpc hi
  next op hpc =>
    obtain ⟨rfl, rfl⟩ := Prod.mk.inj (Option.some.inj h)
    exact .signal hpc
  next op hpc =>
    obtain ⟨rfl, rfl⟩ := Prod.mk.inj (Option.some.inj h)
    by_cases h0 : s.futex = 0
    · rw [if_pos h0]
      exact .exchanged hpc h0
    · rw [if_neg h0]
      exact .marked hpc h0
  next hpc =>
    obtain ⟨rfl, rfl⟩ := Prod.mk.inj (Option.some.inj h)
    by_cases h0 : s.futex - 1 = 0
    · rw [if_pos h0, h0]
      exact .released hpc h0
    · rw [if_neg h0]
      exact .releasing hpc h0
  next hpc =>
    obtain ⟨rfl, rfl⟩ := Prod.mk.inj (Option.some.inj h)
    exact .store hpc
  next hpc =>
    split at h
    next hq =>
      obtain ⟨rfl, rfl⟩ := Prod.mk.inj (Option.some.inj h)
      exact .nobody hpc hq
    next => exact absurd h (by simp)
  next j hpc =>
    split at h
    next hj =>
      obtain ⟨rfl, rfl⟩ := Prod.mk.inj (Option.some.inj h)
      exact .wake hpc hj
    next => exact absurd h (by simp)
  next => exact absurd h (by simp)

/-- And there is such a step. -/
theorem NextCase.next_eq {i : ι} {a : Action ι} {l l' : Local} {s s' : Shared ι}
    (h : NextCase i l s a l' s') : next i a l s = some (l', s') := by
  cases h <;> simp_all [next]

/-! ### The invariant -/

/-- The thread has the lock, until the word is 0 again. -/
def PC.owns : PC → Bool
  | .holding | .decl | .store => true
  | _ => false

/-- The thread is bound to put 2 into the word or to wake a thread. -/
def PC.busy : PC → Bool
  | .futexWait _ | .blocked _ | .xchg _ | .store | .futexWake => true
  | _ => false

/-- The word is 0, 1 or 2, and 0 when nobody has the lock, which is one thread at most; the queued
    threads are in `FUTEX_WAIT`, and can rely on a word of 2 or on a thread outside the queue. -/
structure Inv (c : Config ι Local (Shared ι)) : Prop where
  range : c.sh.futex = 0 ∨ c.sh.futex = 1 ∨ c.sh.futex = 2
  free : c.sh.futex = 0 ↔ ∀ i, (c.loc i).pc.owns = false
  unique : ∀ i j, (c.loc i).pc.owns = true → (c.loc j).pc.owns = true → i = j
  queued : ∀ i ∈ c.sh.waiters, ∃ op, (c.loc i).pc = .blocked op
  covered : Covered c.sh.waiters (c.sh.futex = 2) (fun l : Local => l.pc.busy = true) c.loc

omit [DecidableEq ι] in
/-- The invariant holds at first. -/
theorem start_inv : Inv (start : Config ι Local (Shared ι)) where
  range := .inl rfl
  free := by simp [start, PC.owns]
  unique := by simp [start, PC.owns]
  queued := by simp [start]
  covered := Covered.of_empty

variable {c d : Config ι Local (Shared ι)} {i : ι}

omit [DecidableEq ι] in
/-- A thread that is not in `FUTEX_WAIT` is not queued. -/
theorem Inv.not_queued (h : Inv c) (hpc : ∀ op, (c.loc i).pc ≠ .blocked op) :
    i ∉ c.sh.waiters := by
  intro hi
  obtain ⟨op, hop⟩ := h.queued i hi
  exact hpc op hop

omit [DecidableEq ι] in
/-- A thread that has the lock has it alone, and the word shows it. -/
theorem Inv.of_owns (h : Inv c) (hi : (c.loc i).pc.owns = true) :
    c.sh.futex ≠ 0 ∧ ∀ j, j ≠ i → (c.loc j).pc.owns = false := by
  constructor
  · intro h0
    rw [h.free.mp h0 i] at hi
    exact absurd hi (by decide)
  · intro j hj
    by_contra hown
    exact hj (h.unique j i (by simpa using hown) hi)

omit [DecidableEq ι] in
/-- The word of a thread whose decrement does not give 0. -/
theorem Inv.futex_eq_two (h : Inv c) (hi : (c.loc i).pc.owns = true) (h1 : c.sh.futex - 1 ≠ 0) :
    c.sh.futex = 2 := by
  rcases h.range with h0 | h0 | h0
  · exact absurd h0 (h.of_owns hi).1
  · rw [h0] at h1
    exact absurd h1 (by decide)
  · exact h0

/-- The queued threads are still in `FUTEX_WAIT` when none but the stepping thread moved. -/
theorem Inv.queued_update (h : Inv c) {l : Local} {q : Finset ι}
    (hq : ∀ j ∈ q, j ≠ i → j ∈ c.sh.waiters) (hi : i ∈ q → ∃ op, l.pc = .blocked op) :
    ∀ j ∈ q, ∃ op, (Function.update c.loc i l j).pc = .blocked op := by
  intro j hj
  by_cases hji : j = i
  · subst hji
    rw [Function.update_self]
    exact hi hj
  · rw [Function.update_of_ne hji]
    exact h.queued j (hq j hj hji)

/-- A step that does not touch the word, with a thread that has the lock before and after, or
    neither before nor after. -/
theorem Inv.same_word (h : Inv c) {l : Local} {q : Finset ι}
    (hown : l.pc.owns = (c.loc i).pc.owns)
    (hq : ∀ j ∈ q, j ≠ i → j ∈ c.sh.waiters) (hi : i ∈ q → ∃ op, l.pc = .blocked op)
    (hcov : Covered q (c.sh.futex = 2) (fun l : Local => l.pc.busy = true)
      (Function.update c.loc i l)) :
    Inv ⟨Function.update c.loc i l, ⟨c.sh.futex, q⟩⟩ := by
  have hsame : ∀ j, (Function.update c.loc i l j).pc.owns = (c.loc j).pc.owns := by
    intro j
    by_cases hji : j = i
    · rw [hji, Function.update_self, hown]
    · rw [Function.update_of_ne hji]
  refine ⟨h.range, ?_, ?_, h.queued_update hq hi, hcov⟩
  · simp only [hsame]
    exact h.free
  · simp only [hsame]
    exact h.unique

/-- A thread without the lock leaves a nonzero word behind: it has taken the lock when the word was
    0, and otherwise it has only put one nonzero value for another. -/
theorem Inv.nonzero_word (h : Inv c) (hpc : (c.loc i).pc.owns = false)
    (hblk : ∀ op, (c.loc i).pc ≠ .blocked op) {l : Local} {v : BitVec 32}
    (hown : l.pc.owns = decide (c.sh.futex = 0)) (hv : v = 1 ∨ v = 2)
    (hcov : Covered c.sh.waiters (v = 2) (fun l : Local => l.pc.busy = true)
      (Function.update c.loc i l)) :
    Inv ⟨Function.update c.loc i l, ⟨v, c.sh.waiters⟩⟩ := by
  have hv0 : v ≠ 0 := by rcases hv with rfl | rfl <;> decide
  refine ⟨.inr hv, iff_of_false hv0 fun hall => ?_, ?_,
    h.queued_update (fun j hj _ => hj) (fun hi => absurd hi (h.not_queued hblk)), hcov⟩
  · -- the stepping thread has the lock now, or another one has had it all along
    by_cases h0 : c.sh.futex = 0
    · have hi : (Function.update c.loc i l i).pc.owns = false := hall i
      rw [Function.update_self, hown, decide_eq_true h0] at hi
      exact absurd hi (by decide)
    · refine h0 (h.free.mpr fun j => ?_)
      by_cases hji : j = i
      · rw [hji]
        exact hpc
      · have hj : (Function.update c.loc i l j).pc.owns = false := hall j
        rwa [Function.update_of_ne hji] at hj
  · refine unique_update (P := fun l : Local => l.pc.owns = true) h.unique fun hl => ?_
    rw [hown, decide_eq_true_eq] at hl
    exact .inr fun j => by simp [h.free.mp hl j]

/-- The thread with the lock gives it up, or has yet to put 0 into the word. -/
theorem Inv.own_word (h : Inv c) (hpc : (c.loc i).pc.owns = true) {l : Local} {v : BitVec 32}
    (hown : l.pc.owns = decide (v ≠ 0)) (hv : v = 0 ∨ v = 1)
    (hcov : Covered c.sh.waiters (v = 2) (fun l : Local => l.pc.busy = true)
      (Function.update c.loc i l)) :
    Inv ⟨Function.update c.loc i l, ⟨v, c.sh.waiters⟩⟩ := by
  have hblk : ∀ op, (c.loc i).pc ≠ .blocked op := by
    intro op hop
    simp [hop, PC.owns] at hpc
  refine ⟨hv.imp_right .inl, ⟨fun h0 => ?_, fun hall => ?_⟩, ?_,
    h.queued_update (fun j hj _ => hj) (fun hi => absurd hi (h.not_queued hblk)), hcov⟩
  · refine forall_update (P := fun _ (l : Local) => l.pc.owns = false) ?_ (h.of_owns hpc).2
    rw [hown]
    exact decide_eq_false (not_not.mpr h0)
  · have hi : (Function.update c.loc i l i).pc.owns = false := hall i
    rw [Function.update_self, hown] at hi
    exact not_not.mp (of_decide_eq_false hi)
  · exact unique_update (P := fun l : Local => l.pc.owns = true) h.unique fun _ => .inl hpc

/-- **Every instruction keeps the invariant.** -/
theorem Inv.step {a : Action ι} (h : Inv c) (hstep : system.step c i a = some d) : Inv d := by
  obtain ⟨l, s, hnext, rfl⟩ := System.step_eq_some.mp hstep
  have hstay : ∀ {l : Local}, (∀ op, (c.loc i).pc ≠ .blocked op) →
      l.pc.owns = (c.loc i).pc.owns →
      Covered c.sh.waiters (c.sh.futex = 2) (fun l : Local => l.pc.busy = true)
        (Function.update c.loc i l) → Inv ⟨Function.update c.loc i l, c.sh⟩ :=
    fun hblk hown hcov => h.same_word hown (fun j hj _ => hj)
      (fun hi => absurd hi (h.not_queued hblk)) hcov
  cases next_eq_some hnext with
  | call hpc =>
    exact hstay (by simp [hpc]) (by simp [hpc, PC.owns])
      (h.covered.keep id (by simp [hpc, PC.busy]))
  | unlock hpc =>
    exact hstay (by simp [hpc]) (by simp [hpc, PC.owns])
      (h.covered.keep id (by simp [hpc, PC.busy]))
  | @taken op hpc h0 =>
    refine h.nonzero_word (by simp [hpc, PC.owns]) (by simp [hpc]) (decide_eq_true h0).symm
      (by cases op <;> decide) (h.covered.keep (fun h2 => ?_) (by simp [hpc, PC.busy]))
    rw [h0] at h2
    exact absurd h2 (by decide)
  | @wait op hpc h0 hop =>
    have hq := h.not_queued (i := i) (by simp [hpc])
    refine hstay (by simp [hpc]) ?_ (Covered.of_busy ?_ hq) <;> split <;>
      simp [hpc, PC.owns, PC.busy]
  | failed hpc h0 hop =>
    exact hstay (by simp [hpc]) (by simp [hpc, PC.owns])
      (h.covered.keep id (by simp [hpc, PC.busy]))
  | sleep hpc h2 =>
    exact h.same_word (by simp [hpc, PC.owns])
      (fun j hj hji => Finset.mem_of_mem_insert_of_ne hj hji) (fun _ => ⟨_, rfl⟩)
      (Covered.of_marked h2)
  | again hpc h2 =>
    have hq := h.not_queued (i := i) (by simp [hpc])
    exact hstay (by simp [hpc]) (by simp [hpc, PC.owns]) (Covered.of_busy rfl hq)
  | woken hpc hq =>
    exact h.same_word (by simp [hpc, PC.owns]) (fun j hj _ => hj) (fun hi => absurd hi hq)
      (Covered.of_busy rfl hq)
  | signal hpc =>
    have hq := Finset.notMem_erase i c.sh.waiters
    exact h.same_word (by simp [hpc, PC.owns]) (fun j hj _ => Finset.mem_of_mem_erase hj)
      (fun hi => absurd hi hq) (Covered.of_busy rfl hq)
  | exchanged hpc h0 =>
    exact h.nonzero_word (by simp [hpc, PC.owns]) (by simp [hpc]) (decide_eq_true h0).symm
      (.inr rfl) (Covered.of_marked rfl)
  | marked hpc h0 =>
    exact h.nonzero_word (by simp [hpc, PC.owns]) (by simp [hpc]) (decide_eq_false h0).symm
      (.inr rfl) (Covered.of_marked rfl)
  | released hpc h1 =>
    -- the word was 1, so that nobody relied on it
    refine h.own_word (by simp [hpc, PC.owns]) (by simp [PC.owns]) (.inl rfl)
      (h.covered.keep (fun h2 => ?_) (by simp [hpc, PC.busy]))
    rw [h2] at h1
    exact absurd h1 (by decide)
  | releasing hpc h1 =>
    have hq := h.not_queued (i := i) (by simp [hpc])
    have hown : (c.loc i).pc.owns = true := by simp [hpc, PC.owns]
    have h2 : c.sh.futex - 1 = 1 := by
      rw [h.futex_eq_two hown h1]
      decide
    exact h.own_word hown (decide_eq_true h1).symm (.inr h2) (Covered.of_busy rfl hq)
  | store hpc =>
    have hq := h.not_queued (i := i) (by simp [hpc])
    exact h.own_word (by simp [hpc, PC.owns]) (by simp [PC.owns]) (.inl rfl)
      (Covered.of_busy rfl hq)
  | nobody hpc hq =>
    refine hstay (by simp [hpc]) (by simp [hpc, PC.owns]) ?_
    rw [hq]
    exact Covered.of_empty
  | @wake j hpc hj =>
    obtain ⟨op, hop⟩ := h.queued j hj
    have hji : j ≠ i := by
      rintro rfl
      rw [hpc] at hop
      exact absurd hop (by simp)
    exact h.same_word (by simp [hpc, PC.owns]) (fun k hk _ => Finset.mem_of_mem_erase hk)
      (fun hi => absurd (Finset.mem_of_mem_erase hi) (h.not_queued (by simp [hpc])))
      (Covered.wake (by simp [hop, PC.busy]) hji)

/-- The invariant holds in every run. -/
theorem run_inv {tr : List (Event ι (Action ι) Local (Shared ι))}
    (hrun : Run system start tr d) : Inv d :=
  hrun.invariant start_inv fun _ _ _ _ h hstep => h.step hstep

/-- One thread takes the lock, and another one goes to sleep for it. -/
def sleepSchedule : List (Bool × Action Bool) :=
  [(false, .call .lock), (false, .run), (true, .call .lock), (true, .run), (true, .run),
    (true, .run)]

/-- The schedule is one of the system. -/
theorem sleepSchedule_runs :
    ((system : System Bool _ _ _).exec start sleepSchedule).isSome := by decide

/-! ### What the lock guarantees -/

/-- The thread is in an attempt that ends with the lock. -/
def PC.waiting : PC → Bool
  | .cmpxchg op => op.waits
  | .futexWait _ | .blocked _ | .xchg _ => true
  | _ => false

/-- **Exclusion.** In every run at most one thread has the lock, and the word is 0 when nobody has
    it and 1 or 2 otherwise. -/
theorem exclusive {tr : List (Event ι (Action ι) Local (Shared ι))}
    (hrun : Run system start tr d) :
    (∀ i j, (d.loc i).pc.owns = true → (d.loc j).pc.owns = true → i = j) ∧
      (d.sh.futex = 0 ↔ ∀ i, (d.loc i).pc.owns = false) ∧
      (d.sh.futex = 0 ∨ d.sh.futex = 1 ∨ d.sh.futex = 2) :=
  ⟨(run_inv hrun).unique, (run_inv hrun).free, (run_inv hrun).range⟩

/-- The word tells that somebody has the lock. -/
theorem exclusive_sleep :
    (system.execute start sleepSchedule sleepSchedule_runs).2.sh.futex = 2 ∧
      ((system.execute start sleepSchedule sleepSchedule_runs).2.sh.futex = 0 ↔
        ∀ i, ((system.execute start sleepSchedule sleepSchedule_runs).2.loc i).pc.owns = false) :=
  ⟨by decide, (exclusive (system.execute_run start sleepSchedule sleepSchedule_runs)).2.1⟩

/-- **No wake-up is lost.** While a thread sleeps, another one has the lock with the word 2, which
    sends its unlock to `FUTEX_WAKE`, or is past the `decl` of such an unlock, or is awake in
    `__lll_lock_wait`, which it only leaves with 2 in the word.  So nobody sleeps when the others
    are outside. -/
theorem no_lost_wakeup {tr : List (Event ι (Action ι) Local (Shared ι))}
    (hrun : Run system start tr d) :
    (∀ i ∈ d.sh.waiters, ∃ j ∉ d.sh.waiters,
      (d.loc j).pc.owns = true ∧ d.sh.futex = 2 ∨ (d.loc j).pc.busy = true) ∧
      ((∀ j, j ∉ d.sh.waiters → (d.loc j).pc = .outside) → d.sh.waiters = ∅) := by
  have h := run_inv hrun
  have hcovered : ∀ i ∈ d.sh.waiters, ∃ j ∉ d.sh.waiters,
      (d.loc j).pc.owns = true ∧ d.sh.futex = 2 ∨ (d.loc j).pc.busy = true := by
    intro i hi
    rcases h.covered ⟨i, hi⟩ with h2 | ⟨j, hj, hjq⟩
    · -- a word that is not 0 has its thread, and that one is not in the queue
      have hne : ¬ ∀ j, (d.loc j).pc.owns = false := fun hall => by
        rw [h.free.mpr hall] at h2
        exact absurd h2 (by decide)
      obtain ⟨j, hj⟩ := not_forall.mp hne
      have hown : (d.loc j).pc.owns = true := by simpa using hj
      refine ⟨j, h.not_queued fun op hop => ?_, .inl ⟨hown, h2⟩⟩
      simp [hop, PC.owns] at hown
    · exact ⟨j, hjq, .inr hj⟩
  refine ⟨hcovered, fun hout => ?_⟩
  by_contra hne
  obtain ⟨i, hi⟩ := Finset.nonempty_iff_ne_empty.mpr hne
  obtain ⟨j, hjq, hj⟩ := hcovered i hi
  simp [hout j hjq, PC.owns, PC.busy] at hj

/-- One thread sleeps, and another one has the lock. -/
theorem no_lost_wakeup_sleep :
    true ∈ (system.execute start sleepSchedule sleepSchedule_runs).2.sh.waiters ∧
      ∃ j ∉ (system.execute start sleepSchedule sleepSchedule_runs).2.sh.waiters,
        ((system.execute start sleepSchedule sleepSchedule_runs).2.loc j).pc.owns = true ∧
            (system.execute start sleepSchedule sleepSchedule_runs).2.sh.futex = 2 ∨
          ((system.execute start sleepSchedule sleepSchedule_runs).2.loc j).pc.busy = true :=
  ⟨by decide, (no_lost_wakeup (system.execute_run start sleepSchedule sleepSchedule_runs)).1 true
    (by decide)⟩

/-! ### Progress -/

/-- Neither a new attempt nor a signal. -/
def Action.proper : Action ι → Bool
  | .unlock | .run | .wake _ => true
  | .call _ | .signal => false

/-- From `c`, the threads can get to `P` by finishing what they are in, and by unlocking. -/
def CanReach (c : Config ι Local (Shared ι)) (P : Config ι Local (Shared ι) → Prop) : Prop :=
  ∃ tr d, Run system c tr d ∧ (∀ x ∈ tr, x.act.proper = true) ∧ P d

/-- What holds already is reached. -/
theorem CanReach.now {P : Config ι Local (Shared ι) → Prop} (h : P c) : CanReach c P :=
  ⟨[], c, Run.refl, by simp, h⟩

/-- One step, and on from there. -/
theorem CanReach.step {P : Config ι Local (Shared ι) → Prop} {a : Action ι} {l : Local}
    {s : Shared ι} (ha : a.proper = true) (hcase : NextCase i (c.loc i) c.sh a l s)
    (h : CanReach ⟨Function.update c.loc i l, s⟩ P) : CanReach c P := by
  obtain ⟨tr, d, hrun, hact, hP⟩ := h
  have hstep : system.step c i a = some ⟨Function.update c.loc i l, s⟩ :=
    System.step_eq_some.mpr ⟨l, s, hcase.next_eq, rfl⟩
  refine ⟨⟨c, i, a⟩ :: tr, d, Run.trans (Run.snoc Run.refl hstep) hrun, ?_, hP⟩
  intro x hx
  rcases List.mem_cons.mp hx with rfl | hx
  · exact ha
  · exact hact x hx

/-- One continuation, and then another. -/
theorem CanReach.trans {P Q : Config ι Local (Shared ι) → Prop} (h : CanReach c P)
    (hPQ : ∀ d, P d → CanReach d Q) : CanReach c Q := by
  obtain ⟨tr, d, hrun, hact, hP⟩ := h
  obtain ⟨tr', e, hrun', hact', hQ⟩ := hPQ d hP
  refine ⟨tr ++ tr', e, Run.trans hrun hrun', fun x hx => ?_, hQ⟩
  exact (List.mem_append.mp hx).elim (hact x) (hact' x)

/-- What holds in every run holds where the threads can get. -/
theorem CanReach.inv {P : Config ι Local (Shared ι) → Prop} (hinv : Inv c) (h : CanReach c P) :
    CanReach c fun d => Inv d ∧ P d := by
  obtain ⟨tr, d, hrun, hact, hP⟩ := h
  exact ⟨tr, d, hrun, hact, hrun.invariant hinv (fun _ _ _ _ h hstep => h.step hstep), hP⟩

/-- The threads other than `i` are where they were, and `i` has given up the word `v`. -/
structure Unlocked (c : Config ι Local (Shared ι)) (i : ι) (v : BitVec 32)
    (d : Config ι Local (Shared ι)) : Prop where
  word : d.sh.futex = 0
  waiters : d.sh.waiters = c.sh.waiters
  others : ∀ j, j ≠ i → d.loc j = c.loc j
  wakes : v = 2 → (d.loc i).pc = .futexWake

/-- A step before the end of an unlock that wakes nobody. -/
theorem Unlocked.of_update {l : Local} {s : Shared ι} {v : BitVec 32}
    (h : Unlocked ⟨Function.update c.loc i l, s⟩ i v d) (hs : s.waiters = c.sh.waiters) :
    Unlocked c i v d where
  word := h.word
  waiters := h.waiters.trans hs
  others := fun j hj => (h.others j hj).trans (Function.update_of_ne hj ..)
  wakes := h.wakes

/-- From its store on an unlock comes to its end alone. -/
theorem store_reach {v : BitVec 32} (hpc : (c.loc i).pc = .store) :
    CanReach c (Unlocked c i v) := by
  refine .step rfl (.store hpc) (.now ?_)
  exact ⟨rfl, rfl, fun j hj => Function.update_of_ne hj .., fun _ => by simp⟩

/-- From its decrement on an unlock comes to its end alone. -/
theorem decl_reach (hinv : Inv c) (hpc : (c.loc i).pc = .decl) :
    CanReach c (Unlocked c i c.sh.futex) := by
  have hown : (c.loc i).pc.owns = true := by simp [hpc, PC.owns]
  rcases hinv.range with h0 | h1 | h2
  · exact absurd h0 (hinv.of_owns hown).1
  · refine .step rfl (.released hpc (by rw [h1]; rfl)) (.now ?_)
    exact ⟨rfl, rfl, fun j hj => Function.update_of_ne hj ..,
      fun h2 => absurd (h1.symm.trans h2) (by decide)⟩
  · refine .step rfl (.releasing hpc (by rw [h2]; decide)) ?_
    exact (store_reach (by simp)).trans fun d hd => .now (hd.of_update rfl)

/-- An unlock comes to its end, from wherever it is. -/
theorem unlock_reach (hinv : Inv c) (hown : (c.loc i).pc.owns = true) :
    CanReach c (Unlocked c i c.sh.futex) := by
  cases hpc : (c.loc i).pc with
  | holding =>
    have hcase : NextCase i (c.loc i) c.sh .unlock ⟨.decl, (c.loc i).ret⟩ c.sh := .unlock hpc
    have hinv' := hinv.step (System.step_eq_some.mpr ⟨_, _, hcase.next_eq, rfl⟩)
    refine .step rfl hcase ?_
    exact (decl_reach hinv' (by simp)).trans fun d hd => .now (hd.of_update rfl)
  | decl => exact decl_reach hinv hpc
  | store => exact store_reach hpc
  | _ => simp [hpc, PC.owns] at hown

/-- A thread that exchanges 2 for 0 has the lock. -/
theorem xchg_reach {op : Macro} (hpc : (c.loc i).pc = .xchg op) (h0 : c.sh.futex = 0) :
    CanReach c fun d => (d.loc i).pc = .holding ∧ d.sh = ⟨2, c.sh.waiters⟩ ∧
      ∀ j, j ≠ i → d.loc j = c.loc j := by
  refine .step rfl (.exchanged hpc h0) (.now ⟨?_, rfl, fun j hj => Function.update_of_ne hj ..⟩)
  simp

/-- A thread in `__lll_lock_wait` that does not sleep takes a free lock, with the word 2. -/
theorem waiter_reach (hwait : (c.loc i).pc.busy = true) (hpc : (c.loc i).pc.waiting = true)
    (hq : i ∉ c.sh.waiters) (h0 : c.sh.futex = 0) :
    CanReach c fun d => (d.loc i).pc = .holding ∧ d.sh = ⟨2, c.sh.waiters⟩ ∧
      ∀ j, j ≠ i → d.loc j = c.loc j := by
  have hgo : ∀ {l : Local} {op : Macro}, l.pc = .xchg op →
      NextCase i (c.loc i) c.sh .run l c.sh → CanReach c fun d =>
        (d.loc i).pc = .holding ∧ d.sh = ⟨2, c.sh.waiters⟩ ∧ ∀ j, j ≠ i → d.loc j = c.loc j := by
    intro l op hl hcase
    refine .step rfl hcase ?_
    have hpc' : (Function.update c.loc i l i).pc = .xchg op := by rw [Function.update_self, hl]
    refine (xchg_reach (c := ⟨Function.update c.loc i l, c.sh⟩) hpc' h0).trans fun d hd => ?_
    refine .now ⟨hd.1, hd.2.1, fun j hj => ?_⟩
    exact (hd.2.2 j hj).trans (Function.update_of_ne hj ..)
  cases hop : (c.loc i).pc with
  | futexWait op =>
    have hne : c.sh.futex ≠ 2 := by rw [h0]; decide
    exact hgo rfl (.again hop hne)
  | blocked op => exact hgo rfl (.woken hop hq)
  | xchg op => exact xchg_reach hop h0
  | _ => simp [hop, PC.busy, PC.waiting] at hwait hpc

/-- With the word 0, a thread in an attempt that does not sleep takes the lock. -/
theorem awake_reach (hpc : (c.loc i).pc.waiting = true) (hq : i ∉ c.sh.waiters)
    (h0 : c.sh.futex = 0) : CanReach c fun d => (d.loc i).pc = .holding := by
  cases hop : (c.loc i).pc with
  | cmpxchg op =>
    exact .step rfl (.taken hop h0) (.now (by simp))
  | futexWait op | blocked op | xchg op =>
    exact (waiter_reach (by simp [hop, PC.busy]) hpc hq h0).trans fun d hd => .now hd.1
  | _ => simp [hop, PC.waiting] at hpc

/-- A thread at `FUTEX_WAKE` wakes the sleeping thread `i`, which takes the lock. -/
theorem wake_reach {j : ι} (hinv : Inv c) (hj : (c.loc j).pc = .futexWake) (hi : i ∈ c.sh.waiters)
    (h0 : c.sh.futex = 0) : CanReach c fun d => (d.loc i).pc = .holding := by
  obtain ⟨op, hop⟩ := hinv.queued i hi
  have hij : i ≠ j := by
    rintro rfl
    rw [hj] at hop
    exact absurd hop (by simp)
  refine .step rfl (.wake hj hi) ?_
  refine awake_reach ?_ (Finset.notMem_erase i _) h0
  simp [Function.update_of_ne hij, hop, PC.waiting]

/-- With the word 0, a sleeping thread takes the lock: one of the threads that it relies on wakes
    it, after taking and giving up the lock itself if need be. -/
theorem asleep_reach (hinv : Inv c) (hi : i ∈ c.sh.waiters) (h0 : c.sh.futex = 0) :
    CanReach c fun d => (d.loc i).pc = .holding := by
  rcases hinv.covered ⟨i, hi⟩ with h2 | ⟨j, hj, hjq⟩
  · rw [h0] at h2
    exact absurd h2 (by decide)
  have hij : i ≠ j := by
    rintro rfl
    exact hjq hi
  have hown := hinv.free.mp h0 j
  by_cases hwake : (c.loc j).pc = .futexWake
  · exact wake_reach hinv hwake hi h0
  have hwait : (c.loc j).pc.waiting = true := by
    cases hop : (c.loc j).pc <;> simp_all [PC.busy, PC.waiting, PC.owns]
  refine ((waiter_reach hj hwait hjq h0).inv hinv).trans ?_
  rintro d ⟨hdinv, hhold, hsh, -⟩
  refine ((unlock_reach hdinv (i := j) (by simp [hhold, PC.owns])).inv hdinv).trans ?_
  rintro e ⟨heinv, he⟩
  refine wake_reach heinv (he.wakes (by rw [hsh])) ?_ he.word
  rw [he.waiters, hsh]
  exact hi

/-- **A waiting thread is never shut out.** From every state of every run in which thread `i` is in
    `lll_lock` or `lll_cond_lock`, the threads can go on so that `i` gets the lock, without a new
    attempt and without a signal. -/
theorem can_acquire {tr : List (Event ι (Action ι) Local (Shared ι))}
    (hrun : Run system start tr d) (hwait : (d.loc i).pc.waiting = true) :
    ∃ tr' e, Run system d tr' e ∧ (∀ x ∈ tr', x.act.proper = true) ∧
      (e.loc i).pc = .holding := by
  have hfree : ∀ c : Config ι Local (Shared ι), Inv c → c.sh.futex = 0 →
      (c.loc i).pc.waiting = true → CanReach c fun d => (d.loc i).pc = .holding := by
    intro c hinv h0 hpc
    by_cases hq : i ∈ c.sh.waiters
    · exact asleep_reach hinv hq h0
    · exact awake_reach hpc hq h0
  have hinv := run_inv hrun
  by_cases h0 : d.sh.futex = 0
  · exact hfree d hinv h0 hwait
  -- first the thread with the lock gives it up
  have hne : ¬ ∀ j, (d.loc j).pc.owns = false := fun hall => h0 (hinv.free.mpr hall)
  obtain ⟨j, hj⟩ := not_forall.mp hne
  have hown : (d.loc j).pc.owns = true := by simpa using hj
  refine ((unlock_reach hinv hown).inv hinv).trans ?_
  rintro e ⟨heinv, he⟩
  refine hfree e heinv he.word ?_
  have hij : i ≠ j := by
    rintro rfl
    cases hpc : (d.loc i).pc <;> simp [hpc, PC.owns, PC.waiting] at hown hwait
  rw [he.others i hij]
  exact hwait

/-- The thread that sleeps can get the lock. -/
theorem can_acquire_sleep :
    ∃ tr e, Run system (system.execute start sleepSchedule sleepSchedule_runs).2 tr e ∧
      (∀ x ∈ tr, x.act.proper = true) ∧ (e.loc true).pc = .holding :=
  can_acquire (system.execute_run start sleepSchedule sleepSchedule_runs) (by decide)

end SyncPerf.LowLevelLock
